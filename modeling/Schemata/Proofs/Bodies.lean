/-
**Other bodies for asynchronous functions.**

What an asynchronous function does when it is carried out is its body; what it announces when it is
called is not part of it.  Bodies can be exchanged wherever they stand: in a compiled operation, in
what happens to a value later, and in a task.  Operations that give their result at once have none.

Main definitions:

* `Schemata.Bodies` — what to put in the place of bodies and of waiting times;
* `Schemata.ParseOperation.withBodies`, `Schemata.Task.withBodies`, `Schemata.Staged.withBodies` —
  operations, tasks and outcomes with other bodies;
* `Schemata.machineWith`, `Schemata.Schema.stageWith` — **starting a parse with other bodies**, in
  the operation and behind references.

Main results:

* `Schemata.ParseOperation.withBodies_same`, `Schemata.Staged.withBodies_same` — the same bodies
  change nothing;
* `Schemata.Operation.run_congr` — what gives its result at once uses no other part of a machine
  than the two that do so.
-/

import Schemata.Execution.Engine

set_option relaxedAutoImplicit false
set_option autoImplicit false

namespace Schemata

/-- **What to put in the place of bodies**, by how long they wait and what they are. -/
structure Bodies where
  call : Nat → Action → Nat × Action
  check : Nat → Test → Nat × Test

/-- The bodies that are there. -/
def Bodies.same : Bodies := ⟨Prod.mk, Prod.mk⟩

/-- The function with another body. -/
def AsyncAction.withBodies (ρ : Bodies) (f : AsyncAction) : AsyncAction where
  body := (ρ.call f.waits f.body).2
  waits := (ρ.call f.waits f.body).1
  announce := f.announce

/-- The test with another body. -/
def AsyncTest.withBodies (ρ : Bodies) (test : AsyncTest) : AsyncTest where
  test := (ρ.check test.waits test.test).2
  waits := (ρ.check test.waits test.test).1

mutual

/-- **The operation with other bodies.** -/
def ParseOperation.withBodies (ρ : Bodies) : ParseOperation → ParseOperation
  | .direct op => .direct op
  | .ready op => .ready op
  | .array expected item => .array expected (item.withBodies ρ)
  | .dict expected value => .dict expected (value.withBodies ρ)
  | .tuple expected items => .tuple expected (operationsWithBodies ρ items)
  | .object expected fields policy => .object expected (fieldsWithBodies ρ fields) policy
  | .unlessNull inner => .unlessNull (inner.withBodies ρ)
  | .union members => .union (operationsWithBodies ρ members)
  | .decodeText expected inner => .decodeText expected (inner.withBodies ρ)
  | .applyAsync f => .applyAsync (f.withBodies ρ)
  | .thenApply base f => .thenApply (base.withBodies ρ) f
  | .thenApplyAsync base f => .thenApplyAsync (base.withBodies ρ) (f.withBodies ρ)
  | .applyFirst f base => .applyFirst f (base.withBodies ρ)
  | .applyAsyncFirst f base => .applyAsyncFirst (f.withBodies ρ) (base.withBodies ρ)
  | .thenCheck message test base => .thenCheck message test (base.withBodies ρ)
  | .thenCheckAsync message test base =>
      .thenCheckAsync message (test.withBodies ρ) (base.withBodies ρ)
  | .recover fallback base => .recover fallback (base.withBodies ρ)
  | .thenConstant value base => .thenConstant value (base.withBodies ρ)
  | .orSupply supply base => .orSupply supply (base.withBodies ρ)
  | .follow target => .follow target

/-- Operations with other bodies. -/
def operationsWithBodies (ρ : Bodies) : List ParseOperation → List ParseOperation
  | [] => []
  | op :: rest => op.withBodies ρ :: operationsWithBodies ρ rest

/-- The operations of fields with other bodies. -/
def fieldsWithBodies (ρ : Bodies) : List (String × ParseOperation) → List (String × ParseOperation)
  | [] => []
  | (name, op) :: rest => (name, op.withBodies ρ) :: fieldsWithBodies ρ rest

end

/-- What happens to a value, with other bodies. -/
def Continuation.withBodies (ρ : Bodies) : Continuation → Continuation
  | .applyAsync f => .applyAsync (f.withBodies ρ)
  | .parse op => .parse (op.withBodies ρ)
  | .checkAsync message test => .checkAsync message (test.withBodies ρ)
  | next => next

mutual

/-- **The task with other bodies.** -/
def Task.withBodies (ρ : Bodies) : Task → Task
  | .done r => .done r
  | .call waits f input => .call (ρ.call waits f).1 (ρ.call waits f).2 input
  | .check waits message test v =>
      .check (ρ.check waits test).1 message (ρ.check waits test).2 v
  | .andThen task next => .andThen (task.withBodies ρ) (next.withBodies ρ)
  | .inside s task => .inside s (task.withBodies ρ)
  | .recover fallback input task => .recover fallback input (task.withBodies ρ)
  | .join children assembly => .join (tasksWithBodies ρ children) assembly
  | .firstSuccess errors attempts => .firstSuccess errors (tasksWithBodies ρ attempts)

/-- Tasks with other bodies. -/
def tasksWithBodies (ρ : Bodies) : List Task → List Task
  | [] => []
  | t :: rest => t.withBodies ρ :: tasksWithBodies ρ rest

end

/-- The outcome with other bodies in what is left to do. -/
def Staged.withBodies (ρ : Bodies) : Staged → Staged
  | .ready v => .ready v
  | .pending t => .pending (t.withBodies ρ)

/-! ### The same bodies -/

mutual

theorem ParseOperation.withBodies_same : ∀ op : ParseOperation, op.withBodies .same = op
  | .direct _ | .ready _ | .applyAsync _ | .follow _ => rfl
  | .array _ op | .dict _ op | .unlessNull op | .decodeText _ op | .thenApply op _
  | .applyFirst _ op | .thenCheck _ _ op | .recover _ op | .thenConstant _ op
  | .orSupply _ op => by
      rw [ParseOperation.withBodies, ParseOperation.withBodies_same op]
  | .thenApplyAsync op _ | .applyAsyncFirst _ op | .thenCheckAsync _ _ op => by
      rw [ParseOperation.withBodies, ParseOperation.withBodies_same op]
      rfl
  | .tuple _ ops | .union ops => by rw [ParseOperation.withBodies, operationsWithBodies_same ops]
  | .object _ fields _ => by rw [ParseOperation.withBodies, fieldsWithBodies_same fields]

theorem operationsWithBodies_same : ∀ ops, operationsWithBodies .same ops = ops
  | [] => rfl
  | op :: rest => by
      rw [operationsWithBodies, ParseOperation.withBodies_same op, operationsWithBodies_same rest]

theorem fieldsWithBodies_same : ∀ fields, fieldsWithBodies .same fields = fields
  | [] => rfl
  | (name, op) :: rest => by
      rw [fieldsWithBodies, ParseOperation.withBodies_same op, fieldsWithBodies_same rest]

end

theorem Continuation.withBodies_same (next : Continuation) : next.withBodies .same = next := by
  cases next with
  | parse op => rw [withBodies, ParseOperation.withBodies_same]
  | _ => rfl

mutual

theorem Task.withBodies_same : ∀ t : Task, t.withBodies .same = t
  | .done _ | .call _ _ _ | .check _ _ _ _ => rfl
  | .andThen t next => by
      rw [Task.withBodies, Task.withBodies_same t, Continuation.withBodies_same]
  | .inside _ t | .recover _ _ t => by rw [Task.withBodies, Task.withBodies_same t]
  | .join ts _ | .firstSuccess _ ts => by rw [Task.withBodies, tasksWithBodies_same ts]

theorem tasksWithBodies_same : ∀ ts, tasksWithBodies .same ts = ts
  | [] => rfl
  | t :: rest => by rw [tasksWithBodies, Task.withBodies_same t, tasksWithBodies_same rest]

end

theorem Staged.withBodies_same (s : Staged) : s.withBodies .same = s := by
  cases s with
  | ready v => rfl
  | pending t => rw [withBodies, Task.withBodies_same]

theorem operationsWithBodies_eq_map (ρ : Bodies) (ops : List ParseOperation) :
    operationsWithBodies ρ ops = ops.map (ParseOperation.withBodies ρ) := by
  induction ops with
  | nil => rfl
  | cons op rest ih => rw [operationsWithBodies, ih, List.map_cons]

theorem fieldsWithBodies_eq_map (ρ : Bodies) (fields : List (String × ParseOperation)) :
    fieldsWithBodies ρ fields = fields.map fun f => (f.1, f.2.withBodies ρ) := by
  induction fields with
  | nil => rfl
  | cons f rest ih => rw [fieldsWithBodies, ih, List.map_cons]

theorem tasksWithBodies_eq_map (ρ : Bodies) (ts : List Task) :
    tasksWithBodies ρ ts = ts.map (Task.withBodies ρ) := by
  induction ts with
  | nil => rfl
  | cons t rest ih => rw [tasksWithBodies, ih, List.map_cons]

/-! ### Starting with other bodies -/

/-- Start to parse, the compiled operation being given other bodies first. -/
def Schema.stageOnWith (ρ : Bodies) (m : Machine) (s : Schema) : Stager := fun v => do
  ((← s.parseOperation).operation.withBodies ρ).stage m v

/-- **The machine that starts parses with other bodies**, and polls no task. -/
def machineWith (ρ : Bodies) : Nat → Machine
  | 0 => machine 0
  | fuel + 1 =>
      { parse := (machine (fuel + 1)).parse
        serialize := (machine (fuel + 1)).serialize
        stage := fun r v => do
          match (← get).target? r with
          | some s => s.stageOnWith ρ (machineWith ρ fuel) v
          | none => return .error (danglingError .parsing)
        poll := fun _ => halt .outOfFuel }

/-- **Start to parse a value with other bodies**, in the operation and behind references. -/
def Schema.stageWith (ρ : Bodies) (fuel : Nat) (s : Schema) : Stager :=
  s.stageOnWith ρ (machineWith ρ fuel)

/-! ### Operations that give their result at once -/

section

variable {m m' : Machine} (hparse : m.parse = m'.parse) (hserialize : m.serialize = m'.serialize)

include hparse hserialize

theorem Action.run_congr : ∀ f : Action, f.run m = f.run m'
  | .compute _ | .log _ => rfl
  | .andThen first second => by
      funext v
      rw [Action.run, Action.run, Action.run_congr first, Action.run_congr second]
  | .choose _ yes no => by
      funext v
      rw [Action.run, Action.run, Action.run_congr yes, Action.run_congr no]
  | .parseWith _ => by
      funext v
      rw [Action.run, Action.run, hparse]
  | .serializeWith _ => by
      funext v
      rw [Action.run, Action.run, hserialize]

theorem Action.runAs_congr (f : Action) (direction : Direction) :
    f.runAs m direction = f.runAs m' direction := by
  funext v
  rw [Action.runAs, Action.runAs, Action.run_congr hparse hserialize f]

end

section

variable {m m' : Machine}

mutual

/-- **What gives its result at once** uses no other part of a machine than the two that do so. -/
theorem Operation.run_congr (hparse : m.parse = m'.parse)
    (hserialize : m.serialize = m'.serialize) :
    ∀ op : Operation, op.run m = op.run m'
  | .noop | .fail _ | .scalar _ _ _ | .literal _ _ => by
      funext v
      simp only [Operation.run]
  | .array _ _ op | .dict _ _ op | .unlessNull op | .decodeText _ op | .encodeText op
  | .thenCheck _ _ op | .checkFirst _ _ op | .recover _ op | .thenConstant _ op
  | .exchange _ _ op | .orSupply _ op => by
      funext v
      simp only [Operation.run, Operation.run_congr hparse hserialize op]
  | .apply _ f => by
      funext v
      simp only [Operation.run, Action.runAs_congr hparse hserialize f]
  | .thenApply _ op f | .applyFirst _ f op => by
      funext v
      simp only [Operation.run, Operation.run_congr hparse hserialize op,
        Action.runAs_congr hparse hserialize f]
  | .tuple _ _ ops | .parseUnion ops _ | .serializeUnion ops _ => by
      funext v
      simp only [Operation.run, runners_congr hparse hserialize ops]
  | .parseObject _ fields _ | .serializeObject _ fields _ => by
      funext v
      simp only [Operation.run, fieldRunners_congr hparse hserialize fields]
  | .follow .parsing _ => by
      funext v
      simp only [Operation.run, hparse]
  | .follow .serializing _ => by
      funext v
      simp only [Operation.run, hserialize]

theorem runners_congr (hparse : m.parse = m'.parse) (hserialize : m.serialize = m'.serialize) :
    ∀ ops : List Operation, runners m ops = runners m' ops
  | [] => rfl
  | op :: rest => by
      rw [runners, runners, Operation.run_congr hparse hserialize op,
        runners_congr hparse hserialize rest]

theorem fieldRunners_congr (hparse : m.parse = m'.parse) (hserialize : m.serialize = m'.serialize) :
    ∀ fields : List (String × Operation), fieldRunners m fields = fieldRunners m' fields
  | [] => rfl
  | (name, op) :: rest => by
      rw [fieldRunners, fieldRunners, Operation.run_congr hparse hserialize op,
        fieldRunners_congr hparse hserialize rest]

end

end

end Schemata
