/-
**Futures and their ledger.**

Calling an asynchronous function creates a future, which is carried out when it has been polled
often enough.  In a task a future is a leaf, and nothing tells two leaves apart that wait with the
same function for the same value.  Here every future gets a number when it is created, and a ledger
is kept of all that happens to futures: how many there are, which have been polled, and which have
been carried out.

Numbers and ledger are ghosts: starting and polling with them is what starting and polling are, with
something written alongside.

Main definitions:

* `Schemata.Ledger`, `Schemata.Ledgered` — what has happened to futures, and computations that keep
  account of it;
* `Schemata.Numbered.Task`, `Schemata.Numbered.Staged`, `Schemata.Numbered.Poll` — tasks and
  outcomes whose futures have numbers;
* `Schemata.Numbered.stage`, `Schemata.Numbered.poll` — starting and polling, with numbers;
* `Schemata.Erases` — **without its ghosts one computation is another one**.

Main results:

* `Schemata.Erases.bind`, `Schemata.Erases.ghost` — ghosts are erased part by part.
-/

import Schemata.Proofs.Steadiness

set_option relaxedAutoImplicit false
set_option autoImplicit false

namespace Schemata

/-! ### The ledger -/

/-- **What has happened to futures**: how many have been created, and the numbers of those that have
been polled and carried out, the latest first. -/
structure Ledger where
  created : Nat
  polled : List Nat
  driven : List Nat

/-- The ledger before anything has happened. -/
def Ledger.empty : Ledger := ⟨0, [], []⟩

/-- Computations that keep a ledger. -/
abbrev Ledgered := StateT Ledger Run

/-- A computation that has nothing to do with futures. -/
def aside {α : Type} (c : Run α) : Ledgered α := StateT.lift c

namespace Ledger

/-- A new future, by its number. -/
def create : Ledgered Nat := do
  let l ← get
  set { l with created := l.created + 1 }
  return l.created

/-- A future is polled. -/
def poll (number : Nat) : Ledgered Unit :=
  modify fun l => { l with polled := number :: l.polled }

/-- A future is carried out. -/
def drive (number : Nat) : Ledgered Unit :=
  modify fun l => { l with driven := number :: l.driven }

end Ledger

namespace Numbered

/-! ### Tasks with numbers -/

/-- A task whose futures have numbers. -/
inductive Task where
  | done (result : Result)
  | call (number waits : Nat) (f : Action) (input : Value)
  | check (number waits : Nat) (message : String) (test : Test) (value : Value)
  | andThen (task : Task) (next : Continuation)
  | inside (segment : Segment) (task : Task)
  | recover (fallback : Fallback) (input : Value) (task : Task)
  | join (children : List Task) (assembly : Assembly)
  | firstSuccess (errors : List Error) (attempts : List Task)

mutual

/-- The task without the numbers. -/
def Task.plain : Task → Schemata.Task
  | .done r => .done r
  | .call _ waits f input => .call waits f input
  | .check _ waits message test v => .check waits message test v
  | .andThen task next => .andThen task.plain next
  | .inside s task => .inside s task.plain
  | .recover fallback input task => .recover fallback input task.plain
  | .join children assembly => .join (plainTasks children) assembly
  | .firstSuccess errors attempts => .firstSuccess errors (plainTasks attempts)

/-- Tasks without the numbers. -/
def plainTasks : List Task → List Schemata.Task
  | [] => []
  | t :: rest => t.plain :: plainTasks rest

end

mutual

/-- **The numbers of the futures in a task.** -/
def Task.futures : Task → List Nat
  | .done _ => []
  | .call number _ _ _ => [number]
  | .check number _ _ _ _ => [number]
  | .andThen task _ => task.futures
  | .inside _ task => task.futures
  | .recover _ _ task => task.futures
  | .join children _ => futuresOf children
  | .firstSuccess _ attempts => futuresOf attempts

/-- The numbers of the futures in several tasks. -/
def futuresOf : List Task → List Nat
  | [] => []
  | t :: rest => t.futures ++ futuresOf rest

end

/-- The outcome of starting a parse. -/
inductive Staged where
  | ready (value : Value)
  | pending (task : Task)

namespace Staged

/-- The outcome without the numbers. -/
def plain : Staged → Schemata.Staged
  | .ready v => .ready v
  | .pending t => .pending t.plain

/-- What is left to do, as a task. -/
def toTask : Staged → Task
  | .ready v => .done (.ok v)
  | .pending t => t

/-- The numbers of the futures that are left. -/
def futures (s : Staged) : List Nat := s.toTask.futures

/-- The outcome with errors that are still to come moved one level further out. -/
def inside (s : Segment) : Staged → Staged
  | .ready v => .ready v
  | .pending t => .pending (.inside s t)

end Staged

/-- The outcome of polling a task. -/
inductive Poll where
  | ready (result : Result)
  | pending (task : Task)

namespace Poll

/-- The outcome without the numbers. -/
def plain : Poll → Schemata.Poll
  | .ready r => .ready r
  | .pending t => .pending t.plain

/-- The task after it has been polled. -/
def toTask : Poll → Task
  | .ready r => .done r
  | .pending t => t

/-- The numbers of the futures that are left. -/
def futures (p : Poll) : List Nat := p.toTask.futures

end Poll

/-- The start of a parse as a function. -/
abbrev Stager := Value → Ledgered (Except Error Staged)

/-- What references and late parses do; what gives its result at once is left to a plain machine. -/
structure Machine where
  base : Schemata.Machine
  stage : Reference → Stager
  poll : Task → Ledgered Poll

/-! ### Starting -/

/-- Call an asynchronous function: a future is created. -/
def start (f : AsyncAction) (v : Value) : Ledgered Task := do
  aside (noteIf f.announce v)
  return .call (← Ledger.create) f.waits f.body v

/-- Do something with the outcome of a base, unless it failed. -/
def afterStage (base : Ledgered (Except Error Staged))
    (next : Staged → Ledgered (Except Error Staged)) : Ledgered (Except Error Staged) := do
  match ← base with
  | .error e => return .error e
  | .ok staged => next staged

/-- What is done to the value of a base that may have left a task: at once or later. -/
def andThen (staged : Staged) (next : Continuation) (now : Value → Run Result) :
    Ledgered (Except Error Staged) := do
  match staged with
  | .ready v =>
      match ← aside (now v) with
      | .ok a => return .ok (.ready a)
      | .error e => return .error e
  | .pending t => return .ok (.pending (.andThen t next))

/-- A result as the outcome of a parse with nothing left to do. -/
def ofResult : Result → Except Error Staged
  | .ok v => .ok (.ready v)
  | .error e => .error e

/-- The outcomes of starting children in order; the first failure ends it, moved into its child. -/
def stageEach : List (Segment × Ledgered (Except Error Staged)) →
    Ledgered (Except Error (List Staged))
  | [] => return .ok []
  | (s, child) :: rest => do
      match ← child with
      | .error e => return .error (e.prepend s)
      | .ok staged =>
          match ← stageEach rest with
          | .error e => return .error e
          | .ok others => return .ok (staged.inside s :: others)

/-- The outcomes of starting fields in order, with the entries that are left. -/
def stageFields : List (String × Stager) → List (String × Value) →
    Ledgered (Except Error (List Staged × List (String × Value)))
  | [], entries => return .ok ([], entries)
  | (name, field) :: rest, entries => do
      match ← field ((Entries.find? name entries).getD .null) with
      | .error e => return .error (e.prepend (.key name))
      | .ok staged =>
          match ← stageFields rest (Entries.remove name entries) with
          | .error e => return .error e
          | .ok (others, left) => return .ok (staged.inside (.key name) :: others, left)

/-- Children put together: at once when nothing is left to do, and otherwise as a task. -/
def assemble (assembly : Assembly) (children : List Staged) : Staged :=
  match readyValues? (children.map Staged.plain) with
  | some values => .ready (assembly.build values)
  | none => .pending (.join (children.map Staged.toTask) assembly)

/-- The children of a composite put together. -/
def assembled (assembly : Assembly) : Except Error (List Staged) → Except Error Staged
  | .ok children => .ok (assemble assembly children)
  | .error e => .error e

/-- The outcomes of starting union members in order, up to the first that has its value. -/
def stageMembers (v : Value) : List Stager → Ledgered (List (Except Error Staged))
  | [] => return []
  | member :: rest => do
      match ← member v with
      | .ok (.ready a) => return [.ok (.ready a)]
      | outcome => return outcome :: (← stageMembers v rest)

/-- The outcome of a member as a task. -/
def outcomeTask : Except Error Staged → Task
  | .ok staged => staged.toTask
  | .error e => .done (.error e)

/-- The outcome of a member without the numbers. -/
def plainOutcome : Except Error Staged → Except Error Schemata.Staged
  | .ok staged => .ok staged.plain
  | .error e => .error e

/-- The outcomes of members as one outcome. -/
def resolveMembers (outcomes : List (Except Error Staged)) : Except Error Staged :=
  match readyAfterErrors? (outcomes.map plainOutcome) with
  | some v => .ok (.ready v)
  | none =>
      match allErrors? (outcomes.map plainOutcome) with
      | some errors => .error (Error.atRoot (.invalidUnion errors) .parsing)
      | none => .ok (.pending (.firstSuccess [] (outcomes.map outcomeTask)))

mutual

/-- **The outcome of starting to parse a value**, with numbers. -/
def stage (m : Machine) : ParseOperation → Stager
  | .direct op, v => do return ofResult (← aside (op.run m.base v))
  | .ready op, v => do return ofResult (← aside (op.run m.base v))
  | .array expected item, v =>
      match v with
      | .array items => do
          return assembled .array (← stageEach (indexed (items.map (stage m item))))
      | v => return .error (Error.invalidType .parsing expected.get v)
  | .dict expected value, v =>
      match v with
      | .object entries => do
          let outcomes ← stageEach (keyed (entries.map fun e => (e.1, stage m value e.2)))
          return assembled (.object (Entries.keys entries)) outcomes
      | v => return .error (Error.invalidType .parsing expected.get v)
  | .tuple expected items, v =>
      match v with
      | .array values =>
          match sizeError? .parsing items.length values.length with
          | some e => return .error e
          | none => do
              let children := (stagers m items).zipWith (fun stage v => stage v) values
              return assembled .array (← stageEach (indexed children))
      | v => return .error (Error.invalidType .parsing expected.get v)
  | .object expected fields policy, v =>
      match v with
      | .object entries => do
          match ← stageFields (fieldStagers m fields) entries with
          | .error e => return .error e
          | .ok (children, left) =>
              match excessError? policy left with
              | some e => return .error e
              | none => return .ok (assemble (.object (Entries.keys fields)) children)
      | v => return .error (Error.invalidType .parsing expected.get v)
  | .unlessNull inner, v =>
      match v with
      | .null => return .ok (.ready .null)
      | v => stage m inner v
  | .union members, v => do return resolveMembers (← stageMembers v (stagers m members))
  | .decodeText expected inner, v =>
      match decodeDocument expected v with
      | .error e => return .error e
      | .ok a => stage m inner a
  | .applyAsync f, v => do return .ok (.pending (← start f v))
  | .thenApply base f, v =>
      afterStage (stage m base v) fun staged =>
        andThen staged (.apply f) (f.runAs m.base .parsing)
  | .thenApplyAsync base f, v =>
      afterStage (stage m base v) fun staged => do
        match staged with
        | .ready a => return .ok (.pending (← start f a))
        | .pending t => return .ok (.pending (.andThen t (.applyAsync f)))
  | .applyFirst f base, v => do
      match ← aside (f.runAs m.base .parsing v) with
      | .error e => return .error e
      | .ok a => stage m base a
  | .applyAsyncFirst f base, v => do
      return .ok (.pending (.andThen (← start f v) (.parse base)))
  | .thenCheck message test base, v =>
      afterStage (stage m base v) fun staged =>
        andThen staged (.check message test) (checked .parsing message test)
  | .thenCheckAsync message test base, v =>
      afterStage (stage m base v) fun staged =>
        return .ok (.pending (.andThen staged.toTask (.checkAsync message test)))
  | .recover fallback base, v => do
      match ← stage m base v with
      | .error e => return .ok (.ready (fallback e v))
      | .ok (.ready a) => return .ok (.ready a)
      | .ok (.pending t) => return .ok (.pending (.recover fallback v t))
  | .thenConstant value base, v =>
      afterStage (stage m base v) fun staged =>
        andThen staged (.constant value) fun _ => return .ok value
  | .orSupply supply base, v =>
      afterStage (stage m base v) fun staged =>
        andThen staged (.orSupply supply) fun a => return .ok (← supply.orElse a)
  | .follow r, v => m.stage r v

/-- Parse operations as functions. -/
def stagers (m : Machine) : List ParseOperation → List Stager
  | [] => []
  | op :: rest => stage m op :: stagers m rest

/-- The parse operations of fields as functions. -/
def fieldStagers (m : Machine) : List (String × ParseOperation) → List (String × Stager)
  | [] => []
  | (name, op) :: rest => (name, stage m op) :: fieldStagers m rest

end

/-! ### Polling -/

/-- Poll a called function: it is carried out once it has waited. -/
def pollCall (m : Machine) (number waits : Nat) (f : Action) (input : Value) : Ledgered Poll := do
  Ledger.poll number
  match waits with
  | waits + 1 => return .pending (.call number waits f input)
  | 0 =>
      Ledger.drive number
      return .ready (← aside (f.runAs m.base .parsing input))

/-- Poll a test: it is made once it has waited. -/
def pollCheck (number waits : Nat) (message : String) (test : Test) (v : Value) :
    Ledgered Poll := do
  Ledger.poll number
  match waits with
  | waits + 1 => return .pending (.check number waits message test v)
  | 0 =>
      Ledger.drive number
      return .ready (← aside (checked .parsing message test v))

/-- What happens when a task has its value, up to the next wait. -/
def resume (m : Machine) : Continuation → Value → Ledgered Poll
  | .apply f, v => do return .ready (← aside (f.runAs m.base .parsing v))
  | .applyAsync f, v => do
      aside (noteIf f.announce v)
      pollCall m (← Ledger.create) f.waits f.body v
  | .parse op, v => do
      match ← stage m op v with
      | .error e => return .ready (.error e)
      | .ok (.ready a) => return .ready (.ok a)
      | .ok (.pending t) => m.poll t
  | .check message test, v => do return .ready (← aside (checked .parsing message test v))
  | .checkAsync message test, v => do
      pollCheck (← Ledger.create) test.waits message test.test v
  | .constant value, _ => return .ready (.ok value)
  | .orSupply supply, v => do return .ready (.ok (← aside (supply.orElse v)))

mutual

/-- **One poll of a task**, with numbers. -/
def poll (m : Machine) : Task → Ledgered Poll
  | .done r => return .ready r
  | .call number waits f input => pollCall m number waits f input
  | .check number waits message test v => pollCheck number waits message test v
  | .andThen task next => do
      match ← poll m task with
      | .pending t => return .pending (.andThen t next)
      | .ready (.error e) => return .ready (.error e)
      | .ready (.ok v) => resume m next v
  | .inside s task => do
      match ← poll m task with
      | .pending t => return .pending (.inside s t)
      | .ready (.error e) => return .ready (.error (e.prepend s))
      | .ready (.ok v) => return .ready (.ok v)
  | .recover fallback input task => do
      match ← poll m task with
      | .pending t => return .pending (.recover fallback input t)
      | .ready (.error e) => return .ready (.ok (fallback e input))
      | .ready (.ok v) => return .ready (.ok v)
  | .join children assembly => do
      let polls ← pollEach m children
      match finished? (polls.map Poll.plain) with
      | some results => return .ready (collect assembly.build (sequenceResults results))
      | none => return .pending (.join (polls.map Poll.toTask) assembly)
  | .firstSuccess errors attempts => pollAttempts m errors attempts

/-- One poll of each child. -/
def pollEach (m : Machine) : List Task → Ledgered (List Poll)
  | [] => return []
  | t :: rest => do
      let p ← poll m t
      return p :: (← pollEach m rest)

/-- Polls of attempts in order, after errors of earlier ones, up to the first that waits or
succeeds. -/
def pollAttempts (m : Machine) (errors : List Error) : List Task → Ledgered Poll
  | [] => return .ready (.error (Error.atRoot (.invalidUnion errors) .parsing))
  | t :: rest => do
      match ← poll m t with
      | .pending t => return .pending (.firstSuccess errors (t :: rest))
      | .ready (.ok v) => return .ready (.ok v)
      | .ready (.error e) => pollAttempts m (errors ++ [e]) rest

end

/-! ### The machine -/

/-- A schema as the start of a parse. -/
def stageOn (m : Machine) (s : Schema) : Stager := fun v => do
  stage m (← aside s.parseOperation).operation v

/-- The machine that follows at most `fuel` references on one way. -/
def machine : Nat → Machine
  | 0 =>
      { base := Schemata.machine 0
        stage := fun _ _ => aside (halt .outOfFuel)
        poll := fun _ => aside (halt .outOfFuel) }
  | fuel + 1 =>
      { base := Schemata.machine (fuel + 1)
        stage := fun r v => do
          match (← aside get).target? r with
          | some s => stageOn (machine fuel) s v
          | none => return .error (danglingError .parsing)
        poll := fun t => poll (machine fuel) t }

end Numbered

/-- **Start to parse a value**, with numbers. -/
def Schema.stageNumbered (fuel : Nat) (s : Schema) : Numbered.Stager :=
  Numbered.stageOn (Numbered.machine fuel) s

/-! ### Erasing -/

/-- **Without its ledger one computation is another one**, its results being taken for others. -/
def Erases {α β : Type} (ε : α → β) (g : Ledgered α) (c : Run β) : Prop :=
  ∀ l, (fun p => ε p.1) <$> g l = c

namespace Erases

variable {α β γ δ : Type} {ε : α → β} {ε' : γ → δ} {g : Ledgered α} {c : Run β}

theorem pure {a : α} {b : β} (h : ε a = b) : Erases ε (pure a) (pure b) := by
  intro l
  rw [← h]
  rfl

theorem aside (c : Run α) : Erases (fun a => a) (aside c) c := by
  intro l
  change (fun p : α × Ledger => p.1) <$> (c >>= fun a => Pure.pure (a, l)) = c
  simp

theorem halt (e : Halt) : Erases ε (Schemata.aside (Schemata.halt e)) (Schemata.halt e) :=
  fun _ => rfl

/-- **Part by part.** -/
theorem bind {f : α → Ledgered γ} {f' : β → Run δ} (h : Erases ε g c)
    (hf : ∀ a, Erases ε' (f a) (f' (ε a))) : Erases ε' (g >>= f) (c >>= f') := by
  intro l
  change (fun p => ε' p.1) <$> (g l >>= fun p => f p.1 p.2) = c >>= f'
  rw [map_bind, ← h l, bind_map_left]
  exact congrArg _ (funext fun p => hf p.1 p.2)

/-- A ghost that is written alongside. -/
theorem ghost {u : Ledgered Unit} {f : Unit → Ledgered α}
    (hu : Erases (fun a => a) u (Pure.pure ())) (h : Erases ε (f ()) c) : Erases ε (u >>= f) c := by
  have hbind : Erases ε (u >>= f) (Pure.pure () >>= fun _ => c) := hu.bind fun _ => h
  rwa [pure_bind] at hbind

end Erases

end Schemata
