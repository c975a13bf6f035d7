/-
**Erasing futures' numbers.**

Starting and polling with numbers is starting and polling.  What is started can be given other
bodies at the same time: the ghosts are erased, the bodies of asynchronous functions are exchanged,
and what is left is the start of the operation with these other bodies.  So the bodies have no part
in it, whatever they are.

Main definitions:

* `Schemata.Numbered.Staged.erased` — the outcome without numbers and with other bodies;
* `Schemata.Numbered.Machine.StartsLike`, `Schemata.Numbered.Machine.PollsLike` — machines with and
  without numbers.

Main results:

* `Schemata.Numbered.stage_erases` — **starting with numbers is starting, with whatever bodies**;
* `Schemata.Numbered.poll_erases` — **polling with numbers is polling**;
* `Schemata.Schema.stageNumbered_erases`, `Schemata.Schema.stageWith_eq` — both for schemas.
-/

import Schemata.Proofs.Bodies
import Schemata.Proofs.Children
import Schemata.Proofs.Futures

set_option relaxedAutoImplicit false
set_option autoImplicit false

namespace Schemata

namespace Numbered

/-- The outcome without numbers and with other bodies. -/
def Staged.erased (ρ : Bodies) (s : Staged) : Schemata.Staged := s.plain.withBodies ρ

/-- The outcome of a member without numbers and with other bodies. -/
def erasedOutcome (ρ : Bodies) : Except Error Staged → Except Error Schemata.Staged
  | .ok s => .ok (s.erased ρ)
  | .error e => .error e

/-- The outcomes of children without numbers and with other bodies. -/
def erasedChildren (ρ : Bodies) : Except Error (List Staged) → Except Error (List Schemata.Staged)
  | .ok children => .ok (children.map (Staged.erased ρ))
  | .error e => .error e

/-- The outcomes of fields without numbers and with other bodies. -/
def erasedFields {α : Type} (ρ : Bodies) :
    Except Error (List Staged × α) → Except Error (List Schemata.Staged × α)
  | .ok (children, left) => .ok (children.map (Staged.erased ρ), left)
  | .error e => .error e

/-- **A machine that starts parses as one without numbers does**, with other bodies. -/
structure Machine.StartsLike (ρ : Bodies) (M : Machine) (m : Schemata.Machine) : Prop where
  parse : M.base.parse = m.parse
  serialize : M.base.serialize = m.serialize
  stage : ∀ r v, Erases (erasedOutcome ρ) (M.stage r v) (m.stage r v)

section

variable {ρ : Bodies} {M : Machine} {m : Schemata.Machine}

/-! ### What is read off outcomes -/

@[simp] theorem Staged.erased_ready (v : Value) : (Staged.ready v).erased ρ = .ready v := rfl

@[simp] theorem Staged.erased_pending (t : Task) :
    (Staged.pending t).erased ρ = .pending (t.plain.withBodies ρ) := rfl

theorem Staged.erased_inside (s : Segment) (staged : Staged) :
    (staged.inside s).erased ρ = (staged.erased ρ).inside s := by
  cases staged <;> rfl

theorem Staged.erased_toTask (staged : Staged) :
    (staged.erased ρ).toTask = staged.toTask.plain.withBodies ρ := by
  cases staged <;> rfl

theorem plainTasks_eq_map (ts : List Task) : plainTasks ts = ts.map Task.plain := by
  induction ts with
  | nil => rfl
  | cons t rest ih => rw [plainTasks, ih, List.map_cons]

/-- Whether children are ready does not depend on what is left to do. -/
theorem readyValues?_erased (children : List Staged) :
    readyValues? (children.map (Staged.erased ρ)) = readyValues? (children.map Staged.plain) := by
  induction children with
  | nil => rfl
  | cons staged rest ih =>
      cases staged with
      | ready v => simp only [List.map_cons, Staged.erased_ready, Staged.plain, readyValues?, ih]
      | pending t => rfl

theorem allErrors?_erased (outcomes : List (Except Error Staged)) :
    allErrors? (outcomes.map (erasedOutcome ρ)) = allErrors? (outcomes.map plainOutcome) := by
  induction outcomes with
  | nil => rfl
  | cons outcome rest ih =>
      cases outcome with
      | error e => simp only [List.map_cons, erasedOutcome, plainOutcome, allErrors?, ih]
      | ok staged => rfl

theorem readyAfterErrors?_erased (outcomes : List (Except Error Staged)) :
    readyAfterErrors? (outcomes.map (erasedOutcome ρ)) =
      readyAfterErrors? (outcomes.map plainOutcome) := by
  induction outcomes with
  | nil => rfl
  | cons outcome rest ih =>
      cases outcome with
      | error e => simp only [List.map_cons, erasedOutcome, plainOutcome, readyAfterErrors?, ih]
      | ok staged => cases staged <;> rfl

theorem assemble_erased (assembly : Assembly) (children : List Staged) :
    (assemble assembly children).erased ρ =
      Schemata.assemble assembly (children.map (Staged.erased ρ)) := by
  rw [assemble, Schemata.assemble, readyValues?_erased]
  cases readyValues? (children.map Staged.plain) with
  | some values => rfl
  | none =>
      simp [Task.plain, Schemata.Task.withBodies, plainTasks_eq_map, tasksWithBodies_eq_map,
        Staged.erased_toTask, Function.comp_def]

theorem assembled_erased (assembly : Assembly) (outcomes : Except Error (List Staged)) :
    erasedOutcome ρ (assembled assembly outcomes) =
      Schemata.assembled assembly (erasedChildren ρ outcomes) := by
  cases outcomes with
  | error e => rfl
  | ok children =>
      exact congrArg Except.ok (assemble_erased assembly children)

theorem outcomeTask_erased (outcome : Except Error Staged) :
    Schemata.outcomeTask (erasedOutcome ρ outcome) =
      (outcomeTask outcome).plain.withBodies ρ := by
  cases outcome with
  | error e => rfl
  | ok staged => exact staged.erased_toTask

theorem resolveMembers_erased (outcomes : List (Except Error Staged)) :
    erasedOutcome ρ (resolveMembers outcomes) =
      Schemata.resolveMembers (outcomes.map (erasedOutcome ρ)) := by
  rw [resolveMembers, Schemata.resolveMembers, readyAfterErrors?_erased, allErrors?_erased]
  cases readyAfterErrors? (outcomes.map plainOutcome) with
  | some v => rfl
  | none =>
      cases allErrors? (outcomes.map plainOutcome) with
      | some errors => rfl
      | none =>
          refine congrArg (Except.ok ∘ Schemata.Staged.pending ∘ Schemata.Task.firstSuccess []) ?_
          rw [plainTasks_eq_map, tasksWithBodies_eq_map]
          simp [outcomeTask_erased]

theorem ofResult_erased (r : Result) : erasedOutcome ρ (ofResult r) = r.toStaged := by
  cases r <;> rfl

/-! ### Parts of a start -/

/-- Calling an asynchronous function, whatever its body. -/
theorem start_erases (f : AsyncAction) (v : Value) :
    Erases (fun t : Task => t.plain.withBodies ρ) (start f v) ((f.withBodies ρ).start v) := by
  refine (Erases.aside _).bind fun _ => ?_
  intro l
  rfl

theorem afterStage_erases {base : Ledgered (Except Error Staged)}
    {base' : Run (Except Error Schemata.Staged)} {next : Staged → Ledgered (Except Error Staged)}
    {next' : Schemata.Staged → Run (Except Error Schemata.Staged)}
    (h : Erases (erasedOutcome ρ) base base')
    (hnext : ∀ staged, Erases (erasedOutcome ρ) (next staged) (next' (staged.erased ρ))) :
    Erases (erasedOutcome ρ) (afterStage base next) (Schemata.afterStage base' next') := by
  refine h.bind fun outcome => ?_
  cases outcome with
  | error e => exact .pure rfl
  | ok staged => exact hnext staged

theorem andThen_erases (staged : Staged) (next : Continuation) (now : Value → Run Result) :
    Erases (erasedOutcome ρ) (andThen staged next now)
      ((staged.erased ρ).andThen (next.withBodies ρ) now) := by
  cases staged with
  | ready v =>
      refine (Erases.aside _).bind fun r => ?_
      cases r <;> exact .pure rfl
  | pending t => exact .pure rfl

theorem stageEach_erases {gs : List (Segment × Ledgered (Except Error Staged))}
    {cs : List (Segment × Run (Except Error Schemata.Staged))}
    (h : List.Forall₂ (fun g c => g.1 = c.1 ∧ Erases (erasedOutcome ρ) g.2 c.2) gs cs) :
    Erases (erasedChildren ρ) (stageEach gs) (Schemata.stageEach cs) := by
  induction h with
  | nil => exact .pure rfl
  | @cons g c gs cs hgc _ ih =>
      obtain ⟨s, child⟩ := g
      obtain ⟨_, child'⟩ := c
      obtain ⟨rfl, hchild⟩ := hgc
      refine hchild.bind fun outcome => ?_
      cases outcome with
      | error e => exact .pure rfl
      | ok staged =>
          refine ih.bind fun others => ?_
          cases others with
          | error e => exact .pure rfl
          | ok others =>
              exact .pure (by simp [erasedChildren, Staged.erased_inside])

theorem stageFields_erases {gs : List (String × Stager)} {cs : List (String × Schemata.Stager)}
    (h : List.Forall₂ (fun g c => g.1 = c.1 ∧ ∀ v, Erases (erasedOutcome ρ) (g.2 v) (c.2 v)) gs cs)
    (entries : List (String × Value)) :
    Erases (erasedFields ρ) (stageFields gs entries) (Schemata.stageFields cs entries) := by
  induction h generalizing entries with
  | nil => exact .pure rfl
  | @cons g c gs cs hgc _ ih =>
      obtain ⟨name, field⟩ := g
      obtain ⟨_, field'⟩ := c
      obtain ⟨rfl, hfield⟩ := hgc
      refine (hfield _).bind fun outcome => ?_
      cases outcome with
      | error e => exact .pure rfl
      | ok staged =>
          refine (ih _).bind fun others => ?_
          cases others with
          | error e => exact .pure rfl
          | ok others =>
              exact .pure (by simp [erasedFields, Staged.erased_inside])

theorem stageMembers_erases {gs : List Stager} {cs : List Schemata.Stager} (v : Value)
    (h : List.Forall₂ (fun g c => ∀ v, Erases (erasedOutcome ρ) (g v) (c v)) gs cs) :
    Erases (List.map (erasedOutcome ρ)) (stageMembers v gs) (Schemata.stageMembers v cs) := by
  induction h with
  | nil => exact .pure rfl
  | cons hgc _ ih =>
      refine (hgc v).bind fun outcome => ?_
      cases outcome with
      | error e => exact ih.bind fun others => .pure rfl
      | ok staged =>
          cases staged with
          | ready a => exact .pure rfl
          | pending t => exact ih.bind fun others => .pure rfl

/-- Lists side by side, with their indices. -/
theorem forall₂_indexed {α β : Type} {R : α → β → Prop} {l : List α} {l' : List β}
    (h : List.Forall₂ R l l') :
    List.Forall₂ (fun a b => a.1 = b.1 ∧ R a.2 b.2) (indexed l) (indexed l') := by
  suffices hall : ∀ n, List.Forall₂ (fun a b => a.1 = b.1 ∧ R a.2 b.2)
      ((l.zipIdx n).map fun c => (Segment.index c.2, c.1))
      ((l'.zipIdx n).map fun c => (Segment.index c.2, c.1)) from hall 0
  induction h with
  | nil => exact fun _ => .nil
  | cons hab _ ih => exact fun n => .cons ⟨rfl, hab⟩ (ih (n + 1))

/-- Functions side by side, on values one by one. -/
theorem forall₂_zipWith_values {gs : List Stager} {cs : List Schemata.Stager}
    (h : List.Forall₂ (fun g c => ∀ v, Erases (erasedOutcome ρ) (g v) (c v)) gs cs)
    (values : List Value) :
    List.Forall₂ (Erases (erasedOutcome ρ)) (gs.zipWith (fun stage v => stage v) values)
      (cs.zipWith (fun stage v => stage v) values) := by
  induction h generalizing values with
  | nil => exact .nil
  | cons hgc _ ih =>
      cases values with
      | nil => exact .nil
      | cons v rest => exact .cons (hgc v) (ih rest)

/-! ### Starting -/

theorem runAs_eq (h : M.StartsLike ρ m) (f : Action) (d : Direction) :
    f.runAs M.base d = f.runAs m d :=
  Action.runAs_congr h.parse h.serialize f d

mutual

/-- **Starting with numbers is starting, with whatever bodies.** -/
theorem stage_erases (h : M.StartsLike ρ m) : ∀ (op : ParseOperation) (v : Value),
    Erases (erasedOutcome ρ) (stage M op v) ((op.withBodies ρ).stage m v)
  | .direct op, v | .ready op, v => by
      rw [stage, ParseOperation.withBodies, ParseOperation.stage,
        ← Operation.run_congr h.parse h.serialize op]
      exact (Erases.aside _).bind fun r => .pure (ofResult_erased r)
  | .array expected item, v => by
      rw [ParseOperation.withBodies]
      cases v with
      | array items =>
          simp only [stage, ParseOperation.stage]
          refine (stageEach_erases (forall₂_indexed ?_)).bind fun outcomes =>
            .pure (assembled_erased _ outcomes)
          refine List.forall₂_map_left_iff.2 (List.forall₂_map_right_iff.2 ?_)
          exact List.forall₂_same.2 fun a _ => stage_erases h item a
      | _ => simp only [stage, ParseOperation.stage]; exact .pure rfl
  | .dict expected value, v => by
      rw [ParseOperation.withBodies]
      cases v with
      | object entries =>
          simp only [stage, ParseOperation.stage]
          refine (stageEach_erases ?_).bind fun outcomes => .pure (assembled_erased _ outcomes)
          rw [keyed_map, keyed_map]
          refine List.forall₂_map_left_iff.2 (List.forall₂_map_right_iff.2 ?_)
          exact List.forall₂_same.2 fun e _ => ⟨rfl, stage_erases h value e.2⟩
      | _ => simp only [stage, ParseOperation.stage]; exact .pure rfl
  | .tuple expected items, v => by
      rw [ParseOperation.withBodies]
      cases v with
      | array values =>
          have hlength : (operationsWithBodies ρ items).length = items.length := by
            rw [operationsWithBodies_eq_map, List.length_map]
          simp only [stage, ParseOperation.stage, hlength]
          cases sizeError? .parsing items.length values.length with
          | some e => exact .pure rfl
          | none =>
              exact (stageEach_erases (forall₂_indexed
                (forall₂_zipWith_values (stagers_erase h items) values))).bind fun outcomes =>
                  .pure (assembled_erased _ outcomes)
      | _ => simp only [stage, ParseOperation.stage]; exact .pure rfl
  | .object expected fields policy, v => by
      rw [ParseOperation.withBodies]
      cases v with
      | object entries =>
          have hkeys : Entries.keys (fieldsWithBodies ρ fields) = Entries.keys fields := by
            rw [fieldsWithBodies_eq_map, Entries.keys_map]
          simp only [stage, ParseOperation.stage, hkeys]
          refine (stageFields_erases (fieldStagers_erase h fields) entries).bind fun outcomes => ?_
          cases outcomes with
          | error e => exact .pure rfl
          | ok outcomes =>
              obtain ⟨children, left⟩ := outcomes
              simp only [erasedFields]
              cases excessError? policy left with
              | some e => exact .pure rfl
              | none => exact .pure (congrArg Except.ok (assemble_erased _ children))
      | _ => simp only [stage, ParseOperation.stage]; exact .pure rfl
  | .unlessNull inner, v => by
      rw [ParseOperation.withBodies]
      cases v with
      | null => simp only [stage, ParseOperation.stage]; exact .pure rfl
      | _ => simp only [stage, ParseOperation.stage]; exact stage_erases h inner _
  | .union members, v => by
      rw [ParseOperation.withBodies, stage, ParseOperation.stage]
      exact (stageMembers_erases v (stagers_erase h members)).bind fun outcomes =>
        .pure (resolveMembers_erased outcomes)
  | .decodeText expected inner, v => by
      rw [ParseOperation.withBodies, stage, ParseOperation.stage]
      cases decodeDocument expected v with
      | error e => exact .pure rfl
      | ok a => exact stage_erases h inner a
  | .applyAsync f, v => by
      rw [ParseOperation.withBodies, stage, ParseOperation.stage]
      exact (start_erases f v).bind fun t => .pure rfl
  | .thenApply base f, v => by
      rw [ParseOperation.withBodies, stage, ParseOperation.stage, ← runAs_eq h f]
      exact afterStage_erases (stage_erases h base v) fun staged => andThen_erases staged _ _
  | .thenApplyAsync base f, v => by
      rw [ParseOperation.withBodies, stage, ParseOperation.stage]
      refine afterStage_erases (stage_erases h base v) fun staged => ?_
      cases staged with
      | ready a => exact (start_erases f a).bind fun t => .pure rfl
      | pending t => exact .pure rfl
  | .applyFirst f base, v => by
      rw [ParseOperation.withBodies, stage, ParseOperation.stage, ← runAs_eq h f]
      refine (Erases.aside _).bind fun r => ?_
      cases r with
      | error e => exact .pure rfl
      | ok a => exact stage_erases h base a
  | .applyAsyncFirst f base, v => by
      rw [ParseOperation.withBodies, stage, ParseOperation.stage]
      exact (start_erases f v).bind fun t => .pure rfl
  | .thenCheck message test base, v => by
      rw [ParseOperation.withBodies, stage, ParseOperation.stage]
      exact afterStage_erases (stage_erases h base v) fun staged => andThen_erases staged _ _
  | .thenCheckAsync message test base, v => by
      rw [ParseOperation.withBodies, stage, ParseOperation.stage]
      refine afterStage_erases (stage_erases h base v) fun staged => .pure ?_
      rw [Staged.erased_toTask]
      rfl
  | .recover fallback base, v => by
      rw [ParseOperation.withBodies, stage, ParseOperation.stage]
      refine (stage_erases h base v).bind fun outcome => ?_
      cases outcome with
      | error e => exact .pure rfl
      | ok staged => cases staged <;> exact .pure rfl
  | .thenConstant value base, v => by
      rw [ParseOperation.withBodies, stage, ParseOperation.stage]
      exact afterStage_erases (stage_erases h base v) fun staged => andThen_erases staged _ _
  | .orSupply supply base, v => by
      rw [ParseOperation.withBodies, stage, ParseOperation.stage]
      exact afterStage_erases (stage_erases h base v) fun staged => andThen_erases staged _ _
  | .follow r, v => by
      rw [ParseOperation.withBodies, stage, ParseOperation.stage]
      exact h.stage r v

theorem stagers_erase (h : M.StartsLike ρ m) : ∀ ops : List ParseOperation,
    List.Forall₂ (fun g c => ∀ v, Erases (erasedOutcome ρ) (g v) (c v)) (stagers M ops)
      (Schemata.stagers m (operationsWithBodies ρ ops))
  | [] => .nil
  | op :: rest => .cons (fun v => stage_erases h op v) (stagers_erase h rest)

theorem fieldStagers_erase (h : M.StartsLike ρ m) : ∀ fields : List (String × ParseOperation),
    List.Forall₂ (fun g c => g.1 = c.1 ∧ ∀ v, Erases (erasedOutcome ρ) (g.2 v) (c.2 v))
      (fieldStagers M fields) (Schemata.fieldStagers m (fieldsWithBodies ρ fields))
  | [] => .nil
  | (_, op) :: rest => .cons ⟨rfl, fun v => stage_erases h op v⟩ (fieldStagers_erase h rest)

end

/-- A schema as the start of a parse. -/
theorem stageOn_erases (h : M.StartsLike ρ m) (s : Schema) (v : Value) :
    Erases (erasedOutcome ρ) (stageOn M s v) (s.stageOnWith ρ m v) :=
  (Erases.aside _).bind fun c => stage_erases h c.operation v

end

/-- **The machine starts parses as one without numbers does, with whatever bodies.** -/
theorem machine_startsLike (ρ : Bodies) (fuel : Nat) :
    (machine fuel).StartsLike ρ (machineWith ρ fuel) := by
  induction fuel with
  | zero =>
      rw [machine, machineWith]
      exact ⟨rfl, rfl, fun _ _ => .halt _⟩
  | succ fuel ih =>
      rw [machine, machineWith]
      refine ⟨rfl, rfl, fun r v => (Erases.aside _).bind fun w => ?_⟩
      cases w.target? r with
      | none => exact .pure rfl
      | some s => exact stageOn_erases ih s v

/-! ### Polling -/

theorem erasedOutcome_same (outcome : Except Error Staged) :
    erasedOutcome .same outcome = plainOutcome outcome := by
  cases outcome with
  | error e => rfl
  | ok staged => exact congrArg Except.ok staged.plain.withBodies_same

/-- **A machine that starts and polls as one without numbers does.** -/
structure Machine.PollsLike (M : Machine) (m : Schemata.Machine) : Prop extends
    M.StartsLike .same m where
  poll : ∀ t, Erases Poll.plain (M.poll t) (m.poll t.plain)

section

variable {M : Machine} {m : Schemata.Machine}

theorem pollCall_erases (h : M.PollsLike m) (number waits : Nat) (f : Action) (input : Value) :
    Erases Poll.plain (pollCall M number waits f input) (Schemata.pollCall m waits f input) := by
  refine Erases.ghost (fun _ => rfl) ?_
  cases waits with
  | succ waits => exact .pure rfl
  | zero =>
      refine Erases.ghost (fun _ => rfl) ?_
      rw [runAs_eq h.toStartsLike f]
      exact (Erases.aside _).bind fun r => .pure rfl

theorem pollCheck_erases (number waits : Nat) (message : String) (test : Test) (v : Value) :
    Erases Poll.plain (pollCheck number waits message test v)
      (Schemata.pollCheck waits message test v) := by
  refine Erases.ghost (fun _ => rfl) ?_
  cases waits with
  | succ waits => exact .pure rfl
  | zero => exact Erases.ghost (fun _ => rfl) ((Erases.aside _).bind fun r => .pure rfl)

theorem resume_erases (h : M.PollsLike m) (next : Continuation) (v : Value) :
    Erases Poll.plain (resume M next v) (next.resume m v) := by
  cases next with
  | apply f =>
      rw [resume, Continuation.resume, runAs_eq h.toStartsLike f]
      exact (Erases.aside _).bind fun r => .pure rfl
  | applyAsync f =>
      refine (Erases.aside _).bind fun _ => ?_
      intro l
      exact pollCall_erases h l.created f.waits f.body v _
  | parse op =>
      have hstage := stage_erases h.toStartsLike op v
      rw [ParseOperation.withBodies_same] at hstage
      refine hstage.bind fun outcome => ?_
      rw [erasedOutcome_same]
      cases outcome with
      | error e => exact .pure rfl
      | ok staged =>
          cases staged with
          | ready a => exact .pure rfl
          | pending t => exact h.poll t
  | check message test => exact (Erases.aside _).bind fun r => .pure rfl
  | checkAsync message test =>
      intro l
      exact pollCheck_erases l.created test.waits message test.test v _
  | constant value => exact .pure rfl
  | orSupply supply => exact (Erases.aside _).bind fun r => .pure rfl

theorem Poll.plain_toTask (p : Poll) : p.plain.toTask = p.toTask.plain := by
  cases p <;> rfl

mutual

/-- **Polling with numbers is polling.** -/
theorem poll_erases (h : M.PollsLike m) : ∀ t : Task, Erases Poll.plain (poll M t) (t.plain.poll m)
  | .done r => .pure rfl
  | .call number waits f input => pollCall_erases h number waits f input
  | .check number waits message test v => pollCheck_erases number waits message test v
  | .andThen task next => by
      rw [poll, Task.plain, Schemata.Task.poll]
      refine (poll_erases h task).bind fun p => ?_
      rcases p with (e | v) | t
      · exact .pure rfl
      · exact resume_erases h next v
      · exact .pure rfl
  | .inside s task => by
      rw [poll, Task.plain, Schemata.Task.poll]
      refine (poll_erases h task).bind fun p => ?_
      rcases p with (e | v) | t <;> exact .pure rfl
  | .recover fallback input task => by
      rw [poll, Task.plain, Schemata.Task.poll]
      refine (poll_erases h task).bind fun p => ?_
      rcases p with (e | v) | t <;> exact .pure rfl
  | .join children assembly => by
      rw [poll, Task.plain, Schemata.Task.poll]
      refine (pollEach_erases h children).bind fun polls => ?_
      cases finished? (polls.map Poll.plain) with
      | some results => exact .pure rfl
      | none =>
          refine .pure (congrArg (fun ts => Schemata.Poll.pending (.join ts assembly)) ?_)
          rw [plainTasks_eq_map]
          simp [Poll.plain_toTask]
  | .firstSuccess errors attempts => by
      rw [poll, Task.plain, Schemata.Task.poll]
      exact pollAttempts_erases h errors attempts

theorem pollEach_erases (h : M.PollsLike m) : ∀ ts : List Task,
    Erases (List.map Poll.plain) (pollEach M ts) (Schemata.pollEach m (plainTasks ts))
  | [] => .pure rfl
  | t :: rest => by
      rw [pollEach, plainTasks, Schemata.pollEach]
      exact (poll_erases h t).bind fun p => (pollEach_erases h rest).bind fun ps => .pure rfl

theorem pollAttempts_erases (h : M.PollsLike m) (errors : List Error) : ∀ ts : List Task,
    Erases Poll.plain (pollAttempts M errors ts)
      (Schemata.pollAttempts m errors (plainTasks ts))
  | [] => .pure rfl
  | t :: rest => by
      rw [pollAttempts, plainTasks, Schemata.pollAttempts]
      refine (poll_erases h t).bind fun p => ?_
      rcases p with (e | v) | t
      · exact pollAttempts_erases h (errors ++ [e]) rest
      · exact .pure rfl
      · exact .pure rfl

end

end

/-- **The machine starts and polls as the one without numbers does.** -/
theorem machine_pollsLike (fuel : Nat) : (machine fuel).PollsLike (Schemata.machine fuel) := by
  induction fuel with
  | zero =>
      rw [machine, Schemata.machine]
      exact ⟨⟨rfl, rfl, fun _ _ => .halt _⟩, fun _ => .halt _⟩
  | succ fuel ih =>
      rw [machine, Schemata.machine]
      refine ⟨⟨rfl, rfl, fun r v => (Erases.aside _).bind fun w => ?_⟩, fun t => poll_erases ih t⟩
      cases w.target? r with
      | none => exact .pure rfl
      | some s =>
          refine (Erases.aside _).bind fun c => ?_
          have hstage := stage_erases ih.toStartsLike c.operation v
          rwa [ParseOperation.withBodies_same] at hstage

end Numbered

/-! ### Schemas -/

/-- **Starting with numbers is starting.** -/
theorem Schema.stageNumbered_erases (fuel : Nat) (s : Schema) (v : Value) :
    Erases Numbered.plainOutcome (s.stageNumbered fuel v) (s.stage fuel v) := by
  refine (Erases.aside _).bind fun c => ?_
  have hstage := Numbered.stage_erases (Numbered.machine_pollsLike fuel).toStartsLike c.operation v
  rw [ParseOperation.withBodies_same] at hstage
  rwa [← funext Numbered.erasedOutcome_same]

/-- The outcome with other bodies in what is left to do, unless starting failed. -/
def outcomeWithBodies (ρ : Bodies) : Except Error Staged → Except Error Staged
  | .ok staged => .ok (staged.withBodies ρ)
  | .error e => .error e

/-- **Bodies have no part in starting a parse.**  With other bodies, whatever they are, it comes to
the same outcome in the same world, up to the bodies in what is left to do. -/
theorem Schema.stageWith_eq (ρ : Bodies) (fuel : Nat) (s : Schema) (v : Value) :
    s.stageWith ρ fuel v = outcomeWithBodies ρ <$> s.stage fuel v := by
  -- both are what is left of one start with numbers
  have hplain := s.stageNumbered_erases fuel v Ledger.empty
  have hwith := Numbered.stageOn_erases (Numbered.machine_startsLike ρ fuel) s v Ledger.empty
  have hboth : ∀ outcome, outcomeWithBodies ρ (Numbered.plainOutcome outcome) =
      Numbered.erasedOutcome ρ outcome := by
    intro outcome
    cases outcome <;> rfl
  rw [← hplain, Functor.map_map, Schema.stageWith, ← hwith]
  exact congrArg (· <$> _) (funext fun p => (hboth p.1).symm)

end Schemata
