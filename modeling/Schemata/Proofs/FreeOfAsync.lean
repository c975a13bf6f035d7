/-
**Errors that are not of an unexpected wait.**

Wherever nothing may wait, an operation that waits is replaced by one that fails with the error of
the unexpected wait: below composites, members and effects that do not wait, and behind references.
An operation that does not wait does not come to this error if nothing below it waits, and one that
waits does not come to it at all, since it takes its children as they are.

What is said of an error here is said of the errors inside it as well.  A task keeps to it while it
is polled, and so does whatever the stand-ins in it are going to be given.

Main definitions:

* `Schemata.Error.FreeOfAsync` — an unexpected wait is nowhere in the error;
* `Schemata.Kind.NeverUnexpected` — functions that do not return such an error themselves;
* `Schemata.Task.FreeOfAsync` — **a task that does not end with such an error**;
* `Schemata.Machine.Awaits` — a machine that does not come to one.

Main results:

* `Schemata.Kind.directParser_free`, `Schemata.Kind.stagedParser_free` — **the operations of a
  kind**, run and started;
* `Schemata.Task.poll_free` — **a poll keeps tasks free of the error**.
-/

import Schemata.Proofs.StagedErrors

set_option relaxedAutoImplicit false
set_option autoImplicit false

namespace Schemata

/-! ### Errors -/

mutual

/-- An unexpected wait is nowhere in the reason. -/
def Reason.FreeOfAsync : Reason → Prop
  | .unexpectedAsync => False
  | .invalidUnion errors => AllFreeOfAsync errors
  | .invalidType _ _ | .invalidLiteral _ _ | .invalidTupleSize _ _ | .excessField _
  | .refinement _ | .custom _ | .operationFailed _ | .invalidOperation _ => True

/-- **An unexpected wait is nowhere in the error**, nor in the errors inside it. -/
def Error.FreeOfAsync : Error → Prop
  | ⟨reason, _, _⟩ => reason.FreeOfAsync

/-- It is nowhere in any of the errors. -/
def AllFreeOfAsync : List Error → Prop
  | [] => True
  | e :: rest => e.FreeOfAsync ∧ AllFreeOfAsync rest

end

theorem allFreeOfAsync_iff {errors : List Error} :
    AllFreeOfAsync errors ↔ ∀ e ∈ errors, e.FreeOfAsync := by
  induction errors with
  | nil => simp [AllFreeOfAsync]
  | cons e rest ih => simp [AllFreeOfAsync, ih]

theorem Error.FreeOfAsync.prepend {e : Error} (h : e.FreeOfAsync) (s : Segment) :
    (e.prepend s).FreeOfAsync := by
  cases e
  exact h

/-- The errors of members put together. -/
theorem Error.FreeOfAsync.invalidUnion {errors : List Error} (h : ∀ e ∈ errors, e.FreeOfAsync)
    (d : Direction) : (Error.atRoot (.invalidUnion errors) d).FreeOfAsync := allFreeOfAsync_iff.2 h

theorem excessError?_free {policy : UnknownKeys} {left : List (String × Value)} {e : Error}
    (h : excessError? policy left = some e) : e.FreeOfAsync := by
  rw [excessError?.eq_def] at h
  split at h
  · cases h
    trivial
  · cases h

theorem sizeError?_free {d : Direction} {expected received : Nat} {e : Error}
    (h : sizeError? d expected received = some e) : e.FreeOfAsync := by
  rw [sizeError?] at h
  split at h
  · cases h
  · cases h
    trivial

theorem readText_free (text : String) : OnError Error.FreeOfAsync (readText text) := by
  rw [readText]
  split <;> trivial

theorem decodeDocument_free {expected : Thunk String} {v : Value} {e : Error}
    (h : decodeDocument expected v = .error e) : e.FreeOfAsync := by
  cases v with
  | string text =>
      have hread := readText_free text
      rwa [show readText text = .error e from h] at hread
  | _ =>
      cases h
      trivial

/-! ### User functions -/

/-- **The function does not return the error of an unexpected wait**, whatever it is given and
however far the references that it follows go. -/
def Action.NeverUnexpected (w : World) (f : Action) : Prop :=
  ∀ fuel v e w', f.run (machine fuel) v w = .ok (.error (.error e), w') → e.FreeOfAsync

/-- The parse function of the pair does not return it. -/
structure Handlers.NeverUnexpected (w : World) (h : Handlers) : Prop where
  direct : ∀ f, h.parser = some (.direct f) → f.NeverUnexpected w
  async : ∀ f, h.parser = some (.async f) → f.body.NeverUnexpected w

/-- **The functions with which the kind parses do not return it.** -/
def Kind.NeverUnexpected (w : World) : Kind → Prop
  | .custom _ h | .transformed _ (.transform h) | .transformed _ (.preprocess h) =>
      h.NeverUnexpected w
  | _ => True

/-- A function that only computes, and fails in its own words. -/
theorem Action.compute_neverUnexpected {w : World} {f : Value → Except Failure Value}
    (h : ∀ v e, f v = .error (.error e) → e.FreeOfAsync) : (compute f).NeverUnexpected w := by
  intro fuel v e w' hrun
  rw [run, pure_apply, Except.ok.injEq, Prod.mk.injEq] at hrun
  exact h v e hrun.1

/-! ### Tasks -/

/-- What happens to a value does not end with the error.  A parse that begins late is the planned
one of a schema. -/
def Continuation.FreeOfAsync (w : World) (N : Schema → Prop) : Continuation → Prop
  | .apply f => f.NeverUnexpected w
  | .applyAsync f => f.body.NeverUnexpected w
  | .parse op => ∃ s, N s ∧ op = w.planned s
  | .check _ _ | .checkAsync _ _ | .constant _ | .orSupply _ => True

mutual

/-- **The task does not end with the error of an unexpected wait**, at any depth. -/
def Task.FreeOfAsync (w : World) (N : Schema → Prop) : Task → Prop
  | .done r => OnError Error.FreeOfAsync r
  | .call _ f _ => f.NeverUnexpected w
  | .check _ _ _ _ => True
  | .andThen task next => task.FreeOfAsync w N ∧ next.FreeOfAsync w N
  | .inside _ task => task.FreeOfAsync w N
  | .recover _ _ task => task.FreeOfAsync w N
  | .join children _ => EachFreeOfAsync w N children
  | .firstSuccess errors attempts =>
      (∀ e ∈ errors, e.FreeOfAsync) ∧ EachFreeOfAsync w N attempts

/-- None of the tasks does. -/
def EachFreeOfAsync (w : World) (N : Schema → Prop) : List Task → Prop
  | [] => True
  | task :: rest => task.FreeOfAsync w N ∧ EachFreeOfAsync w N rest

end

/-- The outcome of starting does not come to the error, now or later. -/
abbrev StagedFree (w : World) (N : Schema → Prop) (outcome : Except Error Staged) : Prop :=
  (outcomeTask outcome).FreeOfAsync w N

/-- The operation does not fail with the error. -/
abbrev RunsFree (W : World → Prop) (m : Machine) (op : Operation) : Prop :=
  ∀ v, Ensures W (op.run m v) (OnError Error.FreeOfAsync)

/-- The operation does not fail with the error when it is started, nor later. -/
abbrev StagesFree (W : World → Prop) (m : Machine) (w : World) (N : Schema → Prop)
    (op : ParseOperation) : Prop := ∀ v, Ensures W (op.stage m v) (StagedFree w N)

/-- **A machine that does not come to the error**: neither behind references nor in functions. -/
structure Machine.Awaits (m : Machine) (W : World → Prop) (w : World) (N : Schema → Prop) :
    Prop where
  logs : LeavesLogsOpen W
  function : ∀ f : Action, f.NeverUnexpected w → ∀ v,
    Ensures W (f.runAs m .parsing v) (OnError Error.FreeOfAsync)
  parse : ∀ s r, N s → s.kind = .recursive r → ¬ w.ReachesAsync s → ∀ v,
    Ensures W (m.parse r v) (OnError Error.FreeOfAsync)
  stage : ∀ s r, N s → s.kind = .recursive r → ∀ v, Ensures W (m.stage r v) (StagedFree w N)
  poll : ∀ task : Task, task.FreeOfAsync w N →
    Ensures W (m.poll task) fun p => p.toTask.FreeOfAsync w N

variable {W : World → Prop} {m : Machine} {w : World} {N : Schema → Prop}

/-! ### Operations that do not wait -/

/-- An error of children is that of a child, moved into it. -/
theorem runEach_free {children : List (Segment × Run Result)}
    (h : ∀ c ∈ children, Ensures W c.2 (OnError Error.FreeOfAsync)) :
    Ensures W (runEach children) (OnError Error.FreeOfAsync) :=
  runEach_onError fun c hc => (h c hc).onError_mono fun _ he => he.prepend _

/-- An error of fields is that of a field, moved into it. -/
theorem runFields_free : ∀ {fields : List (String × Runner)},
    (∀ f ∈ fields, ∀ v, Ensures W (f.2 v) (OnError Error.FreeOfAsync)) →
      ∀ entries, Ensures W (runFields fields entries) (OnError Error.FreeOfAsync)
  | [], _, _ => .pure trivial
  | (name, field) :: rest, h, entries => by
      have ih := runFields_free fun f hf => h f (List.mem_cons_of_mem _ hf)
      refine OnError.bind (h _ (List.mem_cons_self ..) _) (fun e he => .pure (he.prepend (.key name)))
        fun v => ?_
      exact OnError.bind (ih _) (fun e he => .pure he) fun r => .pure trivial

theorem RunsFree.fail {e : Error} (h : e.FreeOfAsync) : RunsFree W m (.fail e) := fun _ => .pure h

theorem RunsFree.scalar (kind : Scalar) (d : Direction) (expected : Thunk String) :
    RunsFree W m (.scalar kind d expected) := by
  intro v
  rw [Operation.run]
  split <;> exact .pure trivial

theorem RunsFree.literal (d : Direction) (l : Literal) : RunsFree W m (.literal d l) := by
  intro v
  rw [Operation.run]
  split <;> exact .pure trivial

theorem RunsFree.array {item : Operation} (h : RunsFree W m item) (d : Direction)
    (expected : Thunk String) : RunsFree W m (.array d expected item) := by
  intro v
  cases v with
  | array values =>
      refine OnError.bind (runEach_free fun c hc => ?_) (fun e he => .pure he)
        fun vs => .pure trivial
      obtain ⟨i, a, -, rfl⟩ := mem_indexed_map hc
      exact h a
  | _ => exact .pure trivial

theorem RunsFree.dict {value : Operation} (h : RunsFree W m value) (d : Direction)
    (expected : Thunk String) : RunsFree W m (.dict d expected value) := by
  intro v
  cases v with
  | object entries =>
      refine OnError.bind (runEach_free fun c hc => ?_) (fun e he => .pure he)
        fun vs => .pure trivial
      obtain ⟨key, a, -, rfl⟩ := mem_keyed_map hc
      exact h a
  | _ => exact .pure trivial

theorem RunsFree.tuple {items : List Operation} (h : ∀ op ∈ items, RunsFree W m op)
    (d : Direction) (expected : Thunk String) : RunsFree W m (.tuple d expected items) := by
  intro v
  cases v with
  | array values =>
      rw [Operation.run]
      split
      · rename_i e hsize
        exact .pure (sizeError?_free hsize)
      · refine OnError.bind (runEach_free fun c hc => ?_) (fun e he => .pure he)
          fun vs => .pure trivial
        rw [runners_eq_map, List.zipWith_map_left] at hc
        obtain ⟨i, op, a, hop, -, rfl⟩ := mem_indexed_zipWith hc
        exact h op (List.mem_of_getElem? hop) a
  | _ => exact .pure trivial

theorem RunsFree.parseObject {fields : List (String × Operation)}
    (h : ∀ f ∈ fields, RunsFree W m f.2) (expected : Thunk String) (policy : UnknownKeys) :
    RunsFree W m (.parseObject expected fields policy) := by
  intro v
  cases v with
  | object entries =>
      rw [Operation.run, fieldRunners_eq_map]
      refine OnError.bind (runFields_free (fun f hf => ?_) entries) (fun e he => .pure he)
        fun r => ?_
      · obtain ⟨g, hg, rfl⟩ := List.mem_map.1 hf
        exact h g hg
      · dsimp only
        split
        · rename_i e hexcess
          exact .pure (excessError?_free hexcess)
        · exact .pure trivial
  | _ => exact .pure trivial

theorem RunsFree.absentOr {inner : Operation} (h : RunsFree W m inner) :
    RunsFree W m (absentOr inner) := by
  rw [Schemata.absentOr, unlessAllNoop]
  split
  · exact fun v => .pure trivial
  · intro v
    cases v with
    | null => exact .pure trivial
    | _ => exact h _

theorem RunsFree.parseUnion {members : List Operation} (h : ∀ op ∈ members, RunsFree W m op)
    (tags : List (Option Tag)) : RunsFree W m (.parseUnion members tags) := by
  intro v
  rw [Operation.run, runners_eq_map]
  refine parseMembers_onError (List.forall_mem_map.2 fun op hop => h op hop v) fun errors herrors =>
    .invalidUnion herrors .parsing

theorem RunsFree.decodeText {inner : Operation} (h : RunsFree W m inner)
    (expected : Thunk String) : RunsFree W m (.decodeText expected inner) := by
  intro v
  rw [Operation.run]
  split
  · rename_i e hread
    exact .pure (decodeDocument_free hread)
  · exact h _

/-- Effects that do not wait, around a base that does not. -/
theorem Effect.parseAround_free (hm : m.Awaits W w N) {effect : Effect} {t : Schema}
    {base : Operation} (hasync : effect.isAsync = false)
    (hfunction : (Kind.transformed t effect).NeverUnexpected w) (h : RunsFree W m base) :
    RunsFree W m (effect.parseAround base) := by
  cases effect with
  | transform handlers =>
      simp only [parseAround]
      split
      · rename_i f hf
        exact fun v => OnError.bind (h v) (fun e he => .pure he)
          (hm.function f (hfunction.direct f hf))
      · rename_i f hf
        simp [isAsync, Handlers.isAsync, hf] at hasync
      · exact .fail trivial
  | preprocess handlers =>
      simp only [parseAround]
      split
      · rename_i f hf
        exact fun v => OnError.bind (hm.function f (hfunction.direct f hf) v) (fun e he => .pure he) h
      · rename_i f hf
        simp [isAsync, Handlers.isAsync, hf] at hasync
      · exact .fail trivial
  | refine message check =>
      cases check with
      | direct test =>
          exact fun v => OnError.bind (h v) (fun e he => .pure he)
            (checked_onError hm.logs trivial test)
      | async test => cases hasync
  | recover fallback =>
      intro v
      refine (h v).bind fun r _ => ?_
      cases r <;> exact .pure trivial
  | variant external internal =>
      exact fun v => OnError.bind (h v) (fun e he => .pure he) fun a => .pure trivial
  | getOr supply =>
      refine fun v => OnError.bind (h v) (fun e he => .pure he) fun a => ?_
      exact (supply.orElse_steady hm.logs a).ensures.bind fun x _ => .pure trivial

/-- **The operation of a kind that does not wait does not fail with the error**, if no operation
below does: none of them waits. -/
theorem Kind.directParser_free (hm : m.Awaits W w N) {s : Schema} (hs : N s)
    (hasync : ¬ w.ReachesAsync s) (hfunction : s.kind.NeverUnexpected w) {w₁ : World} {id : NodeId}
    {P : Schema → ParseOperation} (hbelow : ∀ t ∈ s.children, RunsFree W m (P t).atOnce) :
    RunsFree W m (s.kind.directParser w₁ id P) := by
  have hown : s.kind.isAsync = false := by
    simpa using fun ha => hasync (World.reachesAsync_of_own ha)
  rw [Schema.children] at hbelow
  cases hkind : s.kind with
  | unknown | json => exact fun v => .pure trivial
  | never | unit | string | bool | int | float => exact .scalar _ _ _
  | literal l => exact .literal _ _
  | array t | dict t | option t | null t | nullable t | jsonString t =>
      rw [hkind] at hbelow
      have ht := hbelow t (List.mem_singleton_self t)
      first
      | exact .array ht _ _
      | exact .dict ht _ _
      | exact .absentOr ht
      | exact .decodeText ht _
  | object fields own =>
      rw [hkind] at hbelow
      refine .parseObject (fun f hf => ?_) _ _
      obtain ⟨g, hg, rfl⟩ := List.mem_map.1 hf
      exact hbelow g.2 (List.mem_map_of_mem hg)
  | tuple items =>
      rw [hkind] at hbelow
      exact .tuple (List.forall_mem_map.2 hbelow) _ _
  | union members =>
      rw [hkind] at hbelow
      refine .parseUnion (List.forall_mem_map.2 fun t ht => ?_) _
      rw [memberParser]
      split
      · exact .fail trivial
      · exact hbelow t ht
  | custom name handlers =>
      rw [hkind] at hfunction hown
      simp only [directParser, customOperation]
      split
      · rename_i f hf
        exact hm.function f (hfunction.direct f hf)
      · rename_i f hf
        simp [isAsync, Handlers.isAsync, hf] at hown
      · exact .fail trivial
  | transformed base effect =>
      rw [hkind] at hbelow hfunction hown
      exact Effect.parseAround_free hm hown hfunction (hbelow base (List.mem_singleton_self base))
  | recursive r =>
      rw [directParser, followOperation]
      split
      · exact .fail trivial
      · exact hm.parse s r hs hkind hasync

/-! ### Operations that wait -/

theorem toStaged_free {r : Result} (h : OnError Error.FreeOfAsync r) :
    StagedFree w N r.toStaged := by
  cases r <;> exact h

theorem Staged.inside_free {staged : Staged} (h : staged.toTask.FreeOfAsync w N) (s : Segment) :
    (staged.inside s).toTask.FreeOfAsync w N := by
  cases staged with
  | ready a => trivial
  | pending task => exact h

/-- None of the children comes to the error. -/
def AllStagedFree (w : World) (N : Schema → Prop) : Except Error (List Staged) → Prop
  | .error e => e.FreeOfAsync
  | .ok children => EachFreeOfAsync w N (children.map Staged.toTask)

/-- **Starting children in order.** -/
theorem stageEach_free : ∀ {children : List (Segment × Run (Except Error Staged))},
    (∀ c ∈ children, Ensures W c.2 (StagedFree w N)) →
      Ensures W (stageEach children) (AllStagedFree w N)
  | [], _ => .pure trivial
  | (s, child) :: rest, h => by
      have ih := stageEach_free fun c hc => h c (List.mem_cons_of_mem _ hc)
      refine (h _ (List.mem_cons_self ..)).bind fun outcome houtcome => ?_
      cases outcome with
      | error e => exact .pure (Error.FreeOfAsync.prepend houtcome s)
      | ok staged =>
          refine ih.bind fun others hothers => ?_
          cases others with
          | error e => exact .pure hothers
          | ok others => exact .pure ⟨Staged.inside_free houtcome s, hothers⟩

/-- **Starting fields in order.** -/
theorem stageFields_free : ∀ {fields : List (String × Stager)},
    (∀ f ∈ fields, ∀ v, Ensures W (f.2 v) (StagedFree w N)) →
      ∀ entries, Ensures W (stageFields fields entries) fun r =>
        AllStagedFree w N (r.map Prod.fst)
  | [], _, _ => .pure trivial
  | (name, field) :: rest, h, entries => by
      have ih := stageFields_free fun f hf => h f (List.mem_cons_of_mem _ hf)
      refine (h _ (List.mem_cons_self ..) _).bind fun outcome houtcome => ?_
      cases outcome with
      | error e => exact .pure (Error.FreeOfAsync.prepend houtcome (.key name))
      | ok staged =>
          refine (ih _).bind fun r hr => ?_
          rcases r with e | ⟨others, left⟩
          · exact .pure hr
          · exact .pure ⟨Staged.inside_free houtcome _, hr⟩

/-- **Children put together.** -/
theorem assembled_free {r : Except Error (List Staged)} (h : AllStagedFree w N r)
    (assembly : Assembly) : StagedFree w N (assembled assembly r) := by
  cases r with
  | error e => exact h
  | ok children =>
      simp only [assembled, assemble]
      cases readyValues? children with
      | some values => trivial
      | none => exact h

/-- **Starting members in order**, up to the first that has its value. -/
theorem stageMembers_free {v : Value} : ∀ {members : List Stager},
    (∀ member ∈ members, Ensures W (member v) (StagedFree w N)) →
      Ensures W (stageMembers v members) fun outcomes =>
        EachFreeOfAsync w N (outcomes.map outcomeTask)
  | [], _ => .pure trivial
  | member :: rest, h => by
      have ih := stageMembers_free fun member hmember => h member (List.mem_cons_of_mem _ hmember)
      refine (h _ (List.mem_cons_self ..)).bind fun outcome houtcome => ?_
      have go : Ensures W (do return outcome :: (← stageMembers v rest)) fun outcomes =>
          EachFreeOfAsync w N (outcomes.map outcomeTask) :=
        ih.bind fun outcomes houtcomes => .pure ⟨houtcome, houtcomes⟩
      rcases outcome with e | (a | task)
      · exact go
      · -- the members after it are not started
        exact .pure ⟨trivial, trivial⟩
      · exact go

theorem allErrors?_free : ∀ {outcomes : List (Except Error Staged)} {errors : List Error},
    allErrors? outcomes = some errors → EachFreeOfAsync w N (outcomes.map outcomeTask) →
      ∀ e ∈ errors, e.FreeOfAsync
  | [], _, hall, _ => by
      cases hall
      exact List.forall_mem_nil _
  | .ok _ :: _, _, hall, _ => by cases hall
  | .error e :: rest, errors, hall, h => by
      simp only [allErrors?, Option.map_eq_some_iff] at hall
      obtain ⟨others, hothers, rfl⟩ := hall
      exact List.forall_mem_cons.2 ⟨h.1, allErrors?_free hothers h.2⟩

/-- **The outcomes of members as one outcome.** -/
theorem resolveMembers_free {outcomes : List (Except Error Staged)}
    (h : EachFreeOfAsync w N (outcomes.map outcomeTask)) :
    StagedFree w N (resolveMembers outcomes) := by
  rw [resolveMembers]
  split
  · trivial
  · split
    · rename_i errors herrors
      exact Error.FreeOfAsync.invalidUnion (allErrors?_free herrors h) .parsing
    · exact ⟨List.forall_mem_nil _, h⟩

/-- What is done after a base. -/
theorem afterStage_free {base : Run (Except Error Staged)}
    {next : Staged → Run (Except Error Staged)} (h : Ensures W base (StagedFree w N))
    (hnext : ∀ staged, staged.toTask.FreeOfAsync w N → Ensures W (next staged) (StagedFree w N)) :
    Ensures W (afterStage base next) (StagedFree w N) := by
  refine h.bind fun outcome houtcome => ?_
  cases outcome with
  | error e => exact .pure houtcome
  | ok staged => exact hnext staged houtcome

/-- What is done to the value of a base, at once or later. -/
theorem stagedAndThen_free {base : Run (Except Error Staged)} {next : Continuation}
    {now : Value → Run Result} (h : Ensures W base (StagedFree w N))
    (hnext : next.FreeOfAsync w N)
    (hnow : ∀ a, Ensures W (now a) (OnError Error.FreeOfAsync)) :
    Ensures W (afterStage base fun staged => staged.andThen next now) (StagedFree w N) := by
  refine afterStage_free h fun staged hstaged => ?_
  cases staged with
  | pending task => exact .pure ⟨hstaged, hnext⟩
  | ready a =>
      refine (hnow a).bind fun r hr => ?_
      cases r <;> exact .pure hr

/-- A function that is called does not return the error later. -/
theorem start_free (hW : LeavesLogsOpen W) {f : AsyncAction} (hf : f.body.NeverUnexpected w)
    (a : Value) : Ensures W (f.start a) fun task => task.FreeOfAsync w N :=
  (noteIf_steady hW f.announce a).ensures.bind fun _ _ => .pure hf

theorem StagesFree.direct {op : Operation} (h : RunsFree W m op) :
    StagesFree W m w N (.direct op) := fun v => (h v).bind fun _ hr => .pure (toStaged_free hr)

theorem StagesFree.ready {op : Operation} (h : RunsFree W m op) :
    StagesFree W m w N (.ready op) := fun v => (h v).bind fun _ hr => .pure (toStaged_free hr)

theorem StagesFree.array {item : ParseOperation} (h : StagesFree W m w N item)
    (expected : Thunk String) : StagesFree W m w N (.array expected item) := by
  intro v
  cases v with
  | array values =>
      refine (stageEach_free fun c hc => ?_).bind fun r hr => .pure (assembled_free hr _)
      obtain ⟨i, a, -, rfl⟩ := mem_indexed_map hc
      exact h a
  | _ => exact .pure trivial

theorem StagesFree.dict {value : ParseOperation} (h : StagesFree W m w N value)
    (expected : Thunk String) : StagesFree W m w N (.dict expected value) := by
  intro v
  cases v with
  | object entries =>
      refine (stageEach_free fun c hc => ?_).bind fun r hr => .pure (assembled_free hr _)
      obtain ⟨key, a, -, rfl⟩ := mem_keyed_map hc
      exact h a
  | _ => exact .pure trivial

theorem StagesFree.tuple {items : List ParseOperation} (h : ∀ op ∈ items, StagesFree W m w N op)
    (expected : Thunk String) : StagesFree W m w N (.tuple expected items) := by
  intro v
  cases v with
  | array values =>
      rw [ParseOperation.stage]
      split
      · rename_i e hsize
        exact .pure (sizeError?_free hsize)
      · refine (stageEach_free fun c hc => ?_).bind fun r hr => .pure (assembled_free hr _)
        rw [stagers_eq_map, List.zipWith_map_left] at hc
        obtain ⟨i, op, a, hop, -, rfl⟩ := mem_indexed_zipWith hc
        exact h op (List.mem_of_getElem? hop) a
  | _ => exact .pure trivial

theorem StagesFree.object {fields : List (String × ParseOperation)}
    (h : ∀ f ∈ fields, StagesFree W m w N f.2) (expected : Thunk String) (policy : UnknownKeys) :
    StagesFree W m w N (.object expected fields policy) := by
  intro v
  cases v with
  | object entries =>
      rw [ParseOperation.stage, fieldStagers_eq_map]
      have hfields : Ensures W
          (stageFields (fields.map fun f => (f.1, f.2.stage m)) entries) fun r =>
            AllStagedFree w N (r.map Prod.fst) :=
        stageFields_free (List.forall_mem_map.2 h) entries
      refine hfields.bind fun r hr => ?_
      · rcases r with e | ⟨children, left⟩
        · exact .pure hr
        · dsimp only
          split
          · rename_i e hexcess
            exact .pure (excessError?_free hexcess)
          · exact .pure (assembled_free (r := .ok children) hr _)
  | _ => exact .pure trivial

theorem StagesFree.unlessNull {inner : ParseOperation} (h : StagesFree W m w N inner) :
    StagesFree W m w N (.unlessNull inner) := by
  intro v
  cases v with
  | null => exact .pure trivial
  | _ => exact h _

theorem StagesFree.union {members : List ParseOperation}
    (h : ∀ op ∈ members, StagesFree W m w N op) : StagesFree W m w N (.union members) := by
  intro v
  rw [ParseOperation.stage, stagers_eq_map]
  exact (stageMembers_free (List.forall_mem_map.2 fun op hop => h op hop v)).bind
    fun outcomes houtcomes => .pure (resolveMembers_free houtcomes)

theorem StagesFree.decodeText {inner : ParseOperation} (h : StagesFree W m w N inner)
    (expected : Thunk String) : StagesFree W m w N (.decodeText expected inner) := by
  intro v
  rw [ParseOperation.stage]
  split
  · rename_i e hread
    exact .pure (decodeDocument_free hread)
  · exact h _

/-- Effects around a schema whose operation does not come to the error. -/
theorem Effect.stageAround_free (hm : m.Awaits W w N) {effect : Effect} {t : Schema} (ht : N t)
    (hfunction : (Kind.transformed t effect).NeverUnexpected w)
    (h : StagesFree W m w N (w.planned t)) :
    StagesFree W m w N (effect.stageAround (w.planned t)) := by
  cases effect with
  | transform handlers =>
      simp only [stageAround]
      split
      · rename_i f hf
        have hf := hfunction.direct f hf
        exact fun v => stagedAndThen_free (h v) hf (hm.function f hf)
      · rename_i f hf
        have hf := hfunction.async f hf
        refine fun v => afterStage_free (h v) fun staged hstaged => ?_
        cases staged with
        | ready a => exact (start_free hm.logs hf a).bind fun task htask => .pure htask
        | pending task => exact .pure ⟨hstaged, hf⟩
      · exact .ready (.fail trivial)
  | preprocess handlers =>
      simp only [stageAround]
      split
      · rename_i f hf
        refine fun v => (hm.function f (hfunction.direct f hf) v).bind fun r hr => ?_
        cases r with
        | error e => exact .pure hr
        | ok a => exact h a
      · rename_i f hf
        -- the parse of the base begins when the function has given its value
        exact fun v => (start_free hm.logs (hfunction.async f hf) v).bind fun task htask =>
          .pure ⟨htask, t, ht, rfl⟩
      · exact .ready (.fail trivial)
  | refine message check =>
      cases check with
      | direct test =>
          exact fun v => stagedAndThen_free (h v) trivial (checked_onError hm.logs trivial test)
      | async test => exact fun v => afterStage_free (h v) fun staged hstaged => .pure ⟨hstaged, trivial⟩
  | recover fallback =>
      refine fun v => (h v).bind fun outcome houtcome => ?_
      rcases outcome with e | (a | task)
      · exact .pure trivial
      · exact .pure trivial
      · exact .pure houtcome
  | variant external internal =>
      exact fun v => stagedAndThen_free (h v) trivial fun a => .pure trivial
  | getOr supply =>
      exact fun v => stagedAndThen_free (h v) trivial fun a =>
        (supply.orElse_steady hm.logs a).ensures.bind fun x _ => .pure trivial

/-- **The operation of a kind that waits does not come to the error**, if no operation below does:
each is taken as it is. -/
theorem Kind.stagedParser_free (hm : m.Awaits W w N) {s : Schema} (hs : N s)
    (hchildren : ∀ t ∈ s.children, N t) (hfunction : s.kind.NeverUnexpected w) {w₁ : World}
    {id : NodeId} (hbelow : ∀ t ∈ s.children, StagesFree W m w N (w.planned t))
    (hasync : w.ReachesAsync s) : StagesFree W m w N (s.kind.stagedParser w₁ id w.planned) := by
  rw [Schema.children] at hbelow hchildren
  cases hkind : s.kind with
  | unknown | json => exact .ready fun v => .pure trivial
  | never | unit | string | bool | int | float => exact .ready (.scalar _ _ _)
  | literal l => exact .ready (.literal _ _)
  | array t | dict t | option t | null t | nullable t | jsonString t =>
      rw [hkind] at hbelow
      have ht := hbelow t (List.mem_singleton_self t)
      first
      | exact .array ht _
      | exact .dict ht _
      | exact .unlessNull ht
      | exact .decodeText ht _
  | object fields own =>
      rw [hkind] at hbelow
      refine .object (fun f hf => ?_) _ _
      obtain ⟨g, hg, rfl⟩ := List.mem_map.1 hf
      exact hbelow g.2 (List.mem_map_of_mem hg)
  | tuple items =>
      rw [hkind] at hbelow
      exact .tuple (List.forall_mem_map.2 hbelow) _
  | union members =>
      rw [hkind] at hbelow
      refine .union (List.forall_mem_map.2 fun t ht => ?_)
      rw [memberParser]
      split
      · exact .direct (.fail trivial)
      · exact hbelow t ht
  | custom name handlers =>
      rw [hkind] at hfunction
      simp only [stagedParser]
      split
      · rename_i f hf
        exact fun v => (start_free hm.logs (hfunction.async f hf) v).bind fun task htask =>
          .pure htask
      · -- what waits here is the function itself
        rename_i hnone
        rcases World.reachesAsync_cases hasync with hown | ⟨t, ht, -⟩
        · simp only [hkind, isAsync, Handlers.isAsync] at hown
          cases hown
        · simp [World.Leads, hkind, Kind.successors, Kind.children] at ht
  | transformed base effect =>
      rw [hkind] at hbelow hfunction hchildren
      exact Effect.stageAround_free hm (hchildren base (List.mem_singleton_self base)) hfunction
        (hbelow base (List.mem_singleton_self base))
  | recursive r =>
      rw [stagedParser, followStaged]
      split
      · exact hm.stage s r hs hkind
      · exact .ready (.fail trivial)

/-! ### Polling -/

theorem pollCall_free (hm : m.Awaits W w N) {f : Action} (hf : f.NeverUnexpected w) (waits : Nat)
    (input : Value) :
    Ensures W (pollCall m waits f input) fun p => p.toTask.FreeOfAsync w N := by
  cases waits with
  | succ waits => exact .pure hf
  | zero => exact (hm.function f hf input).bind fun r hr => .pure hr

theorem pollCheck_free (hW : LeavesLogsOpen W) (waits : Nat) (message : String) (test : Test)
    (v : Value) : Ensures W (pollCheck waits message test v) fun p => p.toTask.FreeOfAsync w N := by
  cases waits with
  | succ waits => exact .pure trivial
  | zero => exact (checked_onError hW trivial test v).bind fun r hr => .pure hr

/-- **What happens to the value of a task.** -/
theorem Continuation.resume_free (hm : m.Awaits W w N)
    (hlate : ∀ s, N s → StagesFree W m w N (w.planned s)) {next : Continuation}
    (h : next.FreeOfAsync w N) (v : Value) :
    Ensures W (next.resume m v) fun p => p.toTask.FreeOfAsync w N := by
  cases next with
  | apply f => exact pollCall_free hm h 0 v
  | applyAsync f =>
      exact (noteIf_steady hm.logs f.announce v).ensures.bind fun _ _ =>
        pollCall_free hm h f.waits v
  | parse op =>
      obtain ⟨s, hs, rfl⟩ := h
      refine (hlate s hs v).bind fun outcome houtcome => ?_
      rcases outcome with e | (a | task)
      · exact .pure houtcome
      · exact .pure trivial
      · exact hm.poll task houtcome
  | check message test => exact pollCheck_free hm.logs 0 message test v
  | checkAsync message test => exact pollCheck_free hm.logs test.waits message test.test v
  | constant value => exact .pure trivial
  | orSupply supply =>
      exact (supply.orElse_steady hm.logs v).ensures.bind fun _ _ => .pure trivial

/-- Results at last. -/
theorem sequenceResults_free : ∀ {polls : List Poll} {results : List Result},
    finished? polls = some results → EachFreeOfAsync w N (polls.map Poll.toTask) →
      OnError Error.FreeOfAsync (sequenceResults results)
  | [], _, hfinished, _ => by
      cases hfinished
      trivial
  | .pending _ :: _, _, hfinished, _ => by cases hfinished
  | .ready r :: rest, results, hfinished, h => by
      simp only [finished?, Option.map_eq_some_iff] at hfinished
      obtain ⟨others, hothers, rfl⟩ := hfinished
      have ih := sequenceResults_free hothers h.2
      cases r with
      | error e => exact h.1
      | ok v =>
          rw [sequenceResults]
          cases hseq : sequenceResults others with
          | error e => rwa [hseq] at ih
          | ok vs => trivial

mutual

/-- **One poll keeps a task free of the error.** -/
theorem Task.poll_free (hm : m.Awaits W w N)
    (hlate : ∀ s, N s → StagesFree W m w N (w.planned s)) : ∀ task : Task,
      task.FreeOfAsync w N → Ensures W (task.poll m) fun p => p.toTask.FreeOfAsync w N
  | .done _, h => .pure h
  | .call waits _ input, h => pollCall_free hm h waits input
  | .check waits message test v, _ => pollCheck_free hm.logs waits message test v
  | .andThen task next, h => by
      refine (Task.poll_free hm hlate task h.1).bind fun p hp => ?_
      rcases p with (e | v) | task
      · exact .pure hp
      · exact Continuation.resume_free hm hlate h.2 v
      · exact .pure ⟨hp, h.2⟩
  | .inside s task, h => by
      refine (Task.poll_free hm hlate task h).bind fun p hp => ?_
      rcases p with (e | v) | task
      · exact .pure (Error.FreeOfAsync.prepend hp s)
      · exact .pure trivial
      · exact .pure hp
  | .recover _ _ task, h => by
      refine (Task.poll_free hm hlate task h).bind fun p hp => ?_
      rcases p with (e | v) | task
      · exact .pure trivial
      · exact .pure trivial
      · exact .pure hp
  | .join children assembly, h => by
      refine (pollEach_free hm hlate children h).bind fun polls hpolls => ?_
      cases hfinished : finished? polls with
      | none => exact .pure hpolls
      | some results =>
          have hall := sequenceResults_free hfinished hpolls
          refine .pure ?_
          cases hseq : sequenceResults results with
          | error e => rwa [hseq] at hall
          | ok vs => trivial
  | .firstSuccess errors attempts, h => pollAttempts_free hm hlate attempts errors h.1 h.2

/-- One poll of each child. -/
theorem pollEach_free (hm : m.Awaits W w N)
    (hlate : ∀ s, N s → StagesFree W m w N (w.planned s)) : ∀ tasks : List Task,
      EachFreeOfAsync w N tasks →
        Ensures W (pollEach m tasks) fun polls => EachFreeOfAsync w N (polls.map Poll.toTask)
  | [], _ => .pure trivial
  | task :: rest, h =>
      (Task.poll_free hm hlate task h.1).bind fun _ hp =>
        (pollEach_free hm hlate rest h.2).bind fun _ hpolls => .pure ⟨hp, hpolls⟩

/-- Polls of attempts in order. -/
theorem pollAttempts_free (hm : m.Awaits W w N)
    (hlate : ∀ s, N s → StagesFree W m w N (w.planned s)) : ∀ (tasks : List Task)
      (errors : List Error), (∀ e ∈ errors, e.FreeOfAsync) → EachFreeOfAsync w N tasks →
        Ensures W (pollAttempts m errors tasks) fun p => p.toTask.FreeOfAsync w N
  | [], _, herrors, _ => .pure (Error.FreeOfAsync.invalidUnion herrors .parsing)
  | task :: rest, errors, herrors, h => by
      refine (Task.poll_free hm hlate task h.1).bind fun p hp => ?_
      rcases p with (e | v) | task
      · -- the error joins those of the attempts before it
        refine pollAttempts_free hm hlate rest (errors ++ [e]) ?_ h.2
        exact List.forall_mem_append.2 ⟨herrors, List.forall_mem_singleton.2 hp⟩
      · exact .pure trivial
      · exact .pure ⟨herrors, hp, h.2⟩

end

end Schemata
