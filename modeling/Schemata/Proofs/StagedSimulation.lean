/-
**Parses that wait, compared with others.**

Starting a parse leaves a task, so outcomes are compared up to a relation of tasks.  Two relations
are of use.  One is equality.  The other one takes tasks for the same that differ in how often their
functions have to be asked, and in the operations that go on with a value later, which are related
in turn.  Both pass through everything that starting a parse does with tasks, and this is all that
the congruences below need.

Main definitions:

* `Schemata.Continuation.Like`, `Schemata.Task.Like` — **tasks that differ in how long they wait**;
* `Schemata.Congruent` — relations of tasks that pass through what is done with tasks;
* `Schemata.StagesLike` — parse operations that come to related outcomes on every value.

Main results:

* `Schemata.Task.Like.congruent`, `Schemata.congruent_eq` — the two relations;
* `Schemata.StagesLike.array` and its companions — one congruence for each operation.
-/

import Schemata.Proofs.Lookup
import Schemata.Proofs.Simulation

set_option relaxedAutoImplicit false
set_option autoImplicit false

namespace Schemata

/-! ### Tasks that are alike -/

/-- What happens to a value, up to the time that it takes.  Functions may run schemas bound to
references of `P`, and operations that go on with the value are related by `L`. -/
inductive Continuation.Like (P : Reference → Prop) (L : ParseOperation → ParseOperation → Prop) :
    Continuation → Continuation → Prop
  | apply {f : Action} : (∀ r ∈ f.references, P r) → Like P L (.apply f) (.apply f)
  | applyAsync {f f' : AsyncAction} : f.body = f'.body → f.announce = f'.announce →
      (∀ r ∈ f.body.references, P r) → Like P L (.applyAsync f) (.applyAsync f')
  | parse {op op' : ParseOperation} : L op op' → Like P L (.parse op) (.parse op')
  | check (message : String) (test : Test) : Like P L (.check message test) (.check message test)
  | checkAsync {message : String} {test test' : AsyncTest} : test.test = test'.test →
      Like P L (.checkAsync message test) (.checkAsync message test')
  | constant (value : Value) : Like P L (.constant value) (.constant value)
  | orSupply (supply : Supply) : Like P L (.orSupply supply) (.orSupply supply)

/-- **Tasks that differ in how long they wait.** -/
inductive Task.Like (P : Reference → Prop) (L : ParseOperation → ParseOperation → Prop) :
    Task → Task → Prop
  | done (result : Except Error Value) : Like P L (.done result) (.done result)
  | call (waits waits' : Nat) {f : Action} (input : Value) : (∀ r ∈ f.references, P r) →
      Like P L (.call waits f input) (.call waits' f input)
  | check (waits waits' : Nat) (message : String) (test : Test) (value : Value) :
      Like P L (.check waits message test value) (.check waits' message test value)
  | andThen {t t' : Task} {next next' : Continuation} : Like P L t t' →
      Continuation.Like P L next next' → Like P L (.andThen t next) (.andThen t' next')
  | inside (segment : Segment) {t t' : Task} : Like P L t t' →
      Like P L (.inside segment t) (.inside segment t')
  | recover (fallback : Fallback) (input : Value) {t t' : Task} : Like P L t t' →
      Like P L (.recover fallback input t) (.recover fallback input t')
  | join {ts ts' : List Task} (assembly : Assembly) : List.Forall₂ (Like P L) ts ts' →
      Like P L (.join ts assembly) (.join ts' assembly)
  | firstSuccess (errors : List Error) {ts ts' : List Task} : List.Forall₂ (Like P L) ts ts' →
      Like P L (.firstSuccess errors ts) (.firstSuccess errors ts')

/-- **Relations of tasks and of continuations that pass through what is done with tasks.** -/
structure Congruent (T : Task → Task → Prop) (K : Continuation → Continuation → Prop) : Prop where
  done : ∀ r, T (.done r) (.done r)
  andThen : ∀ {t t' next next'}, T t t' → K next next' → T (.andThen t next) (.andThen t' next')
  inside : ∀ s {t t'}, T t t' → T (.inside s t) (.inside s t')
  recover : ∀ fallback v {t t'}, T t t' → T (.recover fallback v t) (.recover fallback v t')
  join : ∀ assembly {ts ts'}, List.Forall₂ T ts ts' → T (.join ts assembly) (.join ts' assembly)
  firstSuccess : ∀ errors {ts ts'}, List.Forall₂ T ts ts' →
    T (.firstSuccess errors ts) (.firstSuccess errors ts')

theorem Task.Like.congruent (P : Reference → Prop) (L : ParseOperation → ParseOperation → Prop) :
    Congruent (Task.Like P L) (Continuation.Like P L) where
  done := .done
  andThen := .andThen
  inside := .inside
  recover := .recover
  join assembly _ _ h := .join assembly h
  firstSuccess errors _ _ h := .firstSuccess errors h

theorem congruent_eq : Congruent Eq Eq where
  done _ := rfl
  andThen h h' := by rw [h, h']
  inside _ _ _ h := by rw [h]
  recover _ _ _ _ h := by rw [h]
  join _ _ _ h := by rw [List.forall₂_eq_eq_eq] at h; rw [h]
  firstSuccess _ _ _ h := by rw [List.forall₂_eq_eq_eq] at h; rw [h]

/-! ### Outcomes -/

section

variable {W W' : World → Prop} {P : Reference → Prop} {T : Task → Task → Prop}
  {K : Continuation → Continuation → Prop} {m m' : Machine}

/-- Outcomes of which nothing but the task is left. -/
inductive Staged.Like (T : Task → Task → Prop) : Staged → Staged → Prop
  | ready (v : Value) : Staged.Like T (.ready v) (.ready v)
  | pending {t t' : Task} : T t t' → Staged.Like T (.pending t) (.pending t')

theorem Staging.ok {a b : Staged} (h : a.Like T b) : Staging T (.ok a) (.ok b) := by
  cases h with
  | ready v => exact .ready v
  | pending ht => exact .pending ht

theorem Staged.Like.toTask (hT : Congruent T K) {a b : Staged} (h : a.Like T b) :
    T a.toTask b.toTask := by
  cases h with
  | ready v => exact hT.done _
  | pending ht => exact ht

theorem Staged.Like.inside (hT : Congruent T K) {a b : Staged} (h : a.Like T b) (s : Segment) :
    (a.inside s).Like T (b.inside s) := by
  cases h with
  | ready v => exact .ready v
  | pending ht => exact .pending (hT.inside s ht)

/-- Results that are the same leave nothing to compare. -/
theorem Result.staging (r : Result) : Staging T r.toStaged r.toStaged := by
  cases r with
  | error e => exact .error e
  | ok v => exact .ready v

/-- Sequencing after the start of a parse. -/
theorem Mimics.afterStaging {α β : Type} {R : α → β → Prop} {c d : Run (Except Error Staged)}
    {f : Except Error Staged → Run α} {g : Except Error Staged → Run β}
    (h : Mimics W W' (Staging T) c d)
    (he : ∀ e, Mimics W W' R (f (.error e)) (g (.error e)))
    (ha : ∀ a b, Staged.Like T a b → Mimics W W' R (f (.ok a)) (g (.ok b))) :
    Mimics W W' R (c >>= f) (d >>= g) := by
  refine h.bind fun r r' hr => ?_
  cases hr with
  | error e => exact he e
  | ready v => exact ha _ _ (.ready v)
  | pending ht => exact ha _ _ (.pending ht)

/-! ### Children -/

/-- The outcomes of starting children, compared. -/
inductive StagingAll (T : Task → Task → Prop) :
    Except Error (List Staged) → Except Error (List Staged) → Prop
  | error (e : Error) : StagingAll T (.error e) (.error e)
  | ok {as bs : List Staged} : List.Forall₂ (Staged.Like T) as bs → StagingAll T (.ok as) (.ok bs)

theorem stageEach_mimics (hT : Congruent T K) {cs ds : List (Segment × Run (Except Error Staged))}
    (h : List.Forall₂ (fun c d => c.1 = d.1 ∧ Mimics W W' (Staging T) c.2 d.2) cs ds) :
    Mimics W W' (StagingAll T) (stageEach cs) (stageEach ds) := by
  induction h with
  | nil => exact .pure (.ok .nil)
  | @cons c d _ _ hcd _ ih =>
      obtain ⟨s, child⟩ := c
      obtain ⟨s', child'⟩ := d
      obtain ⟨rfl, hcd⟩ := hcd
      refine hcd.afterStaging (fun e => .pure (.error _)) fun a b hab => ?_
      refine ih.bind fun r r' hr => ?_
      cases hr with
      | error e => exact .pure (.error e)
      | ok hrest => exact .pure (.ok (.cons (hab.inside hT s) hrest))

/-- The outcomes of starting fields, compared: what is left of the entries is the same. -/
inductive StagingFields (T : Task → Task → Prop) :
    Except Error (List Staged × List (String × Value)) →
      Except Error (List Staged × List (String × Value)) → Prop
  | error (e : Error) : StagingFields T (.error e) (.error e)
  | ok {as bs : List Staged} (left : List (String × Value)) :
      List.Forall₂ (Staged.Like T) as bs → StagingFields T (.ok (as, left)) (.ok (bs, left))

theorem stageFields_mimics (hT : Congruent T K) {fs gs : List (String × Stager)}
    (h : List.Forall₂ (fun f g => f.1 = g.1 ∧ ∀ v, Mimics W W' (Staging T) (f.2 v) (g.2 v)) fs gs) :
    ∀ entries, Mimics W W' (StagingFields T) (stageFields fs entries) (stageFields gs entries) := by
  induction h with
  | nil => exact fun entries => .pure (.ok entries .nil)
  | @cons f g _ _ hfg _ ih =>
      intro entries
      obtain ⟨name, field⟩ := f
      obtain ⟨name', field'⟩ := g
      obtain ⟨rfl, hfg⟩ := hfg
      refine (hfg _).afterStaging (fun e => .pure (.error _)) fun a b hab => ?_
      refine (ih _).bind fun r r' hr => ?_
      cases hr with
      | error e => exact .pure (.error e)
      | ok left hrest => exact .pure (.ok left (.cons (hab.inside hT _) hrest))

theorem readyValues?_of_forall₂ {as bs : List Staged} (h : List.Forall₂ (Staged.Like T) as bs) :
    readyValues? as = readyValues? bs := by
  induction h with
  | nil => rfl
  | cons hab _ ih =>
      cases hab with
      | ready v => rw [readyValues?, readyValues?, ih]
      | pending _ => rfl

theorem assemble_like (hT : Congruent T K) (assembly : Assembly) {as bs : List Staged}
    (h : List.Forall₂ (Staged.Like T) as bs) :
    (assemble assembly as).Like T (assemble assembly bs) := by
  -- whether a composite waits depends on which children are ready, and these are the same
  rw [assemble, assemble, readyValues?_of_forall₂ h]
  split
  · exact .ready _
  · exact .pending (hT.join assembly (forall₂_map h fun _ _ hab => hab.toTask hT))

theorem assembled_staging (hT : Congruent T K) (assembly : Assembly)
    {r r' : Except Error (List Staged)} (h : StagingAll T r r') :
    Staging T (assembled assembly r) (assembled assembly r') := by
  cases h with
  | error e => exact .error e
  | ok hall => exact .ok (assemble_like hT assembly hall)

/-! ### Members -/

theorem stageMembers_mimics {v : Value} {xs ys : List Stager}
    (h : List.Forall₂ (fun x y => Mimics W W' (Staging T) (x v) (y v)) xs ys) :
    Mimics W W' (List.Forall₂ (Staging T)) (stageMembers v xs) (stageMembers v ys) := by
  induction h with
  | nil => exact .pure .nil
  | cons hxy _ ih =>
      refine hxy.bind fun r r' hr => ?_
      cases hr with
      | ready a => exact .pure (.cons (.ready a) .nil)
      | error e => exact ih.bind fun _ _ hrest => .pure (.cons (.error e) hrest)
      | pending ht => exact ih.bind fun _ _ hrest => .pure (.cons (.pending ht) hrest)

theorem Staging.outcomeTask (hT : Congruent T K) {r r' : Except Error Staged}
    (h : Staging T r r') : T (Schemata.outcomeTask r) (Schemata.outcomeTask r') := by
  cases h with
  | error e => exact hT.done _
  | ready v => exact hT.done _
  | pending ht => exact ht

theorem readyAfterErrors?_of_forall₂ {rs rs' : List (Except Error Staged)}
    (h : List.Forall₂ (Staging T) rs rs') : readyAfterErrors? rs = readyAfterErrors? rs' := by
  induction h with
  | nil => rfl
  | cons hr _ ih =>
      cases hr with
      | error e => rw [readyAfterErrors?, readyAfterErrors?, ih]
      | ready v => rfl
      | pending _ => rfl

theorem allErrors?_of_forall₂ {rs rs' : List (Except Error Staged)}
    (h : List.Forall₂ (Staging T) rs rs') : allErrors? rs = allErrors? rs' := by
  induction h with
  | nil => rfl
  | cons hr _ ih =>
      cases hr with
      | error e => rw [allErrors?, allErrors?, ih]
      | ready v => rfl
      | pending _ => rfl

theorem resolveMembers_staging (hT : Congruent T K) {rs rs' : List (Except Error Staged)}
    (h : List.Forall₂ (Staging T) rs rs') : Staging T (resolveMembers rs) (resolveMembers rs') := by
  rw [resolveMembers, resolveMembers, readyAfterErrors?_of_forall₂ h, allErrors?_of_forall₂ h]
  split
  · exact .ready _
  · split
    · exact .error _
    · exact .pending (hT.firstSuccess [] (forall₂_map h fun _ _ hr => hr.outcomeTask hT))

/-! ### Parse operations -/

/-- **Parse operations that come to related outcomes on every value.** -/
def StagesLike (W W' : World → Prop) (T : Task → Task → Prop) (m m' : Machine)
    (op op' : ParseOperation) : Prop :=
  ∀ v, Mimics W W' (Staging T) (op.stage m v) (op'.stage m' v)

/-- What is done to the value of a base, at once or later. -/
theorem Staged.Like.andThen (hT : Congruent T K) {a b : Staged} (h : a.Like T b)
    {next next' : Continuation} (hnext : K next next') {now now' : Value → Run Result}
    (hnow : ∀ v, Mimics W W' Eq (now v) (now' v)) :
    Mimics W W' (Staging T) (a.andThen next now) (b.andThen next' now') := by
  cases h with
  | pending ht => exact .pure (.pending (hT.andThen ht hnext))
  | ready v =>
      refine (hnow v).andThen fun r => ?_
      cases r with
      | error e => exact .pure (.error e)
      | ok a => exact .pure (.ready a)

theorem afterStage_mimics {c d : Run (Except Error Staged)}
    {f g : Staged → Run (Except Error Staged)} (h : Mimics W W' (Staging T) c d)
    (hfg : ∀ a b, Staged.Like T a b → Mimics W W' (Staging T) (f a) (g b)) :
    Mimics W W' (Staging T) (afterStage c f) (afterStage d g) :=
  h.afterStaging (fun e => .pure (.error e)) hfg

namespace StagesLike

variable {item item' base base' inner inner' : ParseOperation}
  {items items' : List ParseOperation} {fields fields' : List (String × ParseOperation)}

theorem direct {op op' : Operation} (h : RunsLike W W' m m' op op') :
    StagesLike W W' T m m' (.direct op) (.direct op') := fun v =>
  (h v).andThen fun r => .pure r.staging

theorem ready {op op' : Operation} (h : RunsLike W W' m m' op op') :
    StagesLike W W' T m m' (.ready op) (.ready op') := fun v =>
  (h v).andThen fun r => .pure r.staging

theorem array (hT : Congruent T K) (h : StagesLike W W' T m m' item item')
    (expected : Thunk String) :
    StagesLike W W' T m m' (.array expected item) (.array expected item') := by
  intro v
  cases v with
  | array values =>
      simp only [ParseOperation.stage]
      exact (stageEach_mimics hT (forall₂_indexed (forall₂_map_map fun a _ => h a))).bind
        fun _ _ hr => .pure (assembled_staging hT .array hr)
  | _ => exact .pure (.error _)

theorem dict (hT : Congruent T K) (h : StagesLike W W' T m m' item item')
    (expected : Thunk String) :
    StagesLike W W' T m m' (.dict expected item) (.dict expected item') := by
  intro v
  cases v with
  | object entries =>
      simp only [ParseOperation.stage]
      refine (stageEach_mimics hT (forall₂_keyed (forall₂_map_map fun e _ => ?_))).bind
        fun _ _ hr => .pure (assembled_staging hT _ hr)
      exact ⟨rfl, h e.2⟩
  | _ => exact .pure (.error _)

theorem stagers (h : List.Forall₂ (StagesLike W W' T m m') items items') :
    List.Forall₂ (fun x y => ∀ v, Mimics W W' (Staging T) (x v) (y v)) (stagers m items)
      (stagers m' items') := by
  rw [stagers_eq_map, stagers_eq_map]
  exact forall₂_map h fun _ _ hop => hop

theorem fieldStagers
    (h : List.Forall₂ (fun f g => f.1 = g.1 ∧ StagesLike W W' T m m' f.2 g.2) fields fields') :
    List.Forall₂ (fun x y => x.1 = y.1 ∧ ∀ v, Mimics W W' (Staging T) (x.2 v) (y.2 v))
      (fieldStagers m fields) (fieldStagers m' fields') := by
  rw [fieldStagers_eq_map, fieldStagers_eq_map]
  exact forall₂_map h fun _ _ hop => hop

theorem tuple (hT : Congruent T K) (h : List.Forall₂ (StagesLike W W' T m m') items items')
    (expected : Thunk String) :
    StagesLike W W' T m m' (.tuple expected items) (.tuple expected items') := by
  intro v
  cases v with
  | array values =>
      simp only [ParseOperation.stage, h.length_eq]
      split
      · exact .pure (.error _)
      · exact (stageEach_mimics hT (forall₂_indexed (forall₂_zipWith_apply (stagers h)))).bind
          fun _ _ hr => .pure (assembled_staging hT .array hr)
  | _ => exact .pure (.error _)

theorem object (hT : Congruent T K)
    (h : List.Forall₂ (fun f g => f.1 = g.1 ∧ StagesLike W W' T m m' f.2 g.2) fields fields')
    (expected : Thunk String) (policy : UnknownKeys) :
    StagesLike W W' T m m' (.object expected fields policy) (.object expected fields' policy) := by
  intro v
  cases v with
  | object entries =>
      simp only [ParseOperation.stage]
      rw [Entries.keys_eq_of_forall₂ h]
      refine (stageFields_mimics hT (fieldStagers h) entries).bind fun r r' hr => ?_
      cases hr with
      | error e => exact .pure (.error e)
      | ok left hall =>
          dsimp only
          split
          · exact .pure (.error _)
          · exact .pure (.ok (assemble_like hT _ hall))
  | _ => exact .pure (.error _)

theorem unlessNull (h : StagesLike W W' T m m' inner inner') :
    StagesLike W W' T m m' (.unlessNull inner) (.unlessNull inner') := by
  intro v
  cases v with
  | null => exact .pure (.ready _)
  | _ => exact h _

theorem union (hT : Congruent T K) (h : List.Forall₂ (StagesLike W W' T m m') items items') :
    StagesLike W W' T m m' (.union items) (.union items') := fun v =>
  (stageMembers_mimics ((stagers h).imp fun _ _ hxy => hxy v)).bind fun _ _ hr =>
    .pure (resolveMembers_staging hT hr)

theorem decodeText (h : StagesLike W W' T m m' inner inner') (expected : Thunk String) :
    StagesLike W W' T m m' (.decodeText expected inner) (.decodeText expected inner') := by
  intro v
  simp only [ParseOperation.stage]
  split
  · exact .pure (.error _)
  · exact h _

theorem recover (hT : Congruent T K) (h : StagesLike W W' T m m' base base')
    (fallback : Fallback) :
    StagesLike W W' T m m' (.recover fallback base) (.recover fallback base') := by
  intro v
  refine (h v).afterStaging (fun e => .pure (.ready _)) fun a b hab => ?_
  cases hab with
  | ready a => exact .pure (.ready a)
  | pending ht => exact .pure (.pending (hT.recover fallback v ht))

theorem thenConstant (hT : Congruent T K) (h : StagesLike W W' T m m' base base') {value : Value}
    (hK : K (.constant value) (.constant value)) :
    StagesLike W W' T m m' (.thenConstant value base) (.thenConstant value base') := fun v =>
  afterStage_mimics (h v) fun _ _ hab => hab.andThen hT hK fun _ => .pure rfl

section

variable (hm : MachinesAlike W W' P T m m')

include hm

/-- A function that is called, however often it has to be asked. -/
theorem start {f f' : AsyncAction} (ha : f.announce = f'.announce)
    (hcall : ∀ v, T (.call f.waits f.body v) (.call f'.waits f'.body v)) (v : Value) :
    Mimics W W' T (f.start v) (f'.start v) := by
  rw [AsyncAction.start, AsyncAction.start, ha]
  exact (noteIf_mimics hm.logs hm.logs' f'.announce v).andThen fun _ => .pure (hcall v)

theorem applyAsync {f f' : AsyncAction} (ha : f.announce = f'.announce)
    (hcall : ∀ v, T (.call f.waits f.body v) (.call f'.waits f'.body v)) :
    StagesLike W W' T m m' (.applyAsync f) (.applyAsync f') := fun v =>
  (start hm ha hcall v).bind fun _ _ ht => .pure (.pending ht)

theorem thenApply (hT : Congruent T K) (h : StagesLike W W' T m m' base base') {f : Action}
    (hf : ∀ r ∈ f.references, P r) (hK : K (.apply f) (.apply f)) :
    StagesLike W W' T m m' (.thenApply base f) (.thenApply base' f) := fun v =>
  afterStage_mimics (h v) fun _ _ hab => hab.andThen hT hK (hm.runAs hf .parsing)

theorem thenApplyAsync (hT : Congruent T K) (h : StagesLike W W' T m m' base base')
    {f f' : AsyncAction} (ha : f.announce = f'.announce)
    (hcall : ∀ v, T (.call f.waits f.body v) (.call f'.waits f'.body v))
    (hK : K (.applyAsync f) (.applyAsync f')) :
    StagesLike W W' T m m' (.thenApplyAsync base f) (.thenApplyAsync base' f') := by
  intro v
  refine afterStage_mimics (h v) fun a b hab => ?_
  cases hab with
  | ready a => exact (start hm ha hcall a).bind fun _ _ ht => .pure (.pending ht)
  | pending ht => exact .pure (.pending (hT.andThen ht hK))

theorem applyFirst (h : StagesLike W W' T m m' base base') {f : Action}
    (hf : ∀ r ∈ f.references, P r) :
    StagesLike W W' T m m' (.applyFirst f base) (.applyFirst f base') := by
  intro v
  refine (hm.runAs hf .parsing v).andThen fun r => ?_
  cases r with
  | error e => exact .pure (.error e)
  | ok a => exact h a

theorem applyAsyncFirst (hT : Congruent T K) {f f' : AsyncAction} (ha : f.announce = f'.announce)
    (hcall : ∀ v, T (.call f.waits f.body v) (.call f'.waits f'.body v))
    (hK : K (.parse base) (.parse base')) :
    StagesLike W W' T m m' (.applyAsyncFirst f base) (.applyAsyncFirst f' base') := fun v =>
  (start hm ha hcall v).bind fun _ _ ht => .pure (.pending (hT.andThen ht hK))

theorem thenCheck (hT : Congruent T K) (h : StagesLike W W' T m m' base base') {message : String}
    {test : Test} (hK : K (.check message test) (.check message test)) :
    StagesLike W W' T m m' (.thenCheck message test base) (.thenCheck message test base') :=
  fun v => afterStage_mimics (h v) fun _ _ hab =>
    hab.andThen hT hK (hm.checked .parsing message test)

omit hm in
theorem thenCheckAsync (hT : Congruent T K) (h : StagesLike W W' T m m' base base')
    {message : String} {test test' : AsyncTest}
    (hK : K (.checkAsync message test) (.checkAsync message test')) :
    StagesLike W W' T m m' (.thenCheckAsync message test base)
      (.thenCheckAsync message test' base') := fun v =>
  afterStage_mimics (h v) fun _ _ hab => .pure (.pending (hT.andThen (hab.toTask hT) hK))

theorem orSupply (hT : Congruent T K) (h : StagesLike W W' T m m' base base') {supply : Supply}
    (hK : K (.orSupply supply) (.orSupply supply)) :
    StagesLike W W' T m m' (.orSupply supply base) (.orSupply supply base') := fun v =>
  afterStage_mimics (h v) fun _ _ hab => hab.andThen hT hK fun a =>
    (hm.orElse supply a).andThen fun _ => .pure rfl

theorem follow {r : Reference} (hr : P r) :
    StagesLike W W' T m m' (.follow r) (.follow r) := hm.stage r hr

end

end StagesLike

/-- **Starting a parse is mimicked** where it is for the planned operation. -/
theorem Schema.stageOn_mimics {w₀ w₀' : World} {N N' : Schema → Prop} {s s' : Schema}
    (hc : w₀.Compiles N W) (hc' : w₀'.Compiles N' W') (hs : N s) (hs' : N' s')
    (h : StagesLike W W' T m m' (w₀.planned s) (w₀'.planned s')) (v : Value) :
    Mimics W W' (Staging T) (s.stageOn m v) (s'.stageOn m' v) := by
  refine ((hc.parse s hs).mimics (hc'.parse s' hs')
    (R := fun c d => c = w₀.parsePlan s ∧ d = w₀'.parsePlan s') ⟨rfl, rfl⟩).bind ?_
  rintro _ _ ⟨rfl, rfl⟩
  exact h v

end

end Schemata
