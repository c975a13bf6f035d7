/-
**Guarded recursion ends where parses wait.**

Starting an operation ends when starting those inside it does, and what it leaves to do has a
conclusion when what they leave has.  A parse that begins late is one of those inside: it is run on
a value made anew, which a guarded graph does only where there is no way back.  So the induction
along what is handed on reaches it too, and a task with a conclusion ends however long its functions
make it wait.

Main definitions:

* `Schemata.SettlesOn` — a computation that ends, with a result of which something holds;
* `Schemata.Task.HasConclusion`, `Schemata.EndsLater` — what is left to do has a conclusion;
* `Schemata.ParseOperation.Ends` — an operation whose parse ends, sooner or later.

Main results:

* `Schemata.Kind.stagedParser_ends` — the operation of a kind ends when what is handed on ends;
* `Schemata.Scene.Guarded.parseAsync_comes` — **in a guarded graph a parse that waits comes to a
  result**;
* `Schemata.Scene.Guarded.synchronous_parse_comes` — and so does a parse with the synchronous form.
-/

import Schemata.Proofs.StagedUnion
import Schemata.Proofs.Synchronous

set_option relaxedAutoImplicit false
set_option autoImplicit false

namespace Schemata

/-! ### Computations with fuel enough -/

/-- **With fuel enough the computation gives one result, and the property holds of it.** -/
def SettlesOn {α : Type} (W : World → Prop) (P : α → Prop) (c : Nat → Run α) : Prop :=
  ∃ n a, P a ∧ ∀ fuel ≥ n, Gives W (c fuel) a

section

variable {α β : Type} {W : World → Prop} {P : α → Prop} {Q : β → Prop}

theorem SettlesOn.pure {a : α} (h : P a) : SettlesOn W P fun _ => (pure a : Run α) :=
  ⟨0, a, h, fun _ _ => .pure a⟩

/-- **Sequencing.** -/
theorem SettlesOn.bind {c : Nat → Run α} {f : Nat → α → Run β} (hc : SettlesOn W P c)
    (hf : ∀ a, P a → SettlesOn W Q fun fuel => f fuel a) :
    SettlesOn W Q fun fuel => c fuel >>= f fuel := by
  obtain ⟨n, a, ha, hn⟩ := hc
  obtain ⟨k, b, hb, hk⟩ := hf a ha
  exact ⟨max n k, b, hb, fun fuel hfuel =>
    (hn fuel (le_of_max_le_left hfuel)).bind (hk fuel (le_of_max_le_right hfuel))⟩

/-- Something done with the result of a computation that settles. -/
theorem Settles.followed {c : Nat → Run α} {f : Nat → α → Run β} (hc : Settles W c)
    (hf : ∀ a, SettlesOn W Q fun fuel => f fuel a) :
    SettlesOn W Q fun fuel => c fuel >>= f fuel := by
  obtain ⟨n, a, hn⟩ := hc
  exact SettlesOn.bind (P := fun _ => True) ⟨n, a, trivial, hn⟩ fun a _ => hf a

/-- What takes one more unit of fuel settles as well. -/
theorem SettlesOn.succ {c c' : Nat → Run α} (hc : SettlesOn W P c)
    (h : ∀ fuel w, W w → c' (fuel + 1) w = c fuel w) : SettlesOn W P c' := by
  obtain ⟨n, a, ha, hn⟩ := hc
  refine ⟨n + 1, a, ha, fun fuel hfuel => ?_⟩
  obtain ⟨fuel, rfl⟩ := Nat.exists_eq_succ_of_ne_zero (Nat.ne_zero_of_lt hfuel)
  exact (hn fuel (Nat.le_of_succ_le_succ hfuel)).congr (h fuel)

theorem Settles.yields {c : Nat → Run α} (h : Settles W c) : ∃ a, Yields W c a := by
  obtain ⟨n, a, hn⟩ := h
  exact ⟨a, n, hn n le_rfl⟩

theorem SettlesOn.yields {c : Nat → Run α} (h : SettlesOn W P c) : ∃ a, Yields W c a ∧ P a := by
  obtain ⟨n, a, ha, hn⟩ := h
  exact ⟨a, ⟨n, hn n le_rfl⟩, ha⟩

end

/-! ### What is left to do -/

/-- **The task has a conclusion.** -/
def Task.HasConclusion (W : World → Prop) (t : Task) : Prop := ∃ r, t.Concludes W r

/-- What becomes of the value has a conclusion. -/
def Continuation.HasConclusion (W : World → Prop) (next : Continuation) (v : Value) : Prop :=
  ∃ r, next.Concludes W v r

/-- What is left to do after starting a parse has a conclusion. -/
def EndsLater (W : World → Prop) (outcome : Except Error Staged) : Prop :=
  (outcomeTask outcome).HasConclusion W

/-- **Parsing the value ends, sooner or later**: starting it does, and what is left has a
conclusion. -/
abbrev ParseOperation.Ends (W : World → Prop) (op : ParseOperation) (v : Value) : Prop :=
  SettlesOn W (EndsLater W) fun fuel => op.stage (machine fuel) v

/-- What is left to do for each child has a conclusion, if all have started. -/
def ChildrenEnd (W : World → Prop) : Except Error (List Staged) → Prop
  | .ok children => ∀ c ∈ children, c.toTask.HasConclusion W
  | .error _ => True

section

variable {W : World → Prop}

theorem Task.HasConclusion.done (r : Result) : (Task.done r).HasConclusion W := ⟨r, .pure r⟩

theorem EndsLater.error (e : Error) : EndsLater W (.error e) := .done _

theorem EndsLater.ready (a : Value) : EndsLater W (.ok (.ready a)) := .done _

theorem EndsLater.toStaged (r : Result) : EndsLater W r.toStaged := by
  cases r with
  | error e => exact .error e
  | ok a => exact .ready a

theorem Task.HasConclusion.call {f : Action} {v : Value}
    (hf : Settles W fun fuel => f.runAs (machine fuel) .parsing v) (waits : Nat) :
    (Task.call waits f v).HasConclusion W := hf.yields

end

section

variable {W : World → Prop} {w : World} (hfuel : FuelHelps W) (hw : W w)

include hfuel hw

theorem Task.HasConclusion.andThen {t : Task} {next : Continuation} (ht : t.HasConclusion W)
    (hnext : ∀ a, next.HasConclusion W a) : (Task.andThen t next).HasConclusion W := by
  obtain ⟨r, hr⟩ := ht
  cases r with
  | error e => exact ⟨_, hr.andThen_error hfuel hw next⟩
  | ok a =>
      obtain ⟨x, hx⟩ := hnext a
      exact ⟨x, hr.andThen hfuel hw hx⟩

theorem Task.HasConclusion.recover {t : Task} (ht : t.HasConclusion W) (fallback : Fallback)
    (input : Value) : (Task.recover fallback input t).HasConclusion W := by
  obtain ⟨r, hr⟩ := ht
  cases r with
  | error e => exact ⟨_, Yields.bind hr (.pure _) (hfuel.conclude_rising t) (.pure _) hw⟩
  | ok a => exact ⟨_, Yields.bind hr (.pure _) (hfuel.conclude_rising t) (.pure _) hw⟩

theorem Staged.inside_hasConclusion {staged : Staged} (h : staged.toTask.HasConclusion W)
    (s : Segment) : (staged.inside s).toTask.HasConclusion W := by
  obtain ⟨r, hr⟩ := h
  exact ⟨_, (inside_concludes_iff hw hfuel).2 ⟨r, hr, rfl⟩⟩

theorem ChildrenEnd.assembled {r : Except Error (List Staged)} (h : ChildrenEnd W r)
    (assembly : Assembly) : EndsLater W (assembled assembly r) := by
  cases r with
  | error e => exact .error e
  | ok children =>
      obtain ⟨rs, hrs⟩ := exists_forall₂ h
      exact ⟨_, (assemble_concludes_iff hw hfuel).2 ⟨rs, hrs, rfl⟩⟩

theorem resolveMembers_endsLater {outcomes : List (Except Error Staged)}
    (h : ∀ o ∈ outcomes, EndsLater W o) : EndsLater W (resolveMembers outcomes) := by
  obtain ⟨rs, hrs⟩ := exists_forall₂ h
  exact ⟨_, resolveMembers_concludes hw hfuel hrs⟩

/-- A parse that begins late has a conclusion if parsing the value then ends. -/
theorem Continuation.HasConclusion.parse {op : ParseOperation} {v : Value} (h : op.Ends W v) :
    (Continuation.parse op).HasConclusion W v := by
  obtain ⟨outcome, houtcome, r, hr⟩ := h.yields
  refine ⟨r, Yields.bind houtcome ?_ (hfuel.stage_rising op v) (hfuel.late_rising outcome) hw⟩
  cases outcome with
  | error e =>
      rw [hr.of_done hw]
      exact .pure _
  | ok staged => exact hr.concluding

end

/-! ### Children, fields and members -/

section

variable {W : World → Prop} {w : World} (hfuel : FuelHelps W) (hw : W w)

include hfuel hw

theorem stageEach_settlesOn {ι : Type} {segment : ι → Segment}
    {child : ι → Nat → Run (Except Error Staged)} :
    ∀ {items : List ι}, (∀ i ∈ items, SettlesOn W (EndsLater W) (child i)) →
      SettlesOn W (ChildrenEnd W) fun fuel =>
        stageEach (items.map fun i => (segment i, child i fuel))
  | [], _ => .pure fun _ hc => nomatch hc
  | i :: rest, h => by
      have ih : SettlesOn W (ChildrenEnd W) fun fuel =>
          stageEach (rest.map fun i => (segment i, child i fuel)) :=
        stageEach_settlesOn fun j hj => h j (List.mem_cons_of_mem _ hj)
      refine (h i (List.mem_cons_self ..)).bind fun outcome houtcome => ?_
      cases outcome with
      | error e => exact .pure trivial
      | ok staged =>
          refine ih.bind fun others hothers => ?_
          cases others with
          | error e => exact .pure trivial
          | ok others =>
              exact .pure (List.forall_mem_cons.2
                ⟨Staged.inside_hasConclusion hfuel hw houtcome _, hothers⟩)

/-- Fields are started on what an object contains, whatever has been taken out of it before. -/
theorem stageFields_settlesOn {all : List (String × Value)} :
    ∀ {fields : List (String × (Nat → Stager))} {entries : List (String × Value)},
      entries ⊆ all →
      (∀ f ∈ fields, ∀ a, (Value.object all).Contains a →
        SettlesOn W (EndsLater W) fun fuel => f.2 fuel a) →
      SettlesOn W (fun r => ChildrenEnd W (r.map Prod.fst)) fun fuel =>
        stageFields (fields.map fun f => (f.1, f.2 fuel)) entries
  | [], _, _, _ => .pure fun _ hc => nomatch hc
  | (name, field) :: rest, entries, hsub, h => by
      have hleft : Entries.remove name entries ⊆ all := fun e he =>
        hsub (Entries.mem_of_mem_remove he)
      have ih := stageFields_settlesOn hleft fun f hf => h f (List.mem_cons_of_mem _ hf)
      refine (h _ (List.mem_cons_self ..) _ (.field hsub name)).bind fun outcome houtcome => ?_
      cases outcome with
      | error e => exact .pure trivial
      | ok staged =>
          refine ih.bind fun others hothers => ?_
          cases others with
          | error e => exact .pure trivial
          | ok others =>
              exact .pure (List.forall_mem_cons.2
                ⟨Staged.inside_hasConclusion hfuel hw houtcome _, hothers⟩)

omit hfuel hw in
theorem stageMembers_settlesOn {v : Value} : ∀ {members : List (Nat → Stager)},
    (∀ member ∈ members, SettlesOn W (EndsLater W) fun fuel => member fuel v) →
      SettlesOn W (fun outcomes => ∀ o ∈ outcomes, EndsLater W o) fun fuel =>
        stageMembers v (members.map fun member => member fuel)
  | [], _ => .pure fun _ ho => nomatch ho
  | member :: rest, h => by
      have ih := stageMembers_settlesOn fun x hx => h x (List.mem_cons_of_mem _ hx)
      refine (h member (List.mem_cons_self ..)).bind fun outcome houtcome => ?_
      rcases outcome with e | (a | t)
      · exact ih.bind fun others hothers => .pure (List.forall_mem_cons.2 ⟨houtcome, hothers⟩)
      -- a member that is ready is the last to be started
      · exact .pure (List.forall_mem_singleton.2 houtcome)
      · exact ih.bind fun others hothers => .pure (List.forall_mem_cons.2 ⟨houtcome, hothers⟩)

/-! ### After a base -/

omit hfuel hw in
theorem afterStage_settlesOn {base : Nat → Run (Except Error Staged)}
    {next : Nat → Staged → Run (Except Error Staged)} (hbase : SettlesOn W (EndsLater W) base)
    (hnext : ∀ staged : Staged, staged.toTask.HasConclusion W →
      SettlesOn W (EndsLater W) fun fuel => next fuel staged) :
    SettlesOn W (EndsLater W) fun fuel => afterStage (base fuel) (next fuel) := by
  refine hbase.bind fun outcome houtcome => ?_
  cases outcome with
  | error e => exact .pure (.error e)
  | ok staged => exact hnext staged houtcome

/-- What is done to the value of a base ends, at once or later. -/
theorem Staged.andThen_settlesOn {staged : Staged} {next : Continuation}
    {now : Nat → Value → Run Result} (h : staged.toTask.HasConclusion W)
    (hnext : ∀ a, next.HasConclusion W a) (hnow : ∀ a, Settles W fun fuel => now fuel a) :
    SettlesOn W (EndsLater W) fun fuel => staged.andThen next (now fuel) := by
  cases staged with
  | ready a =>
      refine (hnow a).followed fun r => ?_
      cases r with
      | error e => exact .pure (.error e)
      | ok b => exact .pure (.ready b)
  | pending t => exact .pure (h.andThen hfuel hw hnext)

end

/-! ### Functions -/

section

variable {W : World → Prop} {w : World}

theorem Handlers.Total.of_synchronous {h : Handlers} (htotal : h.synchronous.Total w) :
    h.Total w where
  parser f hf := htotal.parser f (by rw [Handlers.synchronous, hf]; rfl)
  serializer := htotal.serializer

/-- The body of an asynchronous function of the pair ends. -/
theorem Handlers.Total.body {h : Handlers} (htotal : h.synchronous.Total w) {f : AsyncAction}
    (hf : h.parser = some (.async f)) : f.body.Total w :=
  htotal.parser f.body (by rw [Handlers.synchronous, hf]; rfl)

/-- The functions of the synchronous form are those of the kind, and those that it waits for. -/
theorem Kind.Total.of_synchronous {kind : Kind} (h : kind.synchronous.Total w) : kind.Total w := by
  cases kind with
  | custom name handlers => exact Handlers.Total.of_synchronous h
  | transformed base effect =>
      cases effect with
      | transform handlers | preprocess handlers => exact Handlers.Total.of_synchronous h
      | _ => trivial
  | _ => trivial

/-- Pure functions end. -/
theorem Action.Pure.total {f : Action} (h : f.Pure) (w : World) : f.Total w := fun v =>
  ⟨0, f.outcome v, fun fuel _ => ⟨w, by rw [Action.run_pure _ h]; rfl⟩⟩

theorem Handlers.Pure.total {h : Handlers} (hpure : h.Pure) (w : World) : h.Total w where
  parser f hf := (hpure.parser _ hf : f.Pure).total w
  serializer f hf := (hpure.serializer f hf).total w

theorem Kind.Pure.total {kind : Kind} (h : kind.Pure) (w : World) : kind.Total w := by
  cases kind with
  | custom name handlers => exact Handlers.Pure.total h w
  | transformed base effect =>
      cases effect with
      | transform handlers | preprocess handlers => exact Handlers.Pure.total h w
      | _ => trivial
  | _ => trivial

/-- Calling an asynchronous function leaves its call. -/
theorem World.Carries.start_settlesOn (hW : w.Carries W) {f : AsyncAction} (hf : f.body.Total w)
    (v : Value) : SettlesOn W (Task.HasConclusion W) fun _ => f.start v :=
  (noteIf_gives hW.logs f.announce v).settles.followed fun _ =>
    .pure (.call (hW.runAs hf .parsing v) _)

end

/-! ### Operations -/

section

variable {W : World → Prop} {w u : World} (hW : w.Carries W) (hfuel : FuelHelps W) (hu : W u)

namespace ParseOperation.Ends

variable {item base inner : ParseOperation} {v : Value}

theorem direct {op : Operation} (h : op.Ends W v) : Ends W (.direct op) v :=
  h.followed fun r => .pure (.toStaged r)

theorem ready {op : Operation} (h : op.Ends W v) : Ends W (.ready op) v :=
  h.followed fun r => .pure (.toStaged r)

theorem unlessNull (h : Ends W inner v) : Ends W (.unlessNull inner) v := by
  cases v with
  | null => exact .pure (.ready .null)
  | _ => exact h

theorem decodeText (h : ∀ a, Ends W inner a) (expected : Thunk String) :
    Ends W (.decodeText expected inner) v := by
  simp only [Ends, stage]
  split
  · exact .pure (.error _)
  · exact h _

include hW in
theorem applyAsync {f : AsyncAction} (hf : f.body.Total w) : Ends W (.applyAsync f) v :=
  (hW.start_settlesOn hf v).bind fun _ ht => .pure ht

include hW in
theorem applyFirst {f : Action} (hf : f.Total w) (h : ∀ a, Ends W base a) :
    Ends W (.applyFirst f base) v := by
  refine (hW.runAs hf .parsing v).followed fun r => ?_
  cases r with
  | error e => exact .pure (.error e)
  | ok a => exact h a

include hfuel hu

theorem array (h : ∀ a, v.Contains a → Ends W item a) (expected : Thunk String) :
    Ends W (.array expected item) v := by
  cases v with
  | array values =>
      simp only [Ends, stage, indexed_map]
      refine (stageEach_settlesOn hfuel hu fun c hc => ?_).bind fun r hr =>
        .pure (hr.assembled hfuel hu _)
      obtain ⟨i, a, ha, rfl⟩ := mem_indexed hc
      exact h a (.item (List.mem_of_getElem? ha))
  | _ => exact .pure (.error _)

theorem dict (h : ∀ a, v.Contains a → Ends W item a) (expected : Thunk String) :
    Ends W (.dict expected item) v := by
  cases v with
  | object entries =>
      simp only [Ends, stage, fun fuel => keyed_map (item.stage (machine fuel)) entries]
      refine (stageEach_settlesOn hfuel hu fun c hc => ?_).bind fun r hr =>
        .pure (hr.assembled hfuel hu _)
      obtain ⟨e, he, rfl⟩ := List.mem_map.1 hc
      exact h e.2 (.entry he)
  | _ => exact .pure (.error _)

theorem tuple {items : List ParseOperation} (h : ∀ op ∈ items, ∀ a, v.Contains a → Ends W op a)
    (expected : Thunk String) : Ends W (.tuple expected items) v := by
  cases v with
  | array values =>
      simp only [Ends, stage, zipWith_stagers, indexed_map]
      split
      · exact .pure (.error _)
      · refine (stageEach_settlesOn hfuel hu fun c hc => ?_).bind fun r hr =>
          .pure (hr.assembled hfuel hu _)
        obtain ⟨i, x, hx, rfl⟩ := mem_indexed hc
        obtain ⟨hop, ha⟩ := List.of_mem_zip (List.mem_of_getElem? hx)
        exact h x.1 hop x.2 (.item ha)
  | _ => exact .pure (.error _)

theorem object {fields : List (String × ParseOperation)}
    (h : ∀ f ∈ fields, ∀ a, v.Contains a → Ends W f.2 a) (expected : Thunk String)
    (policy : UnknownKeys) : Ends W (.object expected fields policy) v := by
  -- the operations of fields as families of functions
  have hfamily : ∀ fuel, fieldStagers (machine fuel) fields =
      (fields.map fun f => (f.1, fun fuel => f.2.stage (machine fuel))).map
        fun f => (f.1, f.2 fuel) := fun fuel => by
    rw [fieldStagers_eq_map, List.map_map]
    rfl
  cases v with
  | object entries =>
      simp only [Ends, stage, hfamily]
      refine (stageFields_settlesOn hfuel hu (List.Subset.refl _) fun f hf a ha => ?_).bind
        fun r hr => ?_
      · obtain ⟨g, hg, rfl⟩ := List.mem_map.1 hf
        exact h g hg a ha
      · rcases r with e | ⟨children, left⟩
        · exact .pure (.error e)
        · dsimp only
          split
          · exact .pure (.error _)
          · exact .pure (ChildrenEnd.assembled hfuel hu (r := .ok children) hr _)
  | _ => exact .pure (.error _)

theorem union {members : List ParseOperation} (h : ∀ op ∈ members, Ends W op v) :
    Ends W (.union members) v := by
  have hfamily : ∀ fuel, stagers (machine fuel) members =
      (members.map fun op fuel => op.stage (machine fuel)).map fun member => member fuel :=
    fun fuel => by
      rw [stagers_eq_map, List.map_map]
      rfl
  simp only [Ends, stage, hfamily]
  refine (stageMembers_settlesOn fun member hmember => ?_).bind fun outcomes houtcomes =>
    .pure (resolveMembers_endsLater hfuel hu houtcomes)
  obtain ⟨op, hop, rfl⟩ := List.mem_map.1 hmember
  exact h op hop

theorem recover (h : Ends W base v) (fallback : Fallback) : Ends W (.recover fallback base) v := by
  refine h.bind fun outcome houtcome => ?_
  rcases outcome with e | (a | t)
  · exact .pure (.ready _)
  · exact .pure houtcome
  · exact .pure (Task.HasConclusion.recover hfuel hu houtcome fallback v)

theorem thenConstant (h : Ends W base v) (value : Value) : Ends W (.thenConstant value base) v :=
  afterStage_settlesOn h fun _ hstaged =>
    Staged.andThen_settlesOn hfuel hu hstaged (fun _ => ⟨_, .pure _⟩) fun _ => .pure _

include hW

theorem thenApply {f : Action} (hf : f.Total w) (h : Ends W base v) :
    Ends W (.thenApply base f) v :=
  afterStage_settlesOn h fun _ hstaged => Staged.andThen_settlesOn hfuel hu hstaged
    (fun a => (hW.runAs hf .parsing a).yields) fun a => hW.runAs hf .parsing a

theorem thenApplyAsync {f : AsyncAction} (hf : f.body.Total w) (h : Ends W base v) :
    Ends W (.thenApplyAsync base f) v := by
  refine afterStage_settlesOn h fun staged hstaged => ?_
  cases staged with
  | ready a => exact (hW.start_settlesOn hf a).bind fun _ ht => .pure ht
  | pending t =>
      -- the function is announced when its input is there
      exact .pure (Task.HasConclusion.andThen hfuel hu hstaged fun a =>
        ((noteIf_gives hW.logs f.announce a).settles.bind fun _ => hW.runAs hf .parsing a).yields)

theorem applyAsyncFirst {f : AsyncAction} (hf : f.body.Total w) (h : ∀ a, Ends W base a) :
    Ends W (.applyAsyncFirst f base) v :=
  (hW.start_settlesOn hf v).bind fun _ ht =>
    .pure (ht.andThen hfuel hu fun a => .parse hfuel hu (h a))

theorem thenCheck (message : String) (test : Test) (h : Ends W base v) :
    Ends W (.thenCheck message test base) v :=
  have hchecked := fun a => (checked_gives hW.logs .parsing message test a).settles
  afterStage_settlesOn h fun _ hstaged =>
    Staged.andThen_settlesOn hfuel hu hstaged (fun a => (hchecked a).yields) hchecked

theorem thenCheckAsync (message : String) (test : AsyncTest) (h : Ends W base v) :
    Ends W (.thenCheckAsync message test base) v :=
  afterStage_settlesOn h fun _ hstaged => .pure (hstaged.andThen hfuel hu fun a =>
    (checked_gives hW.logs .parsing message test.test a).settles.yields)

theorem orSupply (supply : Supply) (h : Ends W base v) : Ends W (.orSupply supply base) v :=
  have hsupplied : ∀ a, Settles W fun _ => (do return .ok (← supply.orElse a) : Run Result) :=
    fun a => (supply.orElse_gives hW.logs a).settles.bind fun b => .pure (Except.ok b)
  afterStage_settlesOn h fun _ hstaged =>
    Staged.andThen_settlesOn hfuel hu hstaged (fun a => (hsupplied a).yields) hsupplied

end ParseOperation.Ends

/-! ### Kinds -/

include hW hfuel hu

end

/-! ### Guarded graphs -/

namespace Scene

variable {σ τ : Scene} {s : Schema} {v : Value}

end Scene

variable {w w' : World}

/-- The synchronous form hands its value to the synchronous forms. -/
theorem World.Twin.relays (h : w.Twin w') (kind : Kind) :
    kind.synchronous.relays w' = (kind.relays w).map Schema.synchronous := by
  cases kind with
  | array | dict | object | tuple => rfl
  | union members =>
      simp only [Kind.synchronous, synchronousAll_eq_map, Kind.relays, Kind.embedded, List.map_map,
        Schema.id_comp_synchronous, List.filter_map]
      congr 1
      exact List.filter_congr fun s _ => by simp [h.refersBack]
  | recursive r =>
      simp only [Kind.synchronous, Kind.relays, h.targets]
      cases w.target? r <;> rfl
  | _ => simp [Kind.synchronous, Kind.relays, Kind.embedded, Kind.children]

theorem Kind.Converts.of_synchronous {kind : Kind} (h : kind.synchronous.Converts) :
    kind.Converts := by
  cases kind with
  | transformed base effect => cases effect <;> exact h
  | _ => exact h

/-- What the synchronous form hands on, the schema does. -/
theorem World.Twin.hands (h : w.Twin w') {kind : Kind} {t : Schema} {v a : Value}
    (hands : kind.synchronous.Hands w' v t a) :
    ∃ u, t = u.synchronous ∧ kind.Hands w v u a := by
  have child : t ∈ kind.synchronous.children → ∃ u ∈ kind.children, t = u.synchronous := by
    intro ht
    rw [Kind.children_synchronous] at ht
    obtain ⟨u, hu, rfl⟩ := List.mem_map.1 ht
    exact ⟨u, hu, rfl⟩
  generalize hkind : kind.synchronous = kind' at hands
  cases hands with
  | relay ht =>
      rw [← hkind, h.relays] at ht
      obtain ⟨u, hu, rfl⟩ := List.mem_map.1 ht
      exact ⟨u, rfl, .relay hu⟩
  | part ht hpart =>
      obtain ⟨u, hu, rfl⟩ := child (hkind ▸ ht)
      exact ⟨u, rfl, .part hu hpart⟩
  | convert hconverts ht =>
      obtain ⟨u, hu, rfl⟩ := child (hkind ▸ ht)
      exact ⟨u, rfl, .convert (Kind.Converts.of_synchronous (hkind ▸ hconverts)) hu⟩
  | exchange =>
      cases kind with
      | transformed base effect =>
          cases effect with
          | variant external internal =>
              cases hkind
              exact ⟨base, rfl, .exchange a⟩
          | _ => cases hkind
      | _ => cases hkind

namespace Scene

variable {σ τ : Scene} {s : Schema}

end Scene

end Schemata
