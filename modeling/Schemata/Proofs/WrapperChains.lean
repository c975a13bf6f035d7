/-
**Effects around a base run in turn.**

Transforms, preprocessing steps and refinements can be wrapped around a schema in any number and any
order.  What is compiled comes to one line of steps.  Parsing goes inward through the preprocessing
steps, through the base, and outward through transforms and tests.  Serializing goes inward through
the serializers of transforms and the tests, through the base, and outward through the serializers of
preprocessing steps; tests that wait are left out.  The first failure ends the line.

Main definitions:

* `Schemata.Wraps` — effects around a base, the outermost first;
* `Schemata.Schema.parseInTurn`, `Schemata.Schema.serializeInTurn` — a chain compiled, and its steps
  in turn.

Main results:

* `Schemata.Wraps.planned_run`, `Schemata.Wraps.planned_concludes`,
  `Schemata.Wraps.serializePlan_run` — what a chain is planned to be compiled to;
* `Schemata.Scene.Arises.effects_in_turn` — **a chain of effects runs in turn**.
-/

import Schemata.Proofs.EffectSteps
import Schemata.Proofs.KeptAnswers

set_option relaxedAutoImplicit false
set_option autoImplicit false

namespace Schemata

/-! ### Chains of effects -/

/-- **Effects wrapped around a base**, the outermost first. -/
inductive Wraps (base : Schema) : List Effect → Schema → Prop
  | base : Wraps base [] base
  | wrap {e : Effect} {es : List Effect} {s t : Schema} : s.kind = .transformed t e →
      Wraps base es t → Wraps base (e :: es) s

section

variable {w : World} {nodes : List Schema} {s t base : Schema} {e : Effect} {es : List Effect}

theorem Wraps.mem (hosts : w.Hosts nodes) (h : Wraps base es s) (hs : s ∈ nodes) :
    base ∈ nodes := by
  induction h with
  | base => exact hs
  | wrap hkind _ ih => exact ih (hosts.wrapped hs hkind)

/-- Where an asynchronous function is reached behind an effect, it is that of the effect or behind the
schema below it. -/
theorem World.reachesAsync_wrapped (hkind : s.kind = .transformed t e) (h : w.ReachesAsync s) :
    e.isAsync = true ∨ w.ReachesAsync t := by
  rcases reachesAsync_cases h with hown | ⟨u, hu, ha⟩
  · rw [hkind] at hown
    exact .inl hown
  · rw [Leads, hkind] at hu
    rw [List.mem_singleton.1 hu] at ha
    exact .inr ha

/-- Where an asynchronous function is reached behind a chain around a base that does not wait, it is
that of an effect. -/
theorem Wraps.exists_isAsync (hwraps : Wraps base es s) (hbase : ¬ w.ReachesAsync base)
    (h : w.ReachesAsync s) : ∃ e ∈ es, e.isAsync = true := by
  induction hwraps with
  | base => exact absurd h hbase
  | wrap hkind _ ih =>
      rcases World.reachesAsync_wrapped hkind h with he | ht
      · exact ⟨_, List.mem_cons_self .., he⟩
      · obtain ⟨e, he, ha⟩ := ih ht
        exact ⟨e, List.mem_cons_of_mem _ he, ha⟩

/-- An asynchronous effect of a chain is one that is wrapped around a schema. -/
theorem Wraps.hasAsyncEffect (hwraps : Wraps base es s) (h : ∃ e ∈ es, e.isAsync = true) :
    s.HasAsyncEffect := by
  induction hwraps with
  | base =>
      obtain ⟨e, he, -⟩ := h
      cases he
  | wrap hkind _ ih =>
      obtain ⟨e, he, ha⟩ := h
      rcases List.mem_cons.1 he with rfl | he
      · exact .outer hkind ha
      · exact .inner hkind (ih ⟨e, he, ha⟩)

/-- A chain has the references behind it that its base has. -/
theorem Wraps.intact (hwraps : Wraps base es s) (h : w.Intact base) : w.Intact s := by
  induction hwraps with
  | base => exact h
  | wrap hkind _ ih => exact ih.wrapped hkind

/-- **Chains around a base are taken to wait for their effects**, and for nothing else. -/
def World.FlagsEffects (w : World) (nodes : List Schema) (base : Schema) : Prop :=
  ∀ {es : List Effect} {s : Schema}, Wraps base es s → s ∈ nodes →
    (w.answer s = true ↔ ∃ e ∈ es, e.isAsync = true)

/-- In every scene the chains around an intact base that does not wait are taken to wait for their
effects. -/
theorem Scene.Arises.flagsEffects {σ : Scene} (h : σ.Arises) (hintact : σ.world.Intact base)
    (hbase : ¬ σ.world.ReachesAsync base) : σ.world.FlagsEffects σ.nodes base := fun hwraps hs =>
  ⟨fun ha => hwraps.exists_isAsync hbase (h.reachesAsync_of_answer hs ha (hwraps.intact hintact)),
    fun he => h.answer_of_hasAsyncEffect hs (hwraps.hasAsyncEffect he)⟩

/-- A chain that is taken not to wait has no effect that waits. -/
theorem World.FlagsEffects.sync (h : w.FlagsEffects nodes base) (hwraps : Wraps base es s)
    (hs : s ∈ nodes) : w.answer s = false ↔ ∀ e ∈ es, e.isAsync = false := by
  rw [← Bool.not_eq_true, h hwraps hs]
  simp only [not_exists, not_and, Bool.not_eq_true]

/-- **What an effect is planned to be compiled to**, depending on whether the node waits. -/
theorem World.Sound.planned_wrapped (h : w.Sound nodes) (hshape : w.Shaped World.Before nodes)
    (hs : s ∈ nodes) (hkind : s.kind = .transformed t e) :
    w.planned s = if w.answer s then e.stageAround (w.planned t)
      else .direct (e.parseAround (w.planned t).atOnce) := by
  obtain ⟨w₁, o, waits, -, -, -, hplan⟩ := h.parsePlan_shape hshape (.refl w) hs
  have hwaits : waits = w.answer s := by
    rw [← h.planned_isAsync hs, World.planned, hplan, Kind.parser_isAsync]
  rw [World.planned, hplan, hkind, ← hwaits]
  rfl

/-- What an effect is planned to be compiled to for serializing. -/
theorem World.Sound.serializePlan_wrapped (h : w.Sound nodes)
    (hshape : w.Shaped World.Before nodes) (hs : s ∈ nodes) (hkind : s.kind = .transformed t e) :
    ∃ id, w.serializePlan s = e.serializeAround id (w.serializePlan t) := by
  obtain ⟨w₁, o, -, -, -, hplan⟩ := h.serializePlan_shape hshape (.refl w) hs
  exact ⟨o.id, by rw [hplan, hkind]; rfl⟩

/-- The planned operation for parsing as a step. -/
def World.parseStep (w : World) (s : Schema) : Machine → Runner := fun m =>
  (w.planned s).atOnce.run m

/-- The planned operation for serializing as a step. -/
def World.serializeStep (w : World) (s : Schema) : Machine → Runner := fun m =>
  (w.serializePlan s).operation.run m

theorem FuelHelps.parseStep_rising {W : World → Prop} (h : FuelHelps W) (w : World) (s : Schema)
    (v : Value) : Rising W fun n => w.parseStep s (machine n) v := fun n k hk =>
  Operation.runsLike_self (h n k hk).toMachinesAlike _ v

/-- Steps inside other steps. -/
theorem inTurn_inside {m : Machine} {f : Machine → Runner} {fs : List (Machine → Runner)}
    (hf : f m = inTurn m fs) (before after : List (Machine → Runner)) :
    inTurn m (before ++ f :: after) = inTurn m (before ++ (fs ++ after)) := by
  rw [inTurn_append, inTurn_append, inTurn, hf, inTurn_append]

section

variable (h : w.Sound nodes) (hshape : w.Shaped World.Before nodes)

include h hshape

/-- **A chain that does not wait** is planned to run its steps in turn. -/
theorem Wraps.planned_run (hflags : w.FlagsEffects nodes base) (hwraps : Wraps base es s)
    (m : Machine) :
    s ∈ nodes → (∀ e ∈ es, e.CanParse) → w.answer s = false →
      w.parseStep s m = inTurn m (parseSteps (w.parseStep base) es) := by
  induction hwraps with
  | base => exact fun _ _ _ => (inTurn_singleton m _).symm
  | @wrap e es s t hkind hwraps ih =>
      intro hs hcan hanswer
      obtain ⟨hcan, hcans⟩ := List.forall_mem_cons.1 hcan
      have ht := h.hosts.wrapped hs hkind
      obtain ⟨he, hes⟩ := List.forall_mem_cons.1 ((hflags.sync (.wrap hkind hwraps) hs).1 hanswer)
      have hbelow := (hflags.sync hwraps ht).2 hes
      have hplan := h.planned_wrapped hshape hs hkind
      rw [hanswer] at hplan
      rw [parseSteps_cons, ← inTurn_inside (ih ht hcans hbelow), World.parseStep, hplan]
      exact Effect.parseAround_run hcan he _

/-- **A chain is planned to serialize with its steps in turn.** -/
theorem Wraps.serializePlan_run (hwraps : Wraps base es s) (m : Machine) :
    s ∈ nodes → (∀ e ∈ es, e.CanSerialize) →
      w.serializeStep s m = inTurn m (serializeSteps (w.serializeStep base) es) := by
  induction hwraps with
  | base => exact fun _ _ => (inTurn_singleton m _).symm
  | @wrap e es s t hkind _ ih =>
      intro hs hcan
      obtain ⟨hcan, hcans⟩ := List.forall_mem_cons.1 hcan
      have ht := h.hosts.wrapped hs hkind
      obtain ⟨id, hplan⟩ := h.serializePlan_wrapped hshape hs hkind
      rw [serializeSteps_cons, ← inTurn_inside (ih ht hcans), World.serializeStep, hplan]
      exact Effect.serializeAround_run hcan id _

/-- A chain that does not wait concludes with its steps in turn. -/
theorem Wraps.planned_conclude (hflags : w.FlagsEffects nodes base) (hwraps : Wraps base es s)
    (hs : s ∈ nodes) (hcan : ∀ e ∈ es, e.CanParse) (hanswer : w.answer s = false) (m : Machine)
    (late : Task → Run Result) :
    (w.planned s).conclude m late = inTurn m (parseSteps (w.parseStep base) es) := by
  have hplanned := h.planned_isAsync hs
  rw [hanswer] at hplanned
  rw [← Wraps.planned_run h hshape hflags hwraps m hs hcan hanswer, World.parseStep]
  cases hop : w.planned s with
  | direct op => exact ParseOperation.direct_conclude _ _ op
  | _ => rw [hop] at hplanned; cases hplanned

/-- **A chain comes to what its steps in turn come to**, whether it waits or not. -/
theorem Wraps.planned_concludes (hflags : w.FlagsEffects nodes base) (hwraps : Wraps base es s)
    {W : World → Prop} (hfuel : FuelHelps W) {w' : World} (hw : W w') :
    s ∈ nodes → (∀ e ∈ es, e.CanParse) →
      SameYields W (fun n => (w.planned s).conclude (machine n) (concluding n))
        fun n => inTurn (machine n) (parseSteps (w.parseStep base) es) := by
  induction hwraps with
  | base =>
      intro hs hcan v r
      have hanswer := (hflags.sync .base hs).2 fun e he => by cases he
      simp only [Wraps.planned_conclude h hshape hflags .base hs hcan hanswer]
  | @wrap e es s t hkind hwraps ih =>
      intro hs hcans
      cases hanswer : w.answer s with
      | false =>
          intro v r
          simp only [Wraps.planned_conclude h hshape hflags (.wrap hkind hwraps) hs hcans hanswer]
      | true =>
          obtain ⟨hcan, hrest⟩ := List.forall_mem_cons.1 hcans
          have hplan := h.planned_wrapped hshape hs hkind
          rw [hanswer, if_pos rfl] at hplan
          rw [hplan, parseSteps_cons]
          simp only [inTurn_append]
          exact Effect.stageAround_sameYields hfuel hw hcan _
            (inTurn_rising (hfuel.parseSteps_rising (hfuel.parseStep_rising w base) es))
            (ih (h.hosts.wrapped hs hkind) hrest)

end

end

/-! ### The law -/

/-- **A chain compiled for parsing, and its steps in turn.** -/
def Schema.parseInTurn (fuel : Nat) (s base : Schema) (es : List Effect) : Runner := fun v => do
  let _ ← s.parseOperation
  inTurn (machine fuel) (parseSteps (fun m => base.parseOn m) es) v

/-- **A chain compiled for serializing, and its steps in turn.** -/
def Schema.serializeInTurn (fuel : Nat) (s base : Schema) (es : List Effect) : Runner := fun v => do
  let _ ← s.serializeOperation
  inTurn (machine fuel) (serializeSteps (fun m => base.serializeOn m) es) v

section

variable {W : World → Prop} {m : Machine} {f g : Machine → Runner} {s base : Schema}
  {es : List Effect} {w : World} {nodes : List Schema}

/-- One step may be replaced by another one that does the same in the worlds of a set, if those
before it do not leave the set. -/
theorem inTurn_replace (hfg : ∀ v w, W w → f m v w = g m v w) :
    ∀ {before : List (Machine → Runner)}, (∀ k ∈ before, ∀ v, Steady W (k m v)) →
      ∀ (after : List (Machine → Runner)) (v : Value) (w : World), W w →
        inTurn m (before ++ f :: after) v w = inTurn m (before ++ g :: after) v w
  | [], _, after, v, w, hw => by
      simp only [List.nil_append, inTurn, followed]
      rw [bind_apply, bind_apply, hfg v w hw]
  | k :: rest, hsteady, after, v, w, hw => by
      obtain ⟨hk, hrest⟩ := List.forall_mem_cons.1 hsteady
      simp only [List.cons_append, inTurn, followed]
      rw [bind_apply, bind_apply]
      cases hrun : k m v w with
      | error e => rfl
      | ok p =>
          obtain ⟨r, w'⟩ := p
          cases r with
          | error e => rfl
          | ok a => exact inTurn_replace hfg hrest after a w' ((hk v).keeps hw hrun)

/-- A node whose cell is filled parses with what is there. -/
theorem Schema.parseOn_of_filled {c : Compiled ParseOperation}
    (h : w.parseCells s.id = .filled c) (v : Value) :
    s.parseOn m v w = c.operation.atOnce.run m v w := by
  obtain ⟨id, kind, metadata, origin⟩ := s
  have hrun : (Schema.node id kind metadata origin).parseOperation w = .ok (c, w) := by
    have h : w.parseCells id = .filled c := h
    simp only [Schema.parseOperation, Schema.compile, get_bind, parseCompiler, h]
    rfl
  rw [Schema.parseOn, bind_ok hrun]
  cases c.operation <;> rfl

/-- A node whose cell is filled serializes with what is there. -/
theorem Schema.serializeOn_of_filled {c : Compiled Operation}
    (h : w.serializeCells s.id = .filled c) (v : Value) :
    s.serializeOn m v w = c.operation.run m v w := by
  obtain ⟨id, kind, metadata, origin⟩ := s
  have hrun : (Schema.node id kind metadata origin).serializeOperation w = .ok (c, w) := by
    have h : w.serializeCells id = .filled c := h
    simp only [Schema.serializeOperation, Schema.compile, get_bind, serializeCompiler, h]
    rfl
  rw [Schema.serializeOn, bind_ok hrun]

/-- With a chain its base is compiled. -/
theorem Wraps.base_compiled {Then : World → World → Prop} (hshape : w.Shaped Then nodes)
    (hosts : w.Hosts nodes) (hwraps : Wraps base es s) :
    s ∈ nodes → (∃ c, w.parseCells s.id = .filled c) → ∃ c, w.parseCells base.id = .filled c := by
  induction hwraps with
  | base => exact fun _ hc => hc
  | wrap hkind _ ih =>
      rintro hs ⟨c, hc⟩
      obtain ⟨w₁, -, -, -, -, -, -, hbelow⟩ := hshape.parse _ hs c hc
      rw [hkind] at hbelow
      exact ih (hosts.wrapped hs hkind) (hbelow _ (List.mem_singleton_self _))

/-- With a chain its base is compiled for serializing. -/
theorem Wraps.base_compiled_serialize {Then : World → World → Prop} (hshape : w.Shaped Then nodes)
    (hosts : w.Hosts nodes) (hwraps : Wraps base es s) :
    s ∈ nodes → (∃ c, w.serializeCells s.id = .filled c) →
      ∃ c, w.serializeCells base.id = .filled c := by
  induction hwraps with
  | base => exact fun _ hc => hc
  | wrap hkind _ ih =>
      rintro hs ⟨c, hc⟩
      obtain ⟨w₁, -, -, -, -, -, hbelow⟩ := hshape.serialize _ hs c hc
      rw [hkind] at hbelow
      exact ih (hosts.wrapped hs hkind) (hbelow _ (List.mem_singleton_self _))

end

namespace Scene

variable {σ : Scene} {s base : Schema} {es : List Effect}

/-- After a chain has been compiled, the base in its steps is the planned operation. -/
theorem Arises.parseInTurn_apply (h : σ.Arises) (hs : s ∈ σ.nodes) (hwraps : Wraps base es s) :
    ∃ w, s.parseOperation σ.world = .ok (σ.world.parsePlan s, w) ∧ σ.world.Later σ.nodes w ∧
      ∀ fuel v, s.parseInTurn fuel base es v σ.world =
        inTurn (machine fuel) (parseSteps (σ.world.parseStep base) es) v w := by
  have hsound := h.invariants.1
  obtain ⟨w, hrun, hlater, hfilled, -⟩ := Schema.parseOperation_done hsound hs hsound.later
  have harises : Arises ⟨w, σ.nodes⟩ := h.tail (.inr (.use (.parseOperation hs hrun)))
  obtain ⟨hsound', hshape'⟩ := harises.invariants
  obtain ⟨c, hc⟩ := hwraps.base_compiled hshape' hsound'.hosts hs ⟨_, hfilled⟩
  have hplan : c = σ.world.parsePlan base :=
    hlater.ahead.parse.planned base (hwraps.mem hsound.hosts hs) c hc
  refine ⟨w, hrun, hlater, fun fuel v => ?_⟩
  rw [Schema.parseInTurn, bind_ok hrun]
  refine inTurn_replace (W := w.Later σ.nodes) (fun v u hu => ?_) (fun k hk v => ?_) _ v w
    hsound'.later
  · rw [Schema.parseOn_of_filled (hu.ahead.parse.kept _ c hc), World.parseStep, World.planned, hplan]
  · obtain ⟨e, -, hk⟩ := List.mem_flatMap.1 hk
    exact ((fuelHelps (σ := ⟨w, σ.nodes⟩) hsound').beforeParse_rising e k hk v).steady fuel

/-- After a chain has been compiled for serializing, the base in its steps is the planned
operation. -/
theorem Arises.serializeInTurn_apply (h : σ.Arises) (hs : s ∈ σ.nodes) (hwraps : Wraps base es s) :
    ∃ w, s.serializeOperation σ.world = .ok (σ.world.serializePlan s, w) ∧
      ∀ fuel v, s.serializeInTurn fuel base es v σ.world =
        inTurn (machine fuel) (serializeSteps (σ.world.serializeStep base) es) v w := by
  have hsound := h.invariants.1
  obtain ⟨w, hrun, hlater, hfilled, -⟩ := Schema.serializeOperation_done hsound hs hsound.later
  have harises : Arises ⟨w, σ.nodes⟩ := h.tail (.inr (.use (.serializeOperation hs hrun)))
  obtain ⟨hsound', hshape'⟩ := harises.invariants
  obtain ⟨c, hc⟩ := hwraps.base_compiled_serialize hshape' hsound'.hosts hs ⟨_, hfilled⟩
  have hplan : c = σ.world.serializePlan base :=
    hlater.ahead.serialize.planned base (hwraps.mem hsound.hosts hs) c hc
  refine ⟨w, hrun, fun fuel v => ?_⟩
  rw [Schema.serializeInTurn, bind_ok hrun]
  refine inTurn_replace (W := w.Later σ.nodes) (fun v u hu => ?_) (fun k hk v => ?_) _ v w
    hsound'.later
  · rw [Schema.serializeOn_of_filled (hu.ahead.serialize.kept _ c hc), World.serializeStep, hplan]
  · obtain ⟨e, -, hk⟩ := List.mem_flatMap.1 hk
    exact ((fuelHelps (σ := ⟨w, σ.nodes⟩) hsound').beforeSerialize_rising e k hk v).steady fuel

/-- What parsing with waiting comes to is what the planned operation concludes with. -/
theorem comes_parseAsync_conclude_iff (h : σ.world.Sound σ.nodes) (hs : s ∈ σ.nodes) (v : Value)
    (r : Result) : σ.Comes (fun fuel => s.parseAsync fuel v) r ↔
      Yields (σ.world.Later σ.nodes)
        (fun n => (σ.world.planned s).conclude (machine n) (concluding n) v) r := by
  have hc : σ.world.Compiles (· ∈ σ.nodes) _ := h.compiles fun _ hs => hs
  have hfuel := fuelHelps h
  have hrise := hfuel.stage_rising (σ.world.planned s) v
  rw [comes_parseAsync_iff h hs]
  constructor
  · rintro ⟨outcome, ⟨n, hn⟩, hr⟩
    obtain ⟨w, -, hrun⟩ := hn _ h.later
    have hstage := Schema.gives_of_stageOn hc hs (h.stages n _) h.later hrun
    exact Yields.bind ⟨n, hstage⟩ hr hrise (hfuel.conclude_rising _) h.later
  · intro hr
    obtain ⟨outcome, ⟨n, hn⟩, hr⟩ := Yields.of_bind hr hrise
      (fun outcome => hfuel.conclude_rising (outcomeTask outcome)) h.later
    exact ⟨outcome, ⟨n, Schema.stageOn_gives hc hs hn⟩, hr⟩

/-- **A chain of effects runs in turn.**  Parsing with effects around a base that does not wait is
their functions on the way inward, the base, and their functions on the way outward, up to the first
failure: step for step when nothing waits, and in what it comes to when something does.  Serializing
is the same the other way round, without the tests that wait.  That the base is intact excludes the
flags of schemas that have lost what they waited for. -/
theorem Arises.effects_in_turn (h : σ.Arises) (hs : s ∈ σ.nodes) (hwraps : Wraps base es s) :
    ((∀ e ∈ es, e.CanParse) → σ.world.Intact base → ¬ σ.world.ReachesAsync base →
      ((∀ e ∈ es, e.isAsync = false) → ∀ fuel v,
        s.parse fuel v σ.world = s.parseInTurn fuel base es v σ.world) ∧
      ∀ v r, σ.Comes (fun fuel => s.parseAsync fuel v) r ↔
        σ.Comes (fun fuel => s.parseInTurn fuel base es v) r) ∧
    ((∀ e ∈ es, e.CanSerialize) → ∀ fuel v,
      s.serialize fuel v σ.world = s.serializeInTurn fuel base es v σ.world) := by
  obtain ⟨hsound, hshape⟩ := h.invariants
  refine ⟨fun hcan hintact hbase => ?_, fun hcan fuel v => ?_⟩
  · obtain ⟨w, hrun, hlater, happly⟩ := h.parseInTurn_apply hs hwraps
    have hflags : σ.world.FlagsEffects σ.nodes base := h.flagsEffects hintact hbase
    refine ⟨fun hsync fuel v => ?_, fun v r => ?_⟩
    · have hanswer := (hflags.sync hwraps hs).2 hsync
      rw [happly, ← Wraps.planned_run hsound hshape hflags hwraps _ hs hcan hanswer, Schema.parse,
        Schema.parseOn, bind_ok hrun, World.parseStep, World.planned]
      cases (σ.world.parsePlan s).operation <;> rfl
    · have hsteps := inTurn_rising ((fuelHelps hsound).parseSteps_rising
        ((fuelHelps hsound).parseStep_rising σ.world base) es) v
      rw [comes_parseAsync_conclude_iff hsound hs, Wraps.planned_concludes hsound hshape hflags
        hwraps (fuelHelps hsound) hsound.later hs hcan v r]
      refine exists_congr fun n => ⟨fun hn => ?_, fun hn => ?_⟩
      · obtain ⟨u, -, hu⟩ := hn w hlater
        exact ⟨u, (happly n v).trans hu⟩
      · obtain ⟨u, hu⟩ := hn
        exact hsteps.steady n w r u hlater ((happly n v).symm.trans hu)
  · obtain ⟨w, hrun, happly⟩ := h.serializeInTurn_apply hs hwraps
    rw [happly, Schema.serialize, Schema.serializeOn, bind_ok hrun,
      ← Wraps.serializePlan_run hsound hshape hwraps _ hs hcan]
    rfl

/-! ### A chain of three -/

/-- Adding an exclamation mark, there and back. -/
def exclaiming : Effect :=
  .transform
    ⟨some (.direct (.compute fun v => match v with
        | .string t => .ok (.string (t ++ "!"))
        | _ => .error (.message "no text"))),
      some (.compute fun v => match v with
        | .string _ => .ok (.string "back")
        | _ => .error (.message "no text"))⟩

/-- Taking a value out of its list, which takes a while, and putting it back. -/
def unpacking : Effect :=
  .preprocess
    ⟨some (.async ⟨.compute fun v => match v with
        | .array [x] => .ok x
        | _ => .error (.message "no list of one"), 2, none⟩),
      some (.compute fun v => .ok (.array [v]))⟩

/-- A refinement that is made at once. -/
def exclaimed : Effect :=
  .refine "no exclamation" (.direct (.holds fun v => v.equal (.string "hi!")))

/-- Texts. -/
def chainBase : Schema := .node 0 .string Metadata.empty none

/-- Texts with an exclamation mark. -/
def chainInner : Schema := .node 1 (.transformed chainBase exclaiming) Metadata.empty none

/-- Such texts in a list. -/
def chainMiddle : Schema := .node 2 (.transformed chainInner unpacking) Metadata.empty none

/-- One of these texts. -/
def chainOuter : Schema := .node 3 (.transformed chainMiddle exclaimed) Metadata.empty none

/-- The scene of the chain. -/
def chainScene : Scene := ⟨made 4 0, [chainOuter, chainMiddle, chainInner, chainBase]⟩

theorem chainScene_built : Relation.ReflTransGen (Step .building) initial chainScene := by
  have h₁ : Step .building initial ⟨made 1 0, [chainBase]⟩ := .made (fun t ht => by cases ht) trivial
  have h₂ : Step .building ⟨made 1 0, [chainBase]⟩ ⟨made 2 0, [chainInner, chainBase]⟩ :=
    .made (fun t ht => by simp_all [Kind.children]) trivial
  have h₃ : Step .building ⟨made 2 0, [chainInner, chainBase]⟩
      ⟨made 3 0, [chainMiddle, chainInner, chainBase]⟩ :=
    .made (fun t ht => by simp_all [Kind.children]) trivial
  have h₄ : Step .building ⟨made 3 0, [chainMiddle, chainInner, chainBase]⟩ chainScene :=
    .made (fun t ht => by simp_all [Kind.children]) trivial
  exact .tail (.tail (.tail (.single h₁) h₂) h₃) h₄

theorem chainOuter_wraps : Wraps chainBase [exclaimed, unpacking, exclaiming] chainOuter :=
  .wrap rfl (.wrap rfl (.wrap rfl .base))

/-- The text is taken out of its list first, then parsed, then changed, then tested; and it goes back
the other way round. -/
theorem effects_in_turn_chain :
    chainScene.Arises ∧ chainOuter ∈ chainScene.nodes ∧ chainScene.world.Intact chainBase ∧
      chainScene.Comes (fun fuel => chainOuter.parseAsync fuel (.array [.string "hi"]))
        (.ok (.string "hi!")) ∧
      ∃ w, chainOuter.serialize 1 (.string "hi!") chainScene.world =
        .ok (.ok (.array [.string "back"]), w) := by
  have harises := built_arises chainScene_built
  have hm : chainOuter ∈ chainScene.nodes := List.mem_cons_self ..
  have hbase : ¬ chainScene.world.ReachesAsync chainBase := by
    intro ha
    rcases World.reachesAsync_cases ha with hown | ⟨u, hu, -⟩
    · cases hown
    · cases hu
  have hintact : chainScene.world.Intact chainBase := fun _ _ _ _ hr => by cases hr
  obtain ⟨hparse, hserialize⟩ := harises.effects_in_turn hm chainOuter_wraps
  have hparses := hparse (by simp [Effect.CanParse, exclaimed, unpacking, exclaiming]) hintact hbase
  have hserializes := hserialize (by simp [Effect.CanSerialize, exclaimed, unpacking, exclaiming])
  have hinward : ∃ w, chainOuter.parseInTurn 3 chainBase [exclaimed, unpacking, exclaiming]
      (.array [.string "hi"]) chainScene.world = .ok (.ok (.string "hi!"), w) := ⟨_, rfl⟩
  have houtward : ∃ w, chainOuter.serializeInTurn 1 chainBase [exclaimed, unpacking, exclaiming]
      (.string "hi!") chainScene.world = .ok (.ok (.array [.string "back"]), w) := ⟨_, rfl⟩
  refine ⟨harises, hm, hintact, (hparses.2 _ _).2 ⟨3, hinward⟩, ?_⟩
  rwa [hserializes]

end Scene

end Schemata
