/-
**The async flag is exact.**

Whether a node waits is asked in a graph that may be cyclic, and the answer is kept for good.  It
is put together from a walk that cuts ways off, from answers kept earlier for other nodes, and from
operations compiled earlier.  In a graph that was bound before it was used all of them are exact:
a node waits if and only if an asynchronous function can be reached from it.

Main definitions:

* `Schemata.World.Exact` — kept answers and compiled operations are exact;
* `Schemata.World.Untouched` — nothing is compiled, and no answer is kept.

Main results:

* `Schemata.World.Exact.hits_iff` — where all that is known is exact, a walk is exact;
* `Schemata.Scene.Settled.invariants` — what holds in every settled scene;
* `Schemata.Scene.Settled.async_iff_reachesAsync` — **the async flag is exact in every settled
  scene**.
-/

import Schemata.Proofs.History

set_option relaxedAutoImplicit false
set_option autoImplicit false

namespace Schemata

namespace World

/-- **Kept answers and compiled operations are exact.** -/
structure Exact (w : World) (nodes : List Schema) : Prop where
  async : ∀ s ∈ nodes, ∀ b, w.asyncCells s.id = .filled b → (b = true ↔ w.ReachesAsync s)
  parse : ∀ s ∈ nodes, ∀ c, w.parseCells s.id = .filled c →
    (c.operation.isAsync = true ↔ w.ReachesAsync s)

/-- Nothing is compiled, and no answer is kept. -/
structure Untouched (w : World) : Prop where
  parse : ∀ id, w.parseCells id = .empty
  serialize : ∀ id, w.serializeCells id = .empty
  async : ∀ id, w.asyncCells id = .empty

section

variable {w w' : World} {nodes : List Schema} {s : Schema} {b : Bool}

/-- What is known is exact. -/
theorem Exact.known (h : w.Exact nodes) (hs : s ∈ nodes) (hb : w.knownAsync? s.id = some b) :
    b = true ↔ w.ReachesAsync s := by
  rcases knownAsync_cases hb with ha | ⟨c, hc, rfl⟩
  · exact h.async s hs b ha
  · exact h.parse s hs c hc

/-- **Where all that is known is exact, the walk finds what can be reached.** -/
theorem Exact.hits_iff (h : w.Exact nodes) (hosts : w.Hosts nodes) (hs : s ∈ nodes) :
    w.Hits s ↔ w.ReachesAsync s := by
  constructor
  · intro hit
    induction hit with
    | known hk => exact (h.known hs hk).1 rfl
    | own _ ha => exact reachesAsync_of_own ha
    | step _ hst _ ih => exact reachesAsync_of_leads hst (ih (hosts.leads hs hst))
  · rintro ⟨u, hreach, ha⟩
    induction hreach using Relation.ReflTransGen.head_induction_on with
    | refl =>
        cases hk : w.knownAsync? u.id with
        | none => exact .own hk ha
        | some b =>
            have hb := (h.known hs hk).2 (reachesAsync_of_own ha)
            exact .known (hb ▸ hk)
    | @head x y hxy hyu ih =>
        cases hk : w.knownAsync? x.id with
        | none => exact .step hk hxy (ih (hosts.leads hs hxy))
        | some b =>
            have hb := (h.known hs hk).2 (reachesAsync_of_leads hxy ⟨u, hyu, ha⟩)
            exact .known (hb ▸ hk)

theorem Exact.answer_iff (h : w.Exact nodes) (hosts : w.Hosts nodes) (hs : s ∈ nodes) :
    w.answer s = true ↔ w.ReachesAsync s :=
  (World.answer_iff hosts hs).trans (h.hits_iff hosts hs)

/-- Answers and operations that are new ahead are exact as well. -/
theorem Exact.ahead (h : w.Exact nodes) (hs : w.Sound nodes) (ha : w.Ahead nodes w') :
    w'.Exact nodes where
  async s hm b hb := by
    rw [ha.async.planned s hm b hb, h.answer_iff hs.hosts hm, reachesAsync_congr ha.bindings]
  parse s hm c hc := by
    rw [ha.parse.planned s hm c hc, hs.planned_isAsync hm, h.answer_iff hs.hosts hm,
      reachesAsync_congr ha.bindings]

theorem Untouched.exact (h : w.Untouched) : w.Exact nodes where
  async s _ b hb := by rw [h.async] at hb; cases hb
  parse s _ c hc := by rw [h.parse] at hc; cases hc

theorem Untouched.shaped (h : w.Untouched) (Then : World → World → Prop) :
    w.Shaped Then nodes where
  parse s _ c hc := by rw [h.parse] at hc; cases hc
  serialize s _ c hc := by rw [h.serialize] at hc; cases hc

end

end World

/-! ### Histories -/

namespace Scene

variable {σ τ : Scene} {s : Schema}

/-- A use of the graph keeps all flags exact; a copy reaches what its original reaches. -/
theorem Change.exact (h : Change .using σ τ) (hs : σ.world.Sound σ.nodes)
    (hexact : σ.world.Exact σ.nodes) : τ.world.Exact τ.nodes := by
  cases h with
  | later hl => exact hexact.ahead hs hl.ahead
  | @node _ _ kind metadata origin p q a _ _ hi =>
      have other : ∀ t ∈ σ.nodes, t.id ≠ σ.world.nextNode := fun t ht =>
        Nat.ne_of_lt (hs.hosts.known t ht)
      have hreach : (σ.world.withNode p q a).ReachesAsync = σ.world.ReachesAsync :=
        World.reachesAsync_congr rfl
      have copied : ∀ t : Schema, t.kind = kind →
          (σ.world.ReachesAsync t ↔
            σ.world.ReachesAsync (.node σ.world.nextNode kind metadata origin)) := fun t ht =>
        ⟨World.reachesAsync_of_kind ht, World.reachesAsync_of_kind ht.symm⟩
      constructor
      · intro s hm b hb
        rw [hreach]
        rcases List.mem_cons.1 hm with rfl | hm
        · obtain ⟨t, ht, hkind, hb'⟩ := hi.async b ((updateAt_same ..).symm.trans hb)
          exact (hexact.async t ht b hb').trans (copied t hkind)
        · exact hexact.async s hm b ((updateAt_other (other s hm)).symm.trans hb)
      · intro s hm c hc
        rw [hreach]
        rcases List.mem_cons.1 hm with rfl | hm
        · obtain ⟨t, ht, hkind, hc'⟩ := hi.parse c ((updateAt_same ..).symm.trans hc)
          exact (hexact.parse t ht c hc').trans (copied t hkind)
        · exact hexact.parse s hm c ((updateAt_other (other s hm)).symm.trans hc)

/-- Building a graph compiles nothing. -/
theorem Step.untouched (h : Step .building σ τ) (hu : σ.world.Untouched) : τ.world.Untouched := by
  cases h with
  | fresh _ _ hrun | reference hrun | bind _ _ _ hrun =>
      cases hrun
      exact ⟨hu.parse, hu.serialize, hu.async⟩
  | withPolicy _ hkind hrun =>
      simp only [Schema.withPolicy, hkind] at hrun
      cases hrun
      exact ⟨hu.parse, hu.serialize, hu.async⟩
  | configure => exact ⟨hu.parse, hu.serialize, hu.async⟩
  | release => exact ⟨hu.parse, hu.serialize, hu.async⟩
  | @withMetadata _ _ s _ _ _ _ hrun =>
      cases hrun
      have kept : ∀ {α : Type} {cells : NodeId → Cell α} (place : NodeId), (∀ id, cells id = .empty) →
          ∀ id, updateAt cells place (cells s.id) id = .empty := by
        intro α cells place hcells id
        by_cases hid : id = place
        · subst hid
          rw [updateAt_same, hcells]
        · rw [updateAt_other hid, hcells]
      exact ⟨kept _ hu.parse, kept _ hu.serialize, kept _ hu.async⟩

theorem Leads.of_step {phase : Phase} (h : Relation.ReflTransGen (Step phase) σ τ) : σ.Leads τ := by
  induction h with
  | refl => exact .refl
  | tail _ hstep ih => exact ih.tail ⟨phase, hstep⟩

/-- A settled scene is reachable. -/
theorem Settled.reachable (h : σ.Settled) : σ.Reachable := by
  obtain ⟨σ₀, hbuild, -, huse⟩ := h
  exact (Leads.of_step hbuild).trans (Leads.of_step huse)

/-- What holds in every settled scene. -/
structure Invariants (σ : Scene) : Prop where
  sound : σ.world.Sound σ.nodes
  shaped : σ.world.Shaped World.SameSettings σ.nodes
  exact : σ.world.Exact σ.nodes
  resolved : σ.Resolved

/-- A use of the graph keeps its references bound. -/
theorem Change.resolved (h : Change .using σ τ) (hr : σ.Resolved)
    (hcopy : ∀ t ∈ τ.nodes, ∃ s ∈ σ.nodes, s.kind = t.kind) : τ.Resolved := by
  intro t ht r hkind
  obtain ⟨s, hs, hst⟩ := hcopy t ht
  obtain ⟨u, hu⟩ := hr s hs r (hst.trans hkind)
  exact ⟨u, by rwa [World.target?, ← h.settings_same.1]⟩

/-- A use of the graph makes no nodes of new kinds. -/
theorem Step.kinds (h : Step .using σ τ) : ∀ t ∈ τ.nodes, ∃ s ∈ σ.nodes, s.kind = t.kind := by
  cases h with
  | withMetadata _ hm hrun =>
      cases hrun
      intro t ht
      rcases List.mem_cons.1 ht with rfl | ht
      · exact ⟨_, hm, rfl⟩
      · exact ⟨t, ht, rfl⟩
  | isAsync | parseOperation | serializeOperation => exact fun t ht => ⟨t, ht, rfl⟩

/-- A use of the graph keeps what holds. -/
theorem Change.invariants (h : Change .using σ τ) (hσ : σ.Invariants)
    (hcopy : ∀ t ∈ τ.nodes, ∃ s ∈ σ.nodes, s.kind = t.kind) : τ.Invariants where
  sound := h.sound hσ.sound
  shaped := h.shaped_same hσ.sound hσ.shaped
  exact := h.exact hσ.sound hσ.exact
  resolved := h.resolved hσ.resolved hcopy

/-- While a graph is built nothing is compiled. -/
theorem built_untouched (h : Relation.ReflTransGen (Step .building) initial σ) :
    σ.world.Untouched := by
  induction h with
  | refl => exact ⟨fun _ => rfl, fun _ => rfl, fun _ => rfl⟩
  | tail _ hstep ih => exact hstep.untouched ih

/-- What holds when a graph is built and bound. -/
theorem built_invariants (h : Relation.ReflTransGen (Step .building) initial σ)
    (hr : σ.Resolved) : σ.Invariants where
  sound := Reachable.sound (Leads.of_step h)
  shaped := (built_untouched h).shaped _
  exact := (built_untouched h).exact
  resolved := hr

/-- **What holds in every settled scene.** -/
theorem Settled.invariants (h : σ.Settled) : σ.Invariants := by
  obtain ⟨σ₀, hbuild, hresolved, huse⟩ := h
  induction huse with
  | refl => exact built_invariants hbuild hresolved
  | tail _ hstep ih => exact (hstep.change ih.sound).invariants ih hstep.kinds

/-- **The async flag is exact in every settled scene.**  The question ends, its answer is whether an
asynchronous function can be reached, and it leaves all compiled operations as they are; operations
that are compiled, or compiled now, wait exactly when that is so. -/
theorem Settled.async_iff_reachesAsync (h : σ.Settled) (hs : s ∈ σ.nodes) :
    (∃ b w, s.isAsync σ.world = .ok (b, w) ∧ (b = true ↔ σ.world.ReachesAsync s) ∧
      w.parseCells = σ.world.parseCells ∧ w.serializeCells = σ.world.serializeCells) ∧
    (∃ c w, s.parseOperation σ.world = .ok (c, w) ∧
      (c.operation.isAsync = true ↔ σ.world.ReachesAsync s)) ∧
    ∀ c, σ.world.parseCells s.id = .filled c →
      (c.operation.isAsync = true ↔ σ.world.ReachesAsync s) := by
  have inv := h.invariants
  have hanswer := inv.exact.answer_iff inv.sound.hosts hs
  refine ⟨?_, ?_, fun c hc => inv.exact.parse s hs c hc⟩
  · obtain ⟨w, hrun, -, hparse, hserialize, -⟩ := Schema.isAsync_done inv.sound hs inv.sound.later
    exact ⟨_, w, hrun, hanswer, hparse, hserialize⟩
  · obtain ⟨w, -, hrun⟩ := Schema.parseOperation_gives inv.sound hs _ inv.sound.later
    exact ⟨_, w, hrun, by rw [inv.sound.planned_isAsync hs, hanswer]⟩

/-! ### A cyclic graph -/

/-- A reference inside the tuple that it stands for. -/
def inner : Schema := .node 0 (.recursive 0) Metadata.empty none

/-- A leaf with an asynchronous parser. -/
def waiting : Schema :=
  .node 1 (.custom "waiting" ⟨some (.async ⟨.compute .ok, 1, none⟩), none⟩) Metadata.empty none

/-- A tuple of the two, to which the reference is bound. -/
def outer : Schema := .node 2 (.tuple [inner, waiting]) Metadata.empty none

/-- The scene of these nodes. -/
def cyclic : Scene where
  world := { made 3 1 with bindings := updateAt (made 3 1).bindings 0 (.live outer) }
  nodes := [outer, waiting, inner]

/-- The scene after the question has been asked for the reference. -/
def cyclicAsked : Scene where
  world :=
    { cyclic.world with
      asyncCells := updateAt (updateAt cyclic.world.asyncCells 0 .filling) 0 (.filled true) }
  nodes := cyclic.nodes

theorem cyclic_built : Relation.ReflTransGen (Step .building) initial cyclic := by
  have h₁ : Step .building initial ⟨made 0 1, []⟩ := .reference rfl
  have h₂ : Step .building ⟨made 0 1, []⟩ ⟨made 1 1, [inner]⟩ :=
    .made (fun t ht => by cases ht) (by trivial)
  have h₃ : Step .building ⟨made 1 1, [inner]⟩ ⟨made 2 1, [waiting, inner]⟩ :=
    .made (fun t ht => by cases ht) (by trivial)
  have h₄ : Step .building ⟨made 2 1, [waiting, inner]⟩ ⟨made 3 1, [outer, waiting, inner]⟩ :=
    .made (fun t ht => by simpa [Kind.children, or_comm] using ht) (by trivial)
  have h₅ : Step .building ⟨made 3 1, [outer, waiting, inner]⟩ cyclic :=
    .bind Nat.zero_lt_one rfl (List.mem_cons_self ..) rfl
  exact .tail (.tail (.tail (.tail (.single h₁) h₂) h₃) h₄) h₅

theorem cyclicAsked_settled : cyclicAsked.Settled := by
  have hasked : Step .using cyclic cyclicAsked :=
    .isAsync (s := inner) (b := true) (by simp [cyclic]) rfl
  refine ⟨cyclic, cyclic_built, fun s hs r hr => ?_, .single hasked⟩
  simp only [cyclic, List.mem_cons, List.not_mem_nil, or_false] at hs
  rcases hs with rfl | rfl | rfl <;> cases hr
  exact ⟨outer, rfl⟩

/-- In the cyclic graph the tuple waits, after its reference has been asked as before. -/
theorem async_iff_reachesAsync_cyclic :
    cyclicAsked.Settled ∧ outer ∈ cyclicAsked.nodes ∧
      ∃ b w, outer.isAsync cyclicAsked.world = .ok (b, w) ∧
        (b = true ↔ cyclicAsked.world.ReachesAsync outer) :=
  have hm : outer ∈ cyclicAsked.nodes := List.mem_cons_self ..
  have ⟨⟨b, w, hrun, hiff, _⟩, _⟩ := Settled.async_iff_reachesAsync cyclicAsked_settled hm
  ⟨cyclicAsked_settled, hm, b, w, hrun, hiff⟩

end Scene

end Schemata
