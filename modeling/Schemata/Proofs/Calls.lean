/-
**Calls on a graph that is bound.**

Once everything is bound, a graph is used: nodes are asked whether they wait, compiled, copied with
other metadata and run in either direction, and tasks that some parse has left are polled, in any
order.  A run fills cells on its way whenever a reference leads to a schema that has not been
compiled.  All of this leaves the settings as they are, and each node is going to be compiled to
what was planned for it at first.

Names of shapes are functions of the nodes alone, so asking for one changes nothing and is not among
the calls.

Main definitions:

* `Schemata.Scene.Call`, `Schemata.Scene.Calls`, `Schemata.Scene.Called` — calls, and the scenes
  that they lead to when everything is bound;
* `Schemata.Scene.Extends` — a scene with more nodes and the same plan;
* `Schemata.Scene.Onward` — the worlds that belong to such scenes.

Main results:

* `Schemata.Scene.Called.invariants` — **what holds after any calls**;
* `Schemata.Scene.Calls.extends` — **calls keep the plan**;
* `Schemata.Scene.Invariants.onward_compiles`, `Schemata.Scene.Invariants.onward_deterministic` —
  onward, compiling gives what was planned, and runs do not depend on anything else.
-/

import Schemata.Proofs.AsyncFlag
import Schemata.Proofs.Determinism

set_option relaxedAutoImplicit false
set_option autoImplicit false

namespace Schemata

/-- **Starting a parse is steady**, whatever functions it calls. -/
theorem World.Sound.stage_steady {w₀ : World} {nodes : List Schema} {s : Schema}
    (h : w₀.Sound nodes) (fuel : Nat) (hs : s ∈ nodes) (v : Value) :
    Steady (w₀.Later nodes) (s.stage fuel v) :=
  Schema.stageOn_steady (h.compiles fun _ hs => hs) hs
    (ParseOperation.stages (w₀.later_leavesLogsOpen nodes) (h.machine_deterministic fuel) _) v

/-- The planned parse operations depend on the world only through the settings, the cells and the
answers for the nodes. -/
theorem World.Hosts.parsePlan_congr {w w' : World} {nodes : List Schema} (h : w.Hosts nodes)
    (hconfig : w'.config = w.config) (hbindings : w'.bindings = w.bindings)
    (hcells : ∀ s ∈ nodes, w'.parseCells s.id = w.parseCells s.id)
    (hanswer : ∀ s ∈ nodes, w'.answer s = w.answer s) :
    ∀ s ∈ nodes, w'.parsePlan s = w.parsePlan s := by
  refine h.induction fun s hs ih => ?_
  cases hc : w.parseCells s.id with
  | filled c =>
      rw [World.parsePlan_of_filled ((hcells s hs).trans hc), World.parsePlan_of_filled hc]
  | empty | filling =>
      rw [World.parsePlan_of_unfilled (by rw [hcells s hs, hc]; rfl),
        World.parsePlan_of_unfilled (by rw [hc]; rfl), hanswer s hs]
      refine congrArg (Compiled.mk s.id) (Kind.parser_congr hconfig hbindings _ _ fun t ht => ?_)
      rw [World.planned, World.planned, ih t (Kind.embedded_subset _ _ ht)]

/-- The planned serialize operations depend on the world only through the bindings and the cells. -/
theorem World.Hosts.serializePlan_congr {w w' : World} {nodes : List Schema} (h : w.Hosts nodes)
    (hbindings : w'.bindings = w.bindings)
    (hcells : ∀ s ∈ nodes, w'.serializeCells s.id = w.serializeCells s.id) :
    ∀ s ∈ nodes, w'.serializePlan s = w.serializePlan s := by
  refine h.induction fun s hs ih => ?_
  cases hc : w.serializeCells s.id with
  | filled c =>
      rw [World.serializePlan_of_filled ((hcells s hs).trans hc), World.serializePlan_of_filled hc]
  | empty | filling =>
      rw [World.serializePlan_of_unfilled (by rw [hcells s hs, hc]; rfl),
        World.serializePlan_of_unfilled (by rw [hc]; rfl)]
      refine Kind.serializer_congr hbindings _ fun t ht => ?_
      rw [ih t (Kind.embedded_subset _ _ ht)]

namespace Scene

/-! ### Calls -/

/-- **One call** on a node or on a task. -/
inductive Call : Scene → Scene → Prop
  /-- A question, a compilation, or a copy with other metadata. -/
  | use {σ τ : Scene} : Step .using σ τ → Call σ τ
  | parse {σ : Scene} {s : Schema} {v : Value} {fuel : Nat} {r : Result} {w : World} :
      s ∈ σ.nodes → s.parse fuel v σ.world = .ok (r, w) → Call σ ⟨w, σ.nodes⟩
  | serialize {σ : Scene} {s : Schema} {v : Value} {fuel : Nat} {r : Result} {w : World} :
      s ∈ σ.nodes → s.serialize fuel v σ.world = .ok (r, w) → Call σ ⟨w, σ.nodes⟩
  | parseAsync {σ : Scene} {s : Schema} {v : Value} {fuel : Nat} {r : Result} {w : World} :
      s ∈ σ.nodes → s.parseAsync fuel v σ.world = .ok (r, w) → Call σ ⟨w, σ.nodes⟩
  | stage {σ : Scene} {s : Schema} {v : Value} {fuel : Nat} {r : Except Error Staged}
      {w : World} : s ∈ σ.nodes → s.stage fuel v σ.world = .ok (r, w) → Call σ ⟨w, σ.nodes⟩
  | poll {σ : Scene} {task : Task} {fuel : Nat} {p : Poll} {w : World} :
      task.poll (machine fuel) σ.world = .ok (p, w) → Call σ ⟨w, σ.nodes⟩

/-- Calls in any order. -/
def Calls : Scene → Scene → Prop := Relation.ReflTransGen Call

/-- **The scenes of a history in which everything is bound before the first call.** -/
def Called (σ : Scene) : Prop :=
  ∃ σ₀, Relation.ReflTransGen (Step .building) initial σ₀ ∧ σ₀.Resolved ∧ σ₀.Calls σ

section

variable {σ τ υ : Scene} {s : Schema}

/-- **What a call changes**: cells are filled as planned, or a node is made. -/
theorem Call.change (h : Call σ τ) (hs : σ.world.Sound σ.nodes) : Change .using σ τ := by
  cases h with
  | use hstep => exact hstep.change hs
  | parse hm hrun => exact .later ((hs.parse_steady _ hm _).keeps hs.later hrun)
  | serialize hm hrun => exact .later ((hs.serialize_steady _ hm _).keeps hs.later hrun)
  | parseAsync hm hrun => exact .later ((hs.parseAsync_steady _ hm _).keeps hs.later hrun)
  | stage hm hrun => exact .later ((hs.stage_steady _ hm _).keeps hs.later hrun)
  | @poll task fuel _ _ hrun =>
      have hsteady := task.poll_steady (σ.world.later_leavesLogsOpen σ.nodes)
        (hs.machine_deterministic fuel)
      exact .later (hsteady.keeps hs.later hrun)

/-- A call makes no nodes of new kinds. -/
theorem Call.kinds (h : Call σ τ) : ∀ t ∈ τ.nodes, ∃ s ∈ σ.nodes, s.kind = t.kind := by
  cases h with
  | use hstep => exact hstep.kinds
  | parse | serialize | parseAsync | stage | poll => exact fun t ht => ⟨t, ht, rfl⟩

theorem Calls.kinds (h : σ.Calls τ) : ∀ t ∈ τ.nodes, ∃ s ∈ σ.nodes, s.kind = t.kind := by
  induction h with
  | refl => exact fun t ht => ⟨t, ht, rfl⟩
  | tail _ hcall ih =>
      intro t ht
      obtain ⟨s, hs, hst⟩ := hcall.kinds t ht
      obtain ⟨o, ho, hos⟩ := ih s hs
      exact ⟨o, ho, hos.trans hst⟩

theorem Call.invariants (h : Call σ τ) (hσ : σ.Invariants) : τ.Invariants :=
  (h.change hσ.sound).invariants hσ h.kinds

theorem Calls.invariants (h : σ.Calls τ) (hσ : σ.Invariants) : τ.Invariants := by
  induction h with
  | refl => exact hσ
  | tail _ hcall ih => exact hcall.invariants ih

/-- **What holds after any calls.** -/
theorem Called.invariants (h : σ.Called) : σ.Invariants := by
  obtain ⟨σ₀, hbuild, hresolved, hcalls⟩ := h
  exact hcalls.invariants (built_invariants hbuild hresolved)

/-- A settled scene is one of these. -/
theorem Settled.called (h : σ.Settled) : σ.Called := by
  obtain ⟨σ₀, hbuild, hresolved, huse⟩ := h
  exact ⟨σ₀, hbuild, hresolved, huse.lift id fun _ _ => .use⟩

theorem Called.calls (h : σ.Called) (hcalls : σ.Calls τ) : τ.Called := by
  obtain ⟨σ₀, hbuild, hresolved, hbefore⟩ := h
  exact ⟨σ₀, hbuild, hresolved, hbefore.trans hcalls⟩

/-! ### Scenes with the same plan -/

/-- **A scene with more nodes, under the same settings and with the same plan** for the nodes that
were there. -/
structure Extends (σ τ : Scene) : Prop where
  nodes : σ.nodes ⊆ τ.nodes
  settings : σ.world.SameSettings τ.world
  parse : ∀ s ∈ σ.nodes, τ.world.parsePlan s = σ.world.parsePlan s
  serialize : ∀ s ∈ σ.nodes, τ.world.serializePlan s = σ.world.serializePlan s

theorem Extends.refl (σ : Scene) : σ.Extends σ where
  nodes := List.Subset.refl _
  settings := .refl _
  parse _ _ := rfl
  serialize _ _ := rfl

theorem Extends.trans (h : σ.Extends τ) (h' : τ.Extends υ) : σ.Extends υ where
  nodes := List.Subset.trans h.nodes h'.nodes
  settings := ⟨h.settings.1.trans h'.settings.1, h.settings.2.trans h'.settings.2⟩
  parse s hs := (h'.parse s (h.nodes hs)).trans (h.parse s hs)
  serialize s hs := (h'.serialize s (h.nodes hs)).trans (h.serialize s hs)

/-- Worlds ahead have the same plan. -/
theorem Extends.of_later {w : World} (hs : σ.world.Sound σ.nodes)
    (h : σ.world.Later σ.nodes w) : σ.Extends ⟨w, σ.nodes⟩ where
  nodes := List.Subset.refl _
  settings := ⟨h.ahead.bindings.symm, h.ahead.config.symm⟩
  parse := h.ahead.parsePlan hs
  serialize := h.ahead.serializePlan hs

/-- A new node leaves the answers for the others, being reached by none of them. -/
theorem Change.answer (h : Change .using σ τ) (hσ : σ.world.Exact σ.nodes)
    (hτ : τ.world.Exact τ.nodes) (hsσ : σ.world.Sound σ.nodes) (hsτ : τ.world.Sound τ.nodes)
    (hs : s ∈ σ.nodes) (hs' : s ∈ τ.nodes) : τ.world.answer s = σ.world.answer s := by
  have hreach := World.reachesAsync_congr h.settings_same.1
  refine Bool.eq_iff_iff.2 ?_
  rw [hτ.answer_iff hsτ.hosts hs', hσ.answer_iff hsσ.hosts hs, hreach]

/-- **A use of the graph keeps the plan.** -/
theorem Change.extends (h : Change .using σ τ) (hσ : σ.Invariants) (hτ : τ.Invariants) :
    σ.Extends τ := by
  have hanswer : ∀ s ∈ σ.nodes, s ∈ τ.nodes → τ.world.answer s = σ.world.answer s := fun s hs hs' =>
    h.answer hσ.exact hτ.exact hσ.sound hτ.sound hs hs'
  cases h with
  | later hl => exact .of_later hσ.sound hl
  | @node _ _ kind metadata origin _ _ _ _ _ _ =>
      have hother : ∀ s ∈ σ.nodes, s.id ≠ σ.world.nextNode := fun s hs =>
        Nat.ne_of_lt (hσ.sound.hosts.known s hs)
      have hnodes := List.subset_cons_self (.node σ.world.nextNode kind metadata origin) σ.nodes
      exact
        { nodes := hnodes
          settings := ⟨rfl, rfl⟩
          parse := hσ.sound.hosts.parsePlan_congr rfl rfl
            (fun s hs => updateAt_other (hother s hs)) fun s hs => hanswer s hs (hnodes hs)
          serialize := hσ.sound.hosts.serializePlan_congr rfl
            fun s hs => updateAt_other (hother s hs) }

theorem Call.extends (h : Call σ τ) (hσ : σ.Invariants) : σ.Extends τ :=
  (h.change hσ.sound).extends hσ (h.invariants hσ)

/-- **Calls keep the plan.** -/
theorem Calls.extends (h : σ.Calls τ) (hσ : σ.Invariants) : σ.Extends τ := by
  induction h with
  | refl => exact .refl σ
  | tail hbefore hcall ih => exact ih.trans (hcall.extends (Calls.invariants hbefore hσ))

/-! ### Worlds with the same plan -/

/-- **The worlds of scenes with the same plan.** -/
def Onward (σ : Scene) (w : World) : Prop :=
  ∃ nodes, σ.Extends ⟨w, nodes⟩ ∧ w.Sound nodes

theorem Invariants.onward (h : σ.Invariants) : σ.Onward σ.world := ⟨σ.nodes, .refl σ, h.sound⟩

theorem Extends.onward (h : σ.Extends τ) (hτ : τ.Invariants) : σ.Onward τ.world :=
  ⟨τ.nodes, h, hτ.sound⟩

/-- What is ahead of such a world is such a world. -/
theorem Onward.later {w w' : World} {nodes : List Schema} (h : σ.Extends ⟨w, nodes⟩)
    (hw : w.Sound nodes) (hl : w.Later nodes w') : σ.Onward w' :=
  ⟨nodes, h.trans (.of_later (σ := ⟨w, nodes⟩) hw hl), hl.sound hw⟩

theorem onward_leavesLogsOpen (σ : Scene) : LeavesLogsOpen σ.Onward := by
  rintro w log ⟨nodes, hext, hw⟩
  exact Onward.later hext hw (hw.later.withLog log)

/-- **Onward, compiling gives what was planned.** -/
theorem onward_compiles (σ : Scene) : σ.world.Compiles (· ∈ σ.nodes) σ.Onward where
  bindings := by
    rintro w ⟨nodes, hext, -⟩
    exact hext.settings.1.symm
  parse := by
    rintro s hs w ⟨nodes, hext, hw⟩
    obtain ⟨w', hl, hrun⟩ := Schema.parseOperation_gives hw (hext.nodes hs) w hw.later
    exact ⟨w', Onward.later hext hw hl, hrun.trans (by rw [hext.parse s hs])⟩
  serialize := by
    rintro s hs w ⟨nodes, hext, hw⟩
    obtain ⟨w', hl, hrun⟩ := Schema.serializeOperation_gives hw (hext.nodes hs) w hw.later
    exact ⟨w', Onward.later hext hw hl, hrun.trans (by rw [hext.serialize s hs])⟩

/-- **Onward, runs do not depend on what has been compiled, or on the log.** -/
theorem Invariants.onward_deterministic (h : σ.Invariants) (fuel : Nat) :
    (machine fuel).Deterministic σ.Onward :=
  (onward_compiles σ).machine_deterministic (onward_leavesLogsOpen σ) h.sound.hosts.targets fuel

end

end Scene

end Schemata
