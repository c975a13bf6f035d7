/-
**The graph of schemas.**

Nodes lead to the nodes directly below them, and a reference leads to the schema that it is bound
to, so the graph may be cyclic.  Without references it is a forest that grows from below: a node is
made after the nodes below it, and has a larger identity than they have.

Main definitions:

* `Schemata.Kind.successors`, `Schemata.World.Leads`, `Schemata.World.Reaches` — one step, and any
  number of steps;
* `Schemata.World.ReachesAsync` — an asynchronous function can be reached;
* `Schemata.Kind.Formed` — what the constructors see to;
* `Schemata.World.Hosts` — the nodes of a world, closed under steps, told apart by their identities.

Main results:

* `Schemata.World.Hosts.leads`, `Schemata.World.Hosts.reaches` — steps stay among the nodes;
* `Schemata.World.Hosts.induction_within` — **induction along the nodes below**;
* `Schemata.World.reachesAsync_of_leads` — asynchronous functions are reached through steps.
-/

import Mathlib.Logic.Relation
import Schemata.Asynchrony

set_option relaxedAutoImplicit false
set_option autoImplicit false

namespace Schemata

@[simp] theorem Schema.id_node (id : NodeId) (kind : Kind) (metadata : Metadata)
    (origin : Option Schema) : (Schema.node id kind metadata origin).id = id := rfl

@[simp] theorem Schema.kind_node (id : NodeId) (kind : Kind) (metadata : Metadata)
    (origin : Option Schema) : (Schema.node id kind metadata origin).kind = kind := rfl

/-! ### Steps -/

/-- Whether the kind itself has an asynchronous function. -/
def Kind.isAsync : Kind → Bool
  | .custom _ handlers => handlers.isAsync
  | .transformed _ effect => effect.isAsync
  | _ => false

/-- The nodes that a kind leads to: those directly below, and the schema that a reference stands
for. -/
def Kind.successors (w : World) : Kind → List Schema
  | .recursive r => (w.target? r).toList
  | kind => kind.children

namespace World

/-- One step. -/
def Leads (w : World) (s t : Schema) : Prop := t ∈ s.kind.successors w

/-- Any number of steps. -/
def Reaches (w : World) : Schema → Schema → Prop := Relation.ReflTransGen w.Leads

/-- **An asynchronous function can be reached.** -/
def ReachesAsync (w : World) (s : Schema) : Prop := ∃ t, w.Reaches s t ∧ t.kind.isAsync = true

/-- Steps depend on the world only through the bindings. -/
theorem leads_congr {w w' : World} (h : w.bindings = w'.bindings) : w.Leads = w'.Leads := by
  funext s t
  have hs : s.kind.successors w = s.kind.successors w' := by
    cases s.kind with
    | recursive r => rw [Kind.successors, Kind.successors, target?, target?, h]
    | _ => rfl
  rw [Leads, Leads, hs]

theorem reaches_congr {w w' : World} (h : w.bindings = w'.bindings) : w.Reaches = w'.Reaches :=
  congrArg Relation.ReflTransGen (leads_congr h)

theorem reachesAsync_congr {w w' : World} (h : w.bindings = w'.bindings) :
    w.ReachesAsync = w'.ReachesAsync := by
  funext s
  rw [ReachesAsync, ReachesAsync, reaches_congr h]

theorem leads_of_child {w : World} {s t : Schema} (h : t ∈ s.children) : w.Leads s t := by
  cases s with
  | node id kind metadata origin =>
      cases kind <;> first | exact h | cases h

theorem leads_of_target {w : World} {s t : Schema} {r : Reference} (hs : s.kind = .recursive r)
    (ht : w.target? r = some t) : w.Leads s t := by
  simp [Leads, hs, Kind.successors, ht]

/-- A step goes to a node below or to the target of a reference. -/
theorem leads_cases {w : World} {s t : Schema} (h : w.Leads s t) :
    t ∈ s.children ∨ ∃ r, s.kind = .recursive r ∧ w.target? r = some t := by
  cases s with
  | node id kind metadata origin =>
      cases kind with
      | recursive r => exact .inr ⟨r, rfl, by simpa [Leads, Schema.kind, Kind.successors] using h⟩
      | _ => exact .inl h

theorem reachesAsync_of_own {w : World} {s : Schema} (h : s.kind.isAsync = true) :
    w.ReachesAsync s := ⟨s, .refl, h⟩

theorem reachesAsync_of_leads {w : World} {s t : Schema} (h : w.Leads s t)
    (ht : w.ReachesAsync t) : w.ReachesAsync s := by
  obtain ⟨u, hu, ha⟩ := ht
  exact ⟨u, .head h hu, ha⟩

/-- Where an asynchronous function is reached it stands at the node itself or behind a step. -/
theorem reachesAsync_cases {w : World} {s : Schema} (h : w.ReachesAsync s) :
    s.kind.isAsync = true ∨ ∃ t, w.Leads s t ∧ w.ReachesAsync t := by
  obtain ⟨u, hu, ha⟩ := h
  cases hu.cases_head with
  | inl e => subst e; exact .inl ha
  | inr e =>
      obtain ⟨t, hst, htu⟩ := e
      exact .inr ⟨t, hst, u, htu, ha⟩

/-- Nodes of the same kind reach the same asynchronous functions. -/
theorem reachesAsync_of_kind {w : World} {s t : Schema} (h : s.kind = t.kind)
    (hs : w.ReachesAsync s) : w.ReachesAsync t := by
  rcases reachesAsync_cases hs with ha | ⟨u, hu, ha⟩
  · exact reachesAsync_of_own (h ▸ ha)
  · refine reachesAsync_of_leads ?_ ha
    rwa [Leads, ← h]

end World

/-! ### Nodes of a world -/

/-- What the constructors see to: the names of fields are distinct, a union has members, and a
variant stands around its literal. -/
def Kind.Formed : Kind → Prop
  | .object fields _ => (Entries.keys fields).Nodup
  | .union members => members ≠ []
  | .transformed base (.variant external _) => base.kind = .literal external
  | _ => True

/-- **The nodes of a world.** -/
structure World.Hosts (w : World) (nodes : List Schema) : Prop where
  identity : ∀ s ∈ nodes, ∀ t ∈ nodes, s.id = t.id → s = t
  below : ∀ s ∈ nodes, ∀ t ∈ s.children, t ∈ nodes ∧ t.id < s.id
  formed : ∀ s ∈ nodes, s.kind.Formed
  known : ∀ s ∈ nodes, s.id < w.nextNode
  targets : ∀ r t, w.target? r = some t → t ∈ nodes
  unbound : ∀ r, w.nextReference ≤ r → w.bindings r = .unset

namespace World.Hosts

variable {w : World} {nodes : List Schema}

theorem leads (h : w.Hosts nodes) {s t : Schema} (hs : s ∈ nodes) (hst : w.Leads s t) :
    t ∈ nodes := by
  rcases leads_cases hst with hc | ⟨r, -, hr⟩
  · exact (h.below s hs t hc).1
  · exact h.targets r t hr

theorem reaches (h : w.Hosts nodes) {s t : Schema} (hs : s ∈ nodes) (hst : w.Reaches s t) :
    t ∈ nodes := by
  induction hst with
  | refl => exact hs
  | tail _ hst ih => exact h.leads ih hst

/-- **Induction along the nodes below**, for nodes that steps do not leave: what is below a node was
made before it, so identities decrease. -/
theorem induction_within (h : w.Hosts nodes) {N : Schema → Prop} (hmember : ∀ s, N s → s ∈ nodes)
    (hleads : ∀ s t, N s → w.Leads s t → N t) {P : Schema → Prop}
    (step : ∀ s, N s → (∀ t ∈ s.children, P t) → P s) : ∀ s, N s → P s := by
  intro s
  induction hn : s.id using Nat.strongRecOn generalizing s with
  | ind n ih =>
      intro hs
      refine step s hs fun t ht => ?_
      have hlt := (h.below s (hmember s hs) t ht).2
      exact ih t.id (hn ▸ hlt) t rfl (hleads s t hs (leads_of_child ht))

/-- Induction along the nodes below, for all nodes. -/
theorem induction (h : w.Hosts nodes) {P : Schema → Prop}
    (step : ∀ s ∈ nodes, (∀ t ∈ s.children, P t) → P s) : ∀ s ∈ nodes, P s :=
  h.induction_within (fun _ hs => hs) (fun _ _ hs => h.leads hs) step

/-- Lists of nodes are told apart by their identities. -/
theorem eq_of_ids (h : w.Hosts nodes) : ∀ {ss ts : List Schema},
    (∀ s ∈ ss, s ∈ nodes) → (∀ t ∈ ts, t ∈ nodes) → ss.map Schema.id = ts.map Schema.id → ss = ts
  | [], [], _, _, _ => rfl
  | [], t :: ts, _, _, hids => by cases hids
  | s :: ss, [], _, _, hids => by cases hids
  | s :: ss, t :: ts, hs, ht, hids => by
      obtain ⟨hid, hids⟩ := List.cons.inj hids
      obtain ⟨hsn, hss⟩ := List.forall_mem_cons.1 hs
      obtain ⟨htn, hts⟩ := List.forall_mem_cons.1 ht
      rw [h.identity s hsn t htn hid, h.eq_of_ids hss hts hids]

/-- A bound reference is one that was handed out. -/
theorem lt_of_target (h : w.Hosts nodes) {r : Reference} {t : Schema}
    (ht : w.target? r = some t) : r < w.nextReference := by
  refine Nat.lt_of_not_le fun hr => ?_
  have hu := h.unbound r hr
  simp [World.target?, hu] at ht

end World.Hosts

end Schemata
