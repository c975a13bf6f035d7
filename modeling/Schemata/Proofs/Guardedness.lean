/-
**Guarded recursion.**

What a node is given it hands on: as it is, or a part of it, or something made of it.  Running a
schema comes to an end when none of this can go on for ever.  Parts of a value become smaller.
Values that are handed on as they are make trouble only on a cycle that no composite interrupts, and
values that are made anew only on a cycle at all.  Members of a union that are the union itself are
not run, so they are on no such cycle.

Main definitions:

* `Schemata.Kind.relays`, `Schemata.World.Relays` — the nodes that are handed the value as it is;
* `Schemata.Kind.Converts` — kinds that hand on values made anew;
* `Schemata.Scene.Guarded` — graphs in which every cycle is interrupted;
* `Schemata.Kind.Hands` — which nodes are run on which values;
* `Schemata.World.weight` — what becomes less from one to the next.

Main results:

* `Schemata.Scene.Guarded.weight_lt` — **what is handed on weighs less**;
* `Schemata.Scene.Guarded.induction` — induction along what is handed on.
-/

import Mathlib.Data.Set.Card
import Mathlib.Data.Prod.Lex
import Schemata.Proofs.History

set_option relaxedAutoImplicit false
set_option autoImplicit false

namespace Schemata

/-! ### Guarded graphs -/

/-- Whether the kind hands on values that it makes anew. -/
def Kind.Converts : Kind → Prop
  | .jsonString _ | .transformed _ (.transform _) | .transformed _ (.preprocess _) => True
  | _ => False

/-- The nodes that a kind hands its value to as it is.  A composite hands on parts of it, and a
union does not run members that are the union itself. -/
def Kind.relays (w : World) : Kind → List Schema
  | .array _ | .dict _ | .object _ _ | .tuple _ => []
  | .recursive r => (w.target? r).toList
  | kind => kind.embedded w

/-- The value is handed on as it is. -/
def World.Relays (w : World) (s t : Schema) : Prop := t ∈ s.kind.relays w

theorem Kind.relays_subset (w : World) (kind : Kind) : kind.relays w ⊆ kind.successors w := by
  cases kind with
  | array | dict | object | tuple => exact List.nil_subset _
  | union members => exact Kind.embedded_subset w (.union members)
  | _ => exact List.Subset.refl _

theorem World.Relays.leads {w : World} {s t : Schema} (h : w.Relays s t) : w.Leads s t :=
  s.kind.relays_subset w h

/-- **Every cycle is interrupted**: no value is handed around as it is, and what makes values anew
is on no cycle. -/
structure Scene.Guarded (σ : Scene) : Prop where
  relays : ∀ s ∈ σ.nodes, ¬ Relation.TransGen σ.world.Relays s s
  converts : ∀ s ∈ σ.nodes, s.kind.Converts → ¬ Relation.TransGen σ.world.Leads s s

/-- There is no cycle along which a rank falls. -/
theorem not_cycle_of_rank {nodes : List Schema} {R : Schema → Schema → Prop} (rank : Schema → Nat)
    (h : ∀ s ∈ nodes, ∀ t, R s t → t ∈ nodes ∧ rank t < rank s) :
    ∀ s ∈ nodes, ¬ Relation.TransGen R s s := by
  have falls : ∀ s ∈ nodes, ∀ t, Relation.TransGen R s t → t ∈ nodes ∧ rank t < rank s := by
    intro s hs t hst
    induction hst with
    | single hst => exact h s hs _ hst
    | tail _ hxy ih =>
        obtain ⟨hy, hlt⟩ := h _ ih.1 _ hxy
        exact ⟨hy, hlt.trans ih.2⟩
  exact fun s hs hcycle => absurd (falls s hs s hcycle).2 (lt_irrefl _)

/-- What a composite finds in a value for the nodes below it. -/
inductive Value.Contains : Value → Value → Prop
  | item {items : List Value} {a : Value} : a ∈ items → Contains (.array items) a
  | entry {entries : List (String × Value)} {key : String} {a : Value} : (key, a) ∈ entries →
      Contains (.object entries) a
  /-- Null stands for what is missing. -/
  | missing (entries : List (String × Value)) : Contains (.object entries) .null

theorem Value.Contains.sizeOf_lt {v a : Value} (h : v.Contains a) : sizeOf a < sizeOf v := by
  cases h with
  | item ha =>
      have := List.sizeOf_lt_of_mem ha
      simp only [Value.array.sizeOf_spec]
      omega
  | entry ha =>
      have := List.sizeOf_lt_of_mem ha
      simp only [Value.object.sizeOf_spec, Prod.mk.sizeOf_spec] at this ⊢
      omega
  | missing entries =>
      have : 0 < sizeOf entries := by cases entries <;> simp
      simp only [Value.object.sizeOf_spec, Value.null.sizeOf_spec]
      omega

/-! ### What is handed on -/

/-- **A node below is run on a value**, in one direction or the other. -/
inductive Kind.Hands (w : World) (v : Value) : Kind → Schema → Value → Prop
  | relay {kind : Kind} {t : Schema} : t ∈ kind.relays w → Hands w v kind t v
  | part {kind : Kind} {t : Schema} {a : Value} : t ∈ kind.children → v.Contains a →
      Hands w v kind t a
  | convert {kind : Kind} {t : Schema} {a : Value} : kind.Converts → t ∈ kind.children →
      Hands w v kind t a
  /-- A literal gets the value outside for the literal inside. -/
  | exchange {base : Schema} {external internal : Literal} (a : Value) :
      Hands w v (.transformed base (.variant external internal)) base a

namespace World

variable {w : World} {nodes : List Schema} {s t : Schema} {v a : Value}

theorem leads_of_hands (h : s.kind.Hands w v t a) : w.Leads s t := by
  generalize hkind : s.kind = kind at h
  cases h with
  | relay ht => exact Relays.leads (by rwa [Relays, hkind])
  | part ht _ | convert _ ht => exact leads_of_child (by rwa [Schema.children, hkind])
  | exchange => exact leads_of_child (by simp [Schema.children, hkind, Kind.children])

/-- How many nodes can be reached. -/
noncomputable def reach (w : World) (s : Schema) : Nat := {t | w.Reaches s t}.ncard

/-- How many nodes can be handed the value as it is. -/
noncomputable def relaying (w : World) (s : Schema) : Nat := {t | Relation.TransGen w.Relays s t}.ncard

/-- **What becomes less**: the nodes that can be reached, then the value, then the nodes that the
value can be handed to as it is. -/
noncomputable def weight (w : World) (s : Schema) (v : Value) : ℕ ×ₗ ℕ ×ₗ ℕ :=
  toLex (w.reach s, toLex (sizeOf v, w.relaying s))

theorem Hosts.finite_reaches (h : w.Hosts nodes) (hs : s ∈ nodes) : {t | w.Reaches s t}.Finite :=
  (List.finite_toSet nodes).subset fun _ ht => h.reaches hs ht

theorem Hosts.reach_le (h : w.Hosts nodes) (hs : s ∈ nodes) (hst : w.Leads s t) :
    w.reach t ≤ w.reach s :=
  Set.ncard_le_ncard (fun _ hu => .head hst hu) (h.finite_reaches hs)

/-- Behind a node that is on no cycle there are fewer nodes. -/
theorem Hosts.reach_lt (h : w.Hosts nodes) (hs : s ∈ nodes) (hst : w.Leads s t)
    (hcycle : ¬ Relation.TransGen w.Leads s s) : w.reach t < w.reach s := by
  refine Set.ncard_lt_ncard ⟨fun _ hu => .head hst hu, fun hall => ?_⟩ (h.finite_reaches hs)
  have hback : w.Reaches t s := hall (show w.Reaches s s from .refl)
  exact hcycle (.head' hst hback)

/-- Where values are not handed around, there are fewer nodes to hand them to. -/
theorem Hosts.relaying_lt (h : w.Hosts nodes) (hs : s ∈ nodes) (hst : w.Relays s t)
    (hcycle : ¬ Relation.TransGen w.Relays t t) : w.relaying t < w.relaying s := by
  refine Set.ncard_lt_ncard ⟨fun _ hu => .head hst hu, fun hall => ?_⟩ ?_
  · exact hcycle (hall (show Relation.TransGen w.Relays s t from .single hst))
  · refine (h.finite_reaches hs).subset fun u hu => ?_
    exact (Relation.TransGen.to_reflTransGen hu).lift id fun _ _ hrelay => Relays.leads hrelay

/-- A literal is on no cycle, nor is a variant around it. -/
theorem not_cycle_of_variant {external internal : Literal} (hs : s.kind = .transformed t
    (.variant external internal)) (ht : t.kind = .literal external) :
    ¬ Relation.TransGen w.Leads s s := by
  intro hcycle
  have hleads : ∀ u, w.Leads s u → u = t := by
    intro u hu
    simpa [Leads, hs, Kind.successors, Kind.children] using hu
  have hleaf : ∀ u, ¬ w.Leads t u := by
    intro u hu
    simp [Leads, ht, Kind.successors, Kind.children] at hu
  obtain ⟨u, hu, hback⟩ := Relation.TransGen.head'_iff.1 hcycle
  rw [hleads u hu] at hback
  cases hback.cases_head with
  | inl heq => rw [← heq, ht] at hs; cases hs
  | inr hnext =>
      obtain ⟨u, hu, -⟩ := hnext
      exact hleaf u hu

end World

namespace Scene

variable {σ : Scene} {s t : Schema} {v a : Value}

/-- **What is handed on weighs less.** -/
theorem Guarded.weight_lt (h : σ.Guarded) (hosts : σ.world.Hosts σ.nodes) (hs : s ∈ σ.nodes)
    (hands : s.kind.Hands σ.world v t a) : σ.world.weight t a < σ.world.weight s v := by
  have hleads := World.leads_of_hands hands
  have ht := hosts.leads hs hleads
  have anew (hcycle : ¬ Relation.TransGen σ.world.Leads s s) :
      σ.world.weight t a < σ.world.weight s v :=
    Prod.Lex.toLex_lt_toLex.2 (.inl (hosts.reach_lt hs hleads hcycle))
  have onward (hless : toLex (sizeOf a, σ.world.relaying t) < toLex (sizeOf v, σ.world.relaying s)) :
      σ.world.weight t a < σ.world.weight s v :=
    Prod.Lex.toLex_lt_toLex.2 <| (hosts.reach_le hs hleads).lt_or_eq.imp_right fun heq =>
      ⟨heq, hless⟩
  generalize hkind : s.kind = kind at hands
  cases hands with
  | relay hrelay =>
      have hrelay : σ.world.Relays s t := by rwa [World.Relays, hkind]
      exact onward (Prod.Lex.toLex_lt_toLex.2 (.inr ⟨rfl, hosts.relaying_lt hs hrelay (h.relays t ht)⟩))
  | part _ hpart => exact onward (Prod.Lex.toLex_lt_toLex.2 (.inl hpart.sizeOf_lt))
  | convert hconvert _ => exact anew (h.converts s hs (hkind ▸ hconvert))
  | exchange =>
      have hliteral := hosts.formed s hs
      rw [hkind] at hliteral
      exact anew (World.not_cycle_of_variant hkind hliteral)

/-- **Induction along what is handed on.** -/
theorem Guarded.induction (h : σ.Guarded) (hosts : σ.world.Hosts σ.nodes)
    {P : Schema → Value → Prop}
    (step : ∀ s ∈ σ.nodes, ∀ v, (∀ t a, s.kind.Hands σ.world v t a → P t a) → P s v) :
    ∀ s ∈ σ.nodes, ∀ v, P s v := by
  intro s hs v
  induction hn : σ.world.weight s v using WellFoundedLT.induction generalizing s v with
  | ind n ih =>
      refine step s hs v fun t a hands => ?_
      exact ih _ (hn ▸ h.weight_lt hosts hs hands) t
        (hosts.leads hs (World.leads_of_hands hands)) a rfl

end Scene

end Schemata
