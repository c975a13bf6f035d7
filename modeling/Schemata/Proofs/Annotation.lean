/-
**Graphs that are built side by side, one with more metadata.**

The same graph is built twice.  The second time copies with other metadata are put in wherever one
likes: for placeholders, for what a builder returns, for any node above or below.  Both times there
are schemas in hand, in pairs, from which one goes on building; they may be dropped at any time.
The two graphs stay the same but for the copies, and the copies hold what they are copies of.  So a
schema that is held in the annotated graph is the counterpart of one that is held in the plain
graph.

The other way round this is true of what a builder has returned as long as nothing in hand goes
around it.  A builder that keeps the schema that it has made for itself, and returns a copy of it,
leaves the placeholder to the copy, which nothing holds.

Main definitions:

* `Schemata.Scene.Annotated` — **histories that differ in copies with other metadata**;
* `Schemata.World.Seals` — nothing in hand goes around what a builder has returned;
* `Schemata.Scene.Parallel` — what two such histories have in common.

Main results:

* `Schemata.Scene.Annotated.parallel` — **the graphs are the same but for copies**;
* `Schemata.Scene.Annotated.sealed` — nothing in hand ever goes around what builders have returned;
* `Schemata.Scene.Parallel.live_iff` — **a placeholder keeps its schema in both graphs or in none**.
-/

import Schemata.Proofs.Correspondence
import Schemata.Proofs.Holding

set_option relaxedAutoImplicit false
set_option autoImplicit false

namespace Schemata

/-! ### Kinds that are alike -/

section

variable {R S : Schema → Schema → Prop} {kind kind' : Kind}

theorem Kind.Like.captured (h : kind.Like R kind') : kind.captured = kind'.captured := by
  cases h with
  | custom name h => exact h.references
  | transformed _ he => exact he.references
  | _ => rfl

/-- What the constructors see to does not depend on metadata. -/
theorem Kind.Like.formed (h : kind.Like R kind') (hR : ∀ t t', R t t' → t.kind.Like S t'.kind)
    (hf : kind.Formed) : kind'.Formed := by
  cases h with
  | leaf => exact hf
  | @object fields fields' own h =>
      have hkeys : Entries.keys fields' = Entries.keys fields :=
        (List.forall₂_eq_eq_eq ▸ forall₂_map h fun _ _ hf => hf.1 :
          fields.map Prod.fst = fields'.map Prod.fst).symm
      rw [Kind.Formed, hkeys]
      exact hf
  | union h =>
      intro hnil
      subst hnil
      cases h
      exact hf rfl
  | @transformed s s' _ _ hs he =>
      cases he with
      | variant external internal =>
          have hkind := hR s s' hs
          rw [show s.kind = .literal external from hf] at hkind
          change s'.kind = _
          generalize s'.kind = k at hkind
          cases hkind
          rfl
      | _ => trivial
  | _ => trivial

end

/-- Schemas in pairs: one of each graph. -/
abbrev Pairs := List (Schema × Schema)

/-! ### What builders return -/

namespace World

/-- A schema holds a placeholder of the reference. -/
def Uses (w : World) (s : Schema) (r : Reference) : Prop :=
  ∃ p, w.Holds s p ∧ p.kind = .recursive r

/-- **Nothing in hand goes around what a builder has returned**: whatever holds `s` holds it as `t`
on the other side, unless nothing in hand has a placeholder for it. -/
def Seals (w w' : World) (hand : Pairs) (r : Reference) (s t : Schema) : Prop :=
  (∀ x y, (x, y) ∈ hand → ¬ w.Uses x r) ∨ ∀ x y, (x, y) ∈ hand → w.Holds x s → w'.Holds y t

/-- So it is for all that is bound. -/
def Sealed (w w' : World) (hand : Pairs) : Prop :=
  ∀ r s t, w.target? r = some s → w'.target? r = some t → w.Seals w' hand r s t

variable {w w' v v' : World} {hand hand' : Pairs} {r : Reference} {s t : Schema}

/-- **A builder that keeps nothing for itself**: what is in hand when it has returned is what it has
returned, lies below that, or does not use its placeholder. -/
theorem Seals.of_scoped (h : ∀ x y, (x, y) ∈ hand →
    (x = s ∧ y = t) ∨ (w.Holds s x ∧ ¬ w.Holds x s) ∨ ¬ w.Uses x r) : w.Seals w' hand r s t := by
  by_cases huses : w.Uses s r
  · refine .inr fun x y hxy hxs => ?_
    rcases h x y hxy with ⟨-, rfl⟩ | ⟨-, hnot⟩ | hfree
    · exact .refl
    · exact absurd hxs hnot
    · obtain ⟨p, hsp, hp⟩ := huses
      exact absurd ⟨p, hxs.trans hsp, hp⟩ hfree
  · refine .inl fun x y hxy huse => huses ?_
    rcases h x y hxy with ⟨rfl, -⟩ | ⟨hsx, -⟩ | hfree
    · exact huse
    · obtain ⟨p, hxp, hp⟩ := huse
      exact ⟨p, hsx.trans hxp, hp⟩
    · exact absurd huse hfree

theorem Seals.subset (h : w.Seals w' hand r s t) (hsub : hand' ⊆ hand) :
    w.Seals w' hand' r s t :=
  h.imp (fun h x y hxy => h x y (hsub hxy)) fun h x y hxy => h x y (hsub hxy)

theorem Sealed.subset (h : w.Sealed w' hand) (hsub : hand' ⊆ hand) : w.Sealed w' hand' :=
  fun r s t hs ht => (h r s t hs ht).subset hsub

/-- **One more pair in hand**: whatever the new schema holds, but for itself, a schema in hand holds
already, and the new counterpart holds what the counterpart of that one holds. -/
theorem Sealed.cons (h : w.Sealed w' hand) (hb : v.bindings = w.bindings)
    (hb' : v'.bindings = w'.bindings)
    (hself : ∀ r, s.kind = .recursive r → (∃ u, w.target? r = some u) →
      ∃ x y, (x, y) ∈ hand ∧ x.kind = .recursive r)
    (hholds : ∀ u, w.Holds s u → (u = s ∧ ∀ r, w.target? r ≠ some s) ∨
      ∃ x y, (x, y) ∈ hand ∧ w.Holds x u ∧ ∀ z, w'.Holds y z → w'.Holds t z) :
    v.Sealed v' ((s, t) :: hand) := by
  intro r a b ha hb₀
  have hv := holds_congr hb
  have hv' := holds_congr hb'
  rw [target?, hb] at ha
  rw [target?, hb'] at hb₀
  simp only [Seals, Uses, hv, hv']
  rcases h r a b ha hb₀ with hfree | hheld
  · left
    rintro x y hxy ⟨p, hxp, hp⟩
    rcases List.mem_cons.1 hxy with hnew | hxy
    · cases hnew
      rcases hholds p hxp with ⟨rfl, -⟩ | ⟨x, y, hxy, hxp, -⟩
      · obtain ⟨x, y, hxy, hx⟩ := hself r hp ⟨a, ha⟩
        exact hfree x y hxy ⟨x, .refl, hx⟩
      · exact hfree x y hxy ⟨p, hxp, hp⟩
    · exact hfree x y hxy ⟨p, hxp, hp⟩
  · refine .inr fun x y hxy hxa => ?_
    rcases List.mem_cons.1 hxy with hnew | hxy
    · cases hnew
      rcases hholds a hxa with ⟨rfl, hnone⟩ | ⟨x, y, hxy, hxa, hyt⟩
      · exact absurd ha (hnone r)
      · exact hyt b (hheld x y hxy hxa)
    · exact hheld x y hxy hxa

/-- What a copy holds, it is or the node that it is a copy of holds it. -/
theorem Holds.of_copy {u : Schema} (hchildren : t.children = s.children)
    (hcaptured : t.kind.captured = s.kind.captured) (horigin : t.origin = some s)
    (h : w.Holds t u) : u = t ∨ w.Holds s u := by
  rcases h.cases with rfl | ⟨x, htx, hxu⟩
  · exact .inl rfl
  · refine .inr ?_
    rcases owns_iff.1 htx with hchild | ⟨r, hr, hx⟩ | hx
    · exact .head (owns_of_child (hchildren ▸ hchild)) hxu
    · exact .head (owns_of_captured (hcaptured ▸ hr) hx) hxu
    · rw [horigin] at hx
      cases hx
      exact hxu

end World

namespace Scene

variable {σ τ σ' τ' : Scene} {made hand : Pairs} {s t u : Schema} {r : Reference}

/-! ### Histories -/

/-- **Histories that differ in copies with other metadata.**  The first scene is the plain one.  With
them go all pairs of schemas made so far, and those in hand. -/
inductive Annotated (seals : World → World → Pairs → Reference → Schema → Schema → Prop) :
    Scene → Scene → Pairs → Pairs → Prop
  | start : Annotated seals initial initial [] []
  | configure {σ τ : Scene} {made hand : Pairs} (config : Config) :
      Annotated seals σ τ made hand →
      Annotated seals ⟨{ σ.world with config := config }, σ.nodes⟩
        ⟨{ τ.world with config := config }, τ.nodes⟩ made hand
  /-- A node above schemas in hand, whose functions run schemas in hand. -/
  | fresh {σ τ : Scene} {made hand : Pairs} {kind kind' : Kind} {s t : Schema} {w w' : World} :
      Annotated seals σ τ made hand → kind.Like (fun x y => (x, y) ∈ hand) kind' → kind.Formed →
      (∀ r, kind ≠ .recursive r) →
      (∀ r ∈ kind.captured, ∃ x y, (x, y) ∈ hand ∧
        σ.world.target? r = some x ∧ τ.world.target? r = some y) →
      Schema.fresh kind σ.world = .ok (s, w) → Schema.fresh kind' τ.world = .ok (t, w') →
      Annotated seals ⟨w, s :: σ.nodes⟩ ⟨w', t :: τ.nodes⟩ ((s, t) :: made) ((s, t) :: hand)
  /-- A builder begins. -/
  | placeholder {σ τ : Scene} {made hand : Pairs} {r r' : Reference} {s t : Schema}
      {w w' : World} : Annotated seals σ τ made hand →
      Schema.placeholder σ.world = .ok ((r, s), w) →
      Schema.placeholder τ.world = .ok ((r', t), w') →
      Annotated seals ⟨w, s :: σ.nodes⟩ ⟨w', t :: τ.nodes⟩ ((s, t) :: made) ((s, t) :: hand)
  /-- A function is going to run a schema in hand. -/
  | capture {σ τ : Scene} {made hand : Pairs} {s t : Schema} {r r' : Reference} {w w' : World} :
      Annotated seals σ τ made hand → (s, t) ∈ hand → Schemata.capture s σ.world = .ok (r, w) →
      Schemata.capture t τ.world = .ok (r', w') →
      Annotated seals ⟨w, σ.nodes⟩ ⟨w', τ.nodes⟩ made hand
  | withPolicy {σ τ : Scene} {made hand : Pairs} {s t s' t' : Schema}
      {fields : List (String × Schema)} {own : Option UnknownKeys} {policy : UnknownKeys}
      {w w' : World} : Annotated seals σ τ made hand → (s, t) ∈ hand →
      s.kind = .object fields own → s.withPolicy policy σ.world = .ok (s', w) →
      t.withPolicy policy τ.world = .ok (t', w') →
      Annotated seals ⟨w, s' :: σ.nodes⟩ ⟨w', t' :: τ.nodes⟩ ((s', t') :: made)
        ((s', t') :: hand)
  /-- A copy that both graphs have. -/
  | copy {σ τ : Scene} {made hand : Pairs} {s t s' t' : Schema} {update update' : Metadata → Metadata}
      {w w' : World} : Annotated seals σ τ made hand → (s, t) ∈ hand →
      s.withMetadata update σ.world = .ok (s', w) → t.withMetadata update' τ.world = .ok (t', w') →
      Annotated seals ⟨w, s' :: σ.nodes⟩ ⟨w', t' :: τ.nodes⟩ ((s', t') :: made)
        ((s', t') :: hand)
  /-- **A copy that only the annotated graph has.** -/
  | annotate {σ τ : Scene} {made hand : Pairs} {s t t' : Schema} {update : Metadata → Metadata}
      {w' : World} : Annotated seals σ τ made hand → (s, t) ∈ hand →
      t.withMetadata update τ.world = .ok (t', w') →
      Annotated seals σ ⟨w', t' :: τ.nodes⟩ ((s, t') :: made) ((s, t') :: hand)
  | drop {σ τ : Scene} {made hand hand' : Pairs} : Annotated seals σ τ made hand →
      hand' ⊆ hand → Annotated seals σ τ made hand'
  /-- A builder has returned. -/
  | bind {σ τ : Scene} {made hand : Pairs} {r : Reference} {s t : Schema} {w w' : World} :
      Annotated seals σ τ made hand → r < σ.world.nextReference → σ.world.bindings r = .unset →
      (s, t) ∈ hand → bindReference r (.live s) σ.world = .ok ((), w) →
      bindReference r (.live t) τ.world = .ok ((), w') → seals σ.world τ.world hand r s t →
      Annotated seals ⟨w, σ.nodes⟩ ⟨w', τ.nodes⟩ made hand

/-- What a reference stands for has been bound to it. -/
theorem isSet_of_target? {w : World} (h : w.target? r = some s) : w.isSet r = true := by
  rw [World.target?] at h
  rw [World.isSet]
  cases hb : w.bindings r with
  | unset => rw [hb] at h; cases h
  | live | gone => rfl

/-- **What two such histories have in common.** -/
structure Parallel (σ τ : Scene) (made : Pairs) : Prop where
  left : Relation.ReflTransGen (Step .building) initial σ
  right : Relation.ReflTransGen (Step .building) initial τ
  nodes : ∀ x y, (x, y) ∈ made → x ∈ σ.nodes ∧ y ∈ τ.nodes
  kinds : ∀ x y, (x, y) ∈ made → x.kind.Like (fun x y => (x, y) ∈ made) y.kind
  unique : ∀ x x' y, (x, y) ∈ made → (x', y) ∈ made → x = x'
  origins : ∀ x y, (x, y) ∈ made →
    Option.Rel (fun x y => (x, y) ∈ made) x.origin y.origin ∨
      ∃ y₀, y.origin = some y₀ ∧ (x, y₀) ∈ made
  targets : ∀ r, Option.Rel (fun x y => (x, y) ∈ made) (σ.world.target? r) (τ.world.target? r)
  bound : ∀ r, σ.world.isSet r = τ.world.isSet r
  references : σ.world.nextReference = τ.world.nextReference
  config : σ.world.config = τ.world.config
  captured : ∀ x ∈ σ.nodes, ∀ r ∈ x.kind.captured, σ.world.isSet r = true
  placeholders : ∀ x ∈ σ.nodes, ∀ r, x.kind = .recursive r → r < σ.world.nextReference

namespace Parallel

variable (h : Parallel σ τ made)

include h

theorem leftHosts : σ.world.Hosts σ.nodes := (Reachable.sound (Leads.of_step h.left)).hosts

theorem rightHosts : τ.world.Hosts τ.nodes := (Reachable.sound (Leads.of_step h.right)).hosts

theorem leftOrigins : OriginsKnown σ.nodes := Reachable.originsKnown (Leads.of_step h.left)

theorem rightOrigins : OriginsKnown τ.nodes := Reachable.originsKnown (Leads.of_step h.right)

/-- **One more pair**, whose second schema is new. -/
theorem cons (left : Relation.ReflTransGen (Step .building) initial σ')
    (right : Relation.ReflTransGen (Step .building) initial τ') (hσ : σ.nodes ⊆ σ'.nodes)
    (hτ : τ.nodes ⊆ τ'.nodes) (hs : s ∈ σ'.nodes) (ht : t ∈ τ'.nodes) (hnew : t ∉ τ.nodes)
    (hb : σ'.world.bindings = σ.world.bindings) (hb' : τ'.world.bindings = τ.world.bindings)
    (hreferences : σ'.world.nextReference = τ'.world.nextReference)
    (hconfig : σ'.world.config = τ'.world.config)
    (hkind : s.kind.Like (fun x y => (x, y) ∈ made) t.kind)
    (horigin : Option.Rel (fun x y => (x, y) ∈ made) s.origin t.origin ∨
      ∃ t₀, t.origin = some t₀ ∧ (s, t₀) ∈ made)
    (hcaptured : ∀ x ∈ σ'.nodes, ∀ r ∈ x.kind.captured, σ.world.isSet r = true)
    (hplaceholders : ∀ x ∈ σ'.nodes, ∀ r, x.kind = .recursive r → r < σ'.world.nextReference) :
    Parallel σ' τ' ((s, t) :: made) := by
  have more : ∀ {a b : Option Schema}, Option.Rel (fun x y => (x, y) ∈ made) a b →
      Option.Rel (fun x y => (x, y) ∈ (s, t) :: made) a b := fun hab =>
    optionRel_imp hab fun _ _ hxy => List.mem_cons_of_mem _ hxy
  refine
    { left := left
      right := right
      nodes := fun x y hxy => ?_
      kinds := fun x y hxy => ?_
      unique := fun x x' y hxy hxy' => ?_
      origins := fun x y hxy => ?_
      targets := fun r => ?_
      bound := fun r => ?_
      references := hreferences
      config := hconfig
      captured := fun x hx r hr => ?_
      placeholders := hplaceholders }
  · rcases List.mem_cons.1 hxy with hnew | hxy
    · cases hnew
      exact ⟨hs, ht⟩
    · exact ⟨hσ (h.nodes x y hxy).1, hτ (h.nodes x y hxy).2⟩
  · have hlike : x.kind.Like (fun x y => (x, y) ∈ made) y.kind := by
      rcases List.mem_cons.1 hxy with hnew | hxy
      · cases hnew
        exact hkind
      · exact h.kinds x y hxy
    exact hlike.imp fun _ _ _ hxy => List.mem_cons_of_mem _ hxy
  · rcases List.mem_cons.1 hxy with he | hxy <;> rcases List.mem_cons.1 hxy' with he' | hxy'
    · cases he
      cases he'
      rfl
    · cases he
      exact absurd (h.nodes _ _ hxy').2 hnew
    · cases he'
      exact absurd (h.nodes _ _ hxy).2 hnew
    · exact h.unique x x' y hxy hxy'
  · have horigins : Option.Rel (fun x y => (x, y) ∈ made) x.origin y.origin ∨
        ∃ y₀, y.origin = some y₀ ∧ (x, y₀) ∈ made := by
      rcases List.mem_cons.1 hxy with hnew | hxy
      · cases hnew
        exact horigin
      · exact h.origins x y hxy
    exact horigins.imp more fun ⟨y₀, hy₀, hxy₀⟩ => ⟨y₀, hy₀, List.mem_cons_of_mem _ hxy₀⟩
  · rw [World.target?_congr hb, World.target?_congr hb']
    exact more (h.targets r)
  · rw [World.isSet_congr hb, World.isSet_congr hb']
    exact h.bound r
  · rw [World.isSet_congr hb]
    exact hcaptured x hx r hr

/-- A node that is being made is none of those made before. -/
theorem new_left (hid : s.id = σ.world.nextNode) : s ∉ σ.nodes := fun hs =>
  absurd hid (Nat.ne_of_lt (h.leftHosts.known s hs))

theorem new_right (hid : t.id = τ.world.nextNode) : t ∉ τ.nodes := fun ht =>
  absurd hid (Nat.ne_of_lt (h.rightHosts.known t ht))

/-- **One more node in each graph.** -/
theorem node {w w' : World} (left : Step .building σ ⟨w, s :: σ.nodes⟩)
    (right : Step .building τ ⟨w', t :: τ.nodes⟩) (hid : t.id = τ.world.nextNode)
    (hw : w.bindings = σ.world.bindings ∧ w.nextReference = σ.world.nextReference ∧
      w.config = σ.world.config)
    (hw' : w'.bindings = τ.world.bindings ∧ w'.nextReference = τ.world.nextReference ∧
      w'.config = τ.world.config)
    (hkind : s.kind.Like (fun x y => (x, y) ∈ made) t.kind)
    (horigin : Option.Rel (fun x y => (x, y) ∈ made) s.origin t.origin)
    (hcaptured : ∀ r ∈ s.kind.captured, σ.world.isSet r = true)
    (hplaceholder : ∀ r, s.kind = .recursive r → r < σ.world.nextReference) :
    Parallel ⟨w, s :: σ.nodes⟩ ⟨w', t :: τ.nodes⟩ ((s, t) :: made) := by
  refine h.cons (h.left.tail left) (h.right.tail right) (List.subset_cons_self ..)
    (List.subset_cons_self ..) (List.mem_cons_self ..) (List.mem_cons_self ..) (h.new_right hid)
    hw.1 hw'.1 (hw.2.1.trans (h.references.trans hw'.2.1.symm))
    (hw.2.2.trans (h.config.trans hw'.2.2.symm)) hkind (.inl horigin) (fun x hx r hr => ?_)
    fun x hx r hr => ?_
  · rcases List.mem_cons.1 hx with rfl | hx
    · exact hcaptured r hr
    · exact h.captured x hx r hr
  · rw [hw.2.1]
    rcases List.mem_cons.1 hx with rfl | hx
    · exact hplaceholder r hr
    · exact h.placeholders x hx r hr

/-- The functions of the nodes run nothing that is yet to be bound. -/
theorem ne_of_captured (hunset : σ.world.bindings r = .unset) (hs : s ∈ σ.nodes)
    {i : Reference} (hi : i ∈ s.kind.captured) : i ≠ r := by
  rintro rfl
  have hset := h.captured s hs i hi
  rw [World.isSet, hunset] at hset
  cases hset

/-- What is not bound in one graph is not bound in the other one. -/
theorem unset_right (hunset : σ.world.bindings r = .unset) : τ.world.bindings r = .unset := by
  have hset := h.bound r
  rw [World.isSet, World.isSet, hunset] at hset
  cases hb : τ.world.bindings r with
  | unset => rfl
  | live | gone => rw [hb] at hset; cases hset

/-- **One more reference is bound**, to a pair. -/
theorem bind {r' : Reference} (hst : (s, t) ∈ made) (hunset : σ.world.bindings r = .unset)
    (hr : r < σ.world.nextReference) (hsame : r' = r) :
    Parallel ⟨σ.world.bound r s, σ.nodes⟩ ⟨τ.world.bound r' t, τ.nodes⟩ made := by
  subst hsame
  obtain ⟨hs, ht⟩ := h.nodes s t hst
  have hunset' := h.unset_right hunset
  refine
    { left := h.left.tail (.bind hr hunset hs rfl)
      right := h.right.tail (.bind (h.references ▸ hr) hunset' ht rfl)
      nodes := h.nodes
      kinds := h.kinds
      unique := h.unique
      origins := h.origins
      targets := fun i => ?_
      bound := fun i => ?_
      references := h.references
      config := h.config
      captured := fun x hx i hi => ?_
      placeholders := h.placeholders }
  · by_cases hne : i = r'
    · subst hne
      rw [World.target?_bound_same, World.target?_bound_same]
      exact .some hst
    · rw [World.target?_bound_other hne, World.target?_bound_other hne]
      exact h.targets i
  · by_cases hne : i = r'
    · subst hne
      rw [World.isSet_bound_same, World.isSet_bound_same]
    · rw [World.isSet_bound_other hne, World.isSet_bound_other hne]
      exact h.bound i
  · rw [World.isSet_bound_other (h.ne_of_captured hunset hx hi)]
    exact h.captured x hx i hi

/-- One more reference. -/
theorem reference :
    Parallel ⟨{ σ.world with nextReference := σ.world.nextReference + 1 }, σ.nodes⟩
      ⟨{ τ.world with nextReference := τ.world.nextReference + 1 }, τ.nodes⟩ made where
  left := h.left.tail (.reference rfl)
  right := h.right.tail (.reference rfl)
  nodes := h.nodes
  kinds := h.kinds
  unique := h.unique
  origins := h.origins
  targets := h.targets
  bound := h.bound
  references := congrArg (· + 1) h.references
  config := h.config
  captured := h.captured
  placeholders x hx r hr := Nat.lt_succ_of_lt (h.placeholders x hx r hr)

/-- **Two fresh nodes**, above pairs and with functions that use what is bound. -/
theorem fresh {kind kind' : Kind} {w w' : World}
    (hlike : kind.Like (fun x y => (x, y) ∈ made) kind') (hformed : kind.Formed)
    (hrec : ∀ r, kind ≠ .recursive r)
    (hcaptured : ∀ r ∈ kind.captured, σ.world.isSet r = true)
    (hrun : Schema.fresh kind σ.world = .ok (s, w))
    (hrun' : Schema.fresh kind' τ.world = .ok (t, w')) :
    Parallel ⟨w, s :: σ.nodes⟩ ⟨w', t :: τ.nodes⟩ ((s, t) :: made) := by
  have left : Step .building σ ⟨w, s :: σ.nodes⟩ := by
    refine .fresh (fun x hx => ?_) hformed hrun
    obtain ⟨y, hy, hxy⟩ := forall₂_exists_right hlike.children hx
    exact (h.nodes x y hxy).1
  have right : Step .building τ ⟨w', t :: τ.nodes⟩ := by
    refine .fresh (fun y hy => ?_) (hlike.formed h.kinds hformed) hrun'
    obtain ⟨x, hx, hxy⟩ := forall₂_exists_right hlike.symm.children hy
    exact (h.nodes x y hxy).2
  cases hrun
  cases hrun'
  exact h.node left right rfl ⟨rfl, rfl, rfl⟩ ⟨rfl, rfl, rfl⟩ hlike .none hcaptured
    fun r hr => absurd hr (hrec r)

/-- **Two new placeholders.** -/
theorem placeholder {r r' : Reference} {w w' : World}
    (hrun : Schema.placeholder σ.world = .ok ((r, s), w))
    (hrun' : Schema.placeholder τ.world = .ok ((r', t), w')) :
    Parallel ⟨w, s :: σ.nodes⟩ ⟨w', t :: τ.nodes⟩ ((s, t) :: made) := by
  cases hrun
  cases hrun'
  have leaf {ρ : Scene} {r : Reference} : Step .building ρ
      ⟨{ ρ.world with nextNode := ρ.world.nextNode + 1 },
        .node ρ.world.nextNode (.recursive r) Metadata.empty none :: ρ.nodes⟩ :=
    .fresh (fun t ht => by cases ht) (by trivial) rfl
  refine h.reference.node leaf leaf rfl ⟨rfl, rfl, rfl⟩ ⟨rfl, rfl, rfl⟩ ?_ .none
    (fun r hr => by cases hr) fun r hr => ?_
  · simp only [Schema.kind, h.references]
    exact .leaf trivial
  · cases hr
    exact Nat.lt_succ_self _

/-- **Two copies under another policy.** -/
theorem withPolicy {s' t' : Schema} {fields : List (String × Schema)} {own : Option UnknownKeys}
    {policy : UnknownKeys} {w w' : World} (hst : (s, t) ∈ made) (hkind : s.kind = .object fields own)
    (hrun : s.withPolicy policy σ.world = .ok (s', w))
    (hrun' : t.withPolicy policy τ.world = .ok (t', w')) :
    Parallel ⟨w, s' :: σ.nodes⟩ ⟨w', t' :: τ.nodes⟩ ((s', t') :: made) := by
  obtain ⟨hs, ht⟩ := h.nodes s t hst
  obtain ⟨fields', hkind', hfields⟩ := Kind.Like.object_inv (hkind ▸ h.kinds s t hst)
  have left : Step .building σ ⟨w, s' :: σ.nodes⟩ := .withPolicy hs hkind hrun
  have right : Step .building τ ⟨w', t' :: τ.nodes⟩ := .withPolicy ht hkind' hrun'
  simp only [Schema.withPolicy, hkind] at hrun
  simp only [Schema.withPolicy, hkind'] at hrun'
  cases hrun
  cases hrun'
  exact h.node left right rfl ⟨rfl, rfl, rfl⟩ ⟨rfl, rfl, rfl⟩ (.object _ hfields) (.some hst)
    (fun r hr => by cases hr) fun r hr => by cases hr

/-- **Two copies with other metadata.** -/
theorem copy {s' t' : Schema} {update update' : Metadata → Metadata} {w w' : World}
    (hst : (s, t) ∈ made) (hrun : s.withMetadata update σ.world = .ok (s', w))
    (hrun' : t.withMetadata update' τ.world = .ok (t', w')) :
    Parallel ⟨w, s' :: σ.nodes⟩ ⟨w', t' :: τ.nodes⟩ ((s', t') :: made) := by
  obtain ⟨hs, ht⟩ := h.nodes s t hst
  have left : Step .building σ ⟨w, s' :: σ.nodes⟩ := .withMetadata .building hs hrun
  have right : Step .building τ ⟨w', t' :: τ.nodes⟩ := .withMetadata .building ht hrun'
  cases hrun
  cases hrun'
  exact h.node left right rfl ⟨rfl, rfl, rfl⟩ ⟨rfl, rfl, rfl⟩ (h.kinds s t hst) (.some hst)
    (h.captured s hs) (h.placeholders s hs)

/-- **One copy**, in the annotated graph. -/
theorem annotate {t' : Schema} {update : Metadata → Metadata} {w' : World} (hst : (s, t) ∈ made)
    (hrun : t.withMetadata update τ.world = .ok (t', w')) :
    Parallel σ ⟨w', t' :: τ.nodes⟩ ((s, t') :: made) := by
  obtain ⟨hs, ht⟩ := h.nodes s t hst
  have right : Step .building τ ⟨w', t' :: τ.nodes⟩ := .withMetadata .building ht hrun
  cases hrun
  exact h.cons h.left (h.right.tail right) (List.Subset.refl _) (List.subset_cons_self ..) hs
    (List.mem_cons_self ..) (h.new_right rfl) rfl rfl h.references h.config (h.kinds s t hst)
    (.inr ⟨t, rfl, hst⟩) h.captured h.placeholders

end Parallel

/-- **The graphs are the same but for copies.** -/
theorem Annotated.parallel {seals : World → World → Pairs → Reference → Schema → Schema → Prop}
    (h : Annotated seals σ τ made hand) : Parallel σ τ made ∧ hand ⊆ made := by
  induction h with
  | start =>
      refine ⟨?_, List.Subset.refl _⟩
      exact
        { left := .refl
          right := .refl
          nodes := fun _ _ h => by cases h
          kinds := fun _ _ h => by cases h
          unique := fun _ _ _ h => by cases h
          origins := fun _ _ h => by cases h
          targets := fun _ => .none
          bound := fun _ => rfl
          references := rfl
          config := rfl
          captured := fun _ h => by cases h
          placeholders := fun _ h => by cases h }
  | configure config _ ih =>
      obtain ⟨h, hsub⟩ := ih
      exact ⟨{ h with
        left := h.left.tail (.configure config)
        right := h.right.tail (.configure config)
        config := rfl }, hsub⟩
  | fresh _ hlike hformed hrec hcaptured hrun hrun' ih =>
      obtain ⟨h, hsub⟩ := ih
      refine ⟨h.fresh (hlike.imp fun _ _ _ hxy => hsub hxy) hformed hrec (fun r hr => ?_) hrun hrun',
        List.cons_subset_cons _ hsub⟩
      obtain ⟨x, y, -, hx, -⟩ := hcaptured r hr
      exact isSet_of_target? hx
  | placeholder _ hrun hrun' ih => exact ⟨ih.1.placeholder hrun hrun', List.cons_subset_cons _ ih.2⟩
  | capture _ hst hrun hrun' ih =>
      obtain ⟨h, hsub⟩ := ih
      cases hrun
      cases hrun'
      exact ⟨h.reference.bind (hsub hst) (h.leftHosts.unbound _ (Nat.le_refl _))
        (Nat.lt_succ_self _) h.references.symm, hsub⟩
  | withPolicy _ hst hkind hrun hrun' ih =>
      exact ⟨ih.1.withPolicy (ih.2 hst) hkind hrun hrun', List.cons_subset_cons _ ih.2⟩
  | copy _ hst hrun hrun' ih =>
      exact ⟨ih.1.copy (ih.2 hst) hrun hrun', List.cons_subset_cons _ ih.2⟩
  | annotate _ hst hrun ih => exact ⟨ih.1.annotate (ih.2 hst) hrun, List.cons_subset_cons _ ih.2⟩
  | drop _ hsub ih => exact ⟨ih.1, List.Subset.trans hsub ih.2⟩
  | bind _ hr hunset hst hrun hrun' _ ih =>
      cases hrun
      cases hrun'
      exact ⟨ih.1.bind (ih.2 hst) hunset hr rfl, ih.2⟩

/-! ### Nothing goes around what builders return -/

namespace Parallel

variable (h : Parallel σ τ made)

include h

/-- Binding a reference lets no node hold anything more. -/
theorem holds_of_bound (hunset : σ.world.bindings r = .unset) (hs : s ∈ σ.nodes)
    (hsu : (σ.world.bound r t).Holds s u) : σ.world.Holds s u := by
  induction hsu with
  | refl => exact .refl
  | @tail x y _ hxy ih =>
      have hx := h.leftHosts.holds h.leftOrigins hs ih
      refine ih.tail ?_
      -- functions run only what was bound before
      rcases World.owns_iff.1 hxy with hchild | ⟨i, hi, hy⟩ | horigin
      · exact World.owns_of_child hchild
      · rw [World.target?_bound_other (h.ne_of_captured hunset hx hi)] at hy
        exact World.owns_of_captured hi hy
      · exact World.owns_of_origin horigin

/-- Nothing goes around what has been returned before when one more reference is bound. -/
theorem sealed_bound {r' : Reference} (hsub : hand ⊆ made) (hseal : σ.world.Sealed τ.world hand)
    (hunset : σ.world.bindings r = .unset) (hst : σ.world.Seals τ.world hand r s t)
    (hsame : r' = r) : (σ.world.bound r s).Sealed (τ.world.bound r' t) hand := by
  subst hsame
  have hunset' := h.unset_right hunset
  have lift : ∀ i a b, σ.world.Seals τ.world hand i a b →
      (σ.world.bound r' s).Seals (τ.world.bound r' t) hand i a b := by
    rintro i a b (hfree | hheld)
    · exact .inl fun x y hxy ⟨p, hxp, hp⟩ =>
        hfree x y hxy ⟨p, h.holds_of_bound hunset (h.nodes x y (hsub hxy)).1 hxp, hp⟩
    · refine .inr fun x y hxy hxa => ?_
      have hyb := hheld x y hxy (h.holds_of_bound hunset (h.nodes x y (hsub hxy)).1 hxa)
      exact hyb.mono fun _ _ => World.target?_bound hunset'
  intro i a b ha hb
  by_cases hi : i = r'
  · subst hi
    rw [World.target?_bound_same] at ha hb
    cases ha
    cases hb
    exact lift _ _ _ hst
  · rw [World.target?_bound_other hi] at ha hb
    exact lift _ _ _ (hseal i a b ha hb)

/-- A new copy of a node in hand goes around nothing. -/
theorem sealed_copy {w w' : World} {s' t' : Schema} (hseal : σ.world.Sealed τ.world hand)
    (hb : w.bindings = σ.world.bindings) (hb' : w'.bindings = τ.world.bindings)
    (hst : (s, t) ∈ hand) (hid : s'.id = σ.world.nextNode) (hchildren : s'.children = s.children)
    (hcaptured : s'.kind.captured = s.kind.captured) (horigin : s'.origin = some s)
    (horigin' : t'.origin = some t) (hself : ∀ r, s'.kind = .recursive r → s.kind = .recursive r) :
    w.Sealed w' ((s', t') :: hand) := by
  refine hseal.cons hb hb' (fun r hr _ => ⟨s, t, hst, hself r hr⟩) fun u hu => ?_
  rcases hu.of_copy hchildren hcaptured horigin with rfl | hu
  · exact .inl ⟨rfl, fun r hr => h.new_left hid (h.leftHosts.targets r _ hr)⟩
  · exact .inr ⟨s, t, hst, hu, fun z hz => .head (World.owns_of_origin horigin') hz⟩

/-- Fresh nodes above pairs in hand go around nothing. -/
theorem sealed_fresh {kind kind' : Kind} {w w' : World} (hseal : σ.world.Sealed τ.world hand)
    (hlike : kind.Like (fun x y => (x, y) ∈ hand) kind') (hrec : ∀ r, kind ≠ .recursive r)
    (hcaptured : ∀ r ∈ kind.captured, ∃ x y, (x, y) ∈ hand ∧
      σ.world.target? r = some x ∧ τ.world.target? r = some y)
    (hrun : Schema.fresh kind σ.world = .ok (s, w))
    (hrun' : Schema.fresh kind' τ.world = .ok (t, w')) : w.Sealed w' ((s, t) :: hand) := by
  cases hrun
  cases hrun'
  refine hseal.cons rfl rfl (fun r hr => absurd hr (hrec r)) fun u hu => ?_
  rcases hu.cases with rfl | ⟨x, hsx, hxu⟩
  · exact .inl ⟨rfl, fun r hr => h.new_left rfl (h.leftHosts.targets r _ hr)⟩
  · refine .inr ?_
    rcases World.owns_iff.1 hsx with hchild | ⟨r, hr, hx⟩ | horigin
    · obtain ⟨y, hy, hxy⟩ := forall₂_exists_right hlike.children hchild
      exact ⟨x, y, hxy, hxu, fun z hyz => .head (World.owns_of_child hy) hyz⟩
    · -- what the functions run was in hand when they were written
      obtain ⟨x', y, hxy, hx', hy⟩ := hcaptured r hr
      rw [hx] at hx'
      cases hx'
      exact ⟨x, y, hxy, hxu, fun z hyz =>
        .head (World.owns_of_captured (hlike.captured ▸ hr) hy) hyz⟩
    · cases horigin

/-- New placeholders hold themselves only. -/
theorem sealed_placeholder {r r' : Reference} {w w' : World} (hseal : σ.world.Sealed τ.world hand)
    (hrun : Schema.placeholder σ.world = .ok ((r, s), w))
    (hrun' : Schema.placeholder τ.world = .ok ((r', t), w')) : w.Sealed w' ((s, t) :: hand) := by
  cases hrun
  cases hrun'
  refine hseal.cons rfl rfl (fun r hr hbound => ?_) fun u hu => ?_
  · obtain ⟨u, hu⟩ := hbound
    cases hr
    exact absurd (h.leftHosts.lt_of_target hu) (Nat.lt_irrefl _)
  · rcases hu.cases with rfl | ⟨x, hsx, -⟩
    · exact .inl ⟨rfl, fun r hr => h.new_left rfl (h.leftHosts.targets r _ hr)⟩
    · rcases World.owns_iff.1 hsx with hchild | ⟨r, hr, -⟩ | horigin
      · cases hchild
      · cases hr
      · cases horigin

/-- No placeholder stands for what a function is going to run through a new reference. -/
theorem sealed_capture {r r' : Reference} {w w' : World} (hsub : hand ⊆ made)
    (hseal : σ.world.Sealed τ.world hand) (hrun : Schemata.capture s σ.world = .ok (r, w))
    (hrun' : Schemata.capture t τ.world = .ok (r', w')) : w.Sealed w' hand := by
  cases hrun
  cases hrun'
  refine h.reference.sealed_bound hsub hseal (h.leftHosts.unbound _ (Nat.le_refl _)) (.inl ?_)
    h.references.symm
  rintro x y hxy ⟨p, hxp, hp⟩
  have hpm := h.leftHosts.holds h.leftOrigins (h.nodes x y (hsub hxy)).1 hxp
  -- no placeholder has been made for a reference that is just being made
  exact Nat.lt_irrefl _ (h.placeholders p hpm _ hp)

/-- Copies under another policy go around nothing. -/
theorem sealed_withPolicy {s' t' : Schema} {fields : List (String × Schema)}
    {own : Option UnknownKeys} {policy : UnknownKeys} {w w' : World} (hsub : hand ⊆ made)
    (hseal : σ.world.Sealed τ.world hand) (hst : (s, t) ∈ hand) (hkind : s.kind = .object fields own)
    (hrun : s.withPolicy policy σ.world = .ok (s', w))
    (hrun' : t.withPolicy policy τ.world = .ok (t', w')) : w.Sealed w' ((s', t') :: hand) := by
  obtain ⟨fields', hkind', -⟩ := Kind.Like.object_inv (hkind ▸ h.kinds s t (hsub hst))
  simp only [Schema.withPolicy, hkind] at hrun
  simp only [Schema.withPolicy, hkind'] at hrun'
  cases hrun
  cases hrun'
  refine h.sealed_copy hseal rfl rfl hst rfl ?_ ?_ rfl rfl fun r hr => by cases hr
  · rw [Schema.children, Schema.children, hkind]
    rfl
  · rw [hkind]
    rfl

end Parallel

/-- **Nothing in hand ever goes around what builders have returned.** -/
theorem Annotated.sealed (h : Annotated World.Seals σ τ made hand) :
    σ.world.Sealed τ.world hand := by
  induction h with
  | start => exact fun r s t hs => by cases hs
  | configure config _ ih => exact ih
  | fresh hbefore hlike _ hrec hcaptured hrun hrun' ih =>
      exact hbefore.parallel.1.sealed_fresh ih hlike hrec hcaptured hrun hrun'
  | placeholder hbefore hrun hrun' ih => exact hbefore.parallel.1.sealed_placeholder ih hrun hrun'
  | capture hbefore _ hrun hrun' ih =>
      obtain ⟨h, hsub⟩ := hbefore.parallel
      exact h.sealed_capture hsub ih hrun hrun'
  | withPolicy hbefore hst hkind hrun hrun' ih =>
      obtain ⟨h, hsub⟩ := hbefore.parallel
      exact h.sealed_withPolicy hsub ih hst hkind hrun hrun'
  | copy hbefore hst hrun hrun' ih =>
      obtain ⟨h, -⟩ := hbefore.parallel
      cases hrun
      cases hrun'
      exact h.sealed_copy ih rfl rfl hst rfl rfl rfl rfl rfl fun _ hr => hr
  | annotate _ hst hrun ih =>
      cases hrun
      exact ih.cons rfl rfl (fun r hr _ => ⟨_, _, hst, hr⟩) fun u hu =>
        .inr ⟨_, _, hst, hu, fun z hz => .head (World.owns_of_origin rfl) hz⟩
  | drop _ hsub ih => exact ih.subset hsub
  | bind hbefore hr hunset hst hrun hrun' hseal ih =>
      obtain ⟨h, hsub⟩ := hbefore.parallel
      cases hrun
      cases hrun'
      exact h.sealed_bound hsub ih hunset hseal rfl

/-! ### What is held in both graphs -/

namespace Parallel

variable (h : Parallel σ τ made)

include h

/-- **What is held in the annotated graph is the counterpart of what is held in the plain one.** -/
theorem holds_left {x y : Schema} (hxy : (x, y) ∈ made) (hyu : τ.world.Holds y u) :
    ∃ a, (a, u) ∈ made ∧ σ.world.Holds x a := by
  induction hyu using Relation.ReflTransGen.head_induction_on generalizing x with
  | refl => exact ⟨x, hxy, .refl⟩
  | @head y z hyz _ ih =>
      have hlike := h.kinds x y hxy
      rcases World.owns_iff.1 hyz with hchild | ⟨r, hr, hz⟩ | horigin
      · obtain ⟨x', hx', hxz⟩ := forall₂_exists_right hlike.symm.children hchild
        obtain ⟨a, ha, hxa⟩ := ih hxz
        exact ⟨a, ha, .head (World.owns_of_child hx') hxa⟩
      · have htarget := optionRel_flip (h.targets r)
        rw [hz] at htarget
        obtain ⟨x', hx', hxz⟩ := optionRel_some htarget
        obtain ⟨a, ha, hxa⟩ := ih hxz
        exact ⟨a, ha, .head (World.owns_of_captured (hlike.captured ▸ hr) hx') hxa⟩
      · rcases h.origins x y hxy with hrel | ⟨y₀, hy₀, hxy₀⟩
        · have horigins := optionRel_flip hrel
          rw [horigin] at horigins
          obtain ⟨x', hx', hxz⟩ := optionRel_some horigins
          obtain ⟨a, ha, hxa⟩ := ih hxz
          exact ⟨a, ha, .head (World.owns_of_origin hx') hxa⟩
        · -- a copy that only the annotated graph has
          rw [horigin] at hy₀
          cases hy₀
          exact ih hxy₀

/-- **A placeholder keeps its schema in both graphs or in none**, whatever pairs are kept in hand. -/
theorem live_iff {roots : Pairs} (hsub : roots ⊆ made) (hseal : σ.world.Sealed τ.world roots)
    (huses : ∃ x y, (x, y) ∈ roots ∧ σ.world.Uses x r) (hs : σ.world.target? r = some s)
    (ht : τ.world.target? r = some t) :
    (∃ x ∈ roots.map Prod.fst, σ.world.Holds x s) ↔
      ∃ y ∈ roots.map Prod.snd, τ.world.Holds y t := by
  constructor
  · rintro ⟨x, hx, hxs⟩
    obtain ⟨⟨x, y⟩, hxy, rfl⟩ := List.mem_map.1 hx
    rcases hseal r s t hs ht with hfree | hheld
    · obtain ⟨x', y', hxy', huse⟩ := huses
      exact absurd huse (hfree x' y' hxy')
    · exact ⟨y, List.mem_map.2 ⟨_, hxy, rfl⟩, hheld x y hxy hxs⟩
  · rintro ⟨y, hy, hyt⟩
    obtain ⟨⟨x, y⟩, hxy, rfl⟩ := List.mem_map.1 hy
    obtain ⟨a, hat, hxa⟩ := h.holds_left (hsub hxy) hyt
    have htarget := h.targets r
    rw [hs, ht] at htarget
    cases htarget with
    | some hst =>
        -- a node of the annotated graph has one counterpart, so this is the schema itself
        rw [h.unique a s t hat hst] at hxa
        exact ⟨x, List.mem_map.2 ⟨_, hxy, rfl⟩, hxa⟩

end Parallel

end Scene

end Schemata
