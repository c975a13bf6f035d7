/-
**Metadata changes nothing.**

A copy with other metadata is another node.  Nothing that runs reads the metadata, but two things
look at which node is which: the schema behind a placeholder is gone when nothing holds it, and a
union finds the members that are the union itself by the identities of their members.  A copy holds
the node that it is a copy of, so no placeholder loses its schema to a copy, as long as what a builder
has returned is not gone around.  A copy of a union has the very same members; but a second union
with the same members has others, once one of them is replaced by a copy.

Main definitions:

* `Schemata.Scene.letGo`, `Schemata.Scene.Serves` — schemas are dropped, and what is kept is used;
* `Schemata.Scene.Counterparts` — schemas that two roots lead to in the same way;
* `Schemata.Scene.KeepsUnions` — no union ceases to be met among its own members.

Main results:

* `Schemata.Scene.Serves.calls` — dropping what is not needed any more changes nothing;
* `Schemata.Scene.Annotated.corresponds` — **the annotated graph corresponds to the plain one**;
* `Schemata.Scene.Annotated.metadata_irrelevant` — **metadata changes no result**;
* `Schemata.Scene.description_matters` — what goes around a builder, and a second union.
-/

import Schemata.Proofs.Annotation

set_option relaxedAutoImplicit false
set_option autoImplicit false

namespace Schemata

namespace Scene

variable {σ τ σ' τ' : Scene} {made hand roots : Pairs} {s t x y : Schema} {r : Reference}
  {kept : List Schema}

/-! ### Dropping schemas -/

/-- The scene in which all is gone that the schemas kept do not hold. -/
def letGo (σ : Scene) (kept : List Schema) : Scene := ⟨σ.world.release kept, σ.nodes⟩

/-- **Calls, while schemas are dropped** from time to time, but for the given ones or copies that
hold them. -/
inductive Serves (kept : List Schema) (σ : Scene) : Scene → Prop
  | start : Serves kept σ σ
  | call {τ υ : Scene} : Serves kept σ τ → Call τ υ → Serves kept σ υ
  | letGo {τ : Scene} {others : List Schema} : Serves kept σ τ → (∀ s ∈ others, s ∈ τ.nodes) →
      (∀ s ∈ kept, ∃ t ∈ others, τ.world.Holds t s) → Serves kept σ (τ.letGo others)

theorem Call.originsKnown (h : Call σ τ) (ho : OriginsKnown σ.nodes) : OriginsKnown τ.nodes := by
  cases h with
  | use hstep => exact hstep.originsKnown ho
  | parse | serialize | parseAsync | stage | poll => exact ho

/-- **Dropping what is not needed any more changes nothing.** -/
theorem Serves.calls (h : (σ.letGo kept).Serves kept τ) (hσ : σ.Reachable)
    (hkept : ∀ s ∈ kept, s ∈ σ.nodes) : (σ.letGo kept).Calls τ := by
  have hosts := hσ.sound.hosts
  have ho := hσ.originsKnown
  have hsound : (σ.letGo kept).world.Sound (σ.letGo kept).nodes :=
    Reachable.sound (hσ.tail ⟨.building, .release kept⟩)
  -- what is still bound is held by what is kept
  have hlive : ∀ r t, (σ.letGo kept).world.target? r = some t →
      ∃ s ∈ kept, (σ.letGo kept).world.Holds s t := fun r t ht => by
    obtain ⟨-, s, hs, hst⟩ := (World.release_target? hosts ho hkept).1 ht
    exact ⟨s, hs, World.holds_release hosts ho hkept hs hst⟩
  suffices hall : (σ.letGo kept).Calls τ ∧ τ.world.Sound τ.nodes ∧ OriginsKnown τ.nodes ∧
      (σ.letGo kept).world.SameSettings τ.world from hall.1
  induction h with
  | start => exact ⟨.refl, hsound, ho, .refl _⟩
  | call _ hcall ih =>
      obtain ⟨hcalls, hs, ho, hsame⟩ := ih
      have hchange := hcall.change hs
      have hsame' := hchange.settings_same
      exact ⟨hcalls.tail hcall, hchange.sound hs, hcall.originsKnown ho,
        hsame.1.trans hsame'.1, hsame.2.trans hsame'.2⟩
  | @letGo τ others _ hothers hheld ih =>
      obtain ⟨hcalls, hs, ho, hsame⟩ := ih
      have heq : τ.letGo others = τ := by
        rw [Scene.letGo, World.release_eq_self hs.hosts ho hothers fun r t ht => ?_]
        rw [World.target?, ← hsame.1] at ht
        obtain ⟨s, hskept, hst⟩ := hlive r t ht
        obtain ⟨u, hu, hus⟩ := hheld s hskept
        rw [World.holds_congr hsame.1] at hst
        exact ⟨u, hu, hus.trans hst⟩
      rw [heq]
      exact ⟨hcalls, hs, ho, hsame⟩

/-! ### Correspondence -/

/-- **Schemas that two roots lead to in the same way.** -/
structure Counterparts (σ τ : Scene) (made : Pairs) (s t x y : Schema) : Prop where
  made : (x, y) ∈ made
  left : Relation.ReflTransGen σ.world.Depends s x
  right : Relation.ReflTransGen τ.world.Depends t y

/-- **No union ceases to be met among its own members**: where a member of a union stands for a union
with the very same members, its counterpart does so too. -/
def KeepsUnions (σ τ : Scene) (made : Pairs) (s t : Schema) : Prop :=
  ∀ x y, Counterparts σ τ made s t x y → ∀ members members', x.kind = .union members →
    y.kind = .union members' → List.Forall₂ (fun m m' =>
      refersBack σ.world (members.map Schema.id) m = true →
        refersBack τ.world (members'.map Schema.id) m' = true) members members'

/-- What a kept schema leads to is held. -/
theorem held_of_depends (hosts : σ.world.Hosts σ.nodes) (ho : OriginsKnown σ.nodes)
    (hkept : ∀ s ∈ kept, s ∈ σ.nodes) (hs : s ∈ kept)
    (h : Relation.ReflTransGen (σ.letGo kept).world.Depends s x) :
    ∃ u ∈ kept, σ.world.Holds u x := by
  induction h with
  | refl => exact ⟨s, hs, .refl⟩
  | tail _ hxy ih =>
      rcases hxy with hchild | ⟨r, -, htarget⟩
      · obtain ⟨u, hu, hux⟩ := ih
        exact ⟨u, hu, hux.tail (World.owns_of_child hchild)⟩
      · exact ((World.release_target? hosts ho hkept).1 htarget).2

theorem Kind.mem_references {kind : Kind} (h : r ∈ kind.references) :
    kind = .recursive r ∨ r ∈ kind.captured := by
  cases kind with
  | recursive r' =>
      rw [List.mem_singleton.1 h]
      exact .inl rfl
  | _ => exact .inr h

section

variable {ρ υ : Scene} (h : Annotated World.Seals σ τ made hand) (hroots : roots ⊆ hand)

include h hroots

theorem Annotated.kept_left : ∀ x ∈ roots.map Prod.fst, x ∈ σ.nodes := by
  obtain ⟨hpar, hsub⟩ := h.parallel
  intro x hx
  obtain ⟨⟨x, y⟩, hxy, rfl⟩ := List.mem_map.1 hx
  exact (hpar.nodes x y (hsub (hroots hxy))).1

theorem Annotated.kept_right : ∀ y ∈ roots.map Prod.snd, y ∈ τ.nodes := by
  obtain ⟨hpar, hsub⟩ := h.parallel
  intro y hy
  obtain ⟨⟨x, y⟩, hxy, rfl⟩ := List.mem_map.1 hy
  exact (hpar.nodes x y (hsub (hroots hxy))).2

variable (hst : (s, t) ∈ roots) (hρ : ρ = σ.letGo (roots.map Prod.fst))
  (hυ : υ = τ.letGo (roots.map Prod.snd))

include hst hρ hυ

/-- **What a reference stands for is gone in both graphs or in none.** -/
theorem Annotated.targets_letGo (hxy : Counterparts ρ υ made s t x y)
    (hr : r ∈ x.kind.references) :
    Option.Rel (fun x y => (x, y) ∈ made) (ρ.world.target? r) (υ.world.target? r) := by
  subst hρ hυ
  obtain ⟨hpar, hsub⟩ := h.parallel
  have hlike := hpar.kinds x y hxy.made
  have hkept := h.kept_left hroots
  have hkept' := h.kept_right hroots
  obtain ⟨u, hu, hux⟩ := held_of_depends hpar.leftHosts hpar.leftOrigins hkept
    (List.mem_map.2 ⟨_, hst, rfl⟩) hxy.left
  obtain ⟨v, hv, hvy⟩ := held_of_depends hpar.rightHosts hpar.rightOrigins hkept'
    (List.mem_map.2 ⟨_, hst, rfl⟩) hxy.right
  -- the graphs agree before anything is dropped, and they drop the same references: a placeholder
  -- in hand keeps its schema in both or in none, and functions keep what they run
  refine optionRel_restrict (hpar.targets r)
    (fun a => World.release_target? hpar.leftHosts hpar.leftOrigins hkept)
    (fun b => World.release_target? hpar.rightHosts hpar.rightOrigins hkept') fun a b ha hb => ?_
  rcases Kind.mem_references hr with hkind | hcaptured
  · obtain ⟨⟨u, v'⟩, huv, rfl⟩ := List.mem_map.1 hu
    exact hpar.live_iff (List.Subset.trans hroots hsub) (h.sealed.subset hroots)
      ⟨u, v', huv, x, hux, hkind⟩ ha hb
  · exact iff_of_true ⟨u, hu, hux.tail (World.owns_of_captured hcaptured ha)⟩
      ⟨v, hv, hvy.tail (World.owns_of_captured (hlike.captured ▸ hcaptured) hb)⟩

theorem Annotated.targets_counterparts (hxy : Counterparts ρ υ made s t x y)
    (hr : r ∈ x.kind.references) :
    Option.Rel (Counterparts ρ υ made s t) (ρ.world.target? r) (υ.world.target? r) := by
  have hr' := (h.parallel.1.kinds x y hxy.made).references ▸ hr
  refine optionRel_imp (optionRel_within (h.targets_letGo hroots hst hρ hυ hxy hr)
    (fun _ hu => hxy.left.tail (.inr ⟨r, hr, hu⟩)) fun _ hv => hxy.right.tail (.inr ⟨r, hr', hv⟩))
    fun _ _ huv => ⟨huv.2.2, huv.1, huv.2.1⟩

omit hroots hst hρ hυ in
theorem Annotated.kinds_counterparts (hxy : Counterparts ρ υ made s t x y) :
    x.kind.Like (Counterparts ρ υ made s t) y.kind :=
  ((h.parallel.1.kinds x y hxy.made).within (fun _ hu => hxy.left.tail (.inl hu))
    fun _ hv => hxy.right.tail (.inl hv)).imp fun _ _ _ huv => ⟨huv.2.2, huv.1, huv.2.1⟩

/-- **A member that is its own union in the annotated graph is so in the plain one.** -/
theorem Annotated.refersBack_left (hxy : Counterparts ρ υ made s t x y)
    {members members' : List Schema} (hx : x.kind = .union members) (hy : y.kind = .union members')
    {m m' : Schema} (hm : Counterparts ρ υ made s t m m')
    (hback : refersBack υ.world (members'.map Schema.id) m' = true) :
    refersBack ρ.world (members.map Schema.id) m = true := by
  obtain ⟨hpar, -⟩ := h.parallel
  obtain ⟨r, b, others', hkind', hb, hothers', hids⟩ := refersBack_eq_true hback
  have hkind := (hpar.kinds m m' hm.made).symm
  rw [hkind'] at hkind
  have hkind := hkind.recursive
  have htarget := optionRel_flip (h.targets_counterparts hroots hst hρ hυ hm
    (by rw [hkind]; exact List.mem_singleton_self r))
  rw [hb] at htarget
  obtain ⟨a, ha, hab⟩ := optionRel_some htarget
  -- the members are the very same there, so their counterparts are the very same here
  have hsame : others' = members' := by
    refine hpar.rightHosts.eq_of_ids (fun u hu => ?_) (fun u hu => ?_) hids
    · exact (hpar.rightHosts.below b (hpar.nodes a b hab.made).2 u
        (by rwa [Schema.children, hothers'])).1
    · exact (hpar.rightHosts.below y (hpar.nodes x y hxy.made).2 u (by rwa [Schema.children, hy])).1
  subst hsame
  have hlike := hpar.kinds x y hxy.made
  have hlike' := hpar.kinds a b hab.made
  rw [hx, hy] at hlike
  rw [hothers'] at hlike'
  have hunion : a.kind = .union members := by
    generalize a.kind = kind at hlike'
    cases hlike' with
    | union hothers =>
        cases hlike with
        | union hmembers =>
            rw [List.left_unique_forall₂' (fun u v z => hpar.unique u v z) hothers hmembers]
        | leaf hleaf => cases hleaf
    | leaf hleaf => cases hleaf
  simp [refersBack, hkind, ha, hunion]

/-- **The annotated graph corresponds to the plain one.** -/
theorem Annotated.corresponds (hunions : KeepsUnions ρ υ made s t) :
    Corresponds ρ υ (Counterparts ρ υ made s t) where
  left x y hxy := by
    subst hρ
    exact (h.parallel.1.nodes x y hxy.made).1
  right x y hxy := by
    subst hυ
    exact (h.parallel.1.nodes x y hxy.made).2
  kinds x y hxy := h.kinds_counterparts hxy
  targets x y hxy r hr := h.targets_counterparts hroots hst hρ hυ hxy hr
  bound x y _ r _ := by
    subst hρ hυ
    rw [letGo, letGo, World.release_isSet, World.release_isSet, h.parallel.1.bound]
  config := by
    subst hρ hυ
    exact h.parallel.1.config
  tests x y hxy members members' hx hy := by
    have hlike := h.kinds_counterparts hxy
    rw [hx, hy] at hlike
    cases hlike with
    | union hmembers =>
        -- one direction is assumed, the other one holds in any case
        refine .mp (fun m m' hback hm => Bool.eq_iff_iff.2 ⟨hback, fun hback' => ?_⟩)
          (hunions x y hxy members members' hx hy) hmembers
        exact h.refersBack_left hroots hst hρ hυ hxy hx hy hm hback'
    | leaf hleaf => cases hleaf

end

/-- **Metadata changes no result.**  Two graphs are built that differ in copies with other metadata.
Some pairs are kept, all else is dropped, and then both are used.  A placeholder dangles in the
annotated graph only where it does in the plain one, and two roots of a pair, and all copies of
them, have the same structural name, wait alike, and come to the same results. -/
theorem Annotated.metadata_irrelevant (h : Annotated World.Seals σ τ made hand) (hroots : roots ⊆ hand)
    (hst : (s, t) ∈ roots)
    (hunions : KeepsUnions (σ.letGo (roots.map Prod.fst)) (τ.letGo (roots.map Prod.snd)) made s t)
    (hσ : (σ.letGo (roots.map Prod.fst)).Serves (roots.map Prod.fst) σ')
    (hτ : (τ.letGo (roots.map Prod.snd)).Serves (roots.map Prod.snd) τ') :
    (∀ y, Relation.ReflTransGen τ'.world.Depends t y → ∀ r, y.kind = .recursive r →
        (τ'.world.target? r).isSome = (σ'.world.target? r).isSome) ∧
      ∀ s' ∈ σ'.nodes, s'.kind = s.kind → ∀ t' ∈ τ'.nodes, t'.kind = t.kind →
        s'.structuralName = t'.structuralName ∧
          (∃ b w w', s'.isAsync σ'.world = .ok (b, w) ∧ t'.isAsync τ'.world = .ok (b, w')) ∧
          SameResults σ' s' τ' t' := by
  obtain ⟨hpar, hsub⟩ := h.parallel
  have hkept := h.kept_left hroots
  have hkept' := h.kept_right hroots
  have hcalls := hσ.calls (Leads.of_step hpar.left) hkept
  have hcalls' := hτ.calls (Leads.of_step hpar.right) hkept'
  have hcurrent := Current.built (hpar.left.tail (.release (roots.map Prod.fst)))
  have hcurrent' := Current.built (hpar.right.tail (.release (roots.map Prod.snd)))
  have hcorr := (h.corresponds hroots hst rfl rfl hunions).calls hcurrent hcurrent' hcalls hcalls'
  obtain ⟨hnow, -, hnodes⟩ := hcalls.current hcurrent
  obtain ⟨hnow', -, hnodes'⟩ := hcalls'.current hcurrent'
  have hpair : ∀ s' ∈ σ'.nodes, s'.kind = s.kind → ∀ t' ∈ τ'.nodes, t'.kind = t.kind →
      OfRelatedKinds σ' τ' (Counterparts (σ.letGo (roots.map Prod.fst))
        (τ.letGo (roots.map Prod.snd)) made s t) s' t' := fun s' hs' hks t' ht' hkt =>
    ⟨hs', ht', s, t, ⟨hsub (hroots hst), .refl, .refl⟩, hks.symm, hkt.symm⟩
  constructor
  · intro y hty r hr
    obtain ⟨hs, ht⟩ := hpar.nodes s t (hsub (hroots hst))
    obtain ⟨x, -, hxy⟩ := hcorr.symm.dependsOn (hpair s (hnodes hs) rfl t (hnodes' ht) rfl) hty
    exact optionRel_isSome (hcorr.symm.targets y x hxy r (by rw [hr]; exact List.mem_singleton_self r))
  · intro s' hs' hks t' ht' hkt
    have hst' := hpair s' hs' hks t' ht' hkt
    exact ⟨Schema.structuralName_like hcorr.kinds s' t' hst', hcorr.sameAnswer hnow hnow' hst',
      hcorr.sameResults hnow hnow' hst'⟩

/-! ### A union with itself among its members -/

end Scene

/-- The world with one more copy of a node. -/
def World.copied (w : World) (s : Schema) : World :=
  w.withNode (w.parseCells s.id) (w.serializeCells s.id) (w.asyncCells s.id)

/-- A copy of a node with a description. -/
def Schema.described (s : Schema) (id : NodeId) : Schema :=
  .node id s.kind { s.metadata with description := some "" } (some s)

namespace Scene

section

variable {seals : World → World → Pairs → Reference → Schema → Schema → Prop} {σ τ : Scene}
  {pairs hand : Pairs} {s t : Schema}

theorem Annotated.describe (h : Annotated seals σ τ pairs hand) (hst : (s, t) ∈ hand) :
    Annotated seals σ
      ⟨τ.world.copied t, t.described τ.world.nextNode :: τ.nodes⟩
      ((s, t.described τ.world.nextNode) :: pairs) ((s, t.described τ.world.nextNode) :: hand) := by
  have hrun : t.describe "" τ.world = .ok (t.described τ.world.nextNode, τ.world.copied t) := rfl
  exact h.annotate hst hrun

theorem Annotated.leaf (kind : Kind) (hleaf : kind.Leaf) (hrec : ∀ r, kind ≠ .recursive r)
    (h : Annotated seals σ τ pairs hand) :
    Annotated seals
      ⟨{ σ.world with nextNode := σ.world.nextNode + 1 },
        .node σ.world.nextNode kind Metadata.empty none :: σ.nodes⟩
      ⟨{ τ.world with nextNode := τ.world.nextNode + 1 },
        .node τ.world.nextNode kind Metadata.empty none :: τ.nodes⟩
      ((.node σ.world.nextNode kind Metadata.empty none,
        .node τ.world.nextNode kind Metadata.empty none) :: pairs)
      ((.node σ.world.nextNode kind Metadata.empty none,
        .node τ.world.nextNode kind Metadata.empty none) :: hand) := by
  refine h.fresh (.leaf hleaf) ?_ hrec (fun r hr => ?_) rfl rfl
  · cases kind <;> trivial
  · cases kind <;> first | cases hleaf; done | cases hr

end

/-- A placeholder. -/
def itself : Schema := .node 0 (.recursive 0) Metadata.empty none

/-- A union that has the placeholder for a member. -/
def orItself (kind : Kind) (member : Schema) (leaf id : NodeId) : Schema :=
  .node id (.union [member, .node leaf kind Metadata.empty none]) Metadata.empty none

/-- The plain union. -/
def plainUnion (kind : Kind) : Scene where
  world := (made 3 1).bound 0 (orItself kind itself 1 2)
  nodes := [orItself kind itself 1 2, .node 1 kind Metadata.empty none, itself]

/-- The union that the builder makes when the placeholder has a description. -/
def innerUnion : Schema := orItself .int (itself.described 1) 2 3

/-- The union with descriptions for the placeholder, for what the builder has made, and for what it
has returned. -/
def describedUnion : Scene where
  world :=
    World.copied ((World.copied { (made 1 1).copied itself with nextNode := 4 } innerUnion).bound 0
      (innerUnion.described 4)) (innerUnion.described 4)
  nodes :=
    [(innerUnion.described 4).described 5, innerUnion.described 4, innerUnion,
      .node 2 .int Metadata.empty none, itself.described 1, itself]

/-- The nodes of the two graphs in pairs. -/
def unionPairs : Pairs :=
  [(orItself .int itself 1 2, (innerUnion.described 4).described 5),
    (orItself .int itself 1 2, innerUnion.described 4), (orItself .int itself 1 2, innerUnion),
    (.node 1 .int Metadata.empty none, .node 2 .int Metadata.empty none),
    (itself, itself.described 1), (itself, itself)]

theorem placeholder_annotated
    (seals : World → World → Pairs → Reference → Schema → Schema → Prop) :
    Annotated seals ⟨made 1 1, [itself]⟩ ⟨made 1 1, [itself]⟩ [(itself, itself)]
      [(itself, itself)] := .placeholder .start rfl rfl

theorem describedUnion_annotated : Annotated World.Seals (plainUnion .int) describedUnion unionPairs
    [(orItself .int itself 1 2, (innerUnion.described 4).described 5)] := by
  have h₁ := ((placeholder_annotated World.Seals).describe (.head _)).leaf .int trivial
    fun r h => by cases h
  have h₂ : Annotated World.Seals ⟨made 3 1, (plainUnion .int).nodes⟩
      ⟨{ (made 1 1).copied itself with nextNode := 4 }, describedUnion.nodes.drop 2⟩
      ((orItself .int itself 1 2, innerUnion) :: _) ((orItself .int itself 1 2, innerUnion) :: _) :=
    h₁.fresh (.union (.cons (.tail _ (.head _)) (.cons (.head _) .nil))) (by simp [Kind.Formed])
      (fun r h => by cases h) (fun r hr => by cases hr) rfl rfl
  have h₃ := (h₂.describe (.head _)).drop
    (List.cons_subset_cons (orItself .int itself 1 2, innerUnion.described 4) (List.nil_subset _))
  have h₄ := (h₃.bind Nat.zero_lt_one rfl (.head _) rfl rfl
    (.of_scoped fun x y hxy => .inl (by simpa using hxy))).describe (.head _)
  exact h₄.drop (List.cons_subset_cons _ (List.nil_subset _))

/-- The member that is the union itself is so with descriptions. -/
theorem metadata_irrelevant_union :
    Annotated World.Seals (plainUnion .int) describedUnion unionPairs
        [(orItself .int itself 1 2, (innerUnion.described 4).described 5)] ∧
      KeepsUnions ((plainUnion .int).letGo [orItself .int itself 1 2])
        (describedUnion.letGo [(innerUnion.described 4).described 5]) unionPairs
        (orItself .int itself 1 2) ((innerUnion.described 4).described 5) ∧
      SameResults ((plainUnion .int).letGo [orItself .int itself 1 2]) (orItself .int itself 1 2)
        (describedUnion.letGo [(innerUnion.described 4).described 5])
        ((innerUnion.described 4).described 5) := by
  have hunions : KeepsUnions ((plainUnion .int).letGo [orItself .int itself 1 2])
      (describedUnion.letGo [(innerUnion.described 4).described 5]) unionPairs
      (orItself .int itself 1 2) ((innerUnion.described 4).described 5) := by
    rintro x y ⟨hxy, -, -⟩ members members' hx hy
    simp only [unionPairs, List.mem_cons, List.not_mem_nil, or_false, Prod.mk.injEq] at hxy
    have heach : List.Forall₂ (fun m m' =>
        refersBack ((plainUnion .int).letGo [orItself .int itself 1 2]).world [0, 1] m = true →
          refersBack (describedUnion.letGo [(innerUnion.described 4).described 5]).world [1, 2] m' =
            true) [itself, .node 1 .int Metadata.empty none]
        [itself.described 1, .node 2 .int Metadata.empty none] :=
      .cons (fun _ => rfl) (.cons (fun h => by cases h) .nil)
    rcases hxy with ⟨rfl, rfl⟩ | ⟨rfl, rfl⟩ | ⟨rfl, rfl⟩ | ⟨rfl, rfl⟩ | ⟨rfl, rfl⟩ | ⟨rfl, rfl⟩ <;>
      cases hx <;> cases hy <;> exact heach
  have hsub := List.Subset.refl [(orItself .int itself 1 2, (innerUnion.described 4).described 5)]
  refine ⟨describedUnion_annotated, hunions, ?_⟩
  have hall :=
    (describedUnion_annotated.metadata_irrelevant hsub (.head _) hunions .start .start).2
  exact (hall _ (.head _) rfl _ (.head _) rfl).2.2

/-! ### What metadata can change -/

/-- The union next to a second one, which has the given member. -/
def twins (member : Schema) (id : NodeId) : Schema :=
  .node (id + 1) (.tuple [orItself .never member 1 id, orItself .never itself 1 2]) Metadata.empty
    none

/-- Both unions have the very same members. -/
def plainTwins : Scene where
  world := { (plainUnion .never).world with nextNode := 5 }
  nodes := twins itself 3 :: orItself .never itself 1 3 :: (plainUnion .never).nodes

/-- In the second union the placeholder has a description. -/
def describedTwins : Scene where
  world := { (plainUnion .never).world.copied itself with nextNode := 6 }
  nodes := twins (itself.described 3) 4 :: orItself .never (itself.described 3) 1 4 ::
    itself.described 3 :: (plainUnion .never).nodes

theorem describedTwins_annotated : ∃ pairs hand,
    Annotated World.Seals plainTwins describedTwins pairs
      ((twins itself 3, twins (itself.described 3) 4) :: hand) := by
  have h₁ := (placeholder_annotated World.Seals).leaf .never trivial fun r h => by cases h
  have h₂ : Annotated World.Seals ⟨made 3 1, (plainUnion .never).nodes⟩
      ⟨made 3 1, (plainUnion .never).nodes⟩
      ((orItself .never itself 1 2, orItself .never itself 1 2) :: _)
      [(orItself .never itself 1 2, orItself .never itself 1 2),
        (.node 1 .never Metadata.empty none, .node 1 .never Metadata.empty none),
        (itself, itself)] :=
    h₁.fresh (.union (.cons (.tail _ (.head _)) (.cons (.head _) .nil))) (by simp [Kind.Formed])
      (fun r h => by cases h) (fun r hr => by cases hr) rfl rfl
  have hseals : World.Seals (made 3 1) (made 3 1)
      [(orItself .never itself 1 2, orItself .never itself 1 2),
        (.node 1 .never Metadata.empty none, .node 1 .never Metadata.empty none), (itself, itself)]
      0 (orItself .never itself 1 2) (orItself .never itself 1 2) := .inr fun x y hxy hx => by
    simp only [List.mem_cons, List.not_mem_nil, or_false, Prod.mk.injEq] at hxy
    rcases hxy with ⟨rfl, rfl⟩ | ⟨rfl, rfl⟩ | ⟨rfl, rfl⟩ <;> exact hx
  have h₃ := (h₂.bind Nat.zero_lt_one rfl (.head _) rfl rfl hseals).describe
    (.tail _ (.tail _ (.head _)))
  have h₄ : Annotated World.Seals
      ⟨{ (plainUnion .never).world with nextNode := 4 }, plainTwins.nodes.drop 1⟩
      ⟨{ (plainUnion .never).world.copied itself with nextNode := 5 }, describedTwins.nodes.drop 1⟩
      ((orItself .never itself 1 3, orItself .never (itself.described 3) 1 4) :: _)
      ((orItself .never itself 1 3, orItself .never (itself.described 3) 1 4) :: _) :=
    h₃.fresh (.union (.cons (.head _) (.cons (.tail _ (.tail _ (.head _))) .nil)))
      (by simp [Kind.Formed]) (fun r h => by cases h) (fun r hr => by cases hr) rfl rfl
  exact ⟨_, _, h₄.fresh (.tuple (.cons (.head _) (.cons (.tail _ (.tail _ (.head _))) .nil)))
    (by trivial) (fun r h => by cases h) (fun r hr => by cases hr) rfl rfl⟩

/-- A link of a chain. -/
def link : Schema :=
  .node 2 (.object [("next", .node 1 (.option itself) Metadata.empty none)] none) Metadata.empty none

/-- The builder returns the link. -/
def plainLink : Scene where
  world := (made 3 1).bound 0 link
  nodes := [link, .node 1 (.option itself) Metadata.empty none, itself]

/-- The builder keeps the link, and returns a copy. -/
def describedLink : Scene where
  world := ((made 3 1).copied link).bound 0 (link.described 3)
  nodes := link.described 3 :: plainLink.nodes

theorem describedLink_annotated : ∃ pairs, Annotated (fun _ _ _ _ _ _ => True) plainLink
    describedLink pairs [(link, link)] := by
  have h₁ := (placeholder_annotated fun _ _ _ _ _ _ => True).fresh (.option (.head _))
    (by trivial) (fun r h => by cases h) (fun r hr => by cases hr) rfl rfl
  have h₂ : Annotated (fun _ _ _ _ _ _ => True) ⟨made 3 1, plainLink.nodes⟩
      ⟨made 3 1, plainLink.nodes⟩ ((link, link) :: _) ((link, link) :: _) :=
    h₁.fresh (.object none (.cons ⟨rfl, .head _⟩ .nil)) (by simp [Kind.Formed, Entries.keys])
      (fun r h => by cases h) (fun r hr => by cases hr) rfl rfl
  have h₃ := (h₂.describe (.head _)).bind Nat.zero_lt_one rfl (.head _) rfl rfl trivial
  exact ⟨_, h₃.drop (by simp)⟩

/-- The union fails for null. -/
def unionError : Error :=
  .atRoot (.invalidUnion [selfMemberError .serializing, .invalidType .serializing "Never" .null])
    .serializing

/-- **What a description can change.**  A placeholder with a description tells a second union with the
same members apart from the first one; and a builder that returns a copy of a schema that it keeps
leaves the schema without what it refers to. -/
theorem description_matters :
    (∃ pairs hand, Annotated World.Seals plainTwins describedTwins pairs
      ((twins itself 3, twins (itself.described 3) 4) :: hand)) ∧
    (plainTwins.letGo [twins itself 3]).Comes
      (fun fuel => (twins itself 3).serialize fuel (.array [.null, .null]))
      (.error (unionError.prepend (.index 0))) ∧
    (describedTwins.letGo [twins (itself.described 3) 4]).Comes
      (fun fuel => (twins (itself.described 3) 4).serialize fuel (.array [.null, .null]))
      (.error ((Error.atRoot (.invalidUnion [unionError, .invalidType .serializing "Never" .null])
        .serializing).prepend (.index 0))) ∧
    ¬ SameResults (plainTwins.letGo [twins itself 3]) (twins itself 3)
      (describedTwins.letGo [twins (itself.described 3) 4]) (twins (itself.described 3) 4) ∧
    (∃ pairs, Annotated (fun _ _ _ _ _ _ => True) plainLink describedLink pairs [(link, link)]) ∧
    (plainLink.letGo [link]).Comes
      (fun fuel => link.parse fuel (.object [("next", .object [("next", .null)])]))
      (.ok (.object [("next", .object [("next", .null)])])) ∧
    (describedLink.letGo [link]).Comes
      (fun fuel => link.parse fuel (.object [("next", .object [("next", .null)])]))
      (.error ((danglingError .parsing).prepend (.key "next"))) ∧
    ¬ SameResults (plainLink.letGo [link]) link (describedLink.letGo [link]) link := by
  have hplain : (plainTwins.letGo [twins itself 3]).Comes
      (fun fuel => (twins itself 3).serialize fuel (.array [.null, .null]))
      (.error (unionError.prepend (.index 0))) := ⟨9, _, rfl⟩
  have hdescribed : (describedTwins.letGo [twins (itself.described 3) 4]).Comes
      (fun fuel => (twins (itself.described 3) 4).serialize fuel (.array [.null, .null]))
      (.error ((Error.atRoot (.invalidUnion [unionError, .invalidType .serializing "Never" .null])
        .serializing).prepend (.index 0))) := ⟨9, _, rfl⟩
  have hok : (plainLink.letGo [link]).Comes
      (fun fuel => link.parse fuel (.object [("next", .object [("next", .null)])]))
      (.ok (.object [("next", .object [("next", .null)])])) := ⟨9, _, rfl⟩
  have herror : (describedLink.letGo [link]).Comes
      (fun fuel => link.parse fuel (.object [("next", .object [("next", .null)])]))
      (.error ((danglingError .parsing).prepend (.key "next"))) := ⟨9, _, rfl⟩
  obtain ⟨pairs, hand, htwins⟩ := describedTwins_annotated
  obtain ⟨pairs', hlink⟩ := describedLink_annotated
  refine ⟨⟨pairs, hand, htwins⟩, hplain, hdescribed, fun hsame => ?_, ⟨pairs', hlink⟩, hok, herror,
    fun hsame => ?_⟩
  · have hbuilt := htwins.parallel.1.right.tail (.release [twins (itself.described 3) 4])
    cases serialize_unique (Reachable.sound (Leads.of_step hbuilt)) (.head _)
      ((hsame.serialize _ _).1 hplain) hdescribed
  · have hbuilt := hlink.parallel.1.right.tail (.release [link])
    cases parse_unique (Reachable.sound (Leads.of_step hbuilt)) (.tail _ (.head _))
      ((hsame.parse _ _).1 hok) herror

end Scene

end Schemata
