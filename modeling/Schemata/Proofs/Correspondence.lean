/-
**Graphs that correspond node by node.**

Two scenes correspond by a relation of their nodes when related nodes are of kinds that are alike,
and the references that they use stand for related nodes.  Where all that is kept in cells is what
would be found out now, nothing else has to be compared but the configuration and the members of
unions that are the union itself: whether a node waits can be read off the graph, every reference
that is bound to another schema can be followed, and one that is bound to itself fails.

Main definitions:

* `Schemata.Scene.Current` — what is kept is what would be found out now;
* `Schemata.Scene.Corresponds` — **scenes that correspond node by node**.

Main results:

* `Schemata.Scene.Change.current`, `Schemata.Scene.Calls.current` — calls keep everything up to date;
* `Schemata.Scene.Corresponds.sameAnswer` — corresponding nodes give the same answer;
* `Schemata.Scene.Corresponds.resembles`, `Schemata.Scene.Corresponds.sameResults` — **corresponding
  nodes come to the same results**;
* `Schemata.Scene.Corresponds.calls` — so they do after any calls, and so do their copies.
-/

import Schemata.Proofs.Resemblance

set_option relaxedAutoImplicit false
set_option autoImplicit false

namespace Schemata

/-! ### Steps from nodes that are alike -/

theorem Handlers.Like.isAsync {h h' : Handlers} (hl : h.Like h') : h.isAsync = h'.isAsync := by
  have hp := hl.parser
  rw [Handlers.isAsync, Handlers.isAsync]
  generalize h.parser = p at hp
  generalize h'.parser = p' at hp
  cases hp <;> rfl

section

variable {R : Schema → Schema → Prop} {kind kind' : Kind}

/-- Kinds that are alike have asynchronous functions alike. -/
theorem Kind.Like.isAsync (h : kind.Like R kind') : kind.isAsync = kind'.isAsync := by
  cases h with
  | custom name hl => exact hl.isAsync
  | transformed _ he =>
      cases he with
      | transform hl | preprocess hl => exact hl.isAsync
      | _ => rfl
  | _ => rfl

theorem Kind.Like.children (h : kind.Like R kind') :
    List.Forall₂ R kind.children kind'.children := by
  cases h with
  | @leaf kind hl => cases kind <;> first | exact .nil | cases hl
  | custom => exact .nil
  | object own h => exact forall₂_map h fun _ _ hf => hf.2
  | tuple h | union h => exact h
  | array h | dict h | option h | null h | nullable h | jsonString h | transformed h _ =>
      exact .cons h .nil

/-- Kinds that are alike by a relation, with what is known of their children. -/
theorem Kind.Like.within {N N' : Schema → Prop} (h : kind.Like R kind')
    (hN : ∀ t ∈ kind.children, N t) (hN' : ∀ t ∈ kind'.children, N' t) :
    kind.Like (fun s t => N s ∧ N' t ∧ R s t) kind' :=
  ((h.imp (S := fun s t => N s ∧ R s t) fun s hs _ hst => ⟨hN s hs, hst⟩).symm.imp
    (S := fun t s => N s ∧ N' t ∧ R s t) fun t ht _ hst => ⟨hst.1, hN' t ht, hst.2⟩).symm

theorem optionRel_some {α β : Type} {Q : α → β → Prop} {x : α} {b : Option β}
    (h : Option.Rel Q (some x) b) : ∃ y, b = some y ∧ Q x y := by
  cases h with
  | some hxy => exact ⟨_, rfl, hxy⟩

theorem optionRel_none {α β : Type} {Q : α → β → Prop} {b : Option β}
    (h : Option.Rel Q none b) : b = none := by
  cases h
  rfl

theorem optionRel_isSome {α β : Type} {Q : α → β → Prop} {a : Option α} {b : Option β}
    (h : Option.Rel Q a b) : a.isSome = b.isSome := by
  cases h <;> rfl

theorem optionRel_imp {α β : Type} {Q S : α → β → Prop} {a : Option α} {b : Option β}
    (h : Option.Rel Q a b) (hS : ∀ x y, Q x y → S x y) : Option.Rel S a b := by
  cases h with
  | none => exact .none
  | some hxy => exact .some (hS _ _ hxy)

/-- Options side by side, of which some contents are left out alike. -/
theorem optionRel_restrict {α β : Type} {Q : α → β → Prop} {P : α → Prop} {P' : β → Prop}
    {a a' : Option α} {b b' : Option β} (h : Option.Rel Q a b)
    (ha : ∀ x, a' = some x ↔ a = some x ∧ P x) (hb : ∀ y, b' = some y ↔ b = some y ∧ P' y)
    (hP : ∀ x y, a = some x → b = some y → (P x ↔ P' y)) : Option.Rel Q a' b' := by
  cases ha' : a' with
  | none =>
      cases hb' : b' with
      | none => exact .none
      | some y =>
          obtain ⟨hby, hy⟩ := (hb y).1 hb'
          have hrel := optionRel_flip h
          rw [hby] at hrel
          obtain ⟨x, hax, -⟩ := optionRel_some hrel
          rw [(ha x).2 ⟨hax, (hP x y hax hby).2 hy⟩] at ha'
          cases ha'
  | some x =>
      obtain ⟨hax, hx⟩ := (ha x).1 ha'
      rw [hax] at h
      obtain ⟨y, hby, hxy⟩ := optionRel_some h
      rw [(hb y).2 ⟨hby, (hP x y hax hby).1 hx⟩]
      exact .some hxy

/-- Schemas that references stand for, with what is known of them. -/
theorem optionRel_within {α β : Type} {Q : α → β → Prop} {N : α → Prop} {N' : β → Prop}
    {a : Option α} {b : Option β} (h : Option.Rel Q a b) (ha : ∀ x, a = some x → N x)
    (hb : ∀ y, b = some y → N' y) : Option.Rel (fun x y => N x ∧ N' y ∧ Q x y) a b := by
  cases h with
  | none => exact .none
  | some hxy => exact .some ⟨ha _ rfl, hb _ rfl, hxy⟩

end

/-- Lists side by side with a third one. -/
theorem forall₂_comp {α β γ : Type} {Q : α → β → Prop} {S : β → γ → Prop} {T : α → γ → Prop}
    {l : List α} {k : List β} {j : List γ} (h : List.Forall₂ Q l k) (h' : List.Forall₂ S k j)
    (hT : ∀ a b c, Q a b → S b c → T a c) : List.Forall₂ T l j := by
  induction h generalizing j with
  | nil =>
      cases h'
      exact .nil
  | cons hab _ ih =>
      cases h' with
      | cons hbc hrest => exact .cons (hT _ _ _ hab hbc) (ih hrest)

/-- What stands beside an element. -/
theorem forall₂_exists_right {α β : Type} {Q : α → β → Prop} {l : List α} {k : List β}
    (h : List.Forall₂ Q l k) {a : α} (ha : a ∈ l) : ∃ b ∈ k, Q a b := by
  induction h with
  | nil => cases ha
  | cons hab _ ih =>
      rcases List.mem_cons.1 ha with rfl | ha
      · exact ⟨_, List.mem_cons_self .., hab⟩
      · obtain ⟨b, hb, hab⟩ := ih ha
        exact ⟨b, List.mem_cons_of_mem _ hb, hab⟩

/-- Something to stand beside each element. -/
theorem exists_forall₂ {α β : Type} {Q : α → β → Prop} {l : List α} (h : ∀ a ∈ l, ∃ b, Q a b) :
    ∃ k, List.Forall₂ Q l k := by
  induction l with
  | nil => exact ⟨[], .nil⟩
  | cons a rest ih =>
      obtain ⟨⟨b, hb⟩, hrest⟩ := List.forall_mem_cons.1 h
      obtain ⟨k, hk⟩ := ih hrest
      exact ⟨b :: k, .cons hb hk⟩

namespace Scene

variable {σ τ : Scene} {R : Schema → Schema → Prop} {s t u : Schema} {r : Reference}

/-! ### Scenes that are up to date -/

/-- No reference that is bound to itself has been compiled to anything but a failure. -/
def LoopsClean (σ : Scene) : Prop :=
  ∀ u r, u.kind = .recursive r → σ.world.target? r = some u →
    (∀ c, σ.world.parseCells u.id = .filled c →
      c.operation = .direct (.fail (danglingError .parsing))) ∧
    ∀ c, σ.world.serializeCells u.id = .filled c →
      c.operation = .fail (danglingError .serializing)

/-- **What is kept is what would be found out now.** -/
structure Current (σ : Scene) : Prop where
  sound : σ.world.Sound σ.nodes
  exact : σ.world.Exact σ.nodes
  shaped : σ.world.Shaped World.SameSettings σ.nodes
  loops : σ.LoopsClean

/-- Where nothing is kept. -/
theorem Current.of_untouched (hs : σ.world.Sound σ.nodes) (h : σ.world.Untouched) : σ.Current where
  sound := hs
  exact := h.exact
  shaped := h.shaped _
  loops _ _ _ _ := ⟨fun c hc => (by rw [h.parse] at hc; cases hc),
    fun c hc => (by rw [h.serialize] at hc; cases hc)⟩

/-- In a graph that has only been built nothing is kept. -/
theorem Current.built (h : Relation.ReflTransGen (Step .building) initial σ) : σ.Current :=
  .of_untouched (Reachable.sound (Leads.of_step h)) (built_untouched h)

/-- A use of the graph, or one more node, keeps everything up to date. -/
theorem Change.current (h : Change .using σ τ) (hσ : σ.Current) : τ.Current where
  sound := h.sound hσ.sound
  exact := h.exact hσ.sound hσ.exact
  shaped := h.shaped_same hσ.sound hσ.shaped
  loops := by
    intro u r hkind hu
    have hu : σ.world.target? r = some u := by rwa [World.target?, h.settings_same.1]
    have hm := hσ.sound.hosts.targets r u hu
    obtain ⟨hparse, hserialize⟩ := hσ.loops u r hkind hu
    obtain ⟨hplan, hplan'⟩ := loop_planned hσ.sound hσ.exact hkind hu
    cases h with
    | later hl =>
        constructor
        · intro c hc
          cases hc₀ : σ.world.parseCells u.id with
          | filled c₀ =>
              rw [hl.ahead.parse.kept _ _ hc₀] at hc
              cases hc
              exact hparse _ hc₀
          | empty | filling =>
              rw [hl.ahead.parse.planned u hm c hc]
              exact hplan (by rw [hc₀]; rfl)
        · intro c hc
          cases hc₀ : σ.world.serializeCells u.id with
          | filled c₀ =>
              rw [hl.ahead.serialize.kept _ _ hc₀] at hc
              cases hc
              exact hserialize _ hc₀
          | empty | filling =>
              rw [hl.ahead.serialize.planned u hm c hc]
              exact hplan' (by rw [hc₀]; rfl)
    | node =>
        have hne : u.id ≠ σ.world.nextNode := Nat.ne_of_lt (hσ.sound.hosts.known u hm)
        exact ⟨fun c hc => hparse c ((updateAt_other hne).symm.trans hc),
          fun c hc => hserialize c ((updateAt_other hne).symm.trans hc)⟩

/-- **Calls keep everything up to date.** -/
theorem Calls.current (h : σ.Calls τ) (hσ : σ.Current) :
    τ.Current ∧ σ.world.SameSettings τ.world ∧ σ.nodes ⊆ τ.nodes := by
  induction h with
  | refl => exact ⟨hσ, .refl _, List.Subset.refl _⟩
  | tail _ hcall ih =>
      obtain ⟨hcurrent, hsame, hnodes⟩ := ih
      have hchange := hcall.change hcurrent.sound
      have hsame' := hchange.settings_same
      exact ⟨hchange.current hcurrent, ⟨hsame.1.trans hsame'.1, hsame.2.trans hsame'.2⟩,
        List.Subset.trans hnodes (hchange.kept hcurrent.sound).nodes⟩

/-- In a graph that was bound before the first call everything is up to date. -/
theorem Called.current (h : σ.Called) : σ.Current := by
  obtain ⟨σ₀, hbuild, -, hcalls⟩ := h
  exact (hcalls.current (.built hbuild)).1

/-- A reference that is bound to itself stands for nothing that can run. -/
theorem Current.dangles (h : σ.Current) (hu : σ.world.target? r = some u)
    (hkind : u.kind = .recursive r) : σ.world.Dangles r := by
  intro t ht
  rw [hu] at ht
  cases ht
  obtain ⟨hparse, hserialize⟩ := h.loops u r hkind hu
  obtain ⟨hplan, hplan'⟩ := loop_planned h.sound h.exact hkind hu
  constructor
  · cases hc : σ.world.parseCells u.id with
    | filled c => rw [World.planned, World.parsePlan_of_filled hc, hparse c hc]
    | empty | filling => exact hplan (by rw [hc]; rfl)
  · cases hc : σ.world.serializeCells u.id with
    | filled c => rw [World.serializePlan_of_filled hc, hserialize c hc]
    | empty | filling => exact hplan' (by rw [hc]; rfl)

/-! ### Correspondence -/

/-- **Scenes that correspond node by node.** -/
structure Corresponds (σ τ : Scene) (R : Schema → Schema → Prop) : Prop where
  left : ∀ s t, R s t → s ∈ σ.nodes
  right : ∀ s t, R s t → t ∈ τ.nodes
  kinds : ∀ s t, R s t → s.kind.Like R t.kind
  targets : ∀ s t, R s t → ∀ r ∈ s.kind.references,
    Option.Rel R (σ.world.target? r) (τ.world.target? r)
  bound : ∀ s t, R s t → ∀ r ∈ s.kind.references, σ.world.isSet r = τ.world.isSet r
  config : σ.world.config = τ.world.config
  tests : ∀ s t, R s t → s.kind.SameTests σ.world τ.world t.kind

namespace Corresponds

theorem symm (h : Corresponds σ τ R) : Corresponds τ σ fun t s => R s t where
  left t s hst := h.right s t hst
  right t s hst := h.left s t hst
  kinds t s hst := (h.kinds s t hst).symm
  targets t s hst r hr := optionRel_flip (h.targets s t hst r ((h.kinds s t hst).references ▸ hr))
  bound t s hst r hr := (h.bound s t hst r ((h.kinds s t hst).references ▸ hr)).symm
  config := h.config.symm
  tests t s hst members' members hkind' hkind :=
    ((h.tests s t hst members members' hkind hkind').imp fun _ _ ht => ht.symm).flip

/-- What a reference stands for in one scene it stands for in the other one. -/
theorem target (h : Corresponds σ τ R) (hst : R s t) (hr : r ∈ s.kind.references)
    (hu : σ.world.target? r = some u) : ∃ u', τ.world.target? r = some u' ∧ R u u' := by
  have hrel := h.targets s t hst r hr
  rw [hu] at hrel
  exact optionRel_some hrel

/-- What a reference does not stand for in one scene it does not stand for in the other one. -/
theorem target_none (h : Corresponds σ τ R) (hst : R s t) (hr : r ∈ s.kind.references)
    (hu : σ.world.target? r = none) : τ.world.target? r = none := by
  have hrel := h.targets s t hst r hr
  rw [hu] at hrel
  exact optionRel_none hrel

/-- What running a node may lead to next is the same in both scenes. -/
theorem depends (h : Corresponds σ τ R) (hst : R s t) (hsu : σ.world.Depends s u) :
    ∃ u', τ.world.Depends t u' ∧ R u u' := by
  rcases hsu with hchild | ⟨r, hr, hu⟩
  · obtain ⟨u', hu', huu⟩ := forall₂_exists_right (h.kinds s t hst).children hchild
    exact ⟨u', .inl hu', huu⟩
  · obtain ⟨u', hu', huu⟩ := h.target hst hr hu
    exact ⟨u', .inr ⟨r, (h.kinds s t hst).references ▸ hr, hu'⟩, huu⟩

theorem dependsOn (h : Corresponds σ τ R) (hst : R s t)
    (hsu : Relation.ReflTransGen σ.world.Depends s u) :
    ∃ u', Relation.ReflTransGen τ.world.Depends t u' ∧ R u u' := by
  induction hsu with
  | refl => exact ⟨t, .refl, hst⟩
  | tail _ hxy ih =>
      obtain ⟨x', htx, hxx⟩ := ih
      obtain ⟨y', hxy', hyy⟩ := h.depends hxx hxy
      exact ⟨y', htx.tail hxy', hyy⟩

/-- A step of one scene is a step of the other one. -/
theorem leads (h : Corresponds σ τ R) (hst : R s t) (hsu : σ.world.Leads s u) :
    ∃ u', τ.world.Leads t u' ∧ R u u' := by
  have hk := h.kinds s t hst
  rcases World.leads_cases hsu with hu | ⟨r, hr, hu⟩
  · obtain ⟨u', hu', huu⟩ := forall₂_exists_right hk.children hu
    exact ⟨u', World.leads_of_child hu', huu⟩
  · obtain ⟨u', hu', huu⟩ := h.target hst (by rw [hr]; exact List.mem_singleton_self r) hu
    rw [hr] at hk
    exact ⟨u', World.leads_of_target hk.recursive hu', huu⟩

theorem reachesAsync (h : Corresponds σ τ R) (hst : R s t) (ha : σ.world.ReachesAsync s) :
    τ.world.ReachesAsync t := by
  obtain ⟨u, hsu, ha⟩ := ha
  induction hsu using Relation.ReflTransGen.head_induction_on generalizing t with
  | refl => exact World.reachesAsync_of_own ((h.kinds u t hst).isAsync.symm.trans ha)
  | head hxy _ ih =>
      obtain ⟨y, hty, hxy⟩ := h.leads hst hxy
      exact World.reachesAsync_of_leads hty (ih hxy)

/-- **Corresponding nodes wait alike.** -/
theorem reachesAsync_iff (h : Corresponds σ τ R) (hst : R s t) :
    σ.world.ReachesAsync s ↔ τ.world.ReachesAsync t :=
  ⟨h.reachesAsync hst, h.symm.reachesAsync hst⟩

section

variable (h : Corresponds σ τ R) (hσ : σ.Current) (hτ : τ.Current)

include h hσ hτ

theorem answer_eq (hst : R s t) : σ.world.answer s = τ.world.answer t := by
  rw [Bool.eq_iff_iff, hσ.exact.answer_iff hσ.sound.hosts (h.left s t hst),
    hτ.exact.answer_iff hτ.sound.hosts (h.right s t hst), h.reachesAsync_iff hst]

/-- **Corresponding nodes give the same answer.** -/
theorem sameAnswer (hst : R s t) : ∃ b w w', s.isAsync σ.world = .ok (b, w) ∧
    t.isAsync τ.world = .ok (b, w') := by
  obtain ⟨w, hrun, -⟩ := Schema.isAsync_done hσ.sound (h.left s t hst) hσ.sound.later
  obtain ⟨w', hrun', -⟩ := Schema.isAsync_done hτ.sound (h.right s t hst) hτ.sound.later
  exact ⟨_, w, w', hrun, h.answer_eq hσ hτ hst ▸ hrun'⟩

end

end Corresponds

/-! ### References -/

/-- A reference that is bound to a node other than itself is looked up when it is run. -/
theorem follows_of_bound (hosts : σ.world.Hosts σ.nodes) {w : World}
    (hw : w.SameSettings σ.world) {o : Schema} (ho : o ∈ σ.nodes) (hkind : o.kind = .recursive r)
    (hu : σ.world.target? r = some u) (hother : u.kind ≠ .recursive r) :
    (∀ d, followOperation w d o.id r = .follow d r) ∧ followStaged w o.id r = .follow r := by
  have husable : usableTarget w o.id r = true := by
    rw [usableTarget_eq hosts hw ho hkind fun v hv => by rw [hu] at hv; cases hv; exact hother, hu]
    rfl
  constructor
  · intro d
    simp [followOperation, husable]
  · simp [followStaged, husable]

/-- A reference that stands for nothing fails, or is looked up once it is bound. -/
theorem follows_of_none {w : World} (hw : w.SameSettings σ.world) (id : NodeId)
    (hu : σ.world.target? r = none) :
    (∀ d, followOperation w d id r =
        if σ.world.isSet r then .fail (danglingError d) else .follow d r) ∧
      followStaged w id r = .ready (.fail (danglingError .parsing)) := by
  have hset := World.isSet_congr hw.1 r
  have husable : usableTarget w id r = false := by
    rw [usableTarget_congr hw.1, usableTarget, hu]
  constructor
  · intro d
    rw [followOperation, hset, husable, Bool.not_false, Bool.and_true]
  · rw [followStaged, husable]
    rfl

/-! ### Results -/

namespace Corresponds

section

variable (h : Corresponds σ τ R) (hσ : σ.Current) (hτ : τ.Current)

include h hσ hτ

/-- What is read off two corresponding scenes while kinds are compiled is the same. -/
theorem sameTerms (hst : R s t) {w w' : World} (hw : w.SameSettings σ.world)
    (hw' : w'.SameSettings τ.world) {o o' : Schema} (ho : o ∈ σ.nodes) (ho' : o' ∈ τ.nodes)
    (hko : o.kind = s.kind) (hko' : o'.kind = t.kind) :
    s.kind.SameTerms σ.world τ.world w w' o.id o'.id t.kind where
  tests := by
    rw [Kind.SameTests, refersBack_congr hw.1, refersBack_congr hw'.1]
    exact h.tests s t hst
  follows r hr := by
    have hmem : r ∈ s.kind.references := by
      rw [hr]
      exact List.mem_singleton_self r
    have hk := h.kinds s t hst
    rw [hr] at hk
    cases hu : σ.world.target? r with
    | none =>
        obtain ⟨hf, hs⟩ := follows_of_none hw o.id hu
        obtain ⟨hf', hs'⟩ := follows_of_none hw' o'.id (h.target_none hst hmem hu)
        refine .inl ⟨fun d => ?_, hs.trans hs'.symm⟩
        rw [hf d, hf' d, h.bound s t hst r hmem]
    | some u =>
        obtain ⟨u', hu', huu⟩ := h.target hst hmem hu
        -- compiling a reference that is bound to itself looks at identities, which may differ;
        -- nothing runs behind such a reference in either scene
        by_cases hloop : u.kind = .recursive r
        · have hk' := h.kinds u u' huu
          rw [hloop] at hk'
          exact .inr ⟨hσ.dangles hu hloop, hτ.dangles hu' hk'.recursive⟩
        · have hloop' : u'.kind ≠ .recursive r := fun hkind => by
            have hk' := (h.kinds u u' huu).symm
            rw [hkind] at hk'
            exact hloop hk'.recursive
          obtain ⟨hf, hs⟩ := follows_of_bound hσ.sound.hosts hw ho (hko.trans hr) hu hloop
          obtain ⟨hf', hs'⟩ :=
            follows_of_bound hτ.sound.hosts hw' ho' (hko'.trans hk.recursive) hu' hloop'
          exact .inl ⟨fun d => (hf d).trans (hf' d).symm, hs.trans hs'.symm⟩

/-- **Corresponding scenes resemble each other.** -/
theorem resembles :
    σ.world.Resembles τ.world R fun r => ∃ s t, R s t ∧ r ∈ s.kind.references where
  kinds := h.kinds
  references s t hst r hr := ⟨s, t, hst, hr⟩
  targets r hr := by
    obtain ⟨s, t, hst, hr⟩ := hr
    exact h.targets s t hst r hr
  parse s t hst := by
    have hs := h.left s t hst
    have ht := h.right s t hst
    obtain ⟨w₁, o, waits, hw₁, ho, hko, hplan⟩ := hσ.sound.parsePlan_shape hσ.shaped (.refl _) hs
    obtain ⟨w₂, o', waits', hw₂, ho', hko', hplan'⟩ :=
      hτ.sound.parsePlan_shape hτ.shaped (.refl _) ht
    have hwaits : waits = waits' := by
      have h₁ := hσ.sound.planned_isAsync hs
      have h₂ := hτ.sound.planned_isAsync ht
      rw [World.planned, hplan, Kind.parser_isAsync] at h₁
      rw [World.planned, hplan', Kind.parser_isAsync] at h₂
      rw [h₁, h₂, h.answer_eq hσ hτ hst]
    subst hwaits
    refine ⟨w₁, w₂, o.id, o'.id, waits, by rw [World.planned, hplan], by rw [World.planned, hplan'],
      h.sameTerms hσ hτ hst hw₁ hw₂ ho ho' hko hko', fun fields own _ => ?_⟩
    rw [policyOf_congr (hw₁.2.trans (h.config.trans hw₂.2.symm))]
  serialize s t hst := by
    obtain ⟨w₁, o, hw₁, ho, hko, hplan⟩ :=
      hσ.sound.serializePlan_shape hσ.shaped (.refl _) (h.left s t hst)
    obtain ⟨w₂, o', hw₂, ho', hko', hplan'⟩ :=
      hτ.sound.serializePlan_shape hτ.shaped (.refl _) (h.right s t hst)
    exact ⟨w₁, w₂, o.id, o'.id, by rw [hplan], by rw [hplan'],
      h.sameTerms hσ hτ hst hw₁ hw₂ ho ho' hko hko'⟩

/-- **Corresponding nodes come to the same results.** -/
theorem sameResults (hst : R s t) : SameResults σ s τ t :=
  sameResults_of_resembles hσ.sound hτ.sound (h.resembles hσ hτ) h.left h.right hst

end

end Corresponds

/-! ### Calls on corresponding scenes -/

/-- Nodes of the kinds of related nodes: copies of these, among others. -/
def OfRelatedKinds (σ τ : Scene) (R : Schema → Schema → Prop) (s t : Schema) : Prop :=
  s ∈ σ.nodes ∧ t ∈ τ.nodes ∧ ∃ s₀ t₀, R s₀ t₀ ∧ s₀.kind = s.kind ∧ t₀.kind = t.kind

/-- **Scenes correspond after any calls**, and so do the copies that the calls have made. -/
theorem Corresponds.calls {σ' τ' : Scene} (h : Corresponds σ τ R) (hσ : σ.Current) (hτ : τ.Current)
    (hcσ : σ.Calls σ') (hcτ : τ.Calls τ') : Corresponds σ' τ' (OfRelatedKinds σ' τ' R) := by
  obtain ⟨-, hsσ, hnσ⟩ := hcσ.current hσ
  obtain ⟨-, hsτ, hnτ⟩ := hcτ.current hτ
  have hR : ∀ s t, R s t → OfRelatedKinds σ' τ' R s t := fun s t hst =>
    ⟨hnσ (h.left s t hst), hnτ (h.right s t hst), s, t, hst, rfl, rfl⟩
  refine
    { left := fun _ _ hst => hst.1
      right := fun _ _ hst => hst.2.1
      kinds := ?_
      targets := ?_
      bound := ?_
      config := hsσ.2.symm.trans (h.config.trans hsτ.2)
      tests := ?_ }
  · rintro s t ⟨-, -, s₀, t₀, hst, hks, hkt⟩
    rw [← hks, ← hkt]
    exact (h.kinds s₀ t₀ hst).imp fun x _ y hxy => hR x y hxy
  · rintro s t ⟨-, -, s₀, t₀, hst, hks, -⟩ r hr
    rw [← World.target?_congr hsσ.1, ← World.target?_congr hsτ.1]
    exact optionRel_imp (h.targets s₀ t₀ hst r (hks ▸ hr)) hR
  · rintro s t ⟨-, -, s₀, t₀, hst, hks, -⟩ r hr
    rw [← World.isSet_congr hsσ.1, ← World.isSet_congr hsτ.1, h.bound s₀ t₀ hst r (hks ▸ hr)]
  · rintro s t ⟨-, -, s₀, t₀, hst, hks, hkt⟩
    rw [← hks, ← hkt, Kind.SameTests, refersBack_congr hsσ.1.symm, refersBack_congr hsτ.1.symm]
    exact h.tests s₀ t₀ hst

end Scene

end Schemata
