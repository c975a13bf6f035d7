/-
**Queries while a schema is being built.**

Nothing keeps a builder from asking the nodes that it makes whether they wait, or from compiling
them, while its placeholder stands for nothing yet.  What is kept then is kept for good.  It may be
out of date as soon as the placeholder is bound: an answer, if an asynchronous function can be
reached from then on; a union, if one of its members turns out to be the union itself; a placeholder
that is bound to itself.  When none of this happens, the early queries leave no trace.

Main definitions:

* `Schemata.Scene.Timely` — nothing that has been kept is out of date once the reference is bound;
* `Schemata.Scene.Queried` — histories in which nodes are queried while the graph is being built.

Main results:

* `Schemata.Scene.Current.bind` — binding in time keeps everything up to date;
* `Schemata.Scene.Queried.harmless` — **timely queries are harmless**;
* `Schemata.Scene.early_answer_stale` — an answer that comes too early is wrong for good.
-/

import Schemata.Proofs.Correspondence
import Schemata.Proofs.Holding

set_option relaxedAutoImplicit false
set_option autoImplicit false

namespace Schemata

/-! ### Binding one more reference -/

namespace World

variable {w : World} {r r' : Reference} {s t u : Schema}

theorem usableTarget_bound_other {id : NodeId} (h : r' ≠ r) :
    usableTarget (w.bound r s) id r' = usableTarget w id r' := by
  rw [usableTarget, usableTarget, target?_bound_other h]

theorem leads_bound (hunset : w.bindings r = .unset) (h : w.Leads t u) : (w.bound r s).Leads t u := by
  rcases leads_cases h with hchild | ⟨r', hkind, htarget⟩
  · exact leads_of_child hchild
  · exact leads_of_target hkind (target?_bound hunset htarget)

theorem reachesAsync_bound (hunset : w.bindings r = .unset) (h : w.ReachesAsync t) :
    (w.bound r s).ReachesAsync t := by
  obtain ⟨u, htu, ha⟩ := h
  rw [Reaches] at htu
  exact ⟨u, htu.lift id fun _ _ => leads_bound hunset, ha⟩

end World

/-! ### What operations depend on -/

section

variable {w w' : World} {kind : Kind} {id : NodeId}

/-- The same members of a union are the union itself. -/
def Kind.SameMembers (w w' : World) (kind : Kind) : Prop :=
  ∀ members, kind = .union members → ∀ m ∈ members,
    refersBack w (members.map Schema.id) m = refersBack w' (members.map Schema.id) m

theorem Kind.SameMembers.embedded (h : kind.SameMembers w w') :
    kind.embedded w = kind.embedded w' := by
  cases kind with
  | union members =>
      refine List.filter_congr fun m hm => ?_
      rw [h members rfl m hm]
  | _ => rfl

/-- A parse operation depends on the bindings only through the members of a union that are the union
itself, and through what a reference is compiled to. -/
theorem Kind.parser_bindings_congr {waits : Bool} (hconfig : w.config = w'.config)
    (hmembers : kind.SameMembers w w')
    (hfollow : ∀ r, kind = .recursive r →
      followOperation w .parsing id r = followOperation w' .parsing id r ∧
        (waits = true → followStaged w id r = followStaged w' id r))
    (below : Schema → ParseOperation) :
    kind.parser w id waits below = kind.parser w' id waits below := by
  cases kind with
  | union members =>
      have hm : members.map (memberParser w (members.map Schema.id) below) =
          members.map (memberParser w' (members.map Schema.id) below) :=
        List.map_congr_left fun m hm => by
          rw [memberParser, memberParser, hmembers members rfl m hm]
      have hm' : (members.map fun m => (memberParser w (members.map Schema.id) below m).atOnce) =
          members.map fun m => (memberParser w' (members.map Schema.id) below m).atOnce :=
        List.map_congr_left fun m hm => by
          rw [memberParser, memberParser, hmembers members rfl m hm]
      simp only [Kind.parser, Kind.directParser, Kind.stagedParser, hm, hm']
  | object fields own =>
      simp only [Kind.parser, Kind.directParser, Kind.stagedParser, policyOf_congr hconfig]
  | recursive r =>
      obtain ⟨hdirect, hstaged⟩ := hfollow r rfl
      cases waits with
      | false => exact congrArg ParseOperation.direct hdirect
      | true => exact hstaged rfl
  | _ => rfl

/-- So does a serialize operation. -/
theorem Kind.serializer_bindings_congr (hmembers : kind.SameMembers w w')
    (hfollow : ∀ r, kind = .recursive r →
      followOperation w .serializing id r = followOperation w' .serializing id r)
    (below : Schema → Compiled Operation) :
    kind.serializer w id below = kind.serializer w' id below := by
  cases kind with
  | union members =>
      have hm : members.map (memberSerializer w (members.map Schema.id) below) =
          members.map (memberSerializer w' (members.map Schema.id) below) :=
        List.map_congr_left fun m hm => by
          rw [memberSerializer, memberSerializer, hmembers members rfl m hm]
      simp only [Kind.serializer, hm]
  | recursive r => simp only [Kind.serializer, hfollow r rfl]
  | _ => rfl

end

namespace Scene

variable {σ τ ρ : Scene} {r : Reference} {s t u : Schema}

/-! ### Binding in time -/

/-- An operation is compiled for the node, in one direction or the other. -/
def IsCompiled (σ : Scene) (s : Schema) : Prop :=
  (∃ c, σ.world.parseCells s.id = .filled c) ∨ ∃ c, σ.world.serializeCells s.id = .filled c

/-- **A reference is bound in time**: no node that is known not to wait will wait, no union has been
compiled of which a member turns out to be the union itself, and no reference has been compiled that
turns out to be bound to itself. -/
structure Timely (σ : Scene) (r : Reference) (s : Schema) : Prop where
  answers : ∀ t ∈ σ.nodes, σ.world.knownAsync? t.id = some false →
    ¬ (σ.world.bound r s).ReachesAsync t
  members : ∀ t ∈ σ.nodes, σ.IsCompiled t → ∀ members, t.kind = .union members →
    ∀ m ∈ members, m.kind = .recursive r →
      refersBack (σ.world.bound r s) (members.map Schema.id) m = false
  itself : s.kind = .recursive r → ∀ t ∈ σ.nodes, t.kind = .recursive r → ¬ σ.IsCompiled t

/-- **Histories in which nodes are queried while the graph is being built.**  The configuration is
set before the first query. -/
inductive Queried (timely : Scene → Reference → Schema → Prop) : Scene → Prop
  | built {σ : Scene} : Relation.ReflTransGen (Step .building) initial σ → Queried timely σ
  | use {σ τ : Scene} : Queried timely σ → Step .using σ τ → Queried timely τ
  | fresh {σ : Scene} {kind : Kind} {s : Schema} {w : World} : Queried timely σ →
      (∀ t ∈ kind.children, t ∈ σ.nodes) → kind.Formed →
      Schema.fresh kind σ.world = .ok (s, w) → Queried timely ⟨w, s :: σ.nodes⟩
  | withPolicy {σ : Scene} {s t : Schema} {fields : List (String × Schema)}
      {own : Option UnknownKeys} {policy : UnknownKeys} {w : World} : Queried timely σ →
      s ∈ σ.nodes → s.kind = .object fields own → s.withPolicy policy σ.world = .ok (t, w) →
      Queried timely ⟨w, t :: σ.nodes⟩
  | reference {σ : Scene} {r : Reference} {w : World} : Queried timely σ →
      newReference σ.world = .ok (r, w) → Queried timely ⟨w, σ.nodes⟩
  | bind {σ : Scene} {r : Reference} {s : Schema} {w : World} : Queried timely σ →
      r < σ.world.nextReference → σ.world.bindings r = .unset → s ∈ σ.nodes →
      bindReference r (.live s) σ.world = .ok ((), w) → timely σ r s → Queried timely ⟨w, σ.nodes⟩

/-! ### Binding keeps what is up to date -/

/-- What is not bound leads nowhere. -/
theorem not_reachesAsync_of_unset (hkind : t.kind = .recursive r)
    (hunset : σ.world.bindings r = .unset) : ¬ σ.world.ReachesAsync t := by
  intro ha
  rcases World.reachesAsync_cases ha with hown | ⟨u, hu, -⟩
  · rw [hkind] at hown
    cases hown
  · rcases World.leads_cases hu with hchild | ⟨r', hr', htarget⟩
    · rw [Schema.children, hkind] at hchild
      cases hchild
    · rw [hkind] at hr'
      cases hr'
      simp [World.target?, hunset] at htarget

namespace Current

variable (h : σ.Current) (hunset : σ.world.bindings r = .unset) (hs : s ∈ σ.nodes)
  (ht : σ.Timely r s)

include h hunset ht

theorem bind_exact : (σ.world.bound r s).Exact σ.nodes where
  async u hu b hb := by
    have hiff := h.exact.async u hu b hb
    cases b with
    | true => exact iff_of_true rfl (World.reachesAsync_bound hunset (hiff.1 rfl))
    | false =>
        exact iff_of_false Bool.false_ne_true (ht.answers u hu (World.knownAsync_of_async hb))
  parse u hu c hc := by
    have hiff := h.exact.parse u hu c hc
    cases hb : c.operation.isAsync with
    | true => exact iff_of_true rfl (World.reachesAsync_bound hunset (hiff.1 hb))
    | false =>
        have hknown := h.sound.knownAsync_of_parse hu hc
        rw [hb] at hknown
        exact iff_of_false Bool.false_ne_true (ht.answers u hu hknown)

omit h in
/-- A union that has been compiled has the same members that are the union itself. -/
theorem bind_sameMembers (hu : u ∈ σ.nodes) (hc : σ.IsCompiled u) :
    u.kind.SameMembers σ.world (σ.world.bound r s) := by
  intro members hkind m hm
  by_cases hr : m.kind = .recursive r
  · rw [ht.members u hu hc members hkind m hm hr, refersBack, hr]
    simp [World.target?, hunset]
  · rw [refersBack, refersBack]
    cases hm : m.kind with
    | recursive r' =>
        have hne : r' ≠ r := fun heq => hr (heq ▸ hm)
        simp only [World.target?_bound_other hne]
    | _ => rfl

include hs in
/-- A reference that has been compiled would be compiled to the same. -/
theorem bind_follow {o : Schema} {r' : Reference} (hu : u ∈ σ.nodes) (hc : σ.IsCompiled u)
    (hkind : u.kind = .recursive r') (ho : o ∈ σ.nodes) (hko : o.kind = u.kind) (d : Direction) :
    followOperation σ.world d o.id r' = followOperation (σ.world.bound r s) d o.id r' := by
  by_cases hr : r' = r
  · subst hr
    have hne : s.id ≠ o.id := fun heq => by
      -- a node with the identity of the target would be the target, bound to itself
      have hso := h.sound.hosts.identity s hs o ho heq
      exact ht.itself (hso ▸ hko.trans hkind) u hu hkind hc
    have hset : σ.world.isSet r' = false := by simp [World.isSet, hunset]
    have husable : usableTarget (σ.world.bound r' s) o.id r' = true := by
      simp [usableTarget, hne]
    simp [followOperation, hset, husable]
  · rw [followOperation, followOperation, World.isSet_bound_other hr,
      World.usableTarget_bound_other hr]

/-- One that waits has been bound before. -/
theorem bind_staged {o : Schema} {r' : Reference} (hu : u ∈ σ.nodes)
    {c : Compiled ParseOperation} (hc : σ.world.parseCells u.id = .filled c)
    (hkind : u.kind = .recursive r') (hwaits : c.operation.isAsync = true) :
    followStaged σ.world o.id r' = followStaged (σ.world.bound r s) o.id r' := by
  have hne : r' ≠ r := by
    -- what was not bound led nowhere, so its operation was compiled as one that does not wait
    rintro rfl
    exact not_reachesAsync_of_unset hkind hunset ((h.exact.parse u hu c hc).1 hwaits)
  rw [followStaged, followStaged, World.usableTarget_bound_other hne]

include hs in
theorem bind_shaped : (σ.world.bound r s).Shaped World.SameSettings σ.nodes where
  parse u hu c hc := by
    obtain ⟨w₁, o, waits, hw₁, ho, hko, hplan, hbelow⟩ := h.shaped.parse u hu c hc
    have hcompiled : σ.IsCompiled u := .inl ⟨c, hc⟩
    have hmembers := bind_sameMembers hunset ht hu hcompiled
    have hwaits : c.operation.isAsync = waits := by rw [hplan, Kind.parser_isAsync]
    have hconfig : σ.world.config = (σ.world.bound r s).config := rfl
    -- the operation is the one that would be compiled now, in the world after the binding
    refine ⟨σ.world.bound r s, o, waits, .refl _, ho, hko, ?_, fun t ht => ?_⟩
    · rw [hplan, Kind.parser_congr hw₁.2 hw₁.1 o.id waits fun _ _ => rfl]
      refine congrArg (Compiled.mk o.id)
        (Kind.parser_bindings_congr hconfig hmembers (fun r' hr' => ⟨?_, fun hw => ?_⟩) _)
      · exact h.bind_follow hunset hs ht hu hcompiled hr' ho hko .parsing
      · exact h.bind_staged hunset ht hu hc hr' (hwaits.trans hw)
    · rw [← hmembers.embedded, ← Kind.embedded_congr hw₁.1] at ht
      exact hbelow t ht
  serialize u hu c hc := by
    obtain ⟨w₁, o, hw₁, ho, hko, hplan, hbelow⟩ := h.shaped.serialize u hu c hc
    have hcompiled : σ.IsCompiled u := .inr ⟨c, hc⟩
    have hmembers := bind_sameMembers hunset ht hu hcompiled
    refine ⟨σ.world.bound r s, o, .refl _, ho, hko, ?_, fun t ht => ?_⟩
    · rw [hplan, Kind.serializer_congr hw₁.1 o.id fun _ _ => rfl]
      exact Kind.serializer_bindings_congr hmembers
        (fun r' hr' => h.bind_follow hunset hs ht hu hcompiled hr' ho hko .serializing) _
    · rw [← hmembers.embedded, ← Kind.embedded_congr hw₁.1] at ht
      exact hbelow t ht

omit h in
theorem bind_loops (hclean : σ.LoopsClean) (hm : s ∈ σ.nodes) :
    LoopsClean ⟨σ.world.bound r s, σ.nodes⟩ := by
  intro u r' hkind hu
  by_cases hr : r' = r
  · subst hr
    have hsu : s = u := by simpa using hu
    subst hsu
    have hnone := ht.itself hkind s hm hkind
    exact ⟨fun c hc => absurd (.inl ⟨c, hc⟩) hnone, fun c hc => absurd (.inr ⟨c, hc⟩) hnone⟩
  · exact hclean u r' hkind (by rwa [World.target?_bound_other hr] at hu)

include hs in
/-- **Binding in time keeps everything up to date.** -/
theorem bind (hr : r < σ.world.nextReference) : Current ⟨σ.world.bound r s, σ.nodes⟩ := by
  have hstep : Step .building σ ⟨σ.world.bound r s, σ.nodes⟩ := .bind hr hunset hs rfl
  exact
    { sound := (hstep.change h.sound).sound h.sound
      exact := h.bind_exact hunset ht
      shaped := h.bind_shaped hunset hs ht
      loops := bind_loops hunset ht h.loops hs }

end Current

/-! ### Histories -/

/-- One more reference changes nothing that is kept. -/
theorem Current.reference (h : σ.Current) {w : World} (hrun : newReference σ.world = .ok (r, w)) :
    Current ⟨w, σ.nodes⟩ := by
  have hsound := ((Step.reference hrun).change h.sound).sound h.sound
  cases hrun
  exact ⟨hsound, ⟨h.exact.async, h.exact.parse⟩, h.shaped.rebind rfl rfl fun _ hw => hw, h.loops⟩

/-- **With timely queries everything stays up to date.** -/
theorem Queried.current (h : Queried Timely σ) : σ.Current := by
  induction h with
  | built h => exact .built h
  | use _ hstep ih => exact (hstep.change ih.sound).current ih
  | fresh _ hbelow hformed hrun ih =>
      cases hrun
      exact (Change.fresh ih.sound hbelow hformed _ _).current ih
  | @withPolicy _ s t _ _ _ _ _ hm hkind hrun ih =>
      simp only [Schema.withPolicy, hkind] at hrun
      cases hrun
      have hbelow := ih.sound.hosts.below s hm
      have hformed := ih.sound.hosts.formed s hm
      simp only [Schema.children, hkind] at hbelow hformed
      refine (Change.fresh ih.sound ?_ ?_ _ _).current ih
      · exact fun t ht => (hbelow t ht).1
      · exact hformed
  | reference _ hrun ih => exact ih.reference hrun
  | bind _ hr hunset hm hrun htimely ih =>
      cases hrun
      exact ih.bind hunset hm htimely hr

/-! ### The same history without queries -/

/-- Worlds in which the same is built next. -/
structure Twin (w w' : World) : Prop where
  nextNode : w'.nextNode = w.nextNode
  nextReference : w'.nextReference = w.nextReference
  settings : w.SameSettings w'

/-- A computation that builds the same in worlds in which the same is built next. -/
def BuildsAlike {α : Type} (c : Run α) : Prop :=
  ∀ w w' v a, Twin w w' → c w = .ok (a, v) → ∃ v', c w' = .ok (a, v') ∧ Twin v v'

theorem buildsAlike_fresh (kind : Kind) : BuildsAlike (Schema.fresh kind) := by
  rintro w w' v a ⟨hnode, href, hsame⟩ hrun
  cases hrun
  rw [← hnode]
  exact ⟨_, rfl, rfl, href, hsame⟩

theorem buildsAlike_withMetadata (s : Schema) (update : Metadata → Metadata) :
    BuildsAlike (s.withMetadata update) := by
  rintro w w' v a ⟨hnode, href, hsame⟩ hrun
  cases hrun
  rw [← hnode]
  exact ⟨_, rfl, rfl, href, hsame⟩

theorem buildsAlike_withPolicy {fields : List (String × Schema)} {own : Option UnknownKeys}
    (hkind : s.kind = .object fields own) (policy : UnknownKeys) :
    BuildsAlike (s.withPolicy policy) := by
  rintro w w' v a ⟨hnode, href, hsame⟩ hrun
  simp only [Schema.withPolicy, hkind] at hrun ⊢
  cases hrun
  rw [← hnode]
  exact ⟨_, rfl, rfl, href, hsame⟩

theorem buildsAlike_newReference : BuildsAlike newReference := by
  rintro w w' v a ⟨hnode, href, hsame⟩ hrun
  cases hrun
  rw [← href]
  exact ⟨_, rfl, hnode, rfl, hsame⟩

theorem buildsAlike_bindReference (r : Reference) (b : Binding) :
    BuildsAlike (bindReference r b) := by
  rintro w w' v a ⟨hnode, href, hb, hc⟩ hrun
  cases hrun
  exact ⟨_, rfl, hnode, href, congrArg (updateAt · r b) hb, hc⟩

/-- Such a history is one of the histories of a world. -/
theorem Queried.reachable {timely : Scene → Reference → Schema → Prop} (h : Queried timely σ) :
    σ.Reachable := by
  induction h with
  | built h => exact Leads.of_step h
  | use _ hstep ih => exact ih.tail ⟨_, hstep⟩
  | fresh _ hbelow hformed hrun ih => exact ih.tail ⟨_, .fresh hbelow hformed hrun⟩
  | withPolicy _ hm hkind hrun ih => exact ih.tail ⟨_, .withPolicy hm hkind hrun⟩
  | reference _ hrun ih => exact ih.tail ⟨_, .reference hrun⟩
  | bind _ hr hunset hm hrun _ ih => exact ih.tail ⟨_, .bind hr hunset hm hrun⟩

/-- A graph built afresh stays a copy while operations are compiled. -/
theorem IsCopyOf.later (h : IsCopyOf ρ σ) (htwin : Twin σ.world ρ.world) {w : World}
    (hw : σ.world.Later σ.nodes w) : IsCopyOf ρ ⟨w, σ.nodes⟩ ∧ Twin w ρ.world := by
  have hsame : w.SameSettings ρ.world :=
    ⟨hw.ahead.bindings.trans htwin.settings.1, hw.ahead.config.trans htwin.settings.2⟩
  exact ⟨⟨h.built, h.nodes, hsame⟩, htwin.nextNode.trans hw.ahead.nextNode.symm,
    htwin.nextReference.trans hw.ahead.nextReference.symm, hsame⟩

/-- A call is left out, but for a copy that it makes. -/
theorem IsCopyOf.use (h : IsCopyOf ρ σ) (htwin : Twin σ.world ρ.world)
    (hsound : σ.world.Sound σ.nodes) {τ : Scene} (hstep : Step .using σ τ) :
    ∃ ρ', IsCopyOf ρ' τ ∧ Twin τ.world ρ'.world := by
  cases hstep with
  | @withMetadata _ _ s t update w hm hrun =>
      obtain ⟨v, hrun', htwin'⟩ := buildsAlike_withMetadata s update _ _ _ _ htwin hrun
      exact ⟨⟨v, t :: ρ.nodes⟩,
        ⟨h.built.tail (.withMetadata .building (h.nodes ▸ hm) hrun'), congrArg (t :: ·) h.nodes,
          htwin'.settings⟩, htwin'⟩
  | isAsync hm hrun =>
      obtain ⟨w', hw', hrun'⟩ := Schema.isAsync_gives hsound hm _ hsound.later
      rw [hrun] at hrun'
      cases hrun'
      exact ⟨ρ, h.later htwin hw'⟩
  | parseOperation hm hrun =>
      obtain ⟨w', hw', hrun'⟩ := Schema.parseOperation_gives hsound hm _ hsound.later
      rw [hrun] at hrun'
      cases hrun'
      exact ⟨ρ, h.later htwin hw'⟩
  | serializeOperation hm hrun =>
      obtain ⟨w', hw', hrun'⟩ := Schema.serializeOperation_gives hsound hm _ hsound.later
      rw [hrun] at hrun'
      cases hrun'
      exact ⟨ρ, h.later htwin hw'⟩

/-- **The same graph is built without the queries.** -/
theorem Queried.exists_copy {timely : Scene → Reference → Schema → Prop} (h : Queried timely σ) :
    ∃ ρ, IsCopyOf ρ σ ∧ Twin σ.world ρ.world := by
  induction h with
  | @built σ h => exact ⟨σ, ⟨h, rfl, .refl _⟩, rfl, rfl, .refl _⟩
  | use hbefore hstep ih =>
      obtain ⟨ρ, hρ, htwin⟩ := ih
      exact hρ.use htwin hbefore.reachable.sound hstep
  | @fresh σ kind s w _ hbelow hformed hrun ih =>
      obtain ⟨ρ, ⟨hρ, hnodes, -⟩, htwin⟩ := ih
      obtain ⟨v, hrun', htwin'⟩ := buildsAlike_fresh kind _ _ _ _ htwin hrun
      exact ⟨⟨v, s :: ρ.nodes⟩, ⟨hρ.tail (.fresh (hnodes ▸ hbelow) hformed hrun'),
        congrArg (s :: ·) hnodes, htwin'.settings⟩, htwin'⟩
  | @withPolicy σ s t fields own policy w _ hm hkind hrun ih =>
      obtain ⟨ρ, ⟨hρ, hnodes, -⟩, htwin⟩ := ih
      obtain ⟨v, hrun', htwin'⟩ := buildsAlike_withPolicy hkind policy _ _ _ _ htwin hrun
      exact ⟨⟨v, t :: ρ.nodes⟩, ⟨hρ.tail (.withPolicy (hnodes ▸ hm) hkind hrun'),
        congrArg (t :: ·) hnodes, htwin'.settings⟩, htwin'⟩
  | @reference σ r w _ hrun ih =>
      obtain ⟨ρ, ⟨hρ, hnodes, -⟩, htwin⟩ := ih
      obtain ⟨v, hrun', htwin'⟩ := buildsAlike_newReference _ _ _ _ htwin hrun
      exact ⟨⟨v, ρ.nodes⟩, ⟨hρ.tail (.reference hrun'), hnodes, htwin'.settings⟩, htwin'⟩
  | @bind σ r s w _ hr hunset hm hrun _ ih =>
      obtain ⟨ρ, ⟨hρ, hnodes, -⟩, htwin⟩ := ih
      obtain ⟨v, hrun', htwin'⟩ := buildsAlike_bindReference r (.live s) _ _ _ _ htwin hrun
      have hr' : r < ρ.world.nextReference := htwin.nextReference ▸ hr
      have hunset' : ρ.world.bindings r = .unset := htwin.settings.1 ▸ hunset
      exact ⟨⟨v, ρ.nodes⟩, ⟨hρ.tail (.bind hr' hunset' (hnodes ▸ hm) hrun'), hnodes,
        htwin'.settings⟩, htwin'⟩

/-- A graph built afresh corresponds to the one that has been queried. -/
theorem IsCopyOf.corresponds (h : IsCopyOf ρ σ) (hosts : σ.world.Hosts σ.nodes) :
    Corresponds σ ρ fun s t => s = t ∧ s ∈ σ.nodes where
  left _ _ hst := hst.2
  right _ _ hst := by
    rw [h.nodes]
    exact hst.1 ▸ hst.2
  kinds s t hst := by
    obtain ⟨rfl, hs⟩ := hst
    exact .refl fun u hu => ⟨rfl, (hosts.below s hs u hu).1⟩
  targets _ _ _ r _ := by
    rw [← World.target?_congr h.settings.1]
    cases ht : σ.world.target? r with
    | none => exact .none
    | some t => exact .some ⟨rfl, hosts.targets r t ht⟩
  bound _ _ _ r _ := World.isSet_congr h.settings.1 r
  config := h.settings.2
  tests s t hst members members' hs ht := by
    obtain ⟨rfl, -⟩ := hst
    rw [hs] at ht
    cases ht
    rw [refersBack_congr h.settings.1]
    exact List.forall₂_same.2 fun _ _ => rfl

/-- **Timely queries are harmless.**  The same graph can be built without them, and there all nodes
give the same answer and come to the same results. -/
theorem Queried.harmless (h : Queried Timely σ) :
    (∃ ρ, IsCopyOf ρ σ) ∧ ∀ ρ, IsCopyOf ρ σ → ∀ τ τ', σ.Calls τ → ρ.Calls τ' → ∀ s ∈ σ.nodes,
      (∃ b w w', s.isAsync τ.world = .ok (b, w) ∧ s.isAsync τ'.world = .ok (b, w')) ∧
        SameResults τ s τ' s := by
  refine ⟨?_, fun ρ hρ τ τ' hτ hτ' s hs => ?_⟩
  · obtain ⟨ρ, hρ, -⟩ := h.exists_copy
    exact ⟨ρ, hρ⟩
  have hσ := h.current
  have hρc := Current.built hρ.built
  have hcorr := (hρ.corresponds hσ.sound.hosts).calls hσ hρc hτ hτ'
  obtain ⟨hτc, -, hnodes⟩ := hτ.current hσ
  obtain ⟨hτc', -, hnodes'⟩ := hτ'.current hρc
  have hss : OfRelatedKinds τ τ' (fun s t => s = t ∧ s ∈ σ.nodes) s s :=
    ⟨hnodes hs, hnodes' (hρ.nodes ▸ hs), s, s, ⟨rfl, hs⟩, rfl, rfl⟩
  exact ⟨hcorr.sameAnswer hτc hτc' hss, hcorr.sameResults hτc hτc' hss⟩

/-! ### A record that holds records of its kind -/

/-- A placeholder inside the record that it stands for. -/
def recordLater : Schema := .node 0 (.recursive 0) Metadata.empty none

/-- A field for records. -/
def records : Schema := .node 1 (.array recordLater) Metadata.empty none

/-- A field that does not wait. -/
def plainField : Schema := .node 2 .unknown Metadata.empty none

/-- A field that waits. -/
def waitingField : Schema :=
  .node 2 (.custom "waiting" ⟨some (.async ⟨.compute .ok, 0, none⟩), none⟩) Metadata.empty none

/-- The record with such a field, to which the placeholder is bound. -/
def record (field : Schema) : Schema :=
  .node 3 (.object [("items", records), ("a", field)] none) Metadata.empty none

/-- The world of the record, when so much has been kept. -/
def recordScene (kept : World) (field : Schema) : Scene where
  world := World.bound { kept with nextNode := 4 } 0 (record field)
  nodes := [record field, field, records, recordLater]

/-- What is kept when the field for records is asked before the placeholder is bound. -/
def askedEarly : World := worldAfter records.isAsync (made 2 1)

/-- What is kept when it is compiled before. -/
def compiledEarly : World := worldAfter records.parseOperation (made 2 1)

theorem recordScene_queried {kept : World} (kind : Kind)
    {timely : Scene → Reference → Schema → Prop}
    (h : Queried timely ⟨kept, [records, recordLater]⟩) (hnode : kept.nextNode = 2)
    (href : kept.nextReference = 1) (hunset : kept.bindings 0 = .unset)
    (hchildren : kind.children = []) (hformed : kind.Formed)
    (htimely : timely ⟨{ kept with nextNode := 4 },
      [record (.node 2 kind Metadata.empty none), .node 2 kind Metadata.empty none, records,
        recordLater]⟩ 0 (record (.node 2 kind Metadata.empty none))) :
    Queried timely (recordScene kept (.node 2 kind Metadata.empty none)) := by
  obtain ⟨node, reference, config, bindings, parse, serialize, async, log⟩ := kept
  cases hnode
  cases href
  have h₁ := h.fresh (fun t ht => by rw [hchildren] at ht; cases ht) hformed rfl
  have hchildren' : ∀ t ∈ (record (.node 2 kind Metadata.empty none)).kind.children,
      t ∈ [.node 2 kind Metadata.empty none, records, recordLater] := by
    intro t ht
    simp [record, Kind.children] at ht
    simp; tauto
  have hformed' : (record (.node 2 kind Metadata.empty none)).kind.Formed := by
    simp [record, Kind.Formed, Entries.keys]
  exact (h₁.fresh hchildren' hformed' rfl).bind Nat.zero_lt_one hunset (List.mem_cons_self ..) rfl
    htimely

theorem records_built :
    Relation.ReflTransGen (Step .building) initial ⟨made 2 1, [records, recordLater]⟩ := by
  have h₁ : Step .building initial ⟨made 0 1, []⟩ := .reference rfl
  have h₂ : Step .building ⟨made 0 1, []⟩ ⟨made 1 1, [recordLater]⟩ :=
    .made (fun t ht => by cases ht) trivial
  have h₃ : Step .building ⟨made 1 1, [recordLater]⟩ ⟨made 2 1, [records, recordLater]⟩ :=
    .made (fun t ht => by simpa [Kind.children] using ht) trivial
  exact .tail (.tail (.single h₁) h₂) h₃

theorem recordScene_built (kind : Kind) (hchildren : kind.children = []) (hformed : kind.Formed) :
    Relation.ReflTransGen (Step .building) initial
      (recordScene (made 2 1) (.node 2 kind Metadata.empty none)) := by
  have h₁ : Step .building ⟨made 2 1, [records, recordLater]⟩
      ⟨made 3 1, [.node 2 kind Metadata.empty none, records, recordLater]⟩ :=
    .made (fun t ht => by rw [hchildren] at ht; cases ht) hformed
  have h₂ : Step .building ⟨made 3 1, [.node 2 kind Metadata.empty none, records, recordLater]⟩
      ⟨made 4 1, [record (.node 2 kind Metadata.empty none), .node 2 kind Metadata.empty none,
        records, recordLater]⟩ :=
    .made (fun t ht => by simp [Kind.children] at ht; simp; tauto)
      (by simp [Kind.Formed, Entries.keys])
  exact .tail (.tail (records_built.tail h₁) h₂)
    (.bind Nat.zero_lt_one rfl (List.mem_cons_self ..) rfl)

theorem recordScene_resolved {kept : World} {kind : Kind} (hkind : ∀ r, kind ≠ .recursive r) :
    (recordScene kept (.node 2 kind Metadata.empty none)).Resolved := by
  intro s hs r hr
  simp only [recordScene, List.mem_cons, List.not_mem_nil, or_false] at hs
  rcases hs with rfl | rfl | rfl | rfl
  · cases hr
  · exact absurd hr (hkind r)
  · cases hr
  · cases hr
    exact ⟨_, World.target?_bound_same⟩

theorem compiledEarly_queried {timely : Scene → Reference → Schema → Prop} :
    Queried timely ⟨compiledEarly, [records, recordLater]⟩ :=
  .use (.built records_built) (.parseOperation (s := records) (List.mem_cons_self ..) rfl)

/-- The binding of the placeholder comes in time, whatever has been kept: no function waits. -/
theorem plainField_timely {kept : World}
    (hosts : (recordScene kept plainField).world.Hosts (recordScene kept plainField).nodes) :
    Timely ⟨{ kept with nextNode := 4 }, [record plainField, plainField, records, recordLater]⟩ 0
      (record plainField) where
  answers t ht _ := by
    rintro ⟨u, hu, ha⟩
    have hmem := hosts.reaches ht hu
    simp only [recordScene, List.mem_cons, List.not_mem_nil, or_false] at hmem
    rcases hmem with rfl | rfl | rfl | rfl <;> cases ha
  members t ht _ members hkind := by
    simp only [List.mem_cons, List.not_mem_nil, or_false] at ht
    rcases ht with rfl | rfl | rfl | rfl <;> cases hkind
  itself hkind := by cases hkind

/-- The field for records has been compiled early, and no function makes it wait. -/
theorem harmless_records :
    Queried Timely (recordScene compiledEarly plainField) ∧
      IsCopyOf (recordScene (made 2 1) plainField) (recordScene compiledEarly plainField) ∧
      SameResults (recordScene compiledEarly plainField) (record plainField)
        (recordScene (made 2 1) plainField) (record plainField) := by
  have hmade : Queried (fun _ _ _ => True) (recordScene compiledEarly plainField) :=
    recordScene_queried .unknown compiledEarly_queried rfl rfl rfl rfl trivial trivial
  have hqueried : Queried Timely (recordScene compiledEarly plainField) :=
    recordScene_queried .unknown compiledEarly_queried rfl rfl rfl rfl trivial
      (plainField_timely hmade.reachable.sound.hosts)
  have hcopy : IsCopyOf (recordScene (made 2 1) plainField) (recordScene compiledEarly plainField) :=
    ⟨recordScene_built .unknown rfl trivial, rfl, rfl, rfl⟩
  exact ⟨hqueried, hcopy, ((Queried.harmless hqueried).2 _ hcopy _ _ .refl .refl _
    (List.mem_cons_self ..)).2⟩

/-- A record with one record inside. -/
def nestedRecord : Value :=
  .object [("items", .array [.object [("items", .array []), ("a", .null)]]), ("a", .null)]

/-- **An answer that comes too early is wrong for good.**  The field for records has been asked while
its placeholder stood for nothing; the record that waits refuses the records in it from then on. -/
theorem early_answer_stale :
    Queried (fun _ _ _ => True) (recordScene askedEarly waitingField) ∧
      (recordScene askedEarly waitingField).Resolved ∧
      IsCopyOf (recordScene (made 2 1) waitingField) (recordScene askedEarly waitingField) ∧
      (∃ w, records.isAsync (recordScene askedEarly waitingField).world = .ok (false, w)) ∧
      (∃ w, records.isAsync (recordScene (made 2 1) waitingField).world = .ok (true, w)) ∧
      (recordScene askedEarly waitingField).world.ReachesAsync records ∧
      (recordScene askedEarly waitingField).Comes
        (fun fuel => (record waitingField).parseAsync fuel nestedRecord)
        (.error (((Error.atRoot .unexpectedAsync .parsing).prepend (.index 0)).prepend
          (.key "items"))) ∧
      (recordScene (made 2 1) waitingField).Comes
        (fun fuel => (record waitingField).parseAsync fuel nestedRecord) (.ok nestedRecord) ∧
      ¬ SameResults (recordScene askedEarly waitingField) (record waitingField)
        (recordScene (made 2 1) waitingField) (record waitingField) := by
  have hbefore : Queried (fun _ _ _ => True) ⟨askedEarly, [records, recordLater]⟩ :=
    .use (.built records_built) (.isAsync (s := records) (b := false) (List.mem_cons_self ..) rfl)
  have hqueried := recordScene_queried waitingField.kind hbefore rfl rfl rfl rfl trivial trivial
  have hbuilt := recordScene_built waitingField.kind rfl trivial
  have herror : (recordScene askedEarly waitingField).Comes
      (fun fuel => (record waitingField).parseAsync fuel nestedRecord)
      (.error (((Error.atRoot .unexpectedAsync .parsing).prepend (.index 0)).prepend
        (.key "items"))) := ⟨9, _, rfl⟩
  have hok : (recordScene (made 2 1) waitingField).Comes
      (fun fuel => (record waitingField).parseAsync fuel nestedRecord) (.ok nestedRecord) :=
    ⟨9, _, rfl⟩
  have hresolved : (recordScene askedEarly waitingField).Resolved :=
    recordScene_resolved fun r h => by cases h
  refine ⟨hqueried, hresolved, ⟨hbuilt, rfl, rfl, rfl⟩, ⟨_, rfl⟩, ⟨_, rfl⟩, ?_, herror, hok,
    fun hsame => ?_⟩
  · exact ⟨waitingField, .head (World.leads_of_child (List.mem_singleton_self recordLater)) <|
      .head (World.leads_of_target rfl World.target?_bound_same) <|
        .single (World.leads_of_child (by simp [Schema.children, record, Kind.children])), rfl⟩
  · have hsound := Reachable.sound (Leads.of_step hbuilt)
    cases parseAsync_unique hsound (List.mem_cons_self ..)
      ((hsame.parseAsync nestedRecord _).1 herror) hok

end Scene

end Schemata
