/-
**Kept answers that stay right.**

Whether a node waits may be asked before all references are bound, and the answer is kept for good.
An answer of no can then turn out to be wrong.  Two things can be said all the same, in whatever
order building, asking and parsing come.  A node around which an asynchronous effect is wrapped is
never taken not to wait.  And a node that is taken to wait does wait, as long as no reference behind
it has lost its schema.

Main definitions:

* `Schemata.Schema.HasAsyncEffect` — an asynchronous effect is wrapped around a schema, with any
  effects outside it;
* `Schemata.World.Intact` — no reference behind a node has lost its schema.

Main results:

* `Schemata.Scene.Change.known` — what holds of all answers holds of all that is known next;
* `Schemata.Scene.Arises.answer_of_hasAsyncEffect`, `Schemata.Scene.Arises.reachesAsync_of_answer` —
  the answers that are right in every scene.
-/

import Schemata.Proofs.Reconfiguration

set_option relaxedAutoImplicit false
set_option autoImplicit false

namespace Schemata

/-- **An asynchronous effect is wrapped around a schema**, with any effects outside it. -/
inductive Schema.HasAsyncEffect : Schema → Prop
  | outer {s t : Schema} {e : Effect} : s.kind = .transformed t e → e.isAsync = true →
      HasAsyncEffect s
  | inner {s t : Schema} {e : Effect} : s.kind = .transformed t e → HasAsyncEffect t →
      HasAsyncEffect s

/-- **No reference behind a node has lost its schema.** -/
def World.Intact (w : World) (s : Schema) : Prop :=
  ∀ t, w.Reaches s t → ∀ r, t.kind = .recursive r → w.bindings r ≠ .gone

section

variable {w w' : World} {nodes : List Schema} {s t : Schema}

/-- The schema below an effect is a node. -/
theorem World.Hosts.wrapped (hosts : w.Hosts nodes) {e : Effect} (hs : s ∈ nodes)
    (hkind : s.kind = .transformed t e) : t ∈ nodes := by
  refine (hosts.below s hs t ?_).1
  rw [Schema.children, hkind]
  exact List.mem_singleton_self t

theorem World.leads_of_wrapped {e : Effect} (hkind : s.kind = .transformed t e) : w.Leads s t :=
  leads_of_child (by
    rw [Schema.children, hkind]
    exact List.mem_singleton_self t)

theorem Schema.HasAsyncEffect.of_kind (hkind : s.kind = t.kind) (h : s.HasAsyncEffect) :
    t.HasAsyncEffect := by
  cases h with
  | outer hk he => exact .outer (hkind ▸ hk) he
  | inner hk hb => exact .inner (hkind ▸ hk) hb

theorem World.Intact.of_kind (hkind : s.kind = t.kind) (h : w.Intact s) : w.Intact t := by
  intro u hu r hr
  rcases hu.cases_head with rfl | ⟨x, hx, hxu⟩
  · exact h s .refl r (hkind.trans hr)
  · rw [Leads, ← hkind] at hx
    exact h u (.head hx hxu) r hr

theorem World.Intact.leads (h : w.Intact s) (hst : w.Leads s t) : w.Intact t :=
  fun u hu => h u (.head hst hu)

/-- An effect around a schema has the references behind it that the schema has. -/
theorem World.Intact.wrapped {e : Effect} (hkind : s.kind = .transformed t e) (h : w.Intact t) :
    w.Intact s := by
  intro u hu r hr
  rcases hu.cases_head with rfl | ⟨x, hx, hxu⟩
  · rw [hkind] at hr
    cases hr
  · rw [Leads, hkind] at hx
    exact h u (List.mem_singleton.1 hx ▸ hxu) r hr

/-- A reference that has not lost its schema has stood for it from the time when it was bound. -/
theorem World.Before.target (h : w.Before w') {r : Reference} (ht : w.target? r = some t)
    (hr : w'.bindings r ≠ .gone) : w'.target? r = some t := by
  have hset : w.bindings r ≠ .unset := fun hu => by
    rw [target?, hu] at ht
    cases ht
  cases hb : w'.bindings r with
  | unset => exact absurd (h.unset r hb) hset
  | gone => exact absurd hb hr
  | live u =>
      have hu : w'.target? r = some u := by rw [target?, hb]
      rw [hu, ← ht]
      exact ((h.live r u hu).resolve_left hset).symm

/-- A schema that is lost stays lost. -/
theorem World.Before.gone (h : w.Before w') {r : Reference} (hr : w.bindings r = .gone) :
    w'.bindings r = .gone := by
  cases hb : w'.bindings r with
  | gone => rfl
  | unset => rw [h.unset r hb] at hr; cases hr
  | live u =>
      rcases h.live r u (by rw [target?, hb]) with hu | hu
      · rw [hu] at hr; cases hr
      · rw [target?, hr] at hu; cases hu

/-- What could be reached can still be reached while references keep their schemas. -/
theorem World.Intact.reaches (h : w.Before w') (hs : w'.Intact s) (hst : w.Reaches s t) :
    w'.Reaches s t := by
  induction hst with
  | refl => exact .refl
  | tail _ hxt ih =>
      refine ih.tail ?_
      rcases leads_cases hxt with hchild | ⟨r, hkind, ht⟩
      · exact leads_of_child hchild
      · exact leads_of_target hkind (h.target ht (hs _ ih r hkind))

theorem World.Intact.before (h : w.Before w') (hs : w'.Intact s) : w.Intact s :=
  fun t ht r hr hgone => hs t (World.Intact.reaches h hs ht) r hr (h.gone hgone)

/-- If what is known of asynchronous effects is right, all answers about them are. -/
theorem World.Hosts.answer_of_hasAsyncEffect (hosts : w.Hosts nodes)
    (hknown : ∀ s ∈ nodes, ∀ b, w.knownAsync? s.id = some b → s.HasAsyncEffect → b = true)
    (hs : s ∈ nodes) (heffect : s.HasAsyncEffect) : w.answer s = true := by
  rw [answer_iff hosts hs]
  induction heffect with
  | @outer s t e hkind he =>
      cases hk : w.knownAsync? s.id with
      | none => exact .own hk (by rw [hkind]; exact he)
      | some b => exact (hits_known hk).2 (hknown s hs b hk (.outer hkind he))
  | @inner s t e hkind ht ih =>
      cases hk : w.knownAsync? s.id with
      | none => exact .step hk (leads_of_wrapped hkind) (ih (hosts.wrapped hs hkind))
      | some b => exact (hits_known hk).2 (hknown s hs b hk (.inner hkind ht))

/-- If intact nodes that are known to wait do wait, all intact nodes that are taken to wait do. -/
theorem World.Hosts.reachesAsync_of_answer (hosts : w.Hosts nodes)
    (hknown : ∀ s ∈ nodes, ∀ b, w.knownAsync? s.id = some b →
      b = true → w.Intact s → w.ReachesAsync s)
    (hs : s ∈ nodes) (hanswer : w.answer s = true) (hintact : w.Intact s) : w.ReachesAsync s := by
  have hit := (answer_iff hosts hs).1 hanswer
  clear hanswer
  induction hit with
  | known hk => exact hknown _ hs true hk rfl hintact
  | own _ ha => exact reachesAsync_of_own ha
  | step _ hst _ ih => exact reachesAsync_of_leads hst (ih (hosts.leads hs hst) (hintact.leads hst))

end

namespace Scene

variable {phase : Phase} {σ τ : Scene} {s : Schema}

/-- The scene before a change is an earlier one. -/
theorem Change.before (h : Change phase σ τ) : σ.world.Before τ.world := by
  cases h with
  | later hl =>
      exact ⟨fun r hr => by rwa [← hl.ahead.bindings], fun r t ht => .inr (by
        rwa [← hl.ahead.target])⟩
  | node => exact ⟨fun _ h => h, fun _ _ h => .inr h⟩
  | settings _ _ _ _ _ hbefore => exact hbefore _ (.refl _)

/-- **What holds of all answers holds of all that is known next.** -/
theorem Change.known (h : Change phase σ τ) (hs : σ.world.Sound σ.nodes)
    {P : Schema → Bool → Prop} (hkind : ∀ {s t : Schema} {b : Bool}, s.kind = t.kind → P s b → P t b)
    (hanswer : ∀ s ∈ σ.nodes, P s (σ.world.answer s)) :
    ∀ s ∈ τ.nodes, ∀ b, τ.world.knownAsync? s.id = some b → P s b := by
  have of_async : ∀ s ∈ σ.nodes, ∀ b, σ.world.asyncCells s.id = .filled b → P s b :=
    fun s hm b hb =>
      World.answer_known hs.hosts hm (World.knownAsync_of_async hb) ▸ hanswer s hm
  have of_parse : ∀ s ∈ σ.nodes, ∀ c, σ.world.parseCells s.id = .filled c →
      P s c.operation.isAsync := fun s hm c hc => by
    have hplan := hs.planned_isAsync hm
    rw [World.planned, World.parsePlan_of_filled hc] at hplan
    exact hplan ▸ hanswer s hm
  intro s hm b hb
  cases h with
  | later hl =>
      rcases World.knownAsync_cases hb with ha | ⟨c, hc, rfl⟩
      · exact hl.ahead.async.planned s hm b ha ▸ hanswer s hm
      · rw [hl.ahead.parse.planned s hm c hc, hs.planned_isAsync hm]
        exact hanswer s hm
  | @node _ _ kind _ _ _ _ _ _ _ hi =>
      have other : ∀ t ∈ σ.nodes, t.id ≠ σ.world.nextNode := fun t ht =>
        Nat.ne_of_lt (hs.hosts.known t ht)
      rcases List.mem_cons.1 hm with rfl | hm
      · rcases World.knownAsync_cases hb with ha | ⟨c, hc, rfl⟩
        · obtain ⟨t, ht, hk, ha⟩ := hi.async b ((updateAt_same ..).symm.trans ha)
          exact hkind hk (of_async t ht b ha)
        · obtain ⟨t, ht, hk, hc⟩ := hi.parse c ((updateAt_same ..).symm.trans hc)
          exact hkind hk (of_parse t ht c hc)
      · rcases World.knownAsync_cases hb with ha | ⟨c, hc, rfl⟩
        · exact of_async s hm b ((updateAt_other (other s hm)).symm.trans ha)
        · exact of_parse s hm c ((updateAt_other (other s hm)).symm.trans hc)
  | settings _ hp _ ha _ _ =>
      rcases World.knownAsync_cases hb with hb | ⟨c, hc, rfl⟩
      · exact of_async s hm b (by rwa [← ha])
      · exact of_parse s hm c (by rwa [← hp])

/-- A step or a call is a change. -/
theorem change_of_next (h : (∃ phase, Step phase σ τ) ∨ Call σ τ) (hs : σ.world.Sound σ.nodes) :
    ∃ phase, Change phase σ τ := by
  rcases h with ⟨phase, hstep⟩ | hcall
  · exact ⟨phase, hstep.change hs⟩
  · exact ⟨_, hcall.change hs⟩

/-- Asynchronous effects are known as what they are. -/
theorem Arises.known_of_hasAsyncEffect (h : σ.Arises) :
    ∀ s ∈ σ.nodes, ∀ b, σ.world.knownAsync? s.id = some b → s.HasAsyncEffect → b = true := by
  induction h with
  | refl => exact fun s hs => by cases hs
  | tail harises hnext ih =>
      have hsound := (Arises.invariants harises).1
      obtain ⟨phase, hchange⟩ := change_of_next hnext hsound
      exact hchange.known hsound (fun hk hP ht => hP (ht.of_kind hk.symm)) fun s hs heffect =>
        hsound.hosts.answer_of_hasAsyncEffect ih hs heffect

/-- A node that is known to wait does wait, if it is intact. -/
theorem Arises.reachesAsync_of_known (h : σ.Arises) :
    ∀ s ∈ σ.nodes, ∀ b, σ.world.knownAsync? s.id = some b →
      b = true → σ.world.Intact s → σ.world.ReachesAsync s := by
  induction h with
  | refl => exact fun s hs => by cases hs
  | tail harises hnext ih =>
      have hsound := (Arises.invariants harises).1
      obtain ⟨phase, hchange⟩ := change_of_next hnext hsound
      refine hchange.known hsound (fun hk hP hb ht => ?_) fun s hs hb hintact => ?_
      · exact World.reachesAsync_of_kind hk (hP hb (ht.of_kind hk.symm))
      · obtain ⟨u, hu, ha⟩ := hsound.hosts.reachesAsync_of_answer ih hs hb
          (hintact.before hchange.before)
        exact ⟨u, World.Intact.reaches hchange.before hintact hu, ha⟩

/-- **A node with an asynchronous effect around it is always taken to wait.** -/
theorem Arises.answer_of_hasAsyncEffect (h : σ.Arises) (hs : s ∈ σ.nodes)
    (heffect : s.HasAsyncEffect) : σ.world.answer s = true :=
  h.invariants.1.hosts.answer_of_hasAsyncEffect h.known_of_hasAsyncEffect hs heffect

/-- **A node that is taken to wait does wait**, if no reference behind it has lost its schema. -/
theorem Arises.reachesAsync_of_answer (h : σ.Arises) (hs : s ∈ σ.nodes)
    (hanswer : σ.world.answer s = true) (hintact : σ.world.Intact s) : σ.world.ReachesAsync s :=
  h.invariants.1.hosts.reachesAsync_of_answer h.reachesAsync_of_known hs hanswer hintact

end Scene

end Schemata
