/-
**What keeps a schema alive.**

A node holds the nodes below it, the node that it is a copy of, and the schemas that its functions
run.  It does not hold what a placeholder stands for.  Marking goes through the graph depth first and
stops at nodes that have been marked; it marks exactly what is held through the schemas it starts
from.  So a reference keeps its schema exactly when the schema is held.

Main definitions:

* `Schemata.World.bound` — the world in which one more reference is bound;
* `Schemata.Schema.holdings`, `Schemata.World.Holds` — what a node holds, at once and in the end;
* `Schemata.World.Marks` — what one part of the marking has achieved;
* `Schemata.Scene.OriginsKnown` — nodes are copies of nodes.

Main results:

* `Schemata.World.mem_held` — **marked is what is held**;
* `Schemata.World.release_target?` — **a reference keeps its schema exactly when it is held**.
-/

import Schemata.Proofs.History
import Schemata.Proofs.Walk

set_option relaxedAutoImplicit false
set_option autoImplicit false

namespace Schemata

/-! ### Binding one more reference -/

/-- The world in which a reference is bound as well. -/
def World.bound (w : World) (r : Reference) (s : Schema) : World :=
  { w with bindings := updateAt w.bindings r (.live s) }

namespace World

variable {w : World} {r r' : Reference} {s t : Schema}

@[simp] theorem target?_bound_same : (w.bound r s).target? r = some s := by
  simp [target?, bound]

@[simp] theorem isSet_bound_same : (w.bound r s).isSet r = true := by
  simp [isSet, bound]

theorem bindings_bound_other (h : r' ≠ r) : (w.bound r s).bindings r' = w.bindings r' :=
  updateAt_other h

theorem target?_bound_other (h : r' ≠ r) : (w.bound r s).target? r' = w.target? r' := by
  rw [target?, target?, bindings_bound_other h]

theorem isSet_bound_other (h : r' ≠ r) : (w.bound r s).isSet r' = w.isSet r' := by
  rw [isSet, isSet, bindings_bound_other h]

/-- What a reference stands for it still stands for. -/
theorem target?_bound (hunset : w.bindings r = .unset) (h : w.target? r' = some t) :
    (w.bound r s).target? r' = some t := by
  have hne : r' ≠ r := by
    rintro rfl
    simp [target?, hunset] at h
  rwa [target?_bound_other hne]

end World

/-! ### Holding -/

/-- What a node holds: the nodes below it, the schemas that its functions run, and the node that it
is a copy of. -/
def Schema.holdings (w : World) (s : Schema) : List Schema :=
  s.children ++ s.kind.captured.filterMap w.target? ++ s.origin.toList

namespace World

/-- A node holds another one at once. -/
def Owns (w : World) (s t : Schema) : Prop := t ∈ s.holdings w

/-- **A node holds another one**, itself among others. -/
def Holds (w : World) : Schema → Schema → Prop := Relation.ReflTransGen w.Owns

variable {w w' : World} {nodes ts : List Schema} {marked marked' : List NodeId} {s t u : Schema}
  {r : Reference} {roots : List Schema}

theorem owns_iff : w.Owns s t ↔ t ∈ s.children ∨
    (∃ r ∈ s.kind.captured, w.target? r = some t) ∨ s.origin = some t := by
  rw [Owns, Schema.holdings, List.mem_append, List.mem_append, List.mem_filterMap, or_assoc,
    Option.mem_toList]

theorem owns_of_child (h : t ∈ s.children) : w.Owns s t := owns_iff.2 (.inl h)

theorem owns_of_captured (hr : r ∈ s.kind.captured) (ht : w.target? r = some t) : w.Owns s t :=
  owns_iff.2 (.inr (.inl ⟨r, hr, ht⟩))

/-- **A copy holds the node that it is a copy of.** -/
theorem owns_of_origin (h : s.origin = some t) : w.Owns s t := owns_iff.2 (.inr (.inr h))

/-- What a node holds, it is or one of its holdings holds it. -/
theorem Holds.cases (h : w.Holds s t) : s = t ∨ ∃ u, w.Owns s u ∧ w.Holds u t :=
  Relation.ReflTransGen.cases_head h

/-- What is held depends on the schemas that functions run only. -/
theorem Holds.mono (h : w.Holds s t)
    (htargets : ∀ r u, w.target? r = some u → w'.target? r = some u) : w'.Holds s t := by
  refine h.lift id fun x y hxy => ?_
  rcases owns_iff.1 hxy with hchild | ⟨r, hr, hy⟩ | horigin
  · exact owns_of_child hchild
  · exact owns_of_captured hr (htargets r y hy)
  · exact owns_of_origin horigin

theorem holds_congr (h : w.bindings = w'.bindings) : w.Holds = w'.Holds := by
  funext s t
  refine propext ⟨fun hst => hst.mono fun r u hu => ?_, fun hst => hst.mono fun r u hu => ?_⟩
  · rwa [target?, ← h]
  · rwa [target?, h]

/-! ### What marking achieves -/

/-- **What marking through some schemas has achieved**: they are marked, nothing is marked but what
they hold, and what a newly marked node holds is marked. -/
structure Marks (w : World) (nodes ts : List Schema) (marked marked' : List NodeId) : Prop where
  grows : marked ⊆ marked'
  reached : ∀ t ∈ ts, t.id ∈ marked'
  held : ∀ i ∈ marked', i ∈ marked ∨ ∃ t ∈ ts, ∃ u, w.Holds t u ∧ u.id = i
  closed : ∀ x ∈ nodes, x.id ∈ marked' → x.id ∈ marked ∨ ∀ u, w.Owns x u → u.id ∈ marked'

/-- Nothing to mark. -/
theorem Marks.nil : w.Marks nodes [] marked marked where
  grows := List.Subset.refl _
  reached t ht := by cases ht
  held _ hi := .inl hi
  closed _ _ hx := .inl hx

/-- A schema that has been marked. -/
theorem Marks.of_mem (h : s.id ∈ marked) : w.Marks nodes [s] marked marked where
  grows := List.Subset.refl _
  reached t ht := by
    rw [List.mem_singleton] at ht
    exact ht ▸ h
  held _ hi := .inl hi
  closed _ _ hx := .inl hx

/-- One part after another. -/
theorem Marks.append {ts' : List Schema} {marked'' : List NodeId}
    (h : w.Marks nodes ts marked marked') (h' : w.Marks nodes ts' marked' marked'') :
    w.Marks nodes (ts ++ ts') marked marked'' where
  grows := List.Subset.trans h.grows h'.grows
  reached t ht := by
    rcases List.mem_append.1 ht with ht | ht
    · exact h'.grows (h.reached t ht)
    · exact h'.reached t ht
  held i hi := by
    rcases h'.held i hi with hi | ⟨t, ht, hu⟩
    · exact (h.held i hi).imp id fun ⟨t, ht, hu⟩ => ⟨t, List.mem_append_left _ ht, hu⟩
    · exact .inr ⟨t, List.mem_append_right _ ht, hu⟩
  closed x hx hm := by
    rcases h'.closed x hx hm with hm | hall
    · exact (h.closed x hx hm).imp id fun hall u hu => h'.grows (hall u hu)
    · exact .inr hall

/-- A node that was not marked, from what it holds. -/
theorem Marks.node (hosts : w.Hosts nodes) (hs : s ∈ nodes)
    (h : w.Marks nodes (s.holdings w) (s.id :: marked) marked') :
    w.Marks nodes [s] marked marked' where
  grows _ hi := h.grows (List.mem_cons_of_mem _ hi)
  reached t ht := by
    rw [List.mem_singleton] at ht
    exact ht ▸ h.grows (List.mem_cons_self ..)
  held i hi := by
    rcases h.held i hi with hi | ⟨t, ht, u, htu, hid⟩
    · rcases List.mem_cons.1 hi with rfl | hi
      · exact .inr ⟨s, List.mem_singleton_self s, s, .refl, rfl⟩
      · exact .inl hi
    · exact .inr ⟨s, List.mem_singleton_self s, u, .head ht htu, hid⟩
  closed x hx hm := by
    rcases h.closed x hx hm with hm | hall
    · rcases List.mem_cons.1 hm with hid | hm
      · -- the node itself: all that it holds has been marked
        have hxs := hosts.identity x hx s hs hid
        subst hxs
        exact .inr h.reached
      · exact .inl hm
    · exact .inr hall

end World

/-! ### Marking through one schema -/

/-- Copies of nodes are copies of nodes that are known. -/
def Scene.OriginsKnown (nodes : List Schema) : Prop :=
  ∀ s ∈ nodes, ∀ o, s.origin = some o → o ∈ nodes

section

variable {w : World} {nodes : List Schema} {follow : Reference → Marking} {base : List NodeId}

/-- What is assumed of marking through a reference that a function uses: it may rely on what has been
marked so far. -/
def Traces (w : World) (nodes : List Schema) (follow : Reference → Marking)
    (base : List NodeId) : Prop :=
  ∀ r marked, base ⊆ marked → w.Marks nodes (w.target? r).toList marked (follow r marked)

theorem markCaptured_marks (hf : Traces w nodes follow base) :
    ∀ (rs : List Reference) (marked : List NodeId), base ⊆ marked →
      w.Marks nodes (rs.filterMap w.target?) marked (markCaptured follow rs marked)
  | [], _, _ => .nil
  | r :: rest, marked, hb => by
      have hr := hf r marked hb
      have hrest := hr.append
        (markCaptured_marks hf rest (follow r marked) (List.Subset.trans hb hr.grows))
      rw [markCaptured]
      cases ht : w.target? r with
      | none => simpa [ht] using hrest
      | some t => simpa [ht] using hrest

/-- Marking one node, from marking its kind and what it is a copy of. -/
theorem mark_node (hosts : w.Hosts nodes) {id : NodeId} {kind : Kind} {metadata : Metadata}
    {origin : Option Schema} (hs : Schema.node id kind metadata origin ∈ nodes)
    {marked : List NodeId}
    (h : id ∉ marked →
      w.Marks nodes (kind.children ++ kind.captured.filterMap w.target? ++ origin.toList)
        (id :: marked) (markOrigin follow origin (kind.mark follow (id :: marked)))) :
    w.Marks nodes [.node id kind metadata origin] marked
      ((Schema.node id kind metadata origin).mark follow marked) := by
  rw [Schema.mark]
  by_cases hm : id ∈ marked
  · simp only [List.contains_eq_mem, hm, decide_true, if_true]
    exact .of_mem hm
  · simp only [List.contains_eq_mem, hm, decide_false, Bool.false_eq_true, if_false]
    exact .node hosts hs (h hm)

mutual

theorem Schema.mark_marks (hosts : w.Hosts nodes) (ho : Scene.OriginsKnown nodes)
    (hf : Traces w nodes follow base) :
    ∀ (s : Schema) (marked : List NodeId), s ∈ nodes → base ⊆ marked →
      w.Marks nodes [s] marked (s.mark follow marked)
  | .node id kind _ origin, marked, hs, hb =>
      mark_node hosts hs fun _ => by
        have hkind := Kind.mark_marks hosts ho hf kind (id :: marked)
          (fun t ht => (hosts.below _ hs t ht).1) fun _ hi => List.mem_cons_of_mem _ (hb hi)
        exact hkind.append (markOrigin_marks hosts ho hf origin _ (fun o => ho _ hs o) fun i hi =>
          hkind.grows (List.mem_cons_of_mem _ (hb hi)))

theorem markOrigin_marks (hosts : w.Hosts nodes) (ho : Scene.OriginsKnown nodes)
    (hf : Traces w nodes follow base) :
    ∀ (origin : Option Schema) (marked : List NodeId), (∀ o, origin = some o → o ∈ nodes) →
      base ⊆ marked → w.Marks nodes origin.toList marked (markOrigin follow origin marked)
  | none, _, _, _ => .nil
  | some s, marked, hs, hb => Schema.mark_marks hosts ho hf s marked (hs s rfl) hb

/-- Marking through a kind: what is below it, then what its functions run. -/
theorem Kind.mark_marks (hosts : w.Hosts nodes) (ho : Scene.OriginsKnown nodes)
    (hf : Traces w nodes follow base) :
    ∀ (kind : Kind) (marked : List NodeId), (∀ t ∈ kind.children, t ∈ nodes) → base ⊆ marked →
      w.Marks nodes (kind.children ++ kind.captured.filterMap w.target?) marked
        (kind.mark follow marked)
  | .array s, marked, hc, hb | .dict s, marked, hc, hb | .option s, marked, hc, hb
  | .null s, marked, hc, hb | .nullable s, marked, hc, hb | .jsonString s, marked, hc, hb =>
      Schema.mark_marks hosts ho hf s marked (hc s (List.mem_singleton_self s)) hb
  | .object fields _, marked, hc, hb => by
      simpa [Kind.mark, Kind.captured, Kind.children]
        using markFields_marks hosts ho hf fields marked hc hb
  | .tuple items, marked, hc, hb => by
      simpa [Kind.mark, Kind.captured, Kind.children]
        using markAll_marks hosts ho hf items marked hc hb
  | .union members, marked, hc, hb => by
      simpa [Kind.mark, Kind.captured, Kind.children]
        using markAll_marks hosts ho hf members marked hc hb
  | .custom name handlers, marked, _, hb =>
      markCaptured_marks hf handlers.references marked hb
  | .transformed s effect, marked, hc, hb => by
      have hs := Schema.mark_marks hosts ho hf s marked (hc s (List.mem_singleton_self s)) hb
      exact hs.append
        (markCaptured_marks hf effect.references _ (List.Subset.trans hb hs.grows))
  | .never, _, _, _ | .unknown, _, _, _ | .unit, _, _, _ | .string, _, _, _ | .bool, _, _, _
  | .int, _, _, _ | .float, _, _, _ | .json, _, _, _ | .literal _, _, _, _
  | .recursive _, _, _, _ => .nil

theorem markFields_marks (hosts : w.Hosts nodes) (ho : Scene.OriginsKnown nodes)
    (hf : Traces w nodes follow base) :
    ∀ (fields : List (String × Schema)) (marked : List NodeId),
      (∀ t ∈ fields.map Prod.snd, t ∈ nodes) → base ⊆ marked →
      w.Marks nodes (fields.map Prod.snd) marked (markFields follow fields marked)
  | [], _, _, _ => .nil
  | (name, s) :: rest, marked, hc, hb => by
      have hs := Schema.mark_marks hosts ho hf s marked (hc s (List.mem_cons_self ..)) hb
      exact hs.append (markFields_marks hosts ho hf rest _
        (fun t ht => hc t (List.mem_cons_of_mem _ ht)) (List.Subset.trans hb hs.grows))

theorem markAll_marks (hosts : w.Hosts nodes) (ho : Scene.OriginsKnown nodes)
    (hf : Traces w nodes follow base) :
    ∀ (items : List Schema) (marked : List NodeId), (∀ t ∈ items, t ∈ nodes) → base ⊆ marked →
      w.Marks nodes items marked (markAll follow items marked)
  | [], _, _, _ => .nil
  | s :: rest, marked, hc, hb => by
      have hs := Schema.mark_marks hosts ho hf s marked (hc s (List.mem_cons_self ..)) hb
      exact hs.append (markAll_marks hosts ho hf rest _
        (fun t ht => hc t (List.mem_cons_of_mem _ ht)) (List.Subset.trans hb hs.grows))

end

/-- **Fuel for the references whose schema has not been marked is enough.** -/
theorem markBound_traces (hosts : w.Hosts nodes) (ho : Scene.OriginsKnown nodes) :
    ∀ (fuel : Nat) (base : List NodeId), (unvisited w base).card ≤ fuel →
      Traces w nodes (w.markBound fuel) base
  | 0, base, hfuel, r, marked, hb => by
      rw [World.markBound]
      cases ht : w.target? r with
      | none => exact .nil
      | some t =>
          -- without fuel every target has been marked
          have hm : t.id ∈ marked := by
            by_contra hm
            have hr : r ∈ unvisited w base :=
              mem_unvisited.2 ⟨hosts.lt_of_target ht, t, ht, fun h => hm (hb h)⟩
            have hpos := Finset.card_pos.2 ⟨r, hr⟩
            omega
          exact .of_mem hm
  | fuel + 1, base, hfuel, r, marked, hb => by
      rw [World.markBound]
      cases ht : w.target? r with
      | none => exact .nil
      | some t =>
          cases t with
          | node id kind metadata origin =>
              have hs := hosts.targets r _ ht
              refine mark_node hosts hs fun hm => ?_
              -- one target more is marked, so one unit less is enough for the others
              have htraces : Traces w nodes (w.markBound fuel) (id :: marked) :=
                markBound_traces hosts ho fuel _ ?_
              · have hkind := Kind.mark_marks hosts ho htraces kind _
                  (fun t ht => (hosts.below _ hs t ht).1) (List.Subset.refl _)
                exact hkind.append
                  (markOrigin_marks hosts ho htraces origin _ (fun o => ho _ hs o) hkind.grows)
              have hlt := card_unvisited_lt hosts ht hm
              have hle := Finset.card_le_card (unvisited_mono (w := w) hb)
              simp only [Schema.id] at hlt
              omega

end

namespace World

variable {w : World} {nodes roots : List Schema} {s t : Schema} {r : Reference}

/-- What is marked from some nodes. -/
theorem held_marks (hosts : w.Hosts nodes) (ho : Scene.OriginsKnown nodes)
    (hroots : ∀ s ∈ roots, s ∈ nodes) : w.Marks nodes roots [] (w.held roots) := by
  refine markAll_marks hosts ho (markBound_traces hosts ho _ [] ?_) roots [] hroots
    (List.Subset.refl _)
  exact (Finset.card_filter_le _ _).trans (Finset.card_range _).le

/-- What a node holds is a node. -/
theorem Hosts.owns (hosts : w.Hosts nodes) (ho : Scene.OriginsKnown nodes) (hs : s ∈ nodes)
    (h : w.Owns s t) : t ∈ nodes := by
  rcases owns_iff.1 h with hchild | ⟨r, -, ht⟩ | horigin
  · exact (hosts.below s hs t hchild).1
  · exact hosts.targets r t ht
  · exact ho s hs t horigin

theorem Hosts.holds (hosts : w.Hosts nodes) (ho : Scene.OriginsKnown nodes) (hs : s ∈ nodes)
    (h : w.Holds s t) : t ∈ nodes := by
  induction h with
  | refl => exact hs
  | tail _ hxy ih => exact hosts.owns ho ih hxy

/-- **Marked is what is held.** -/
theorem mem_held (hosts : w.Hosts nodes) (ho : Scene.OriginsKnown nodes)
    (hroots : ∀ s ∈ roots, s ∈ nodes) (ht : t ∈ nodes) :
    t.id ∈ w.held roots ↔ ∃ s ∈ roots, w.Holds s t := by
  have h := held_marks hosts ho hroots
  constructor
  · intro hm
    rcases h.held t.id hm with hi | ⟨s, hs, u, hsu, hid⟩
    · cases hi
    · have hu := hosts.holds ho (hroots s hs) hsu
      exact ⟨s, hs, hosts.identity u hu t ht hid ▸ hsu⟩
  · rintro ⟨s, hs, hst⟩
    induction hst with
    | refl => exact h.reached s hs
    | @tail x y hsx hxy ih =>
        have hx := hosts.holds ho (hroots s hs) hsx
        -- nothing was marked at first, so whatever is marked has all that it holds marked
        exact ((h.closed x hx (ih hx)).resolve_left List.not_mem_nil) y hxy

/-- Letting go of schemas changes the bindings to those that are not held, and no others. -/
theorem bindings_release (w : World) (roots : List Schema) (r : Reference) :
    (w.release roots).bindings r =
      if r < w.nextReference ∧ w.isStale (w.held roots) r = true then .gone else w.bindings r := by
  have fold : ∀ (stale : List Reference) (f : Reference → Binding),
      (stale.foldl (fun f r => updateAt f r .gone) f) r = if r ∈ stale then .gone else f r := by
    intro stale
    induction stale with
    | nil => exact fun f => rfl
    | cons x rest ih =>
        intro f
        rw [List.foldl_cons, ih]
        by_cases hx : r = x
        · simp [hx]
        · simp [hx, updateAt_other hx]
  simp only [release, fold, List.mem_filter, List.mem_range]

/-- Letting go of schemas does not change which references have ever been bound. -/
theorem release_isSet : (w.release roots).isSet r = w.isSet r := by
  have hb := bindings_release w roots r
  by_cases h : r < w.nextReference ∧ w.isStale (w.held roots) r = true
  · -- only what is bound can be let go of
    rw [if_pos h] at hb
    have hstale := h.2
    rw [isStale, target?] at hstale
    rw [isSet, isSet, hb]
    cases hlive : w.bindings r with
    | unset => rw [hlive] at hstale; cases hstale
    | live | gone => rfl
  · rw [if_neg h] at hb
    rw [isSet, isSet, hb]

/-- **A reference keeps its schema exactly when the schema is held.** -/
theorem release_target? (hosts : w.Hosts nodes) (ho : Scene.OriginsKnown nodes)
    (hroots : ∀ s ∈ roots, s ∈ nodes) :
    (w.release roots).target? r = some t ↔ w.target? r = some t ∧ ∃ s ∈ roots, w.Holds s t := by
  constructor
  · intro h
    have ht := release_target h
    refine ⟨ht, (mem_held hosts ho hroots (hosts.targets r t ht)).1 ?_⟩
    by_contra hm
    have hstale : w.isStale (w.held roots) r = true := by simp [isStale, ht, hm]
    rw [target?, bindings_release, if_pos ⟨hosts.lt_of_target ht, hstale⟩] at h
    cases h
  · rintro ⟨ht, hheld⟩
    have hm := (mem_held hosts ho hroots (hosts.targets r t ht)).2 hheld
    have hstale : w.isStale (w.held roots) r = false := by simp [isStale, ht, hm]
    rw [target?, bindings_release, if_neg (by simp [hstale])]
    exact ht

/-- What is held by what is kept is still held. -/
theorem holds_release (hosts : w.Hosts nodes) (ho : Scene.OriginsKnown nodes)
    (hroots : ∀ s ∈ roots, s ∈ nodes) (hs : s ∈ roots) (h : w.Holds s t) :
    (w.release roots).Holds s t := by
  induction h with
  | refl => exact .refl
  | @tail x y hsx hxy ih =>
      refine ih.tail ?_
      rcases owns_iff.1 hxy with hchild | ⟨r, hr, hy⟩ | horigin
      · exact owns_of_child hchild
      · exact owns_of_captured hr
          ((release_target? hosts ho hroots).2 ⟨hy, s, hs, Relation.ReflTransGen.tail hsx hxy⟩)
      · exact owns_of_origin horigin

/-- **Where all that is bound is held there is nothing to let go of.** -/
theorem release_eq_self (hosts : w.Hosts nodes) (ho : Scene.OriginsKnown nodes)
    (hroots : ∀ s ∈ roots, s ∈ nodes)
    (hall : ∀ r t, w.target? r = some t → ∃ s ∈ roots, w.Holds s t) :
    w.release roots = w := by
  suffices hb : (w.release roots).bindings = w.bindings by
    change { w with bindings := (w.release roots).bindings } = w
    rw [hb]
  funext r
  rw [bindings_release, if_neg]
  rintro ⟨-, hstale⟩
  rw [isStale] at hstale
  cases ht : w.target? r with
  | none => rw [ht] at hstale; cases hstale
  | some t =>
      have hm := (mem_held hosts ho hroots (hosts.targets r t ht)).2 (hall r t ht)
      simp [ht, hm] at hstale

end World

namespace Scene

variable {phase : Phase} {σ τ : Scene}

/-- A step makes copies of nodes only. -/
theorem Step.originsKnown (h : Step phase σ τ) (ho : OriginsKnown σ.nodes) :
    OriginsKnown τ.nodes := by
  have one {id : NodeId} {kind : Kind} {metadata : Metadata} {origin : Option Schema}
      (horigin : ∀ o, origin = some o → o ∈ σ.nodes) :
      OriginsKnown (.node id kind metadata origin :: σ.nodes) := by
    intro s hs o hso
    rcases List.mem_cons.1 hs with rfl | hs
    · exact List.mem_cons_of_mem _ (horigin o hso)
    · exact List.mem_cons_of_mem _ (ho s hs o hso)
  cases h with
  | fresh _ _ hrun =>
      cases hrun
      exact one fun o ho => by cases ho
  | withPolicy hm hkind hrun =>
      simp only [Schema.withPolicy, hkind] at hrun
      cases hrun
      exact one fun o ho => by cases ho; exact hm
  | withMetadata _ hm hrun =>
      cases hrun
      exact one fun o ho => by cases ho; exact hm
  | _ => exact ho

/-- **All nodes are copies of nodes.** -/
theorem Reachable.originsKnown (h : σ.Reachable) : OriginsKnown σ.nodes := by
  induction h with
  | refl => exact fun s hs => by cases hs
  | tail _ hstep ih =>
      obtain ⟨phase, hstep⟩ := hstep
      exact hstep.originsKnown ih

end Scene

end Schemata
