/-
**The walk for asynchronous functions is exact.**

The walk goes through the graph depth first.  It stops at nodes whose answer is known already and
cuts a way off at a node that it has seen before, so an answer from the middle of a walk says
nothing about the node it was given for.  The answer at the root does: a walk that finds nothing
leaves behind a set of nodes from which no step leads outside, and in which nothing is to be found.

Main definitions:

* `Schemata.World.Hits` — what the walk looks for: a node with an asynchronous function, or known to
  lead to one, on a way through nodes of which nothing is known;
* `Schemata.World.Sweep` — what one part of a walk has achieved;
* `Schemata.unvisited` — the references whose schema has not been seen, which bound the fuel.

Main results:

* `Schemata.World.walk_iff_hits` — **the walk from a node finds something exactly when there is
  something**.
-/

import Mathlib.Data.Finset.Card
import Schemata.Proofs.Graph

set_option relaxedAutoImplicit false
set_option autoImplicit false

namespace Schemata

namespace World

/-! ### What a walk looks for and leaves behind -/

/-- A node with an asynchronous function, or known to lead to one, can be reached through nodes of
which nothing is known. -/
inductive Hits (w : World) : Schema → Prop
  | known {s : Schema} : w.knownAsync? s.id = some true → Hits w s
  | own {s : Schema} : w.knownAsync? s.id = none → s.kind.isAsync = true → Hits w s
  | step {s t : Schema} : w.knownAsync? s.id = none → w.Leads s t → Hits w t → Hits w s

/-- A node is dealt with: known to lead nowhere, or seen. -/
def Cleared (w : World) (seen : List NodeId) (s : Schema) : Prop :=
  w.knownAsync? s.id = some false ∨ s.id ∈ seen

/-- A node has been looked at in full: it is not asynchronous itself, and every node that it leads
to is dealt with. -/
def Explored (w : World) (seen : List NodeId) (s : Schema) : Prop :=
  w.knownAsync? s.id = none ∧ s.kind.isAsync = false ∧ ∀ t, w.Leads s t → w.Cleared seen t

/-- **What a walk through some schemas has achieved**: it has found something behind one of them, or
else all of them are dealt with, and every node that was seen on the way has been looked at in
full. -/
structure Sweep (w : World) (nodes ts : List Schema) (seen : List NodeId)
    (r : Bool × List NodeId) : Prop where
  hit : r.1 = true → ∃ t ∈ ts, w.Hits t
  grows : r.1 = false → seen ⊆ r.2
  cleared : r.1 = false → ∀ t ∈ ts, w.Cleared r.2 t
  explored : r.1 = false → ∀ x ∈ nodes, x.id ∈ r.2 → x.id ∈ seen ∨ w.Explored r.2 x

variable {w : World} {nodes ts : List Schema} {seen seen' : List NodeId} {s t : Schema}

theorem Cleared.mono (h : w.Cleared seen s) (hs : seen ⊆ seen') : w.Cleared seen' s :=
  h.imp id fun hm => hs hm

theorem Explored.mono (h : w.Explored seen s) (hs : seen ⊆ seen') : w.Explored seen' s :=
  ⟨h.1, h.2.1, fun t ht => (h.2.2 t ht).mono hs⟩

/-- Nothing to walk through. -/
theorem Sweep.nil : w.Sweep nodes [] seen (false, seen) where
  hit h := by cases h
  grows _ := List.Subset.refl seen
  cleared _ t ht := by cases ht
  explored _ x _ hx := .inl hx

/-- A schema that is dealt with already. -/
theorem Sweep.of_cleared (h : w.Cleared seen s) : w.Sweep nodes [s] seen (false, seen) where
  hit h := by cases h
  grows _ := List.Subset.refl seen
  cleared _ t ht := by
    rw [List.mem_singleton] at ht
    exact ht ▸ h
  explored _ x _ hx := .inl hx

/-- A schema known to lead to an asynchronous function. -/
theorem Sweep.of_known (h : w.knownAsync? s.id = some true) :
    w.Sweep nodes [s] seen (true, seen) where
  hit _ := ⟨s, List.mem_singleton_self s, .known h⟩
  grows h := by cases h
  cleared h := by cases h
  explored h := by cases h

/-- A walk that has found something behind the first schema goes no further. -/
theorem Sweep.cons_hit {r : Bool × List NodeId} (h : w.Sweep nodes [s] seen r) (hr : r.1 = true) :
    w.Sweep nodes (s :: ts) seen (true, r.2) where
  hit _ := by
    obtain ⟨t, ht, hit⟩ := h.hit hr
    rw [List.mem_singleton] at ht
    exact ⟨s, List.mem_cons_self .., ht ▸ hit⟩
  grows h := by cases h
  cleared h := by cases h
  explored h := by cases h

/-- A walk that has found nothing behind the first schema goes on with the others. -/
theorem Sweep.cons {r r' : Bool × List NodeId} (h : w.Sweep nodes [s] seen r) (hr : r.1 = false)
    (h' : w.Sweep nodes ts r.2 r') : w.Sweep nodes (s :: ts) seen r' where
  hit hr' := by
    obtain ⟨t, ht, hit⟩ := h'.hit hr'
    exact ⟨t, List.mem_cons_of_mem s ht, hit⟩
  grows hr' := List.Subset.trans (h.grows hr) (h'.grows hr')
  cleared hr' t ht := by
    rcases List.mem_cons.1 ht with rfl | ht
    · exact (h.cleared hr t (List.mem_singleton_self t)).mono (h'.grows hr')
    · exact h'.cleared hr' t ht
  explored hr' x hx hm := by
    rcases h'.explored hr' x hx hm with hm | he
    · exact (h.explored hr x hx hm).imp id fun he => he.mono (h'.grows hr')
    · exact .inr he

/-- The walk through a node of which nothing is known, from the walk through what it leads to. -/
theorem Sweep.node (hosts : w.Hosts nodes) (hs : s ∈ nodes) (hn : w.knownAsync? s.id = none)
    {r : Bool × List NodeId} (hown : s.kind.isAsync = true → r.1 = true)
    (h : s.kind.isAsync = false → w.Sweep nodes (s.kind.successors w) (s.id :: seen) r) :
    w.Sweep nodes [s] seen r := by
  cases ha : s.kind.isAsync with
  | true =>
      have hr := hown ha
      exact {
        hit := fun _ => ⟨s, List.mem_singleton_self s, .own hn ha⟩
        grows := fun h => by rw [hr] at h; cases h
        cleared := fun h => by rw [hr] at h; cases h
        explored := fun h => by rw [hr] at h; cases h }
  | false =>
      have h := h ha
      refine ⟨fun hr => ?_, fun hr => ?_, fun hr t ht => ?_, fun hr x hx hm => ?_⟩
      · obtain ⟨t, ht, hit⟩ := h.hit hr
        exact ⟨s, List.mem_singleton_self s, .step hn ht hit⟩
      · exact fun i hi => h.grows hr (List.mem_cons_of_mem _ hi)
      · rw [List.mem_singleton] at ht
        exact .inr (ht ▸ h.grows hr (List.mem_cons_self ..))
      · rcases h.explored hr x hx hm with hm | he
        · rcases List.mem_cons.1 hm with e | hm
          · -- the node itself: what it leads to has been walked through
            have e := hosts.identity x hx s hs e
            subst e
            exact .inr ⟨hn, ha, h.cleared hr⟩
          · exact .inl hm
        · exact .inr he

end World

/-! ### The walk through one schema -/

section

variable {w : World} {nodes : List Schema} {follow : Schema → Walk} {base : List NodeId}

/-- What is assumed of the walk through a reference: it may rely on what has been seen so far. -/
def Follows (w : World) (nodes : List Schema) (follow : Schema → Walk) (base : List NodeId) :
    Prop :=
  ∀ r t, w.target? r = some t → ∀ seen, base ⊆ seen → w.Sweep nodes [t] seen (follow t seen)

/-- The walk through one node, from the walk through its kind. -/
theorem reachesAsync_node (hosts : w.Hosts nodes) {id : NodeId} {kind : Kind} {metadata : Metadata}
    {origin : Option Schema} (hs : Schema.node id kind metadata origin ∈ nodes)
    {seen : List NodeId}
    (h : w.knownAsync? id = none → id ∉ seen →
      (kind.isAsync = true → (kind.reachesAsync w follow (id :: seen)).1 = true) ∧
      (kind.isAsync = false → w.Sweep nodes (kind.successors w) (id :: seen)
        (kind.reachesAsync w follow (id :: seen)))) :
    w.Sweep nodes [.node id kind metadata origin] seen
      ((Schema.node id kind metadata origin).reachesAsync w follow seen) := by
  rw [Schema.reachesAsync]
  cases hk : w.knownAsync? id with
  | some b =>
      cases b with
      | true => exact .of_known hk
      | false => exact .of_cleared (.inl hk)
  | none =>
      by_cases hm : id ∈ seen
      · simp only [List.contains_eq_mem, hm, decide_true, if_true]
        exact .of_cleared (.inr hm)
      · simp only [List.contains_eq_mem, hm, decide_false, Bool.false_eq_true, if_false]
        exact .node hosts hs hk (h hk hm).1 (h hk hm).2

mutual

theorem Schema.reachesAsync_sweep (hosts : w.Hosts nodes) (hf : Follows w nodes follow base) :
    ∀ (s : Schema) (seen : List NodeId), s ∈ nodes → base ⊆ seen →
      w.Sweep nodes [s] seen (s.reachesAsync w follow seen)
  | .node id kind _ _, seen, hs, hb =>
      reachesAsync_node hosts hs fun _ _ =>
        Kind.reachesAsync_sweep hosts hf kind (id :: seen)
          (fun t ht => (hosts.below _ hs t ht).1) (fun _ hi => List.mem_cons_of_mem _ (hb hi))

/-- The walk through a kind: it stops at an asynchronous function of the kind itself, and otherwise
goes through all that the kind leads to. -/
theorem Kind.reachesAsync_sweep (hosts : w.Hosts nodes) (hf : Follows w nodes follow base) :
    ∀ (kind : Kind) (seen : List NodeId), (∀ t ∈ kind.children, t ∈ nodes) → base ⊆ seen →
      (kind.isAsync = true → (kind.reachesAsync w follow seen).1 = true) ∧
      (kind.isAsync = false →
        w.Sweep nodes (kind.successors w) seen (kind.reachesAsync w follow seen))
  | .array s, seen, hc, hb | .dict s, seen, hc, hb | .option s, seen, hc, hb
  | .null s, seen, hc, hb | .nullable s, seen, hc, hb | .jsonString s, seen, hc, hb =>
      ⟨fun h => (by cases h), fun _ =>
        Schema.reachesAsync_sweep hosts hf s seen (hc s (List.mem_singleton_self s)) hb⟩
  | .object fields _, seen, hc, hb =>
      ⟨fun h => (by cases h), fun _ => anyFieldAsync_sweep hosts hf fields seen hc hb⟩
  | .tuple items, seen, hc, hb =>
      ⟨fun h => (by cases h), fun _ => anyAsync_sweep hosts hf items seen hc hb⟩
  | .union members, seen, hc, hb =>
      ⟨fun h => (by cases h), fun _ => anyAsync_sweep hosts hf members seen hc hb⟩
  | .custom name handlers, seen, _, _ =>
      ⟨id, fun h => by
        have e : Kind.reachesAsync w follow (.custom name handlers) seen = (false, seen) :=
          congrArg (·, seen) h
        rw [e]
        exact .nil⟩
  | .transformed base effect, seen, hc, hb => by
      constructor
      · intro h
        have h : effect.isAsync = true := h
        simp [Kind.reachesAsync, h]
      · intro h
        have h : effect.isAsync = false := h
        have hs := Schema.reachesAsync_sweep hosts hf base seen
          (hc base (List.mem_singleton_self base)) hb
        simpa [Kind.reachesAsync, h, Kind.successors, Kind.children] using hs
  | .recursive r, seen, _, hb => by
      refine ⟨fun h => (by cases h), fun _ => ?_⟩
      cases ht : w.target? r with
      | none => simpa [Kind.reachesAsync, Kind.successors, ht] using World.Sweep.nil
      | some t => simpa [Kind.reachesAsync, Kind.successors, ht] using hf r t ht seen hb
  | .never, _, _, _ | .unknown, _, _, _ | .unit, _, _, _ | .string, _, _, _ | .bool, _, _, _
  | .int, _, _, _ | .float, _, _, _ | .json, _, _, _ | .literal _, _, _, _ =>
      ⟨fun h => (by cases h), fun _ => .nil⟩

theorem anyFieldAsync_sweep (hosts : w.Hosts nodes) (hf : Follows w nodes follow base) :
    ∀ (fields : List (String × Schema)) (seen : List NodeId),
      (∀ t ∈ fields.map Prod.snd, t ∈ nodes) → base ⊆ seen →
      w.Sweep nodes (fields.map Prod.snd) seen (anyFieldAsync w follow fields seen)
  | [], _, _, _ => .nil
  | (name, s) :: rest, seen, hc, hb => by
      have hs := Schema.reachesAsync_sweep hosts hf s seen (hc s (List.mem_cons_self ..)) hb
      rw [anyFieldAsync]
      cases hr : s.reachesAsync w follow seen with
      | mk found seen₁ =>
          rw [hr] at hs
          cases found with
          | true => exact hs.cons_hit rfl
          | false =>
              exact hs.cons rfl (anyFieldAsync_sweep hosts hf rest seen₁
                (fun t ht => hc t (List.mem_cons_of_mem _ ht)) (List.Subset.trans hb (hs.grows rfl)))

theorem anyAsync_sweep (hosts : w.Hosts nodes) (hf : Follows w nodes follow base) :
    ∀ (items : List Schema) (seen : List NodeId), (∀ t ∈ items, t ∈ nodes) → base ⊆ seen →
      w.Sweep nodes items seen (anyAsync w follow items seen)
  | [], _, _, _ => .nil
  | s :: rest, seen, hc, hb => by
      have hs := Schema.reachesAsync_sweep hosts hf s seen (hc s (List.mem_cons_self ..)) hb
      rw [anyAsync]
      cases hr : s.reachesAsync w follow seen with
      | mk found seen₁ =>
          rw [hr] at hs
          cases found with
          | true => exact hs.cons_hit rfl
          | false =>
              exact hs.cons rfl (anyAsync_sweep hosts hf rest seen₁
                (fun t ht => hc t (List.mem_cons_of_mem _ ht)) (List.Subset.trans hb (hs.grows rfl)))

end

end

/-! ### The walk through references -/

/-- The references whose schema has not been seen. -/
def unvisited (w : World) (seen : List NodeId) : Finset Reference :=
  (Finset.range w.nextReference).filter fun r =>
    (w.target? r).any fun t => !seen.contains t.id

section

variable {w : World} {nodes : List Schema} {seen seen' : List NodeId} {r : Reference} {t : Schema}

theorem mem_unvisited :
    r ∈ unvisited w seen ↔
      r < w.nextReference ∧ ∃ t, w.target? r = some t ∧ t.id ∉ seen := by
  simp [unvisited, Option.any_eq_true]

/-- The more has been seen, the fewer references are left. -/
theorem unvisited_mono (h : seen ⊆ seen') : unvisited w seen' ⊆ unvisited w seen := by
  intro r hr
  obtain ⟨hlt, t, ht, hm⟩ := mem_unvisited.1 hr
  exact mem_unvisited.2 ⟨hlt, t, ht, fun hm' => hm (h hm')⟩

/-- Going through a reference to a node that has not been seen leaves fewer references. -/
theorem card_unvisited_lt (hosts : w.Hosts nodes) (ht : w.target? r = some t) (hm : t.id ∉ seen) :
    (unvisited w (t.id :: seen)).card < (unvisited w seen).card := by
  refine Finset.card_lt_card ⟨unvisited_mono fun _ h => List.mem_cons_of_mem _ h, fun hsub => ?_⟩
  have hr : r ∈ unvisited w seen := mem_unvisited.2 ⟨hosts.lt_of_target ht, t, ht, hm⟩
  obtain ⟨-, t', ht', hm'⟩ := mem_unvisited.1 (hsub hr)
  rw [ht] at ht'
  cases ht'
  exact hm' (List.mem_cons_self ..)

/-- **Fuel for the references whose schema has not been seen is enough.** -/
theorem walk_follows (hosts : w.Hosts nodes) :
    ∀ (fuel : Nat) (base : List NodeId), (unvisited w base).card ≤ fuel →
      Follows w nodes (w.walk fuel) base
  | 0, base, hfuel, r, t, ht, seen, hb => by
      -- without fuel every target has been seen
      have hm : t.id ∈ seen := by
        by_contra hm
        have hr : r ∈ unvisited w base :=
          mem_unvisited.2 ⟨hosts.lt_of_target ht, t, ht, fun h => hm (hb h)⟩
        have hpos := Finset.card_pos.2 ⟨r, hr⟩
        omega
      exact .of_cleared (.inr hm)
  | fuel + 1, base, hfuel, r, .node id kind metadata origin, ht, seen, hb => by
      have hs := hosts.targets r _ ht
      refine reachesAsync_node hosts hs fun _ hm => ?_
      have hfollows : Follows w nodes (w.walk fuel) (id :: seen) := walk_follows hosts fuel _ ?_
      · exact Kind.reachesAsync_sweep hosts hfollows kind _
          (fun t ht => (hosts.below _ hs t ht).1) (List.Subset.refl _)
      have hlt := card_unvisited_lt hosts ht hm
      have hle := Finset.card_le_card (unvisited_mono (w := w) hb)
      simp only [Schema.id] at hlt
      omega

namespace World

/-- The walk from a node. -/
theorem walk_sweep (hosts : w.Hosts nodes) {s : Schema} (hs : s ∈ nodes) :
    w.Sweep nodes [s] [] (w.walk (w.nextReference + 1) s []) := by
  cases s with
  | node id kind metadata origin =>
      refine reachesAsync_node hosts hs fun _ _ => ?_
      have hfollows : Follows w nodes (w.walk w.nextReference) [id] :=
        walk_follows hosts _ _ ((Finset.card_filter_le _ _).trans (Finset.card_range _).le)
      exact Kind.reachesAsync_sweep hosts hfollows kind _
        (fun t ht => (hosts.below _ hs t ht).1) (List.Subset.refl _)

/-- Among nodes that have been looked at in full there is nothing to be found. -/
theorem not_hits_of_closed (hosts : w.Hosts nodes) {seen : List NodeId}
    (hclosed : ∀ x ∈ nodes, x.id ∈ seen → w.Explored seen x) {s : Schema} (hit : w.Hits s) :
    s ∈ nodes → ¬ w.Cleared seen s := by
  have explored : ∀ {x : Schema}, x ∈ nodes → w.Cleared seen x → w.knownAsync? x.id = none →
      w.Explored seen x := by
    intro x hx hc hn
    rcases hc with hk | hm
    · rw [hn] at hk; cases hk
    · exact hclosed x hx hm
  induction hit with
  | known hk =>
      intro hs hc
      rcases hc with hk' | hm
      · rw [hk] at hk'; cases hk'
      · have hn := (hclosed _ hs hm).1
        rw [hk] at hn; cases hn
  | own hn ha =>
      intro hs hc
      have ha' := (explored hs hc hn).2.1
      rw [ha] at ha'; cases ha'
  | step hn hst _ ih =>
      intro hs hc
      exact ih (hosts.leads hs hst) ((explored hs hc hn).2.2 _ hst)

/-- **The walk from a node finds something exactly when there is something.** -/
theorem walk_iff_hits (hosts : w.Hosts nodes) {s : Schema} (hs : s ∈ nodes) :
    (w.walk (w.nextReference + 1) s []).1 = true ↔ w.Hits s := by
  have sweep := walk_sweep hosts hs
  constructor
  · intro h
    obtain ⟨t, ht, hit⟩ := sweep.hit h
    rw [List.mem_singleton] at ht
    exact ht ▸ hit
  · intro hit
    by_contra h
    have h : (w.walk (w.nextReference + 1) s []).1 = false := by simpa using h
    refine not_hits_of_closed hosts (fun x hx hm => ?_) hit hs
      (sweep.cleared h s (List.mem_singleton_self s))
    exact (sweep.explored h x hx hm).resolve_left (List.not_mem_nil)

end World

end

end Schemata
