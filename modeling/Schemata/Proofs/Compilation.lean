/-
**Compiling a graph fills the cells that were planned.**

Parse and serialize operations are compiled by the same traversal.  What a node's cell is going to
hold is planned beforehand, from what the cells hold already.  The traversal then keeps to the plan,
in whatever order nodes are compiled: it ends, it fills the cell of the node with what was planned,
it leaves filled cells alone, and it fills no cell before those of the nodes that are embedded.

The worlds that may arise on the way are left open here.  They are a set from which neither marking
a cell nor filling it as planned leads out.

Main definitions:

* `Schemata.Kind.embedded` — the nodes below whose operations are embedded;
* `Schemata.Compiler.Governed`, `Schemata.Compiler.Planned` — what compiling may do, and a plan for
  the cells of a graph;
* `Schemata.Compiler.Progress`, `Schemata.Compiler.Filled`, `Schemata.Compiler.Done` — what compiling
  some schemas has changed.

Main results:

* `Schemata.Schema.compile_ends` — **compiling a node ends**, with or without a plan;
* `Schemata.Schema.compile_done` — **compiling a node keeps to the plan**.
-/

import Schemata.Compilation.Traversal
import Schemata.Proofs.Computation
import Schemata.Proofs.Graph

set_option relaxedAutoImplicit false
set_option autoImplicit false

namespace Schemata

variable {α : Type}

/-! ### Cells -/

@[simp] theorem updateAt_same (f : Nat → α) (place : Nat) (value : α) :
    updateAt f place value place = value := by
  simp [updateAt]

theorem updateAt_other {f : Nat → α} {place n : Nat} {value : α} (h : n ≠ place) :
    updateAt f place value n = f n := by
  simp [updateAt, h]

theorem updateAt_ne {f : Nat → α} {place : Nat} {value a : α} (h : value ≠ a) (hf : ∀ n, f n ≠ a)
    (n : Nat) : updateAt f place value n ≠ a := by
  simp only [updateAt]
  split
  · exact h
  · exact hf n

@[simp] theorem updateAt_updateAt (f : Nat → α) (place : Nat) (value value' : α) :
    updateAt (updateAt f place value) place value' = updateAt f place value' := by
  funext n
  by_cases h : n = place <;> simp [updateAt, h]

theorem refersBack_congr {w w' : World} (h : w.bindings = w'.bindings) :
    refersBack w = refersBack w' := by
  funext members member
  simp [refersBack, World.target?, h]

/-- A member that is the union itself is a reference to a union of the same members. -/
theorem refersBack_eq_true {w : World} {s : Schema} {ids : List NodeId}
    (h : refersBack w ids s = true) :
    ∃ r u others, s.kind = .recursive r ∧ w.target? r = some u ∧ u.kind = .union others ∧
      others.map Schema.id = ids := by
  rw [refersBack] at h
  split at h
  · rename_i r hr
    split at h
    · rename_i u hu
      split at h
      · rename_i others hothers
        exact ⟨r, u, others, hr, hu, hothers, beq_iff_eq.1 h⟩
      · cases h
    · cases h
  · cases h

/-- The nodes directly below whose operations are embedded: all but the members of a union that are
the union itself. -/
def Kind.embedded (w : World) : Kind → List Schema
  | .union members => members.filter fun t => !refersBack w (members.map Schema.id) t
  | kind => kind.children

theorem Kind.embedded_congr {w w' : World} (h : w.bindings = w'.bindings) :
    Kind.embedded w = Kind.embedded w' := by
  funext kind
  cases kind with
  | union members => simp only [Kind.embedded, refersBack_congr h]
  | _ => rfl

theorem Kind.embedded_subset (w : World) (kind : Kind) : kind.embedded w ⊆ kind.children := by
  cases kind with
  | union members => exact fun t ht => (List.mem_filter.1 ht).1
  | _ => exact List.Subset.refl _

namespace Compiler

/-- **What compiling may do**, relative to a set of worlds: marking a cell, asking what has to be known
of a node and filling its cell do not lead out of the set.  A cell is filled once the embedded nodes
are compiled. -/
structure Governed (c : Compiler α) (w₀ : World) (nodes : List Schema) (W : World → Prop)
    (may : Schema → Bool → Prop) : Prop where
  cells_withCells : ∀ f w, c.cells (c.withCells f w) = f
  bindings : ∀ w, W w → w.bindings = w₀.bindings
  mark : ∀ w, W w → ∀ s ∈ nodes, c.cells w s.id = .empty →
    W (c.withCells (updateAt (c.cells w) s.id .filling) w)
  waits : ∀ w, W w → ∀ s ∈ nodes, c.cells w s.id = .filling →
    ∃ b w', c.waits s w = .ok (b, w') ∧ may s b ∧ W w' ∧ c.cells w' = c.cells w
  fill : ∀ w, W w → ∀ s ∈ nodes, ∀ b, may s b → c.cells w s.id = .filling →
    (∀ t ∈ s.kind.embedded w₀, ∃ a, c.cells w t.id = .filled a) →
    W (c.withCells (updateAt (c.cells w) s.id (.filled (c.build w s.id b s.kind))) w)

/-- **A plan for the cells of a graph**, relative to a set of worlds: filled cells are as planned,
and the set is closed under the steps of the traversal. -/
structure Planned (c : Compiler α) (w₀ : World) (nodes : List Schema) (W : World → Prop)
    (flag : Schema → Bool) (plan : Schema → α) : Prop where
  cells_withCells : ∀ f w, c.cells (c.withCells f w) = f
  bindings : ∀ w, W w → w.bindings = w₀.bindings
  planned : ∀ w, W w → ∀ s ∈ nodes, ∀ a, c.cells w s.id = .filled a → a = plan s
  mark : ∀ w, W w → ∀ s ∈ nodes, c.cells w s.id = .empty →
    W (c.withCells (updateAt (c.cells w) s.id .filling) w)
  waits : ∀ w, W w → ∀ s ∈ nodes, c.cells w s.id = .filling →
    ∃ w', c.waits s w = .ok (flag s, w') ∧ W w' ∧ c.cells w' = c.cells w
  build : ∀ w, W w → ∀ s ∈ nodes, c.cells w s.id = .filling →
    (∀ t ∈ s.kind.embedded w₀, c.cells w t.id = .filled (plan t)) →
    c.build w s.id (flag s) s.kind = plan s
  fill : ∀ w, W w → ∀ s ∈ nodes, c.cells w s.id = .filling →
    (∀ t ∈ s.kind.embedded w₀, c.cells w t.id = .filled (plan t)) →
    W (c.withCells (updateAt (c.cells w) s.id (.filled (plan s))) w)

/-- What never changes back: filled cells stay filled, and the same cells are being filled. -/
structure Progress (c : Compiler α) (w w' : World) : Prop where
  kept : ∀ id a, c.cells w id = .filled a → c.cells w' id = .filled a
  busy : ∀ id, c.cells w' id = .filling ↔ c.cells w id = .filling

theorem Progress.refl (c : Compiler α) (w : World) : c.Progress w w := ⟨fun _ _ h => h, fun _ => .rfl⟩

theorem Progress.trans {c : Compiler α} {w w' w'' : World} (h : c.Progress w w')
    (h' : c.Progress w' w'') : c.Progress w w'' :=
  ⟨fun id a ha => h'.kept id a (h.kept id a ha), fun id => (h'.busy id).trans (h.busy id)⟩

/-- **Some schemas are compiled.** -/
structure Filled (c : Compiler α) (W : World → Prop) (ts : List Schema) (w w' : World) : Prop
    extends c.Progress w w' where
  stays : W w'
  filled : ∀ t ∈ ts, ∃ a, c.cells w' t.id = .filled a

/-- **Some schemas are compiled as planned.** -/
structure Done (c : Compiler α) (W : World → Prop) (plan : Schema → α) (ts : List Schema)
    (w w' : World) : Prop extends c.Progress w w' where
  stays : W w'
  filled : ∀ t ∈ ts, c.cells w' t.id = .filled (plan t)

/-- No cell up to a bound is being filled. -/
def Free (c : Compiler α) (w : World) (bound : Nat) : Prop := ∀ id < bound, c.cells w id ≠ .filling

section

variable {c : Compiler α} {w₀ w w₁ w₂ : World} {nodes ts : List Schema} {W : World → Prop}
  {flag : Schema → Bool} {may : Schema → Bool → Prop} {plan : Schema → α} {s : Schema}
  {bound : Nat} {b : Bool}

/-- Compiling may do what is planned. -/
theorem Planned.governed (P : c.Planned w₀ nodes W flag plan) (hosts : w₀.Hosts nodes) :
    c.Governed w₀ nodes W fun s b => b = flag s where
  cells_withCells := P.cells_withCells
  bindings := P.bindings
  mark := P.mark
  waits w hw s hs hc := by
    obtain ⟨w', hrun, hw', hcells⟩ := P.waits w hw s hs hc
    exact ⟨flag s, w', hrun, rfl, hw', hcells⟩
  fill w hw s hs b hb hc hbelow := by
    have hplanned : ∀ t ∈ s.kind.embedded w₀, c.cells w t.id = .filled (plan t) := by
      intro t ht
      obtain ⟨a, ha⟩ := hbelow t ht
      rw [ha, P.planned w hw t (hosts.below s hs t (Kind.embedded_subset w₀ _ ht)).1 a ha]
    rw [hb, P.build w hw s hs hc hplanned]
    exact P.fill w hw s hs hc hplanned

theorem Free.progress (h : c.Free w bound) (hp : c.Progress w w₁) : c.Free w₁ bound :=
  fun id hid hc => h id hid ((hp.busy id).1 hc)

/-- Nothing to compile. -/
theorem Filled.nil (h : W w) : c.Filled W [] w w where
  toProgress := .refl c w
  stays := h
  filled t ht := by cases ht

/-- One schema after another. -/
theorem Filled.cons (h : c.Filled W [s] w w₁) (h' : c.Filled W ts w₁ w₂) :
    c.Filled W (s :: ts) w w₂ where
  toProgress := h.toProgress.trans h'.toProgress
  stays := h'.stays
  filled t ht := by
    rcases List.mem_cons.1 ht with rfl | ht
    · obtain ⟨a, ha⟩ := h.filled t (List.mem_singleton_self t)
      exact ⟨a, h'.kept _ _ ha⟩
    · exact h'.filled t ht

/-- A node whose cell was marked, and then filled once the nodes below it were compiled. -/
theorem Filled.node (G : c.Governed w₀ nodes W may) (hs : s ∈ nodes) (hb : may s b)
    (hempty : c.cells w s.id = .empty)
    (h : c.Progress (c.withCells (updateAt (c.cells w) s.id .filling) w) w₁) (hW : W w₁)
    (hbelow : ∀ t ∈ s.kind.embedded w₀, ∃ a, c.cells w₁ t.id = .filled a) :
    c.Filled W [s] w
      (c.withCells (updateAt (c.cells w₁) s.id (.filled (c.build w₁ s.id b s.kind))) w₁) := by
  have hbusy : c.cells w₁ s.id = .filling := by
    rw [h.busy, G.cells_withCells, updateAt_same]
  have other : ∀ id, id ≠ s.id →
      c.cells (c.withCells (updateAt (c.cells w₁) s.id (.filled (c.build w₁ s.id b s.kind))) w₁) id =
        c.cells w₁ id := by
    intro id hid
    rw [G.cells_withCells, updateAt_other hid]
  have marked : ∀ id, id ≠ s.id →
      c.cells (c.withCells (updateAt (c.cells w) s.id .filling) w) id = c.cells w id := by
    intro id hid
    rw [G.cells_withCells, updateAt_other hid]
  refine ⟨⟨fun id a ha => ?_, fun id => ?_⟩, G.fill w₁ hW s hs b hb hbusy hbelow, fun t ht => ?_⟩
  · have hid : id ≠ s.id := by
      rintro rfl
      rw [hempty] at ha
      cases ha
    rw [other id hid]
    exact h.kept id a (by rw [marked id hid]; exact ha)
  · by_cases hid : id = s.id
    · subst hid
      rw [G.cells_withCells, updateAt_same, hempty]
      exact ⟨fun hc => (by cases hc), fun hc => (by cases hc)⟩
    · rw [other id hid, h.busy, marked id hid]
  · rw [List.mem_singleton] at ht
    subst ht
    rw [G.cells_withCells, updateAt_same]
    exact ⟨_, rfl⟩

end

end Compiler

/-! ### The traversal -/

section

variable {c : Compiler α} {w₀ : World} {nodes : List Schema} {W : World → Prop}
  {flag : Schema → Bool} {may : Schema → Bool → Prop} {plan : Schema → α}

/-- A node whose cell is empty: the cell is marked, what is below is compiled, and the cell is
filled. -/
theorem compile_empty {id : NodeId} {kind : Kind} {metadata : Metadata} {origin : Option Schema}
    {w w₁ w₂ : World} {b : Bool} (hempty : c.cells w id = .empty)
    (hwaits : c.waits (.node id kind metadata origin)
      (c.withCells (updateAt (c.cells w) id .filling) w) = .ok (b, w₁))
    (hbelow : kind.compileBelow c w₁ = .ok ((), w₂)) :
    (Schema.node id kind metadata origin).compile c w = .ok (c.build w₂ id b kind,
      c.withCells (updateAt (c.cells w₂) id (.filled (c.build w₂ id b kind))) w₂) := by
  simp only [Schema.compile, get_bind, hempty]
  rw [Compiler.setCell, modify_bind, bind_ok hwaits, bind_ok hbelow, get_bind]
  rfl

/-- A schema is compiled, and what its cell holds then is given. -/
def CompileEnds (c : Compiler α) (W : World → Prop) (s : Schema) (w : World) : Prop :=
  ∃ a w', s.compile c w = .ok (a, w') ∧ c.Filled W [s] w w' ∧ c.cells w' s.id = .filled a

/-- Compiling one node, from compiling the nodes below it. -/
theorem compile_node (G : c.Governed w₀ nodes W may) {s : Schema} (hs : s ∈ nodes) {w : World}
    (hw : W w) (hfree : c.Free w (s.id + 1))
    (h : ∀ w₁, W w₁ → c.Free w₁ s.id →
      ∃ w₂, s.kind.compileBelow c w₁ = .ok ((), w₂) ∧ c.Filled W (s.kind.embedded w₀) w₁ w₂) :
    CompileEnds c W s w := by
  obtain ⟨id, kind, metadata, origin⟩ := s
  simp only [Schema.id_node, Schema.kind_node] at *
  cases hc : c.cells w id with
  | filling => exact absurd hc (hfree id (Nat.lt_succ_self id))
  | filled a =>
      refine ⟨a, w, ?_, ⟨.refl c w, hw, fun t ht => ⟨a, ?_⟩⟩, hc⟩
      · simp only [Schema.compile, get_bind, hc]
        rfl
      · rw [List.mem_singleton] at ht
        rw [ht]
        exact hc
  | empty =>
      have hmark := G.mark w hw _ hs hc
      obtain ⟨b, w₁, hwaits, hb, hw₁, hcells⟩ := G.waits _ hmark _ hs (by
        rw [G.cells_withCells]; exact updateAt_same ..)
      have hprogress : c.Progress (c.withCells (updateAt (c.cells w) id .filling) w) w₁ :=
        ⟨fun i a ha => by rw [hcells]; exact ha, fun i => by rw [hcells]; rfl⟩
      have hfree₁ : c.Free w₁ id := by
        intro i hi
        rw [hcells, G.cells_withCells, Schema.id_node, updateAt_other (Nat.ne_of_lt hi)]
        exact hfree i (Nat.lt_succ_of_lt hi)
      obtain ⟨w₂, hbelow, hfilled⟩ := h w₁ hw₁ hfree₁
      have hall := hprogress.trans hfilled.toProgress
      refine ⟨_, _, compile_empty hc hwaits hbelow,
        .node G hs hb hc hall hfilled.stays hfilled.filled, ?_⟩
      rw [G.cells_withCells, Schema.id_node, updateAt_same]

/-- Compiling one of several nodes, all of which lie below a bound. -/
theorem bind_ends {ts : List Schema} {s : Schema} {w : World} {c' : Run Unit}
    (h : CompileEnds c W s w)
    (h' : ∀ w₁, c.Filled W [s] w w₁ →
      ∃ w₂, c' w₁ = .ok ((), w₂) ∧ c.Filled W ts w₁ w₂) :
    ∃ w₂, (s.compile c >>= fun _ => c') w = .ok ((), w₂) ∧ c.Filled W (s :: ts) w w₂ := by
  obtain ⟨a, w₁, hc, hd, -⟩ := h
  obtain ⟨w₂, hc', hd'⟩ := h' w₁ hd
  exact ⟨w₂, by rw [bind_ok hc, hc'], hd.cons hd'⟩

mutual

/-- **Compiling a node ends.**  Identities decrease from a node to those below it, so it does not come
back to a cell that is being filled. -/
theorem Schema.compile_ends (hosts : w₀.Hosts nodes) (G : c.Governed w₀ nodes W may) :
    ∀ (s : Schema) (w : World), s ∈ nodes → W w → c.Free w (s.id + 1) → CompileEnds c W s w
  | .node id kind _ _, _, hs, hw, hfree =>
      compile_node G hs hw hfree fun w₁ hw₁ hfree₁ =>
        Kind.compileBelow_ends hosts G kind id w₁ (hosts.below _ hs) hw₁ hfree₁

theorem Kind.compileBelow_ends (hosts : w₀.Hosts nodes) (G : c.Governed w₀ nodes W may) :
    ∀ (kind : Kind) (bound : Nat) (w : World), (∀ t ∈ kind.children, t ∈ nodes ∧ t.id < bound) →
      W w → c.Free w bound →
      ∃ w', kind.compileBelow c w = .ok ((), w') ∧ c.Filled W (kind.embedded w₀) w w'
  | .array s, _, w, hc, hw, hfree | .dict s, _, w, hc, hw, hfree | .option s, _, w, hc, hw, hfree
  | .null s, _, w, hc, hw, hfree | .nullable s, _, w, hc, hw, hfree
  | .jsonString s, _, w, hc, hw, hfree | .transformed s _, _, w, hc, hw, hfree =>
      have hs := hc s (List.mem_singleton_self s)
      bind_ends (Schema.compile_ends hosts G s w hs.1 hw fun i hi =>
        hfree i (Nat.lt_of_lt_of_le hi hs.2)) fun w₁ hd => ⟨w₁, rfl, .nil hd.stays⟩
  | .object fields _, bound, w, hc, hw, hfree => compileFields_ends hosts G fields bound w hc hw hfree
  | .tuple items, bound, w, hc, hw, hfree => compileItems_ends hosts G items bound w hc hw hfree
  | .union members, bound, w, hc, hw, hfree =>
      compileMembers_ends hosts G (members.map Schema.id) members bound w hc hw hfree
  | .never, _, w, _, hw, _ | .unknown, _, w, _, hw, _ | .unit, _, w, _, hw, _
  | .string, _, w, _, hw, _ | .bool, _, w, _, hw, _ | .int, _, w, _, hw, _
  | .float, _, w, _, hw, _ | .json, _, w, _, hw, _ | .literal _, _, w, _, hw, _
  | .custom _ _, _, w, _, hw, _ | .recursive _, _, w, _, hw, _ => ⟨w, rfl, .nil hw⟩

theorem compileFields_ends (hosts : w₀.Hosts nodes) (G : c.Governed w₀ nodes W may) :
    ∀ (fields : List (String × Schema)) (bound : Nat) (w : World),
      (∀ t ∈ fields.map Prod.snd, t ∈ nodes ∧ t.id < bound) → W w → c.Free w bound →
      ∃ w', compileFields c fields w = .ok ((), w') ∧ c.Filled W (fields.map Prod.snd) w w'
  | [], _, w, _, hw, _ => ⟨w, rfl, .nil hw⟩
  | (_, s) :: rest, bound, w, hc, hw, hfree =>
      have hs := hc s (List.mem_cons_self ..)
      bind_ends (Schema.compile_ends hosts G s w hs.1 hw fun i hi =>
        hfree i (Nat.lt_of_lt_of_le hi hs.2)) fun w₁ hd =>
          compileFields_ends hosts G rest bound w₁ (fun t ht => hc t (List.mem_cons_of_mem _ ht))
            hd.stays (hfree.progress hd.toProgress)

theorem compileItems_ends (hosts : w₀.Hosts nodes) (G : c.Governed w₀ nodes W may) :
    ∀ (items : List Schema) (bound : Nat) (w : World),
      (∀ t ∈ items, t ∈ nodes ∧ t.id < bound) → W w → c.Free w bound →
      ∃ w', compileItems c items w = .ok ((), w') ∧ c.Filled W items w w'
  | [], _, w, _, hw, _ => ⟨w, rfl, .nil hw⟩
  | s :: rest, bound, w, hc, hw, hfree =>
      have hs := hc s (List.mem_cons_self ..)
      bind_ends (Schema.compile_ends hosts G s w hs.1 hw fun i hi =>
        hfree i (Nat.lt_of_lt_of_le hi hs.2)) fun w₁ hd =>
          compileItems_ends hosts G rest bound w₁ (fun t ht => hc t (List.mem_cons_of_mem _ ht))
            hd.stays (hfree.progress hd.toProgress)

theorem compileMembers_ends (hosts : w₀.Hosts nodes) (G : c.Governed w₀ nodes W may)
    (ids : List NodeId) :
    ∀ (members : List Schema) (bound : Nat) (w : World),
      (∀ t ∈ members, t ∈ nodes ∧ t.id < bound) → W w → c.Free w bound →
      ∃ w', compileMembers c ids members w = .ok ((), w') ∧
        c.Filled W (members.filter fun t => !refersBack w₀ ids t) w w'
  | [], _, w, _, hw, _ => ⟨w, rfl, .nil hw⟩
  | s :: rest, bound, w, hc, hw, hfree => by
      have hs := hc s (List.mem_cons_self ..)
      have hrest := fun t ht => hc t (List.mem_cons_of_mem s ht)
      rw [compileMembers, get_bind, refersBack_congr (G.bindings w hw)]
      cases hb : refersBack w₀ ids s with
      | true =>
          rw [List.filter_cons_of_neg (by simp [hb]), if_pos rfl]
          exact compileMembers_ends hosts G ids rest bound w hrest hw hfree
      | false =>
          rw [List.filter_cons_of_pos (by simp [hb]), if_neg (by simp)]
          exact bind_ends (Schema.compile_ends hosts G s w hs.1 hw fun i hi =>
            hfree i (Nat.lt_of_lt_of_le hi hs.2)) fun w₁ hd =>
              compileMembers_ends hosts G ids rest bound w₁ hrest hd.stays
                (hfree.progress hd.toProgress)

end

/-- **Compiling a node keeps to the plan.** -/
theorem Schema.compile_done (hosts : w₀.Hosts nodes) (P : c.Planned w₀ nodes W flag plan)
    (s : Schema) (w : World) (hs : s ∈ nodes) (hw : W w) (hfree : c.Free w (s.id + 1)) :
    ∃ w', s.compile c w = .ok (plan s, w') ∧ c.Done W plan [s] w w' := by
  obtain ⟨a, w', hrun, hfilled, ha⟩ := Schema.compile_ends hosts (P.governed hosts) s w hs hw hfree
  have hplan : a = plan s := P.planned w' hfilled.stays s hs a ha
  refine ⟨w', hplan ▸ hrun, ⟨hfilled.toProgress, hfilled.stays, fun t ht => ?_⟩⟩
  rw [List.mem_singleton.1 ht, ha, hplan]

end

end Schemata
