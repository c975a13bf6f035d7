/-
**Queries and compilations keep to the plan.**

Asking whether a node waits, and compiling it for either direction, ends in every world and gives
what was planned.  All that it changes are cells that had been empty, so it leads to a world ahead,
in which every such computation gives the same once more.

Main definitions:

* `Schemata.World.Later` — the worlds ahead, between computations.

Main results:

* `Schemata.Schema.isAsync_gives`, `Schemata.Schema.parseOperation_gives`,
  `Schemata.Schema.serializeOperation_gives` — **each node gives what was planned**.
-/

import Schemata.Proofs.Plan

set_option relaxedAutoImplicit false
set_option autoImplicit false

namespace Schemata

/-- The worlds ahead of a world, between computations. -/
structure World.Later (w₀ : World) (nodes : List Schema) (w : World) : Prop where
  ahead : w₀.Ahead nodes w
  quiet : w.Quiet

section

variable {w₀ w w₁ : World} {nodes : List Schema} {s : Schema}

theorem World.Sound.later (h : w₀.Sound nodes) : w₀.Later nodes w₀ := ⟨h.ahead, h.quiet⟩

theorem World.Later.sound (h₀ : w₀.Sound nodes) (h : w₀.Later nodes w) : w.Sound nodes :=
  h.ahead.sound h₀ h.quiet

theorem World.Later.trans (h₀ : w₀.Sound nodes) (h : w₀.Later nodes w) (h' : w.Later nodes w₁) :
    w₀.Later nodes w₁ :=
  ⟨h.ahead.trans h₀ h'.ahead, h'.quiet⟩

/-- The log does not matter for what is ahead. -/
theorem World.Later.withLog (h : w₀.Later nodes w) (log : List String) :
    w₀.Later nodes { w with log := log } :=
  ⟨{ h.ahead with }, ⟨h.quiet.parse, h.quiet.serialize, h.quiet.async⟩⟩

/-! ### Asking whether a node waits -/

/-- The question of a node whose parse cell is not filled gives the answer, and changes its async
cell only. -/
theorem Schema.isAsync_unfilled (h₀ : w₀.Sound nodes) (h : w₀.Ahead nodes w)
    (hq : ∀ id, w.asyncCells id ≠ .filling) (hs : s ∈ nodes)
    (hc : (w.parseCells s.id).content? = none) :
    ∃ w', s.isAsync w = .ok (w₀.answer s, w') ∧ w₀.Ahead nodes w' ∧
      (∀ id, w'.asyncCells id ≠ .filling) ∧ w'.parseCells = w.parseCells ∧
      w'.serializeCells = w.serializeCells ∧ w'.log = w.log := by
  cases ha : w.asyncCells s.id with
  | filling => exact absurd ha (hq s.id)
  | filled b =>
      have hb := h.async.planned s hs b ha
      refine ⟨w, ?_, h, hq, rfl, rfl, rfl⟩
      simp only [Schema.isAsync, get_bind, hc, ha, hb]
      rfl
  | empty =>
      -- the walk takes place while the cell is marked
      let marked : World := { w with asyncCells := updateAt w.asyncCells s.id .filling }
      have hmarked : w₀.Ahead nodes marked :=
        h.setAsync h₀ hs (fun b hb => by rw [ha] at hb; cases hb) fun b hb => by cases hb
      have hanswer : (marked.walk (w.nextReference + 1) s []).1 = w₀.answer s :=
        hmarked.answer h₀ hs
      refine ⟨{ w with asyncCells := updateAt w.asyncCells s.id (.filled (w₀.answer s)) }, ?_,
        h.setAsync h₀ hs (fun b hb => by rw [ha] at hb; cases hb) fun b hb => by cases hb; rfl,
        fun id => ?_, rfl, rfl, rfl⟩
      · simp only [Schema.isAsync, get_bind, hc, ha, setAsyncCell, modify_bind]
        rw [hanswer, pure_apply, updateAt_updateAt]
      · by_cases hid : id = s.id
        · subst hid
          exact fun hf => by simp at hf
        · exact fun hf => hq id ((updateAt_other hid).symm.trans hf)

/-- **Asking whether a node waits gives the answer**, and leaves operations as they are. -/
theorem Schema.isAsync_done (h₀ : w₀.Sound nodes) (hs : s ∈ nodes) (hw : w₀.Later nodes w) :
    ∃ w', s.isAsync w = .ok (w₀.answer s, w') ∧ w₀.Later nodes w' ∧
      w'.parseCells = w.parseCells ∧ w'.serializeCells = w.serializeCells ∧ w'.log = w.log := by
  cases hc : w.parseCells s.id with
  | filled c =>
      refine ⟨w, ?_, hw, rfl, rfl, rfl⟩
      have hanswer : c.operation.isAsync = w₀.answer s := by
        rw [hw.ahead.parse.planned s hs c hc]
        exact h₀.planned_isAsync hs
      simp only [Schema.isAsync, get_bind, hc, Cell.content?, hanswer]
      rfl
  | empty | filling =>
      obtain ⟨w', hgives, hahead, hq, hparse, hserialize, hlog⟩ :=
        Schema.isAsync_unfilled h₀ hw.ahead hw.quiet.async hs (by rw [hc]; rfl)
      exact ⟨w', hgives, ⟨hahead, by rw [hparse]; exact hw.quiet.parse,
        by rw [hserialize]; exact hw.quiet.serialize, hq⟩, hparse, hserialize, hlog⟩

theorem Schema.isAsync_gives (h₀ : w₀.Sound nodes) (hs : s ∈ nodes) :
    Gives (w₀.Later nodes) s.isAsync (w₀.answer s) := fun _ hw =>
  have ⟨w', hgives, hw', _⟩ := Schema.isAsync_done h₀ hs hw
  ⟨w', hw', hgives⟩

/-! ### Compiling -/

/-- Parse operations are compiled as planned. -/
theorem parseCompiler_planned (h₀ : w₀.Sound nodes) (log : List String) :
    parseCompiler.Planned w₀ nodes
      (fun w => w₀.Ahead nodes w ∧ (∀ id, w.serializeCells id ≠ .filling) ∧
        (∀ id, w.asyncCells id ≠ .filling) ∧ w.log = log)
      w₀.answer w₀.parsePlan where
  cells_withCells _ _ := rfl
  bindings w hw := hw.1.bindings
  planned w hw s hs c hc := hw.1.parse.planned s hs c hc
  mark w hw s hs hc :=
    ⟨hw.1.setParse h₀ hs (fun c hf => by rw [show w.parseCells s.id = _ from hc] at hf; cases hf)
      fun c hf => (by cases hf), hw.2⟩
  waits w hw s hs hc := by
    have hc : w.parseCells s.id = .filling := hc
    obtain ⟨w', hgives, hahead, hq, hparse, hserialize, hlog⟩ :=
      Schema.isAsync_unfilled h₀ hw.1 hw.2.2.1 hs (by rw [hc]; rfl)
    exact ⟨w', hgives, ⟨hahead, by rw [hserialize]; exact hw.2.1, hq, hlog.trans hw.2.2.2⟩, hparse⟩
  build w hw s hs hc hbelow := by
    have hc : w.parseCells s.id = .filling := hc
    have hc₀ : (w₀.parseCells s.id).content? = none := by
      cases hc₀ : w₀.parseCells s.id with
      | filled c => rw [hw.1.parse.kept _ c hc₀] at hc; cases hc
      | empty | filling => rfl
    rw [World.parsePlan_of_unfilled hc₀]
    refine congrArg (Compiled.mk s.id)
      (Kind.parser_congr hw.1.config hw.1.bindings _ _ fun t ht => ?_)
    rw [Kind.embedded_congr hw.1.bindings] at ht
    have hlt := (h₀.hosts.below s hs t (Kind.embedded_subset _ _ ht)).2
    have hfilled : w.parseCells t.id = .filled (w₀.parsePlan t) := hbelow t ht
    rw [if_pos hlt, World.parserOf, hfilled]
    rfl
  fill w hw s hs hc hbelow :=
    ⟨hw.1.setParse h₀ hs (fun c hf => by rw [show w.parseCells s.id = _ from hc] at hf; cases hf)
      fun c hf => (by cases hf; exact ⟨rfl, fun t ht => ⟨_, hbelow t ht⟩⟩), hw.2⟩

/-- Serialize operations are compiled as planned. -/
theorem serializeCompiler_planned (h₀ : w₀.Sound nodes) (log : List String) :
    serializeCompiler.Planned w₀ nodes
      (fun w => w₀.Ahead nodes w ∧ (∀ id, w.parseCells id ≠ .filling) ∧
        (∀ id, w.asyncCells id ≠ .filling) ∧ w.log = log)
      (fun _ => false) w₀.serializePlan where
  cells_withCells _ _ := rfl
  bindings w hw := hw.1.bindings
  planned w hw s hs c hc := hw.1.serialize.planned s hs c hc
  mark w hw s hs hc :=
    ⟨hw.1.setSerialize h₀ hs
      (fun c hf => by rw [show w.serializeCells s.id = _ from hc] at hf; cases hf)
      fun c hf => (by cases hf), hw.2⟩
  waits w hw s hs hc := ⟨w, rfl, hw, rfl⟩
  build w hw s hs hc hbelow := by
    have hc : w.serializeCells s.id = .filling := hc
    have hc₀ : (w₀.serializeCells s.id).content? = none := by
      cases hc₀ : w₀.serializeCells s.id with
      | filled c => rw [hw.1.serialize.kept _ c hc₀] at hc; cases hc
      | empty | filling => rfl
    rw [World.serializePlan_of_unfilled hc₀]
    refine Kind.serializer_congr hw.1.bindings _ fun t ht => ?_
    rw [Kind.embedded_congr hw.1.bindings] at ht
    have hlt := (h₀.hosts.below s hs t (Kind.embedded_subset _ _ ht)).2
    have hfilled : w.serializeCells t.id = .filled (w₀.serializePlan t) := hbelow t ht
    rw [if_pos hlt, World.serializerOf, hfilled]
    rfl
  fill w hw s hs hc hbelow :=
    ⟨hw.1.setSerialize h₀ hs
      (fun c hf => by rw [show w.serializeCells s.id = _ from hc] at hf; cases hf)
      fun c hf => (by cases hf; exact ⟨rfl, fun t ht => ⟨_, hbelow t ht⟩⟩), hw.2⟩

/-- **Compiling a node for parsing gives its planned operation**, which its cell holds from then
on. -/
theorem Schema.parseOperation_done (h₀ : w₀.Sound nodes) (hs : s ∈ nodes) (hw : w₀.Later nodes w) :
    ∃ w', s.parseOperation w = .ok (w₀.parsePlan s, w') ∧ w₀.Later nodes w' ∧
      w'.parseCells s.id = .filled (w₀.parsePlan s) ∧ w'.log = w.log := by
  obtain ⟨w', hgives, hdone⟩ := Schema.compile_done h₀.hosts (parseCompiler_planned h₀ w.log) s w hs
    ⟨hw.ahead, hw.quiet.serialize, hw.quiet.async, rfl⟩ fun id _ => hw.quiet.parse id
  obtain ⟨hahead, hserialize, hasync, hlog⟩ := hdone.stays
  exact ⟨w', hgives, ⟨hahead, fun id hid => hw.quiet.parse id ((hdone.busy id).1 hid), hserialize,
    hasync⟩, hdone.filled s (List.mem_singleton_self s), hlog⟩

theorem Schema.parseOperation_gives (h₀ : w₀.Sound nodes) (hs : s ∈ nodes) :
    Gives (w₀.Later nodes) s.parseOperation (w₀.parsePlan s) := fun _ hw =>
  have ⟨w', hgives, hw', _⟩ := Schema.parseOperation_done h₀ hs hw
  ⟨w', hw', hgives⟩

/-- **Compiling a node for serializing gives its planned operation**, which its cell holds from then
on. -/
theorem Schema.serializeOperation_done (h₀ : w₀.Sound nodes) (hs : s ∈ nodes)
    (hw : w₀.Later nodes w) :
    ∃ w', s.serializeOperation w = .ok (w₀.serializePlan s, w') ∧ w₀.Later nodes w' ∧
      w'.serializeCells s.id = .filled (w₀.serializePlan s) ∧ w'.log = w.log := by
  obtain ⟨w', hgives, hdone⟩ := Schema.compile_done h₀.hosts (serializeCompiler_planned h₀ w.log) s
    w hs ⟨hw.ahead, hw.quiet.parse, hw.quiet.async, rfl⟩ fun id _ => hw.quiet.serialize id
  obtain ⟨hahead, hparse, hasync, hlog⟩ := hdone.stays
  exact ⟨w', hgives, ⟨hahead, hparse,
    fun id hid => hw.quiet.serialize id ((hdone.busy id).1 hid), hasync⟩,
    hdone.filled s (List.mem_singleton_self s), hlog⟩

theorem Schema.serializeOperation_gives (h₀ : w₀.Sound nodes) (hs : s ∈ nodes) :
    Gives (w₀.Later nodes) s.serializeOperation (w₀.serializePlan s) := fun _ hw =>
  have ⟨w', hgives, hw', _⟩ := Schema.serializeOperation_done h₀ hs hw
  ⟨w', hw', hgives⟩

end

end Schemata
