/-
**Queries and compilations end, and come back to no cell that is being filled.**

A schema may be cyclic, through references that are bound to anything: to a node around the
reference, to the reference itself or a copy of it, to another reference, to nothing yet, or to a
schema that has been let go.  Compiling a node goes to the nodes below it only, which were made
before it.  The walk for asynchronous functions does go through references, but not twice to a node.
So both end, and a cell that is being filled is never asked to be filled again.

This does not depend on what the cells hold.  They may be empty or filled with anything, also with
operations and answers that no computation would have put there; all that is needed is that none of
them is being filled in the beginning.

Main definitions:

* `Schemata.World.walkOr` — the walk that goes on in some other way after so many references;
* `Schemata.FollowsSame` — ways to follow references that a walk does not tell apart;
* `Schemata.World.withCells` — the world with other cells;
* `Schemata.World.Completes` — what a query or a compilation leaves.

Main results:

* `Schemata.World.walkOr_eq_walk` — **the walk ends**: it does not come to where it would go on in
  another way;
* `Schemata.Schema.isAsync_completes`, `Schemata.Schema.parseOperation_completes`,
  `Schemata.Schema.serializeOperation_completes` — queries and compilations end;
* `Schemata.Scene.Arises.compiling_ends` — **so they do in every scene, with any cells**.
-/

import Schemata.Proofs.Reconfiguration

set_option relaxedAutoImplicit false
set_option autoImplicit false

namespace Schemata

/-! ### The walk through references -/

/-- The walk that follows `fuel` references on one way, and goes on as given after that. -/
def World.walkOr (w : World) (after : Schema → Walk) : Nat → Schema → Walk
  | 0 => after
  | fuel + 1 => fun s => s.reachesAsync w (w.walkOr after fuel)

/-- **Ways to follow references that a walk does not tell apart**: they do the same with what it may
have seen before, and it has seen no more than it may after them. -/
structure FollowsSame (w : World) (f g : Schema → Walk) (May : List NodeId → Prop) : Prop where
  extend : ∀ id seen, w.knownAsync? id = none → May seen → May (id :: seen)
  follow : ∀ r t, w.target? r = some t → ∀ seen, May seen → f t seen = g t seen ∧ May (f t seen).2

/-- What a walk may have seen: at least the nodes given, and only nodes of which nothing is known. -/
def MayHaveSeen (w : World) (base seen : List NodeId) : Prop :=
  base ⊆ seen ∧ ∀ id ∈ seen, w.knownAsync? id = none

section

variable {w : World} {nodes : List Schema} {f g : Schema → Walk} {May : List NodeId → Prop}

/-- The walk through one node, from the walk through its kind. -/
theorem reachesAsync_node_alike (May : List NodeId → Prop) {id : NodeId} {kind : Kind}
    {metadata : Metadata} {origin : Option Schema} {seen : List NodeId} (hseen : May seen)
    (h : w.knownAsync? id = none → id ∉ seen →
      kind.reachesAsync w f (id :: seen) = kind.reachesAsync w g (id :: seen) ∧
        May (kind.reachesAsync w f (id :: seen)).2) :
    (Schema.node id kind metadata origin).reachesAsync w f seen =
        (Schema.node id kind metadata origin).reachesAsync w g seen ∧
      May ((Schema.node id kind metadata origin).reachesAsync w f seen).2 := by
  rw [Schema.reachesAsync, Schema.reachesAsync]
  cases hk : w.knownAsync? id with
  | some b => exact ⟨rfl, hseen⟩
  | none =>
      by_cases hm : id ∈ seen
      · simp [hm, hseen]
      · simp only [List.contains_eq_mem, hm, decide_false, Bool.false_eq_true, if_false]
        exact h hk hm

mutual

/-- **A walk does not tell alike ways to follow references apart.** -/
theorem Schema.reachesAsync_alike (h : FollowsSame w f g May) :
    ∀ (s : Schema) (seen : List NodeId), May seen →
      s.reachesAsync w f seen = s.reachesAsync w g seen ∧ May (s.reachesAsync w f seen).2
  | .node id kind _ _, seen, hseen =>
      reachesAsync_node_alike _ hseen fun hk _ =>
        Kind.reachesAsync_alike h kind (id :: seen) (h.extend id seen hk hseen)

theorem Kind.reachesAsync_alike (h : FollowsSame w f g May) :
    ∀ (kind : Kind) (seen : List NodeId), May seen →
      kind.reachesAsync w f seen = kind.reachesAsync w g seen ∧ May (kind.reachesAsync w f seen).2
  | .array s, seen, hseen | .dict s, seen, hseen | .option s, seen, hseen | .null s, seen, hseen
  | .nullable s, seen, hseen | .jsonString s, seen, hseen => Schema.reachesAsync_alike h s seen hseen
  | .object fields _, seen, hseen => anyFieldAsync_alike h fields seen hseen
  | .tuple items, seen, hseen => anyAsync_alike h items seen hseen
  | .union members, seen, hseen => anyAsync_alike h members seen hseen
  | .transformed base effect, seen, hseen => by
      rw [Kind.reachesAsync, Kind.reachesAsync]
      cases effect.isAsync with
      | true => exact ⟨rfl, hseen⟩
      | false => exact Schema.reachesAsync_alike h base seen hseen
  | .recursive r, seen, hseen => by
      rw [Kind.reachesAsync, Kind.reachesAsync]
      cases ht : w.target? r with
      | none => exact ⟨rfl, hseen⟩
      | some t => exact h.follow r t ht seen hseen
  | .custom _ _, _, hseen | .never, _, hseen | .unknown, _, hseen | .unit, _, hseen
  | .string, _, hseen | .bool, _, hseen | .int, _, hseen | .float, _, hseen | .json, _, hseen
  | .literal _, _, hseen => ⟨rfl, hseen⟩

theorem anyFieldAsync_alike (h : FollowsSame w f g May) :
    ∀ (fields : List (String × Schema)) (seen : List NodeId), May seen →
      anyFieldAsync w f fields seen = anyFieldAsync w g fields seen ∧
        May (anyFieldAsync w f fields seen).2
  | [], _, hseen => ⟨rfl, hseen⟩
  | (_, s) :: rest, seen, hseen => by
      obtain ⟨heq, hmay⟩ := Schema.reachesAsync_alike h s seen hseen
      rw [anyFieldAsync, anyFieldAsync, ← heq]
      generalize s.reachesAsync w f seen = r at hmay
      obtain ⟨found, seen'⟩ := r
      cases found with
      | true => exact ⟨rfl, hmay⟩
      | false => exact anyFieldAsync_alike h rest seen' hmay

theorem anyAsync_alike (h : FollowsSame w f g May) :
    ∀ (schemas : List Schema) (seen : List NodeId), May seen →
      anyAsync w f schemas seen = anyAsync w g schemas seen ∧ May (anyAsync w f schemas seen).2
  | [], _, hseen => ⟨rfl, hseen⟩
  | s :: rest, seen, hseen => by
      obtain ⟨heq, hmay⟩ := Schema.reachesAsync_alike h s seen hseen
      rw [anyAsync, anyAsync, ← heq]
      generalize s.reachesAsync w f seen = r at hmay
      obtain ⟨found, seen'⟩ := r
      cases found with
      | true => exact ⟨rfl, hmay⟩
      | false => exact anyAsync_alike h rest seen' hmay

end

theorem MayHaveSeen.extend {base seen : List NodeId} {id : NodeId} (h : MayHaveSeen w base seen)
    (hk : w.knownAsync? id = none) : MayHaveSeen w base (id :: seen) :=
  ⟨List.Subset.trans h.1 (List.subset_cons_self ..), List.forall_mem_cons.2 ⟨hk, h.2⟩⟩

/-- **Where fuel is left for the references whose schema has not been seen, it does not run out**:
how the walk would go on after that does not matter. -/
theorem walkOr_alike (hosts : w.Hosts nodes) (after : Schema → Walk) :
    ∀ (fuel : Nat) (base : List NodeId), (unvisited w base).card ≤ fuel → ∀ more, fuel < more →
      FollowsSame w (w.walkOr after more) (w.walk fuel) (MayHaveSeen w base) := by
  intro fuel
  induction fuel with
  | zero =>
      intro base hfuel more hmore
      obtain ⟨more, rfl⟩ := Nat.exists_eq_succ_of_ne_zero (Nat.ne_of_gt hmore)
      refine ⟨fun id seen hk hseen => hseen.extend hk, fun r t ht seen hseen => ?_⟩
      -- every target has been seen
      have hm : t.id ∈ seen := by
        by_contra hm
        have hr : r ∈ unvisited w base :=
          mem_unvisited.2 ⟨hosts.lt_of_target ht, t, ht, fun h => hm (hseen.1 h)⟩
        have hpos := Finset.card_pos.2 ⟨r, hr⟩
        omega
      obtain ⟨id, kind, metadata, origin⟩ := t
      have hstop : w.walkOr after (more + 1) (.node id kind metadata origin) seen = (false, seen) := by
        have hm : id ∈ seen := hm
        have hk : w.knownAsync? id = none := hseen.2 id hm
        simp [World.walkOr, Schema.reachesAsync, hk, hm]
      rw [hstop]
      exact ⟨rfl, hseen⟩
  | succ fuel ih =>
      intro base hfuel more hmore
      obtain ⟨more, rfl⟩ := Nat.exists_eq_succ_of_ne_zero (Nat.ne_of_gt (Nat.zero_lt_of_lt hmore))
      refine ⟨fun id seen hk hseen => hseen.extend hk, fun r t ht seen hseen => ?_⟩
      obtain ⟨id, kind, metadata, origin⟩ := t
      refine reachesAsync_node_alike _ hseen fun hk hm => ?_
      -- from here on one reference less is left
      have hlt : (unvisited w (id :: seen)).card < (unvisited w seen).card :=
        card_unvisited_lt hosts ht hm
      have hle := Finset.card_le_card (unvisited_mono (w := w) hseen.1)
      have halike := ih (id :: seen) (by omega) more (Nat.lt_of_succ_lt_succ hmore)
      obtain ⟨heq, hmay⟩ := Kind.reachesAsync_alike halike kind (id :: seen)
        ⟨List.Subset.refl _, (hseen.extend hk).2⟩
      exact ⟨heq, List.Subset.trans (hseen.extend hk).1 hmay.1, hmay.2⟩

/-- **The walk ends**: after the node that it began with and as many references as there are, it has
nowhere left to go on. -/
theorem World.walkOr_eq_walk (hosts : w.Hosts nodes) (s : Schema) (after : Schema → Walk)
    {fuel : Nat} (hfuel : w.nextReference < fuel) :
    w.walkOr after (fuel + 1) s [] = w.walk (w.nextReference + 1) s [] := by
  obtain ⟨id, kind, metadata, origin⟩ := s
  refine (reachesAsync_node_alike (MayHaveSeen w []) ⟨List.nil_subset _, ?_⟩
    fun hk _ => ?_).1
  · exact fun id hid => by cases hid
  · have hcard : (unvisited w []).card ≤ w.nextReference :=
      (Finset.card_filter_le _ _).trans (Finset.card_range _).le
    have halike := walkOr_alike hosts after w.nextReference [] hcard fuel hfuel
    exact Kind.reachesAsync_alike halike kind [id]
      ⟨List.nil_subset _, fun i hi => by rwa [List.mem_singleton.1 hi]⟩

end

/-! ### Queries and compilations -/

/-- The world with other cells. -/
def World.withCells (w : World) (parse : NodeId → Cell (Compiled ParseOperation))
    (serialize : NodeId → Cell (Compiled Operation)) (async : NodeId → Cell Bool) : World :=
  { w with parseCells := parse, serializeCells := serialize, asyncCells := async }

/-- **What a query or a compilation leaves**: between computations, the cells that were filled and
what else there was are the same, and every operation that is new embeds operations that are
compiled. -/
structure World.Completes (w : World) (nodes : List Schema) (w' : World) : Prop where
  rest : w' = w.withCells w'.parseCells w'.serializeCells w'.asyncCells
  quiet : w'.Quiet
  parse_kept : ∀ id c, w.parseCells id = .filled c → w'.parseCells id = .filled c
  serialize_kept : ∀ id c, w.serializeCells id = .filled c → w'.serializeCells id = .filled c
  async_kept : ∀ id b, w.asyncCells id = .filled b → w'.asyncCells id = .filled b
  parse_below : w.CellsClosed nodes w.parseCells w'.parseCells
  serialize_below : w.CellsClosed nodes w.serializeCells w'.serializeCells

section

variable {w w₀ : World} {nodes : List Schema} {s : Schema}

theorem World.CellsClosed.refl {α : Type} (w : World) (nodes : List Schema)
    (cells : NodeId → Cell α) : w.CellsClosed nodes cells cells := fun _ _ _ ha => .inl ha

/-- What a query changes: async cells that had been empty. -/
structure World.Asks (w w' : World) : Prop where
  rest : w' = w.withCells w.parseCells w.serializeCells w'.asyncCells
  quiet : ∀ id, w'.asyncCells id ≠ .filling
  kept : ∀ id b, w.asyncCells id = .filled b → w'.asyncCells id = .filled b

theorem World.Asks.refl (hq : ∀ id, w.asyncCells id ≠ .filling) : w.Asks w :=
  ⟨rfl, hq, fun _ _ h => h⟩

/-- **A query ends.** -/
theorem Schema.isAsync_asks (hq : ∀ id, w.asyncCells id ≠ .filling) (s : Schema) :
    ∃ b w', s.isAsync w = .ok (b, w') ∧ w.Asks w' := by
  cases hc : (w.parseCells s.id).content? with
  | some c =>
      refine ⟨c.operation.isAsync, w, ?_, .refl hq⟩
      simp only [Schema.isAsync, get_bind, hc]
      rfl
  | none =>
      cases ha : w.asyncCells s.id with
      | filling => exact absurd ha (hq s.id)
      | filled b =>
          refine ⟨b, w, ?_, .refl hq⟩
          simp only [Schema.isAsync, get_bind, hc, ha]
          rfl
      | empty =>
          -- the walk takes place while the cell is marked
          let marked : World := { w with asyncCells := updateAt w.asyncCells s.id .filling }
          let answer := (marked.walk (w.nextReference + 1) s []).1
          refine ⟨answer, { w with asyncCells := updateAt w.asyncCells s.id (.filled answer) }, ?_,
            rfl, updateAt_ne (by simp) hq, fun id b hb => ?_⟩
          · simp only [Schema.isAsync, get_bind, hc, ha, setAsyncCell, modify_bind]
            rw [pure_apply, updateAt_updateAt]
          · have hid : id ≠ s.id := by
              rintro rfl
              rw [ha] at hb
              cases hb
            exact (updateAt_other hid).trans hb

/-- What has happened while operations for parsing are compiled. -/
structure World.BuildsParsers (w₀ : World) (nodes : List Schema) (w : World) : Prop where
  rest : w = w₀.withCells w.parseCells w₀.serializeCells w.asyncCells
  quiet : ∀ id, w.asyncCells id ≠ .filling
  kept : ∀ id b, w₀.asyncCells id = .filled b → w.asyncCells id = .filled b
  below : w₀.CellsClosed nodes w₀.parseCells w.parseCells

/-- What has happened while operations for serializing are compiled. -/
structure World.BuildsSerializers (w₀ : World) (nodes : List Schema) (w : World) : Prop where
  rest : w = w₀.withCells w₀.parseCells w.serializeCells w₀.asyncCells
  below : w₀.CellsClosed nodes w₀.serializeCells w.serializeCells

theorem parseCompiler_governed (hosts : w₀.Hosts nodes) :
    parseCompiler.Governed w₀ nodes (w₀.BuildsParsers nodes) fun _ _ => True where
  cells_withCells _ _ := rfl
  bindings w hw := by rw [hw.rest]; rfl
  mark w hw s hs hc :=
    { rest := by rw [hw.rest]; rfl
      quiet := hw.quiet
      kept := hw.kept
      below := hw.below.set hosts hs
        (fun a ha => by rw [show w.parseCells s.id = _ from hc] at ha; cases ha)
        fun a ha => by cases ha }
  waits w hw s hs hc := by
    obtain ⟨b, w', hrun, hasks⟩ := Schema.isAsync_asks hw.quiet s
    have hparse : w'.parseCells = w.parseCells := by rw [hasks.rest]; rfl
    refine ⟨b, w', hrun, trivial, ⟨?_, hasks.quiet, fun id b hb => hasks.kept id b (hw.kept id b hb),
      by rw [hparse]; exact hw.below⟩, hparse⟩
    rw [hasks.rest, hw.rest]
    rfl
  fill w hw s hs b _ hc hbelow :=
    { rest := by rw [hw.rest]; rfl
      quiet := hw.quiet
      kept := hw.kept
      below := hw.below.set hosts hs
        (fun a ha => by rw [show w.parseCells s.id = _ from hc] at ha; cases ha)
        fun _ _ => hbelow }

theorem serializeCompiler_governed (hosts : w₀.Hosts nodes) :
    serializeCompiler.Governed w₀ nodes (w₀.BuildsSerializers nodes) fun _ _ => True where
  cells_withCells _ _ := rfl
  bindings w hw := by rw [hw.rest]; rfl
  mark w hw s hs hc :=
    { rest := by rw [hw.rest]; rfl
      below := hw.below.set hosts hs
        (fun a ha => by rw [show w.serializeCells s.id = _ from hc] at ha; cases ha)
        fun a ha => by cases ha }
  waits w hw s hs hc := ⟨false, w, rfl, trivial, hw, rfl⟩
  fill w hw s hs b _ hc hbelow :=
    { rest := by rw [hw.rest]; rfl
      below := hw.below.set hosts hs
        (fun a ha => by rw [show w.serializeCells s.id = _ from hc] at ha; cases ha)
        fun _ _ => hbelow }

/-- **Asking whether a node waits ends.** -/
theorem Schema.isAsync_completes (nodes : List Schema) (hq : w.Quiet) (s : Schema) :
    ∃ b w', s.isAsync w = .ok (b, w') ∧ w.Completes nodes w' := by
  obtain ⟨b, w', hrun, hasks⟩ := Schema.isAsync_asks hq.async s
  have hparse : w'.parseCells = w.parseCells := by rw [hasks.rest]; rfl
  have hserialize : w'.serializeCells = w.serializeCells := by rw [hasks.rest]; rfl
  refine ⟨b, w', hrun, ?_⟩
  exact
    { rest := by rw [hparse, hserialize]; exact hasks.rest
      quiet := ⟨by rw [hparse]; exact hq.parse, by rw [hserialize]; exact hq.serialize, hasks.quiet⟩
      parse_kept := fun id c hc => by rwa [hparse]
      serialize_kept := fun id c hc => by rwa [hserialize]
      async_kept := hasks.kept
      parse_below := by rw [hparse]; exact .refl w nodes _
      serialize_below := by rw [hserialize]; exact .refl w nodes _ }

/-- **Compiling a node for parsing ends**, and fills its cell. -/
theorem Schema.parseOperation_completes (hosts : w.Hosts nodes) (hq : w.Quiet) (hs : s ∈ nodes) :
    ∃ c w', s.parseOperation w = .ok (c, w') ∧ w'.parseCells s.id = .filled c ∧
      w.Completes nodes w' := by
  obtain ⟨c, w', hrun, hfilled, hc⟩ := Schema.compile_ends hosts (parseCompiler_governed hosts) s w
    hs ⟨rfl, hq.async, fun _ _ hb => hb, .refl w nodes _⟩ fun id _ => hq.parse id
  have hstays := hfilled.stays
  have hserialize : w'.serializeCells = w.serializeCells := by rw [hstays.rest]; rfl
  refine ⟨c, w', hrun, hc, ?_⟩
  exact
    { rest := by rw [hserialize]; exact hstays.rest
      quiet := ⟨fun id hid => hq.parse id ((hfilled.busy id).1 hid),
        by rw [hserialize]; exact hq.serialize, hstays.quiet⟩
      parse_kept := hfilled.kept
      serialize_kept := fun id c hc => by rwa [hserialize]
      async_kept := hstays.kept
      parse_below := hstays.below
      serialize_below := by rw [hserialize]; exact .refl w nodes _ }

/-- **Compiling a node for serializing ends**, and fills its cell. -/
theorem Schema.serializeOperation_completes (hosts : w.Hosts nodes) (hq : w.Quiet) (hs : s ∈ nodes) :
    ∃ c w', s.serializeOperation w = .ok (c, w') ∧ w'.serializeCells s.id = .filled c ∧
      w.Completes nodes w' := by
  obtain ⟨c, w', hrun, hfilled, hc⟩ := Schema.compile_ends hosts (serializeCompiler_governed hosts) s
    w hs ⟨rfl, .refl w nodes _⟩ fun id _ => hq.serialize id
  have hstays := hfilled.stays
  have hparse : w'.parseCells = w.parseCells := by rw [hstays.rest]; rfl
  have hasync : w'.asyncCells = w.asyncCells := by rw [hstays.rest]; rfl
  refine ⟨c, w', hrun, hc, ?_⟩
  exact
    { rest := by rw [hparse, hasync]; exact hstays.rest
      quiet := ⟨by rw [hparse]; exact hq.parse,
        fun id hid => hq.serialize id ((hfilled.busy id).1 hid), by rw [hasync]; exact hq.async⟩
      parse_kept := fun id c hc => by rwa [hparse]
      serialize_kept := hfilled.kept
      async_kept := fun id b hb => by rwa [hasync]
      parse_below := by rw [hparse]; exact .refl w nodes _
      serialize_below := hstays.below }

end

/-! ### Every scene -/

/-- The same world but for what the cells hold. -/
def World.SameButCells (w w' : World) : Prop :=
  ∃ parse serialize async, w' = w.withCells parse serialize async

theorem World.SameButCells.hosts {w w' : World} {nodes : List Schema} (h : w.SameButCells w')
    (hosts : w.Hosts nodes) : w'.Hosts nodes := by
  obtain ⟨parse, serialize, async, rfl⟩ := h
  exact { hosts with }

namespace Scene

variable {σ : Scene} {s : Schema}

/-- **Queries and compilations end, in every scene and with any cells**, and start to fill no cell
that is being filled.  The walk for asynchronous functions ends by itself, also while cells are being
filled.  Around a compiled node the embedded operations are compiled: around each one that is new,
and, if the cells are those of the scene, around all of them. -/
theorem Arises.compiling_ends (h : σ.Arises) (hs : s ∈ σ.nodes) {w : World}
    (hw : σ.world.SameButCells w) :
    (∀ after fuel, w.nextReference < fuel →
      w.walkOr after (fuel + 1) s [] = w.walk (w.nextReference + 1) s []) ∧
    (w.Quiet →
      (∃ c w', s.parseOperation w = .ok (c, w') ∧ w'.parseCells s.id = .filled c ∧
        w.Completes σ.nodes w') ∧
      (∃ c w', s.serializeOperation w = .ok (c, w') ∧ w'.serializeCells s.id = .filled c ∧
        w.Completes σ.nodes w') ∧
      ∃ b w', s.isAsync w = .ok (b, w') ∧ w.Completes σ.nodes w') ∧
    (∀ c, σ.world.parseCells s.id = .filled c → ∃ w₁ : World, w₁.Before σ.world ∧
      ∀ t ∈ s.kind.embedded w₁, ∃ d, σ.world.parseCells t.id = .filled d) ∧
    ∀ c, σ.world.serializeCells s.id = .filled c → ∃ w₁ : World, w₁.Before σ.world ∧
      ∀ t ∈ s.kind.embedded w₁, ∃ d, σ.world.serializeCells t.id = .filled d := by
  obtain ⟨hsound, hshape⟩ := h.invariants
  have hosts := hw.hosts hsound.hosts
  refine ⟨fun after fuel hfuel => World.walkOr_eq_walk hosts s after hfuel, fun hq =>
    ⟨Schema.parseOperation_completes hosts hq hs, Schema.serializeOperation_completes hosts hq hs,
      Schema.isAsync_completes σ.nodes hq s⟩, fun c hc => ?_, fun c hc => ?_⟩
  · obtain ⟨w₁, -, -, hbefore, -, -, -, hbelow⟩ := hshape.parse s hs c hc
    exact ⟨w₁, hbefore, hbelow⟩
  · obtain ⟨w₁, -, hbefore, -, -, -, hbelow⟩ := hshape.serialize s hs c hc
    exact ⟨w₁, hbefore, hbelow⟩

/-- A reference that is bound to itself. -/
def knot : Schema := .node 0 (.recursive 0) Metadata.empty none

/-- A union whose only member is that reference. -/
def knotted : Schema := .node 1 (.union [knot]) Metadata.empty none

/-- The scene of these nodes. -/
def knottedScene : Scene where
  world := { made 2 1 with bindings := updateAt (fun _ => .unset) 0 (.live knot) }
  nodes := [knotted, knot]

/-- Cells with what nothing would have put there: the reference does nothing, and waits. -/
def oddCells : World :=
  knottedScene.world.withCells (fun _ => .empty)
    (updateAt (fun _ => .empty) 0 (.filled ⟨9, .noop⟩)) (updateAt (fun _ => .empty) 0 (.filled true))

theorem knottedScene_arises : knottedScene.Arises := by
  have h₁ : Step .building initial ⟨made 0 1, []⟩ := .reference rfl
  have h₂ : Step .building ⟨made 0 1, []⟩ ⟨made 1 1, [knot]⟩ := .made (fun t ht => by cases ht) trivial
  have h₃ : Step .building ⟨made 1 1, [knot]⟩ ⟨made 2 1, [knotted, knot]⟩ :=
    .made (fun t ht => by simpa [Kind.children] using ht) (List.cons_ne_nil _ _)
  have h₄ : Step .building ⟨made 2 1, [knotted, knot]⟩ knottedScene :=
    .bind Nat.zero_lt_one rfl (List.mem_cons_of_mem _ (List.mem_singleton_self _)) rfl
  exact .tail (.tail (.tail (.single (.inl ⟨_, h₁⟩)) (.inl ⟨_, h₂⟩)) (.inl ⟨_, h₃⟩)) (.inl ⟨_, h₄⟩)

theorem oddCells_quiet : oddCells.Quiet where
  parse _ h := by cases h
  serialize := updateAt_ne (by simp) fun _ h => by cases h
  async := updateAt_ne (by simp) fun _ h => by cases h

/-- Compiling a union around a reference that is bound to itself, with odd cells. -/
theorem compiling_ends_knotted :
    knottedScene.Arises ∧ knotted ∈ knottedScene.nodes ∧ knottedScene.world.SameButCells oddCells ∧
      oddCells.Quiet ∧
      ∃ c w', knotted.parseOperation oddCells = .ok (c, w') ∧
        w'.parseCells knotted.id = .filled c ∧ oddCells.Completes knottedScene.nodes w' := by
  have hm : knotted ∈ knottedScene.nodes := List.mem_cons_self ..
  have hw : knottedScene.world.SameButCells oddCells := ⟨_, _, _, rfl⟩
  exact ⟨knottedScene_arises, hm, hw, oddCells_quiet,
    ((Arises.compiling_ends knottedScene_arises hm hw).2.1 oddCells_quiet).1⟩

end Scene

end Schemata
