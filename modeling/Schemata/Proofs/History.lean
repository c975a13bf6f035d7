/-
**Histories of a world.**

A world begins with nothing built.  From then on nodes are made from nodes that are there,
references are handed out and bound, the configuration is set, schemas that nothing holds are let
go, nodes are asked whether they wait and compiled, and copies with other metadata are made, in any
order.  A scene is a world with the nodes made so far.

Two invariants hold of all scenes that such a history leads to.  The world is sound, and each
operation has the shape that its kind had when it was compiled: it is built around the operations
that the nodes below have, now as then.

Main definitions:

* `Schemata.Scene`, `Schemata.Scene.Step`, `Schemata.Scene.Reachable` — scenes and their history;
* `Schemata.Scene.Settled` — histories in which everything is bound before anything is used;
* `Schemata.World.Before`, `Schemata.World.Shaped` — what is left of the time of compiling.

Main results:

* `Schemata.Scene.Reachable.sound`, `Schemata.Scene.Reachable.shaped` — **the invariants**;
* `Schemata.World.Sound.parsePlan_shape` — the shape of every planned operation.
-/

import Schemata.Build
import Schemata.Liveness
import Schemata.Proofs.Later

set_option relaxedAutoImplicit false
set_option autoImplicit false

namespace Schemata

/-! ### Scenes -/

/-- A world with the nodes made so far. -/
structure Scene where
  world : World
  nodes : List Schema

/-- Building a graph, or using what is built. -/
inductive Phase where
  | building
  | using
deriving DecidableEq

namespace Scene

/-- The scene in which nothing has been built. -/
def initial : Scene := ⟨World.initial, []⟩

/-- **One step of a history.**  Copies with other metadata are made in both phases. -/
inductive Step : Phase → Scene → Scene → Prop
  | fresh {σ : Scene} {kind : Kind} {s : Schema} {w : World} :
      (∀ t ∈ kind.children, t ∈ σ.nodes) → kind.Formed →
      Schema.fresh kind σ.world = .ok (s, w) → Step .building σ ⟨w, s :: σ.nodes⟩
  | withPolicy {σ : Scene} {s t : Schema} {fields : List (String × Schema)}
      {own : Option UnknownKeys} {policy : UnknownKeys} {w : World} : s ∈ σ.nodes →
      s.kind = .object fields own → s.withPolicy policy σ.world = .ok (t, w) →
      Step .building σ ⟨w, t :: σ.nodes⟩
  | reference {σ : Scene} {r : Reference} {w : World} :
      newReference σ.world = .ok (r, w) → Step .building σ ⟨w, σ.nodes⟩
  | bind {σ : Scene} {r : Reference} {s : Schema} {w : World} : r < σ.world.nextReference →
      σ.world.bindings r = .unset → s ∈ σ.nodes →
      bindReference r (.live s) σ.world = .ok ((), w) → Step .building σ ⟨w, σ.nodes⟩
  | configure {σ : Scene} (config : Config) :
      Step .building σ ⟨{ σ.world with config := config }, σ.nodes⟩
  | release {σ : Scene} (roots : List Schema) :
      Step .building σ ⟨σ.world.release roots, σ.nodes⟩
  | withMetadata {σ : Scene} (phase : Phase) {s t : Schema} {update : Metadata → Metadata}
      {w : World} : s ∈ σ.nodes → s.withMetadata update σ.world = .ok (t, w) →
      Step phase σ ⟨w, t :: σ.nodes⟩
  | isAsync {σ : Scene} {s : Schema} {b : Bool} {w : World} : s ∈ σ.nodes →
      s.isAsync σ.world = .ok (b, w) → Step .using σ ⟨w, σ.nodes⟩
  | parseOperation {σ : Scene} {s : Schema} {c : Compiled ParseOperation} {w : World} :
      s ∈ σ.nodes → s.parseOperation σ.world = .ok (c, w) → Step .using σ ⟨w, σ.nodes⟩
  | serializeOperation {σ : Scene} {s : Schema} {c : Compiled Operation} {w : World} :
      s ∈ σ.nodes → s.serializeOperation σ.world = .ok (c, w) → Step .using σ ⟨w, σ.nodes⟩

/-- Steps of both phases in any order. -/
def Leads (σ τ : Scene) : Prop := Relation.ReflTransGen (fun σ τ => ∃ phase, Step phase σ τ) σ τ

/-- **The scenes that a history leads to.** -/
def Reachable (σ : Scene) : Prop := initial.Leads σ

/-- Every reference of a node stands for a schema. -/
def Resolved (σ : Scene) : Prop :=
  ∀ s ∈ σ.nodes, ∀ r, s.kind = .recursive r → ∃ t, σ.world.target? r = some t

/-- **The scenes of a history in which everything is bound before anything is used.** -/
def Settled (σ : Scene) : Prop :=
  ∃ σ₀, Relation.ReflTransGen (Step .building) initial σ₀ ∧ σ₀.Resolved ∧
    Relation.ReflTransGen (Step .using) σ₀ σ

end Scene

/-- A world in which nothing has happened but that so many nodes and references have been made. -/
def Scene.made (nodes references : Nat) : World :=
  { World.initial with nextNode := nodes, nextReference := references }

/-- Such a world with one more node. -/
theorem Scene.Step.made {n references : Nat} {kind : Kind} {nodes : List Schema}
    (hchildren : ∀ t ∈ kind.children, t ∈ nodes) (hformed : kind.Formed) :
    Step .building ⟨Scene.made n references, nodes⟩
      ⟨Scene.made (n + 1) references, .node n kind Metadata.empty none :: nodes⟩ :=
  .fresh hchildren hformed rfl

/-! ### What is left of the time of compiling -/

namespace World

/-- An earlier world: what is not bound now was not bound then, and what is bound to a live schema
now was bound to it then, or not yet. -/
structure Before (w₁ w : World) : Prop where
  unset : ∀ r, w.bindings r = .unset → w₁.bindings r = .unset
  live : ∀ r t, w.target? r = some t → w₁.bindings r = .unset ∨ w₁.target? r = some t

/-- A world with the same bindings and configuration. -/
def SameSettings (w₁ w : World) : Prop := w₁.bindings = w.bindings ∧ w₁.config = w.config

/-- **Each operation has the shape that its kind had when it was compiled**, for some node of the
same kind and in a world `w₁` of that time, around the operations of the nodes below. -/
structure Shaped (Then : World → World → Prop) (w : World) (nodes : List Schema) : Prop where
  parse : ∀ s ∈ nodes, ∀ c, w.parseCells s.id = .filled c →
    ∃ w₁ o waits, Then w₁ w ∧ o ∈ nodes ∧ o.kind = s.kind ∧
      c = ⟨o.id, s.kind.parser w₁ o.id waits w.parserOf⟩ ∧
      ∀ t ∈ s.kind.embedded w₁, ∃ b, w.parseCells t.id = .filled b
  serialize : ∀ s ∈ nodes, ∀ c, w.serializeCells s.id = .filled c →
    ∃ w₁ o, Then w₁ w ∧ o ∈ nodes ∧ o.kind = s.kind ∧
      c = s.kind.serializer w₁ o.id w.serializerOf ∧
      ∀ t ∈ s.kind.embedded w₁, ∃ b, w.serializeCells t.id = .filled b

section

variable {Then : World → World → Prop} {w w' w₁ : World} {nodes : List Schema} {s t : Schema}

theorem Before.refl (w : World) : w.Before w := ⟨fun _ h => h, fun _ _ h => .inr h⟩

theorem SameSettings.refl (w : World) : w.SameSettings w := ⟨rfl, rfl⟩

theorem parserOf_of_filled {c : Compiled ParseOperation} (h : w.parseCells s.id = .filled c) :
    w.parserOf s = c.operation := by
  rw [parserOf, h]
  rfl

theorem serializerOf_of_filled {c : Compiled Operation} (h : w.serializeCells s.id = .filled c) :
    w.serializerOf s = c := by
  rw [serializerOf, h]
  rfl

/-- **The shape of every planned parse operation.** -/
theorem Sound.parsePlan_shape (h : w.Sound nodes) (hshape : w.Shaped Then nodes) (hrefl : Then w w)
    (hs : s ∈ nodes) :
    ∃ w₁ o waits, Then w₁ w ∧ o ∈ nodes ∧ o.kind = s.kind ∧
      w.parsePlan s = ⟨o.id, s.kind.parser w₁ o.id waits w.planned⟩ := by
  cases hc : w.parseCells s.id with
  | filled c =>
      obtain ⟨w₁, o, waits, hw₁, ho, hkind, hshape, hbelow⟩ := hshape.parse s hs c hc
      refine ⟨w₁, o, waits, hw₁, ho, hkind, ?_⟩
      rw [parsePlan_of_filled hc, hshape]
      refine congrArg (Compiled.mk o.id) (Kind.parser_congr rfl rfl _ _ fun t ht => ?_)
      obtain ⟨b, hb⟩ := hbelow t ht
      rw [parserOf_of_filled hb, planned, parsePlan_of_filled hb]
  | empty | filling =>
      refine ⟨w, s, w.answer s, hrefl, hs, rfl, ?_⟩
      rw [parsePlan_of_unfilled (by rw [hc]; rfl)]
      refine congrArg (Compiled.mk s.id) (Kind.parser_congr rfl rfl _ _ fun t ht => ?_)
      rw [if_pos (h.hosts.below s hs t (Kind.embedded_subset _ _ ht)).2]

/-- **The shape of every planned serialize operation.** -/
theorem Sound.serializePlan_shape (h : w.Sound nodes) (hshape : w.Shaped Then nodes)
    (hrefl : Then w w) (hs : s ∈ nodes) :
    ∃ w₁ o, Then w₁ w ∧ o ∈ nodes ∧ o.kind = s.kind ∧
      w.serializePlan s = s.kind.serializer w₁ o.id w.serializePlan := by
  cases hc : w.serializeCells s.id with
  | filled c =>
      obtain ⟨w₁, o, hw₁, ho, hkind, hshape, hbelow⟩ := hshape.serialize s hs c hc
      refine ⟨w₁, o, hw₁, ho, hkind, ?_⟩
      rw [serializePlan_of_filled hc, hshape]
      refine Kind.serializer_congr rfl _ fun t ht => ?_
      obtain ⟨b, hb⟩ := hbelow t ht
      rw [serializerOf_of_filled hb, serializePlan_of_filled hb]
  | empty | filling =>
      refine ⟨w, s, hrefl, hs, rfl, ?_⟩
      rw [serializePlan_of_unfilled (by rw [hc]; rfl)]
      refine Kind.serializer_congr rfl _ fun t ht => ?_
      rw [if_pos (h.hosts.below s hs t (Kind.embedded_subset _ _ ht)).2]

/-- Operations keep their shape in the worlds ahead. -/
theorem Shaped.later (h : w.Sound nodes) (hshape : w.Shaped Then nodes) (hl : w.Later nodes w')
    (hthen : ∀ w₁, Then w₁ w → Then w₁ w') (hnow : Then w w') : w'.Shaped Then nodes where
  parse s hs c hc := by
    cases hc₀ : w.parseCells s.id with
    | filled c₀ =>
        have hkept := hl.ahead.parse.kept
        obtain ⟨w₁, o, waits, hw₁, ho, hkind, rfl, hbelow⟩ := hshape.parse s hs c₀ hc₀
        rw [hkept _ _ hc₀] at hc
        cases hc
        refine ⟨w₁, o, waits, hthen w₁ hw₁, ho, hkind, ?_, fun t ht => ?_⟩
        · refine congrArg (Compiled.mk o.id) (Kind.parser_congr rfl rfl _ _ fun t ht => ?_)
          obtain ⟨b, hb⟩ := hbelow t ht
          rw [parserOf_of_filled hb, parserOf_of_filled (hkept _ b hb)]
        · obtain ⟨b, hb⟩ := hbelow t ht
          exact ⟨b, hkept _ b hb⟩
    | empty | filling =>
        have hbelow := (hl.ahead.parse.closed s hs c hc).resolve_left (by simp [hc₀])
        refine ⟨w, s, w.answer s, hnow, hs, rfl, ?_, hbelow⟩
        rw [hl.ahead.parse.planned s hs c hc, parsePlan_of_unfilled (by rw [hc₀]; rfl)]
        refine congrArg (Compiled.mk s.id) (Kind.parser_congr rfl rfl _ _ fun t ht => ?_)
        obtain ⟨ht', hlt⟩ := h.hosts.below s hs t (Kind.embedded_subset _ _ ht)
        obtain ⟨b, hb⟩ := hbelow t ht
        rw [if_pos hlt, parserOf_of_filled hb, hl.ahead.parse.planned t ht' b hb]
  serialize s hs c hc := by
    cases hc₀ : w.serializeCells s.id with
    | filled c₀ =>
        have hkept := hl.ahead.serialize.kept
        obtain ⟨w₁, o, hw₁, ho, hkind, rfl, hbelow⟩ := hshape.serialize s hs c₀ hc₀
        rw [hkept _ _ hc₀] at hc
        cases hc
        refine ⟨w₁, o, hthen w₁ hw₁, ho, hkind, ?_, fun t ht => ?_⟩
        · refine Kind.serializer_congr rfl _ fun t ht => ?_
          obtain ⟨b, hb⟩ := hbelow t ht
          rw [serializerOf_of_filled hb, serializerOf_of_filled (hkept _ b hb)]
        · obtain ⟨b, hb⟩ := hbelow t ht
          exact ⟨b, hkept _ b hb⟩
    | empty | filling =>
        have hbelow := (hl.ahead.serialize.closed s hs c hc).resolve_left (by simp [hc₀])
        refine ⟨w, s, hnow, hs, rfl, ?_, hbelow⟩
        rw [hl.ahead.serialize.planned s hs c hc, serializePlan_of_unfilled (by rw [hc₀]; rfl)]
        refine Kind.serializer_congr rfl _ fun t ht => ?_
        obtain ⟨ht', hlt⟩ := h.hosts.below s hs t (Kind.embedded_subset _ _ ht)
        obtain ⟨b, hb⟩ := hbelow t ht
        rw [if_pos hlt, serializerOf_of_filled hb, hl.ahead.serialize.planned t ht' b hb]

/-- Operations keep their shape when the bindings or the configuration change. -/
theorem Shaped.rebind (hshape : w.Shaped Then nodes) (hp : w'.parseCells = w.parseCells)
    (hs : w'.serializeCells = w.serializeCells) (hthen : ∀ w₁, Then w₁ w → Then w₁ w') :
    w'.Shaped Then nodes where
  parse s hm c hc := by
    rw [hp] at hc
    obtain ⟨w₁, o, waits, hw₁, ho, hkind, rfl, hbelow⟩ := hshape.parse s hm c hc
    have hparser : w'.parserOf = w.parserOf := by
      funext t
      rw [parserOf, parserOf, hp]
    exact ⟨w₁, o, waits, hthen w₁ hw₁, ho, hkind, by rw [hparser], by rwa [hp]⟩
  serialize s hm c hc := by
    rw [hs] at hc
    obtain ⟨w₁, o, hw₁, ho, hkind, rfl, hbelow⟩ := hshape.serialize s hm c hc
    have hserializer : w'.serializerOf = w.serializerOf := by
      funext t
      rw [serializerOf, serializerOf, hs]
    exact ⟨w₁, o, hthen w₁ hw₁, ho, hkind, by rw [hserializer], by rwa [hs]⟩

end

/-! ### New nodes -/

/-- The world with one more node, whose cells are given. -/
def withNode (w : World) (parse : Cell (Compiled ParseOperation))
    (serialize : Cell (Compiled Operation)) (async : Cell Bool) : World :=
  { w with
    nextNode := w.nextNode + 1
    parseCells := updateAt w.parseCells w.nextNode parse
    serializeCells := updateAt w.serializeCells w.nextNode serialize
    asyncCells := updateAt w.asyncCells w.nextNode async }

section

variable {Then : World → World → Prop} {w : World} {nodes : List Schema} {kind : Kind}
  {metadata : Metadata} {origin : Option Schema} {parse : Cell (Compiled ParseOperation)}
  {serialize : Cell (Compiled Operation)} {async : Cell Bool}

/-- The nodes with a new one. -/
theorem Hosts.withNode (h : w.Hosts nodes) (hbelow : ∀ t ∈ kind.children, t ∈ nodes)
    (hformed : kind.Formed) :
    (w.withNode parse serialize async).Hosts (.node w.nextNode kind metadata origin :: nodes) where
  identity s hs t ht hid := by
    rcases List.mem_cons.1 hs with rfl | hs <;> rcases List.mem_cons.1 ht with rfl | ht
    · rfl
    · exact absurd hid (Nat.ne_of_gt (h.known t ht))
    · exact absurd hid (Nat.ne_of_lt (h.known s hs))
    · exact h.identity s hs t ht hid
  below s hs t ht := by
    rcases List.mem_cons.1 hs with rfl | hs
    · exact ⟨List.mem_cons_of_mem _ (hbelow t ht), h.known t (hbelow t ht)⟩
    · exact ⟨List.mem_cons_of_mem _ (h.below s hs t ht).1, (h.below s hs t ht).2⟩
  formed s hs := by
    rcases List.mem_cons.1 hs with rfl | hs
    · exact hformed
    · exact h.formed s hs
  known s hs := by
    rcases List.mem_cons.1 hs with rfl | hs
    · exact Nat.lt_succ_self _
    · exact Nat.lt_succ_of_lt (h.known s hs)
  targets r t ht := List.mem_cons_of_mem _ (h.targets r t ht)
  unbound r hr := h.unbound r hr

/-- **A new node keeps a world sound**, if its cells agree and are not being filled. -/
theorem Sound.withNode (h : w.Sound nodes) (hbelow : ∀ t ∈ kind.children, t ∈ nodes)
    (hformed : kind.Formed) (hp : parse ≠ .filling) (hs : serialize ≠ .filling)
    (ha : async ≠ .filling)
    (hagree : ∀ c b, parse = .filled c → async = .filled b → b = c.operation.isAsync) :
    (w.withNode parse serialize async).Sound (.node w.nextNode kind metadata origin :: nodes) where
  hosts := h.hosts.withNode hbelow hformed
  quiet := ⟨updateAt_ne hp h.quiet.parse, updateAt_ne hs h.quiet.serialize,
    updateAt_ne ha h.quiet.async⟩
  blank :=
    ⟨fun id hid => (updateAt_other (Nat.ne_of_gt hid)).trans (h.blank.parse id (Nat.le_of_lt hid)),
      fun id hid =>
        (updateAt_other (Nat.ne_of_gt hid)).trans (h.blank.serialize id (Nat.le_of_lt hid)),
      fun id hid =>
        (updateAt_other (Nat.ne_of_gt hid)).trans (h.blank.async id (Nat.le_of_lt hid))⟩
  agree s hs c b hc hb := by
    rcases List.mem_cons.1 hs with rfl | hs
    · exact hagree c b ((updateAt_same ..).symm.trans hc) ((updateAt_same ..).symm.trans hb)
    · have hid : s.id ≠ w.nextNode := Nat.ne_of_lt (h.hosts.known s hs)
      exact h.agree s hs c b ((updateAt_other hid).symm.trans hc)
        ((updateAt_other hid).symm.trans hb)

/-- **A new node keeps the shape of operations**, if what its cells hold comes from a node of the
same kind. -/
theorem Shaped.withNode (h : w.Sound nodes) (hshape : w.Shaped Then nodes)
    (hthen : ∀ w₁, Then w₁ w → Then w₁ (w.withNode parse serialize async))
    (hp : ∀ c, parse = .filled c →
      ∃ s ∈ nodes, s.kind = kind ∧ w.parseCells s.id = .filled c)
    (hs : ∀ c, serialize = .filled c →
      ∃ s ∈ nodes, s.kind = kind ∧ w.serializeCells s.id = .filled c) :
    (w.withNode parse serialize async).Shaped Then
      (.node w.nextNode kind metadata origin :: nodes) := by
  have other : ∀ t ∈ nodes, t.id ≠ w.nextNode := fun t ht => Nat.ne_of_lt (h.hosts.known t ht)
  have hparse : ∀ t ∈ nodes, (w.withNode parse serialize async).parseCells t.id =
      w.parseCells t.id := fun t ht => updateAt_other (other t ht)
  have hserialize : ∀ t ∈ nodes, (w.withNode parse serialize async).serializeCells t.id =
      w.serializeCells t.id := fun t ht => updateAt_other (other t ht)
  have source : ∀ {α : Type} {cell : Cell α} {cells : NodeId → Cell α} {s : Schema} {a : α},
      (∀ a, cell = .filled a → ∃ s ∈ nodes, s.kind = kind ∧ cells s.id = .filled a) →
      s ∈ Schema.node w.nextNode kind metadata origin :: nodes →
      updateAt cells w.nextNode cell s.id = .filled a →
      ∃ o ∈ nodes, o.kind = s.kind ∧ cells o.id = .filled a := by
    intro α cell cells s a hcell hs ha
    rcases List.mem_cons.1 hs with rfl | hs
    · exact hcell a ((updateAt_same ..).symm.trans ha)
    · exact ⟨s, hs, rfl, (updateAt_other (other s hs)).symm.trans ha⟩
  constructor
  · intro s hm c hc
    obtain ⟨x, hx, hkind, hc⟩ := source hp hm hc
    obtain ⟨w₁, o, waits, hw₁, ho, hkind', rfl, hbelow⟩ := hshape.parse x hx c hc
    have hmem : ∀ t ∈ s.kind.embedded w₁, t ∈ nodes := fun t ht =>
      (h.hosts.below x hx t (Kind.embedded_subset w₁ _ (by rwa [hkind]))).1
    refine ⟨w₁, o, waits, hthen w₁ hw₁, List.mem_cons_of_mem _ ho, hkind'.trans hkind, ?_,
      fun t ht => ?_⟩
    · rw [hkind]
      refine congrArg (Compiled.mk o.id) (Kind.parser_congr rfl rfl _ _ fun t ht => ?_)
      rw [parserOf, parserOf, hparse t (hmem t ht)]
    · rw [hparse t (hmem t ht)]
      exact hbelow t (by rwa [hkind])
  · intro s hm c hc
    obtain ⟨x, hx, hkind, hc⟩ := source hs hm hc
    obtain ⟨w₁, o, hw₁, ho, hkind', rfl, hbelow⟩ := hshape.serialize x hx c hc
    have hmem : ∀ t ∈ s.kind.embedded w₁, t ∈ nodes := fun t ht =>
      (h.hosts.below x hx t (Kind.embedded_subset w₁ _ (by rwa [hkind]))).1
    refine ⟨w₁, o, hthen w₁ hw₁, List.mem_cons_of_mem _ ho, hkind'.trans hkind, ?_, fun t ht => ?_⟩
    · rw [hkind]
      refine Kind.serializer_congr rfl _ fun t ht => ?_
      rw [serializerOf, serializerOf, hserialize t (hmem t ht)]
    · rw [hserialize t (hmem t ht)]
      exact hbelow t (by rwa [hkind])

end

end World

/-! ### What a step changes -/

/-- What the cells of a new node hold comes from a node of the same kind. -/
structure Scene.Inherits (σ : Scene) (kind : Kind) (p : Cell (Compiled ParseOperation))
    (q : Cell (Compiled Operation)) (a : Cell Bool) : Prop where
  parse : ∀ c, p = .filled c → ∃ s ∈ σ.nodes, s.kind = kind ∧ σ.world.parseCells s.id = .filled c
  serialize : ∀ c, q = .filled c →
    ∃ s ∈ σ.nodes, s.kind = kind ∧ σ.world.serializeCells s.id = .filled c
  async : ∀ b, a = .filled b → ∃ s ∈ σ.nodes, s.kind = kind ∧ σ.world.asyncCells s.id = .filled b
  quiet : p ≠ .filling ∧ q ≠ .filling ∧ a ≠ .filling
  agree : ∀ c b, p = .filled c → a = .filled b → b = c.operation.isAsync

/-- **What a step changes**: cells are filled as planned, a node is made, or, while the graph is
built, bindings and configuration change. -/
inductive Scene.Change : Phase → Scene → Scene → Prop
  | later {phase : Phase} {σ : Scene} {w : World} : σ.world.Later σ.nodes w →
      Scene.Change phase σ ⟨w, σ.nodes⟩
  | node {phase : Phase} {σ : Scene} {kind : Kind} {metadata : Metadata} {origin : Option Schema}
      {parse : Cell (Compiled ParseOperation)} {serialize : Cell (Compiled Operation)}
      {async : Cell Bool} : (∀ t ∈ kind.children, t ∈ σ.nodes) → kind.Formed →
      σ.Inherits kind parse serialize async →
      Scene.Change phase σ ⟨σ.world.withNode parse serialize async,
        .node σ.world.nextNode kind metadata origin :: σ.nodes⟩
  | settings {σ : Scene} {w : World} : w.nextNode = σ.world.nextNode →
      w.parseCells = σ.world.parseCells → w.serializeCells = σ.world.serializeCells →
      w.asyncCells = σ.world.asyncCells → w.Hosts σ.nodes →
      (∀ w₁ : World, w₁.Before σ.world → w₁.Before w) → Change .building σ ⟨w, σ.nodes⟩

section

variable {phase : Phase} {σ τ : Scene} {w : World} {s t : Schema}

/-- Without anything to inherit the cells of a new node stay empty. -/
theorem World.withNode_empty (h : w.Blank w.nextNode) :
    w.withNode .empty .empty .empty = { w with nextNode := w.nextNode + 1 } := by
  have updateAt_self : ∀ {α : Type} (f : Nat → α) (n : Nat) (a : α), f n = a →
      updateAt f n a = f := by
    intro α f n a hf
    funext m
    by_cases hm : m = n
    · simp [hm, hf]
    · exact updateAt_other hm
  simp only [World.withNode]
  rw [updateAt_self _ _ _ (h.parse _ (Nat.le_refl _)),
    updateAt_self _ _ _ (h.serialize _ (Nat.le_refl _)),
    updateAt_self _ _ _ (h.async _ (Nat.le_refl _))]

theorem Scene.Inherits.nothing (σ : Scene) (kind : Kind) : σ.Inherits kind .empty .empty .empty where
  parse _ hc := by cases hc
  serialize _ hc := by cases hc
  async _ hb := by cases hb
  quiet := ⟨by simp, by simp, by simp⟩
  agree c b hc := by cases hc

/-- A node that shares nothing. -/
theorem Scene.Change.fresh (h : σ.world.Sound σ.nodes) {kind : Kind}
    (hbelow : ∀ t ∈ kind.children, t ∈ σ.nodes) (hformed : kind.Formed) (metadata : Metadata)
    (origin : Option Schema) :
    Scene.Change phase σ ⟨{ σ.world with nextNode := σ.world.nextNode + 1 },
      .node σ.world.nextNode kind metadata origin :: σ.nodes⟩ := by
  rw [← World.withNode_empty h.blank]
  exact .node hbelow hformed (.nothing σ kind)

/-- A copy shares what is compiled for the node that it copies. -/
theorem Scene.Change.copy (h : σ.world.Sound σ.nodes) (hs : s ∈ σ.nodes) (metadata : Metadata) :
    Scene.Change phase σ ⟨σ.world.withNode (σ.world.parseCells s.id) (σ.world.serializeCells s.id)
        (σ.world.asyncCells s.id),
      .node σ.world.nextNode s.kind metadata (some s) :: σ.nodes⟩ :=
  .node (fun t ht => (h.hosts.below s hs t ht).1) (h.hosts.formed s hs)
    { parse := fun _ hc => ⟨s, hs, rfl, hc⟩
      serialize := fun _ hc => ⟨s, hs, rfl, hc⟩
      async := fun _ hb => ⟨s, hs, rfl, hb⟩
      quiet := ⟨h.quiet.parse _, h.quiet.serialize _, h.quiet.async _⟩
      agree := h.agree s hs }

/-- Letting go of schemas changes bindings only, and binds nothing to another schema. -/
theorem World.release_bindings (w : World) (roots : List Schema) (r : Reference) :
    (w.release roots).bindings r = w.bindings r ∨
      (r < w.nextReference ∧ (w.release roots).bindings r = .gone) := by
  have fold : ∀ (stale : List Reference) (f : Reference → Binding),
      (stale.foldl (fun f r => updateAt f r .gone) f) r = f r ∨
        (r ∈ stale ∧ (stale.foldl (fun f r => updateAt f r .gone) f) r = .gone) := by
    intro stale
    induction stale with
    | nil => exact fun f => .inl rfl
    | cons x rest ih =>
        intro f
        rw [List.foldl_cons]
        rcases ih (updateAt f x .gone) with h | ⟨hm, h⟩
        · by_cases hx : r = x
          · subst hx
            exact .inr ⟨List.mem_cons_self .., h.trans (updateAt_same ..)⟩
          · exact .inl (h.trans (updateAt_other hx))
        · exact .inr ⟨List.mem_cons_of_mem _ hm, h⟩
  refine (fold _ w.bindings).imp id fun h => ⟨?_, h.2⟩
  exact List.mem_range.1 (List.mem_filter.1 h.1).1

theorem World.release_target {r : Reference} {roots : List Schema}
    (h : (w.release roots).target? r = some t) : w.target? r = some t := by
  rcases w.release_bindings roots r with hb | ⟨-, hb⟩
  · rwa [World.target?, ← hb]
  · simp [World.target?, hb] at h

/-- A reference is bound to a node, having been bound to nothing. -/
theorem World.Hosts.bind (h : w.Hosts σ.nodes) {r : Reference} (hr : r < w.nextReference)
    (hs : s ∈ σ.nodes) :
    ({ w with bindings := updateAt w.bindings r (.live s) } : World).Hosts σ.nodes :=
  { h with
    targets := fun r' t ht => by
      by_cases hid : r' = r
      · subst hid
        simp only [World.target?, updateAt_same, Option.some.injEq] at ht
        exact ht ▸ hs
      · simp only [World.target?, updateAt_other hid] at ht
        exact h.targets r' t ht
    unbound := fun r' hr' =>
      (updateAt_other (Nat.ne_of_gt (Nat.lt_of_lt_of_le hr hr'))).trans (h.unbound r' hr') }

/-- **What each step changes.** -/
theorem Scene.Step.change (h : Step phase σ τ) (hs : σ.world.Sound σ.nodes) :
    Scene.Change phase σ τ := by
  cases h with
  | fresh hbelow hformed hrun =>
      cases hrun
      exact .fresh hs hbelow hformed _ _
  | withPolicy hm hkind hrun =>
      simp only [Schema.withPolicy, hkind] at hrun
      cases hrun
      have hbelow := hs.hosts.below _ hm
      have hformed := hs.hosts.formed _ hm
      simp only [Schema.children, hkind] at hbelow hformed
      refine .fresh hs ?_ ?_ _ _
      · exact fun t ht => (hbelow t ht).1
      · exact hformed
  | reference hrun =>
      cases hrun
      exact .settings rfl rfl rfl rfl
        { hs.hosts with unbound := fun r hr => hs.hosts.unbound r (Nat.le_of_succ_le hr) }
        fun _ h => ⟨h.unset, h.live⟩
  | @bind _ r _ _ hr hunset hm hrun =>
      cases hrun
      refine .settings rfl rfl rfl rfl (hs.hosts.bind hr hm) fun w₁ h => ⟨fun r' hr' => ?_, ?_⟩
      · by_cases hid : r' = r
        · subst hid
          simp at hr'
        · exact h.unset r' ((updateAt_other hid).symm.trans hr')
      · intro r' t ht
        by_cases hid : r' = r
        · subst hid
          exact .inl (h.unset r' hunset)
        · simp only [World.target?, updateAt_other hid] at ht
          exact h.live r' t ht
  | configure config =>
      exact .settings rfl rfl rfl rfl { hs.hosts with } fun _ h => ⟨h.unset, h.live⟩
  | release roots =>
      refine .settings rfl rfl rfl rfl { hs.hosts with targets := ?_, unbound := ?_ } ?_
      · exact fun r t ht => hs.hosts.targets r t (World.release_target ht)
      · intro r hr
        rcases σ.world.release_bindings roots r with hb | ⟨hlt, -⟩
        · rw [hb]
          exact hs.hosts.unbound r hr
        · exact absurd hr (Nat.not_le_of_gt hlt)
      · refine fun w₁ h => ⟨fun r hr => ?_, fun r t ht => h.live r t (World.release_target ht)⟩
        rcases σ.world.release_bindings roots r with hb | ⟨-, hb⟩
        · exact h.unset r (hb ▸ hr)
        · rw [hb] at hr
          cases hr
  | withMetadata phase hm hrun =>
      cases hrun
      exact .copy hs hm _
  | isAsync hm hrun =>
      obtain ⟨w', hw', hrun'⟩ := Schema.isAsync_gives hs hm σ.world hs.later
      rw [hrun] at hrun'
      cases hrun'
      exact .later hw'
  | parseOperation hm hrun =>
      obtain ⟨w', hw', hrun'⟩ := Schema.parseOperation_gives hs hm σ.world hs.later
      rw [hrun] at hrun'
      cases hrun'
      exact .later hw'
  | serializeOperation hm hrun =>
      obtain ⟨w', hw', hrun'⟩ := Schema.serializeOperation_gives hs hm σ.world hs.later
      rw [hrun] at hrun'
      cases hrun'
      exact .later hw'

/-! ### The invariants -/

namespace Scene

theorem Change.sound (h : Change phase σ τ) (hs : σ.world.Sound σ.nodes) :
    τ.world.Sound τ.nodes := by
  cases h with
  | later hl => exact hl.sound hs
  | node hbelow hformed hi =>
      exact hs.withNode hbelow hformed hi.quiet.1 hi.quiet.2.1 hi.quiet.2.2 hi.agree
  | settings hn hp hq ha hosts _ =>
      exact
        { hosts := hosts
          quiet := ⟨by rw [hp]; exact hs.quiet.parse, by rw [hq]; exact hs.quiet.serialize,
            by rw [ha]; exact hs.quiet.async⟩
          blank := by
            rw [hn]
            exact ⟨by rw [hp]; exact hs.blank.parse, by rw [hq]; exact hs.blank.serialize,
              by rw [ha]; exact hs.blank.async⟩
          agree := by rw [hp, ha]; exact hs.agree }

theorem Change.shaped (h : Change phase σ τ) (hs : σ.world.Sound σ.nodes)
    (hshape : σ.world.Shaped World.Before σ.nodes) : τ.world.Shaped World.Before τ.nodes := by
  cases h with
  | later hl =>
      have same : ∀ w₁ : World, w₁.Before σ.world → w₁.Before _ := fun w₁ h =>
        ⟨fun r hr => h.unset r (by rwa [← hl.ahead.bindings]),
          fun r t ht => h.live r t (by rwa [← hl.ahead.target])⟩
      exact hshape.later hs hl same (same _ (.refl _))
  | node _ _ hi =>
      exact hshape.withNode hs (fun w₁ h => ⟨h.unset, h.live⟩) hi.parse hi.serialize
  | settings _ hp hq _ _ hbefore => exact hshape.rebind hp hq hbefore

/-- While a graph is used its settings stay. -/
theorem Change.settings_same (h : Change .using σ τ) : σ.world.SameSettings τ.world := by
  cases h with
  | later hl => exact ⟨hl.ahead.bindings.symm, hl.ahead.config.symm⟩
  | node => exact ⟨rfl, rfl⟩

/-- While a graph is used its operations keep the shape that the settings give them. -/
theorem Change.shaped_same (h : Change .using σ τ) (hs : σ.world.Sound σ.nodes)
    (hshape : σ.world.Shaped World.SameSettings σ.nodes) :
    τ.world.Shaped World.SameSettings τ.nodes := by
  have hsame := h.settings_same
  cases h with
  | later hl =>
      exact hshape.later hs hl (fun w₁ h => ⟨h.1.trans hsame.1, h.2.trans hsame.2⟩) hsame
  | node _ _ hi => exact hshape.withNode hs (fun w₁ h => h) hi.parse hi.serialize

/-- Nothing is compiled in the beginning. -/
theorem initial_sound : initial.world.Sound initial.nodes where
  hosts :=
    { identity := fun s hs => by cases hs
      below := fun s hs => by cases hs
      formed := fun s hs => by cases hs
      known := fun s hs => by cases hs
      targets := fun r t ht => by cases ht
      unbound := fun r _ => rfl }
  quiet := ⟨fun id h => (by cases h), fun id h => (by cases h), fun id h => (by cases h)⟩
  blank := ⟨fun id _ => rfl, fun id _ => rfl, fun id _ => rfl⟩
  agree s hs := by cases hs

theorem initial_shaped (Then : World → World → Prop) : initial.world.Shaped Then initial.nodes where
  parse s hs := by cases hs
  serialize s hs := by cases hs

/-- **A history keeps the world sound and its operations in shape.** -/
theorem Leads.invariants (h : σ.Leads τ) (hs : σ.world.Sound σ.nodes)
    (hshape : σ.world.Shaped World.Before σ.nodes) :
    τ.world.Sound τ.nodes ∧ τ.world.Shaped World.Before τ.nodes := by
  induction h with
  | refl => exact ⟨hs, hshape⟩
  | tail _ hstep ih =>
      obtain ⟨phase, hstep⟩ := hstep
      have hchange := hstep.change ih.1
      exact ⟨hchange.sound ih.1, hchange.shaped ih.1 ih.2⟩

theorem Reachable.sound (h : σ.Reachable) : σ.world.Sound σ.nodes :=
  (Leads.invariants h initial_sound (initial_shaped _)).1

theorem Reachable.shaped (h : σ.Reachable) : σ.world.Shaped World.Before σ.nodes :=
  (Leads.invariants h initial_sound (initial_shaped _)).2

/-! ### What is compiled stays compiled -/

/-- No node and no compiled operation is taken away. -/
structure Keeps (σ τ : Scene) : Prop where
  nodes : σ.nodes ⊆ τ.nodes
  parse : ∀ s ∈ σ.nodes, ∀ c, σ.world.parseCells s.id = .filled c →
    τ.world.parseCells s.id = .filled c
  serialize : ∀ s ∈ σ.nodes, ∀ c, σ.world.serializeCells s.id = .filled c →
    τ.world.serializeCells s.id = .filled c

theorem Change.kept (h : Change phase σ τ) (hs : σ.world.Sound σ.nodes) : σ.Keeps τ := by
  cases h with
  | later hl =>
      exact ⟨List.Subset.refl _, fun s _ c hc => hl.ahead.parse.kept _ c hc,
        fun s _ c hc => hl.ahead.serialize.kept _ c hc⟩
  | node =>
      have hother : ∀ s ∈ σ.nodes, s.id ≠ σ.world.nextNode := fun s hm =>
        Nat.ne_of_lt (hs.hosts.known s hm)
      exact ⟨List.subset_cons_self _ _, fun s hm c hc => (updateAt_other (hother s hm)).trans hc,
        fun s hm c hc => (updateAt_other (hother s hm)).trans hc⟩
  | settings _ hp hq _ _ _ =>
      exact ⟨List.Subset.refl _, fun s _ c hc => by rwa [hp], fun s _ c hc => by rwa [hq]⟩

/-- **No history takes a node or a compiled operation away.** -/
theorem Leads.kept (h : σ.Leads τ) (hs : σ.world.Sound σ.nodes)
    (hshape : σ.world.Shaped World.Before σ.nodes) : σ.Keeps τ := by
  induction h with
  | refl => exact ⟨List.Subset.refl _, fun s _ c hc => hc, fun s _ c hc => hc⟩
  | tail hlead hstep ih =>
      obtain ⟨phase, hstep⟩ := hstep
      have hsound := (Leads.invariants hlead hs hshape).1
      have hkept := (hstep.change hsound).kept hsound
      exact ⟨List.Subset.trans ih.nodes hkept.nodes,
        fun s hm c hc => hkept.parse s (ih.nodes hm) c (ih.parse s hm c hc),
        fun s hm c hc => hkept.serialize s (ih.nodes hm) c (ih.serialize s hm c hc)⟩

end Scene

end

end Schemata
