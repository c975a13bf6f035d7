/-
**What the cells of a world are going to hold.**

Compiling depends on the order in which it happens only in appearance.  The answer for a node and
both of its operations are fixed by the world as it stands: what is filled stays, and what is empty
will be filled with what the bindings and the configuration of now give.  The worlds ahead of a
world are those in which some of this has happened, and they all have the same plan.

Main definitions:

* `Schemata.World.answer`, `Schemata.World.parsePlan`, `Schemata.World.serializePlan` — the plan;
* `Schemata.World.Quiet`, `Schemata.World.Ahead` — worlds between computations, and worlds ahead;
* `Schemata.World.Sound` — a graph with cells that agree.

Main results:

* `Schemata.World.Ahead.hits` — the answers are the same in all worlds ahead;
* `Schemata.World.Ahead.parsePlan`, `Schemata.World.Ahead.serializePlan` — so are the operations.
-/

import Schemata.Compilation.Parse
import Schemata.Proofs.Compilation
import Schemata.Proofs.Walk

set_option relaxedAutoImplicit false
set_option autoImplicit false

namespace Schemata

/-! ### What operations depend on -/

section

variable {w w' : World}

theorem usableTarget_congr (h : w.bindings = w'.bindings) : usableTarget w = usableTarget w' := by
  funext id r
  simp [usableTarget, World.target?, h]

theorem followOperation_congr (h : w.bindings = w'.bindings) :
    followOperation w = followOperation w' := by
  funext direction id r
  simp [followOperation, World.isSet, usableTarget_congr h, h]

theorem followStaged_congr (h : w.bindings = w'.bindings) : followStaged w = followStaged w' := by
  funext id r
  simp [followStaged, usableTarget_congr h]

theorem policyOf_congr (h : w.config = w'.config) : policyOf w = policyOf w' := by
  funext own
  simp [policyOf, h]

/-- The parse operations of the members that are not left out. -/
theorem memberParser_congr (hb : w.bindings = w'.bindings) {members : List Schema}
    {below below' : Schema → ParseOperation}
    (h : ∀ t ∈ (Kind.union members).embedded w, below t = below' t) :
    members.map (memberParser w (members.map Schema.id) below) =
      members.map (memberParser w' (members.map Schema.id) below') := by
  refine List.map_congr_left fun t ht => ?_
  rw [memberParser, memberParser, ← refersBack_congr hb]
  cases hr : refersBack w (members.map Schema.id) t with
  | true => rfl
  | false => simpa using h t (List.mem_filter.2 ⟨ht, by simp [hr]⟩)

/-- The serialize operations of the members that are not left out. -/
theorem memberSerializer_congr (hb : w.bindings = w'.bindings) {members : List Schema}
    {below below' : Schema → Compiled Operation}
    (h : ∀ t ∈ (Kind.union members).embedded w, below t = below' t) :
    members.map (memberSerializer w (members.map Schema.id) below) =
      members.map (memberSerializer w' (members.map Schema.id) below') := by
  refine List.map_congr_left fun t ht => ?_
  rw [memberSerializer, memberSerializer, ← refersBack_congr hb]
  cases hr : refersBack w (members.map Schema.id) t with
  | true => rfl
  | false => simpa using congrArg Compiled.operation (h t (List.mem_filter.2 ⟨ht, by simp [hr]⟩))

/-- **A parse operation depends on the world only through configuration and bindings**, and on the
nodes below only through those that are embedded. -/
theorem Kind.parser_congr (hc : w.config = w'.config) (hb : w.bindings = w'.bindings) (id : NodeId)
    (waits : Bool) {below below' : Schema → ParseOperation} {kind : Kind}
    (h : ∀ t ∈ kind.embedded w, below t = below' t) :
    kind.parser w id waits below = kind.parser w' id waits below' := by
  have hpolicy := policyOf_congr hc
  have hfollow := followOperation_congr hb
  have hstaged := followStaged_congr hb
  cases kind with
  | union members =>
      have hm := memberParser_congr hb h
      have hm' := congrArg (List.map ParseOperation.atOnce) hm
      simp only [List.map_map] at hm'
      simp only [Kind.parser, Kind.directParser, Kind.stagedParser, hm]
      rw [show (members.map fun s => (memberParser w (members.map Schema.id) below s).atOnce) = _
        from hm']
      rfl
  | object fields policy =>
      have hf : ∀ f ∈ fields, below f.2 = below' f.2 := fun f hf => h f.2 (List.mem_map_of_mem hf)
      have hm : (fields.map fun f => (f.1, below f.2)) = fields.map fun f => (f.1, below' f.2) :=
        List.map_congr_left fun f hm => by rw [hf f hm]
      have hm' : (fields.map fun f => (f.1, (below f.2).atOnce)) =
          fields.map fun f => (f.1, (below' f.2).atOnce) :=
        List.map_congr_left fun f hm => by rw [hf f hm]
      simp only [Kind.parser, Kind.directParser, Kind.stagedParser, hm, hm', hpolicy]
  | tuple items =>
      have hm : items.map below = items.map below' := List.map_congr_left h
      have hm' : (items.map fun s => (below s).atOnce) = items.map fun s => (below' s).atOnce :=
        List.map_congr_left fun s hs => by rw [h s hs]
      simp only [Kind.parser, Kind.directParser, Kind.stagedParser, hm, hm']
  | array s | dict s | option s | null s | nullable s | jsonString s | transformed s _ =>
      have hs : below s = below' s := h s (List.mem_singleton_self s)
      simp only [Kind.parser, Kind.directParser, Kind.stagedParser, hs]
  | recursive r => simp only [Kind.parser, Kind.directParser, Kind.stagedParser, hfollow, hstaged]
  | _ => rfl

/-- **A serialize operation depends on the world only through the bindings.** -/
theorem Kind.serializer_congr (hb : w.bindings = w'.bindings) (id : NodeId)
    {below below' : Schema → Compiled Operation} {kind : Kind}
    (h : ∀ t ∈ kind.embedded w, below t = below' t) :
    kind.serializer w id below = kind.serializer w' id below' := by
  have hfollow := followOperation_congr hb
  cases kind with
  | union members => simp only [Kind.serializer, memberSerializer_congr hb h]
  | object fields policy =>
      have hm : (fields.map fun f => (f.1, (below f.2).operation)) =
          fields.map fun f => (f.1, (below' f.2).operation) :=
        List.map_congr_left fun f hm => by rw [h f.2 (List.mem_map_of_mem hm)]
      simp only [Kind.serializer, hm]
  | tuple items =>
      have hm : (items.map fun s => (below s).operation) = items.map fun s => (below' s).operation :=
        List.map_congr_left fun s hs => by rw [h s hs]
      simp only [Kind.serializer, hm]
  | array s | dict s | option s | null s | nullable s | jsonString s | transformed s _ =>
      have hs : below s = below' s := h s (List.mem_singleton_self s)
      simp only [Kind.serializer, hs]
  | recursive r => simp only [Kind.serializer, hfollow]
  | _ => rfl

theorem Effect.stageAround_isAsync (effect : Effect) (base : ParseOperation) :
    (effect.stageAround base).isAsync = true := by
  cases effect with
  | transform h | preprocess h => simp only [Effect.stageAround]; split <;> rfl
  | refine message check => cases check <;> rfl
  | _ => rfl

/-- A staged operation may wait. -/
theorem Kind.stagedParser_isAsync (w : World) (id : NodeId) (below : Schema → ParseOperation)
    (kind : Kind) : (kind.stagedParser w id below).isAsync = true := by
  cases kind with
  | custom name handlers => simp only [Kind.stagedParser]; split <;> rfl
  | transformed base effect => exact effect.stageAround_isAsync (below base)
  | recursive r => simp only [Kind.stagedParser, followStaged]; split <;> rfl
  | _ => rfl

/-- **An operation may wait exactly when it was compiled to.** -/
theorem Kind.parser_isAsync (w : World) (id : NodeId) (waits : Bool)
    (below : Schema → ParseOperation) (kind : Kind) :
    (kind.parser w id waits below).isAsync = waits := by
  cases waits with
  | true => exact Kind.stagedParser_isAsync w id below kind
  | false => rfl

end

/-! ### The plan -/

namespace World

/-- The answer for a node: the one that is known, or else the one that a walk gives. -/
def answer (w : World) (s : Schema) : Bool := (w.walk (w.nextReference + 1) s []).1

/-- **What the parse cell of a node is going to hold.** -/
def parsePlan (w : World) (s : Schema) : Compiled ParseOperation :=
  match (w.parseCells s.id).content? with
  | some c => c
  | none => ⟨s.id, s.kind.parser w s.id (w.answer s) fun t =>
      if t.id < s.id then (parsePlan w t).operation else .direct .noop⟩
termination_by s.id

/-- **What the serialize cell of a node is going to hold.** -/
def serializePlan (w : World) (s : Schema) : Compiled Operation :=
  match (w.serializeCells s.id).content? with
  | some c => c
  | none => s.kind.serializer w s.id fun t =>
      if t.id < s.id then serializePlan w t else ⟨t.id, .noop⟩
termination_by s.id

/-- The parse operation in the plan. -/
abbrev planned (w : World) (s : Schema) : ParseOperation := (w.parsePlan s).operation

/-- Between computations no cell is being filled. -/
structure Quiet (w : World) : Prop where
  parse : ∀ id, w.parseCells id ≠ .filling
  serialize : ∀ id, w.serializeCells id ≠ .filling
  async : ∀ id, w.asyncCells id ≠ .filling

/-- Nodes that are still to be made have empty cells. -/
structure Blank (w : World) (bound : NodeId) : Prop where
  parse : ∀ id, bound ≤ id → w.parseCells id = .empty
  serialize : ∀ id, bound ≤ id → w.serializeCells id = .empty
  async : ∀ id, bound ≤ id → w.asyncCells id = .empty

/-- **A graph with cells that agree.** -/
structure Sound (w : World) (nodes : List Schema) : Prop where
  hosts : w.Hosts nodes
  quiet : w.Quiet
  blank : w.Blank w.nextNode
  agree : ∀ s ∈ nodes, ∀ c b, w.parseCells s.id = .filled c → w.asyncCells s.id = .filled b →
    b = c.operation.isAsync

/-- Cells ahead of others: what is filled stays, what is new is as planned, and the cells of nodes
that are still to be made are empty. -/
structure CellsAhead {α : Type} (nodes : List Schema) (bound : NodeId) (plan : Schema → α)
    (cells₀ cells : NodeId → Cell α) : Prop where
  kept : ∀ id a, cells₀ id = .filled a → cells id = .filled a
  planned : ∀ s ∈ nodes, ∀ a, cells s.id = .filled a → a = plan s
  blank : ∀ id, bound ≤ id → cells id = .empty

/-- No operation is new without those that it embeds. -/
def CellsClosed {α : Type} (w : World) (nodes : List Schema) (cells₀ cells : NodeId → Cell α) :
    Prop :=
  ∀ s ∈ nodes, ∀ a, cells s.id = .filled a →
    cells₀ s.id = .filled a ∨ ∀ t ∈ s.kind.embedded w, ∃ b, cells t.id = .filled b

/-- Cells of operations ahead of others: moreover, no operation is there without those that it
embeds. -/
structure OperationsAhead {α : Type} (w₀ : World) (nodes : List Schema) (plan : Schema → α)
    (cells₀ cells : NodeId → Cell α) : Prop
    extends CellsAhead nodes w₀.nextNode plan cells₀ cells where
  closed : ∀ s ∈ nodes, ∀ a, cells s.id = .filled a →
    cells₀ s.id = .filled a ∨ ∀ t ∈ s.kind.embedded w₀, ∃ b, cells t.id = .filled b

/-- **The worlds ahead of a world**: nothing is new but cells filled as planned, and marks in cells
that are being filled. -/
structure Ahead (w₀ : World) (nodes : List Schema) (w : World) : Prop where
  nextNode : w.nextNode = w₀.nextNode
  nextReference : w.nextReference = w₀.nextReference
  config : w.config = w₀.config
  bindings : w.bindings = w₀.bindings
  parse : OperationsAhead w₀ nodes w₀.parsePlan w₀.parseCells w.parseCells
  serialize : OperationsAhead w₀ nodes w₀.serializePlan w₀.serializeCells w.serializeCells
  async : CellsAhead nodes w₀.nextNode w₀.answer w₀.asyncCells w.asyncCells

section

variable {w w₀ w₁ : World} {nodes : List Schema} {s t : Schema} {b : Bool}

/-! ### Answers -/

theorem parsePlan_of_filled {c : Compiled ParseOperation} (h : w.parseCells s.id = .filled c) :
    w.parsePlan s = c := by
  rw [parsePlan, h]
  rfl

theorem parsePlan_of_unfilled (h : (w.parseCells s.id).content? = none) :
    w.parsePlan s = ⟨s.id, s.kind.parser w s.id (w.answer s) fun t =>
      if t.id < s.id then w.planned t else .direct .noop⟩ := by
  rw [parsePlan, h]

theorem serializePlan_of_filled {c : Compiled Operation} (h : w.serializeCells s.id = .filled c) :
    w.serializePlan s = c := by
  rw [serializePlan, h]
  rfl

theorem serializePlan_of_unfilled (h : (w.serializeCells s.id).content? = none) :
    w.serializePlan s = s.kind.serializer w s.id fun t =>
      if t.id < s.id then w.serializePlan t else ⟨t.id, .noop⟩ := by
  rw [serializePlan, h]

/-- Of a node with a known answer the walk looks at nothing else. -/
theorem hits_known (h : w.knownAsync? s.id = some b) : w.Hits s ↔ b = true := by
  constructor
  · intro hit
    cases hit with
    | known hk => rw [h] at hk; cases hk; rfl
    | own hn _ => rw [h] at hn; cases hn
    | step hn _ _ => rw [h] at hn; cases hn
  · rintro rfl
    exact .known h

theorem answer_iff (hosts : w.Hosts nodes) (hs : s ∈ nodes) : w.answer s = true ↔ w.Hits s :=
  walk_iff_hits hosts hs

theorem answer_known (hosts : w.Hosts nodes) (hs : s ∈ nodes) (h : w.knownAsync? s.id = some b) :
    w.answer s = b := by
  have hiff := (answer_iff hosts hs).trans (hits_known h)
  cases b with
  | true => exact hiff.2 rfl
  | false => simpa using hiff

theorem knownAsync_of_async (h : w.asyncCells s.id = .filled b) : w.knownAsync? s.id = some b := by
  simp [knownAsync?, h, Cell.content?]

/-- What is known of a node stands in its async cell or in its parse cell. -/
theorem knownAsync_cases (h : w.knownAsync? s.id = some b) :
    w.asyncCells s.id = .filled b ∨
      ∃ c, w.parseCells s.id = .filled c ∧ c.operation.isAsync = b := by
  simp only [knownAsync?] at h
  cases ha : w.asyncCells s.id with
  | filled b' =>
      rw [ha] at h
      cases h
      exact .inl rfl
  | empty | filling =>
      right
      rw [ha] at h
      cases hp : w.parseCells s.id with
      | filled c =>
          rw [hp] at h
          cases h
          exact ⟨c, rfl, rfl⟩
      | empty | filling =>
          rw [hp] at h
          cases h

end

namespace Sound

variable {w : World} {nodes : List Schema} {s : Schema} {b : Bool}

/-- A compiled node has the answer of its operation. -/
theorem knownAsync_of_parse (h : w.Sound nodes) (hs : s ∈ nodes) {c : Compiled ParseOperation}
    (hc : w.parseCells s.id = .filled c) : w.knownAsync? s.id = some c.operation.isAsync := by
  cases ha : w.asyncCells s.id with
  | filled b => rw [knownAsync_of_async ha, h.agree s hs c b hc ha]
  | empty | filling => simp [knownAsync?, ha, hc, Cell.content?]

/-- **The planned operation waits exactly when the answer is that it does.** -/
theorem planned_isAsync (h : w.Sound nodes) (hs : s ∈ nodes) :
    (w.planned s).isAsync = w.answer s := by
  cases hc : w.parseCells s.id with
  | filled c =>
      rw [planned, parsePlan_of_filled hc, answer_known h.hosts hs (h.knownAsync_of_parse hs hc)]
  | empty | filling =>
      rw [planned, parsePlan_of_unfilled (by rw [hc]; rfl)]
      exact Kind.parser_isAsync _ _ _ _ _

/-- A world is ahead of itself. -/
theorem ahead (h : w.Sound nodes) : w.Ahead nodes w where
  nextNode := rfl
  nextReference := rfl
  config := rfl
  bindings := rfl
  parse :=
    ⟨⟨fun _ _ hc => hc, fun _ _ _ hc => (parsePlan_of_filled hc).symm, h.blank.parse⟩,
      fun _ _ _ hc => .inl hc⟩
  serialize :=
    ⟨⟨fun _ _ hc => hc, fun _ _ _ hc => (serializePlan_of_filled hc).symm, h.blank.serialize⟩,
      fun _ _ _ hc => .inl hc⟩
  async :=
    ⟨fun _ _ hb => hb,
      fun _ hs _ hb => (answer_known h.hosts hs (knownAsync_of_async hb)).symm, h.blank.async⟩

end Sound

/-! ### Cells ahead -/

namespace CellsAhead

variable {α : Type} {w : World} {nodes : List Schema} {plan plan' : Schema → α} {s : Schema}
  {bound : NodeId} {cells₀ cells cells' : NodeId → Cell α}

theorem trans (h : CellsAhead nodes bound plan cells₀ cells)
    (hplan : ∀ s ∈ nodes, plan' s = plan s)
    (h' : CellsAhead nodes bound plan' cells cells') :
    CellsAhead nodes bound plan cells₀ cells' where
  kept id a ha := h'.kept id a (h.kept id a ha)
  planned s hs a ha := (h'.planned s hs a ha).trans (hplan s hs)
  blank := h'.blank

/-- The cell of a node that is not filled may be marked, and filled as planned. -/
theorem set (hosts : w.Hosts nodes) (h : CellsAhead nodes w.nextNode plan cells₀ cells)
    (hs : s ∈ nodes) {cell : Cell α} (hold : ∀ a, cells s.id ≠ .filled a)
    (hnew : ∀ a, cell = .filled a → a = plan s) :
    CellsAhead nodes w.nextNode plan cells₀ (updateAt cells s.id cell) where
  kept id a ha := by
    have hid : id ≠ s.id := by
      rintro rfl
      exact hold a (h.kept _ a ha)
    exact (updateAt_other hid).trans (h.kept id a ha)
  planned t ht a ha := by
    by_cases hid : t.id = s.id
    · have hts := hosts.identity t ht s hs hid
      subst hts
      exact hnew a ((updateAt_same ..).symm.trans ha)
    · exact h.planned t ht a ((updateAt_other hid).symm.trans ha)
  blank id hid := by
    have hlt := hosts.known s hs
    exact (updateAt_other (Nat.ne_of_gt (Nat.lt_of_lt_of_le hlt hid))).trans (h.blank id hid)

end CellsAhead

/-- The cell of a node that is not filled may be marked, and filled once the embedded nodes are
compiled. -/
theorem CellsClosed.set {α : Type} {w : World} {nodes : List Schema} {s : Schema}
    {cells₀ cells : NodeId → Cell α} (hosts : w.Hosts nodes) (h : CellsClosed w nodes cells₀ cells)
    (hs : s ∈ nodes) {cell : Cell α} (hold : ∀ a, cells s.id ≠ .filled a)
    (hnew : ∀ a, cell = .filled a → ∀ t ∈ s.kind.embedded w, ∃ b, cells t.id = .filled b) :
    CellsClosed w nodes cells₀ (updateAt cells s.id cell) := by
  intro t ht a ha
  have other : ∀ x b, cells x = .filled b → updateAt cells s.id cell x = .filled b := by
    intro x b hb
    have hx : x ≠ s.id := by
      rintro rfl
      exact hold b hb
    exact (updateAt_other hx).trans hb
  have below : (∀ x ∈ t.kind.embedded w, ∃ b, cells x.id = .filled b) →
      ∀ x ∈ t.kind.embedded w, ∃ b, updateAt cells s.id cell x.id = .filled b := by
    intro hbelow x hx
    obtain ⟨b, hb⟩ := hbelow x hx
    exact ⟨b, other _ b hb⟩
  by_cases hid : t.id = s.id
  · have hts := hosts.identity t ht s hs hid
    subst hts
    exact .inr (below (hnew a ((updateAt_same ..).symm.trans ha)))
  · exact (h t ht a ((updateAt_other hid).symm.trans ha)).imp id below

namespace OperationsAhead

variable {α : Type} {w w' : World} {nodes : List Schema} {plan plan' : Schema → α} {s : Schema}
  {cells₀ cells cells' : NodeId → Cell α}

theorem trans (h : OperationsAhead w nodes plan cells₀ cells) (hn : w'.nextNode = w.nextNode)
    (hb : w'.bindings = w.bindings) (hplan : ∀ s ∈ nodes, plan' s = plan s)
    (h' : OperationsAhead w' nodes plan' cells cells') :
    OperationsAhead w nodes plan cells₀ cells' where
  toCellsAhead := h.toCellsAhead.trans hplan (hn ▸ h'.toCellsAhead)
  closed s hs a ha := by
    rcases h'.closed s hs a ha with ha' | hbelow
    · refine (h.closed s hs a ha').imp id fun hbelow t ht => ?_
      obtain ⟨b, hb⟩ := hbelow t ht
      exact ⟨b, h'.kept _ b hb⟩
    · exact .inr fun t ht => hbelow t (by rwa [Kind.embedded_congr hb])

/-- The cell of a node that is not filled may be marked, and filled as planned once the embedded
nodes are compiled. -/
theorem set (hosts : w.Hosts nodes) (h : OperationsAhead w nodes plan cells₀ cells)
    (hs : s ∈ nodes) {cell : Cell α} (hold : ∀ a, cells s.id ≠ .filled a)
    (hnew : ∀ a, cell = .filled a → a = plan s ∧
      ∀ t ∈ s.kind.embedded w, ∃ b, cells t.id = .filled b) :
    OperationsAhead w nodes plan cells₀ (updateAt cells s.id cell) where
  toCellsAhead := h.toCellsAhead.set hosts hs hold fun a ha => (hnew a ha).1
  closed := CellsClosed.set hosts h.closed hs hold fun a ha => (hnew a ha).2

end OperationsAhead

/-! ### Worlds ahead -/

namespace Ahead

variable {w w₀ w₁ : World} {nodes : List Schema} {s t : Schema} {b : Bool}

theorem hosts (h₀ : w₀.Sound nodes) (h : w₀.Ahead nodes w) : w.Hosts nodes where
  identity := h₀.hosts.identity
  below := h₀.hosts.below
  formed := h₀.hosts.formed
  known s hs := by rw [h.nextNode]; exact h₀.hosts.known s hs
  targets r t ht := h₀.hosts.targets r t (by rwa [target?, ← h.bindings])
  unbound r hr := by rw [h.bindings]; exact h₀.hosts.unbound r (by rwa [← h.nextReference])

theorem target (h : w₀.Ahead nodes w) (r : Reference) : w.target? r = w₀.target? r := by
  rw [target?, target?, h.bindings]

theorem leads (h : w₀.Ahead nodes w) : w.Leads s t ↔ w₀.Leads s t := by
  rw [leads_congr h.bindings]

/-- What is known ahead is the answer of now. -/
theorem known_planned (h₀ : w₀.Sound nodes) (h : w₀.Ahead nodes w) (hs : s ∈ nodes)
    (hb : w.knownAsync? s.id = some b) : b = w₀.answer s := by
  rcases knownAsync_cases hb with ha | ⟨c, hc, rfl⟩
  · exact h.async.planned s hs b ha
  · rw [h.parse.planned s hs c hc]
    exact h₀.planned_isAsync hs

/-- What is known now stays known. -/
theorem known_kept (h₀ : w₀.Sound nodes) (h : w₀.Ahead nodes w) (hs : s ∈ nodes)
    (hb : w₀.knownAsync? s.id = some b) : w.knownAsync? s.id = some b := by
  have hanswer := answer_known h₀.hosts hs hb
  have hknown : ∃ b', w.knownAsync? s.id = some b' := by
    rcases knownAsync_cases hb with ha | ⟨c, hc, -⟩
    · exact ⟨b, knownAsync_of_async (h.async.kept _ _ ha)⟩
    · cases ha : w.asyncCells s.id with
      | filled b' => exact ⟨b', knownAsync_of_async ha⟩
      | empty | filling =>
          exact ⟨c.operation.isAsync, by
            simp [knownAsync?, ha, h.parse.kept _ _ hc, Cell.content?]⟩
  obtain ⟨b', hb'⟩ := hknown
  rw [hb', known_planned h₀ h hs hb', hanswer]

/-- **There is the same to be found in all worlds ahead.** -/
theorem hits (h₀ : w₀.Sound nodes) (h : w₀.Ahead nodes w) (hs : s ∈ nodes) :
    w.Hits s ↔ w₀.Hits s := by
  have answered : ∀ {x : Schema}, x ∈ nodes → w.knownAsync? x.id ≠ none →
      (w.Hits x ↔ w₀.Hits x) := by
    intro x hx hk
    obtain ⟨b, hb⟩ := Option.ne_none_iff_exists'.1 hk
    rw [hits_known hb, known_planned h₀ h hx hb, answer_iff h₀.hosts hx]
  have unknown : ∀ {x : Schema}, x ∈ nodes → w.knownAsync? x.id = none →
      w₀.knownAsync? x.id = none := by
    intro x hx hn
    by_contra hk
    obtain ⟨b, hb⟩ := Option.ne_none_iff_exists'.1 hk
    rw [known_kept h₀ h hx hb] at hn
    cases hn
  constructor
  · intro hit
    induction hit with
    | known hk => exact (answered hs (by simp [hk])).1 (.known hk)
    | own hn ha => exact .own (unknown hs hn) ha
    | step hn hst _ ih =>
        have hst₀ := h.leads.1 hst
        exact .step (unknown hs hn) hst₀ (ih (h₀.hosts.leads hs hst₀))
  · intro hit
    induction hit with
    | known hk => exact .known (known_kept h₀ h hs hk)
    | @own x hn₀ ha =>
        by_cases hn : w.knownAsync? x.id = none
        · exact .own hn ha
        · exact (answered hs hn).2 (.own hn₀ ha)
    | @step x y hn₀ hst hit ih =>
        by_cases hn : w.knownAsync? x.id = none
        · exact .step hn (h.leads.2 hst) (ih (h₀.hosts.leads hs hst))
        · exact (answered hs hn).2 (.step hn₀ hst hit)

theorem answer (h₀ : w₀.Sound nodes) (h : w₀.Ahead nodes w) (hs : s ∈ nodes) :
    w.answer s = w₀.answer s := by
  have hiff := (answer_iff (h.hosts h₀) hs).trans
    ((h.hits h₀ hs).trans (answer_iff h₀.hosts hs).symm)
  exact Bool.eq_iff_iff.2 hiff

/-- **The planned parse operation is the same in all worlds ahead.** -/
theorem parsePlan (h₀ : w₀.Sound nodes) (h : w₀.Ahead nodes w) :
    ∀ s ∈ nodes, w.parsePlan s = w₀.parsePlan s := by
  refine h₀.hosts.induction fun s hs ih => ?_
  cases hc : w.parseCells s.id with
  | filled c => rw [parsePlan_of_filled hc, h.parse.planned s hs c hc]
  | empty | filling =>
      have hc₀ : (w₀.parseCells s.id).content? = none := by
        cases hc₀ : w₀.parseCells s.id with
        | filled c => rw [h.parse.kept _ _ hc₀] at hc; cases hc
        | empty | filling => rfl
      rw [parsePlan_of_unfilled (by rw [hc]; rfl), parsePlan_of_unfilled hc₀,
        h.answer h₀ hs]
      congr 1
      refine Kind.parser_congr h.config h.bindings _ _ fun t ht => ?_
      have hchild : t ∈ s.children := Kind.embedded_subset _ _ ht
      have hlt := (h₀.hosts.below s hs t hchild).2
      rw [if_pos hlt, if_pos hlt, planned, planned, ih t hchild]

/-- **The planned serialize operation is the same in all worlds ahead.** -/
theorem serializePlan (h₀ : w₀.Sound nodes) (h : w₀.Ahead nodes w) :
    ∀ s ∈ nodes, w.serializePlan s = w₀.serializePlan s := by
  refine h₀.hosts.induction fun s hs ih => ?_
  cases hc : w.serializeCells s.id with
  | filled c => rw [serializePlan_of_filled hc, h.serialize.planned s hs c hc]
  | empty | filling =>
      have hc₀ : (w₀.serializeCells s.id).content? = none := by
        cases hc₀ : w₀.serializeCells s.id with
        | filled c => rw [h.serialize.kept _ _ hc₀] at hc; cases hc
        | empty | filling => rfl
      rw [serializePlan_of_unfilled (by rw [hc]; rfl), serializePlan_of_unfilled hc₀]
      refine Kind.serializer_congr h.bindings _ fun t ht => ?_
      have hchild : t ∈ s.children := Kind.embedded_subset _ _ ht
      have hlt := (h₀.hosts.below s hs t hchild).2
      rw [if_pos hlt, if_pos hlt, ih t hchild]

/-- A world ahead between computations is sound. -/
theorem sound (h₀ : w₀.Sound nodes) (h : w₀.Ahead nodes w) (hq : w.Quiet) : w.Sound nodes where
  hosts := h.hosts h₀
  quiet := hq
  blank := by rw [h.nextNode]; exact ⟨h.parse.blank, h.serialize.blank, h.async.blank⟩
  agree s hs c b hc hb := by
    rw [h.async.planned s hs b hb, h.parse.planned s hs c hc]
    exact (h₀.planned_isAsync hs).symm

theorem trans (h₀ : w₀.Sound nodes) (h : w₀.Ahead nodes w) (h' : w.Ahead nodes w₁) :
    w₀.Ahead nodes w₁ where
  nextNode := h'.nextNode.trans h.nextNode
  nextReference := h'.nextReference.trans h.nextReference
  config := h'.config.trans h.config
  bindings := h'.bindings.trans h.bindings
  parse := h.parse.trans h.nextNode h.bindings (h.parsePlan h₀) h'.parse
  serialize := h.serialize.trans h.nextNode h.bindings (h.serializePlan h₀) h'.serialize
  async := h.async.trans (fun _ hs => h.answer h₀ hs) (h.nextNode ▸ h'.async)

/-- A parse cell that is not filled may be marked, and filled as planned. -/
theorem setParse (h₀ : w₀.Sound nodes) (h : w₀.Ahead nodes w) (hs : s ∈ nodes)
    {cell : Cell (Compiled ParseOperation)} (hold : ∀ c, w.parseCells s.id ≠ .filled c)
    (hnew : ∀ c, cell = .filled c → c = w₀.parsePlan s ∧
      ∀ t ∈ s.kind.embedded w₀, ∃ b, w.parseCells t.id = .filled b) :
    w₀.Ahead nodes { w with parseCells := updateAt w.parseCells s.id cell } :=
  { h with parse := h.parse.set h₀.hosts hs hold hnew }

/-- A serialize cell that is not filled may be marked, and filled as planned. -/
theorem setSerialize (h₀ : w₀.Sound nodes) (h : w₀.Ahead nodes w) (hs : s ∈ nodes)
    {cell : Cell (Compiled Operation)} (hold : ∀ c, w.serializeCells s.id ≠ .filled c)
    (hnew : ∀ c, cell = .filled c → c = w₀.serializePlan s ∧
      ∀ t ∈ s.kind.embedded w₀, ∃ b, w.serializeCells t.id = .filled b) :
    w₀.Ahead nodes { w with serializeCells := updateAt w.serializeCells s.id cell } :=
  { h with serialize := h.serialize.set h₀.hosts hs hold hnew }

/-- An async cell that is not filled may be marked, and filled as planned. -/
theorem setAsync (h₀ : w₀.Sound nodes) (h : w₀.Ahead nodes w) (hs : s ∈ nodes) {cell : Cell Bool}
    (hold : ∀ b, w.asyncCells s.id ≠ .filled b) (hnew : ∀ b, cell = .filled b → b = w₀.answer s) :
    w₀.Ahead nodes { w with asyncCells := updateAt w.asyncCells s.id cell } :=
  { h with async := h.async.set h₀.hosts hs hold hnew }

end Ahead

end World

end Schemata
