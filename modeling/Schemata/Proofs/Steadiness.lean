/-
**Running operations does not depend on what has been compiled.**

Following a reference compiles the schema behind it when that has not happened yet, so a run changes
the world.  With pure user functions this is all it changes, and each schema gives the operation
that was planned for it.  What a run gives in one world it therefore gives in all worlds ahead.

Main definitions:

* `Schemata.Runs` — an operation that is steady on every value;
* `Schemata.World.Region`, `Schemata.World.Closed` — nodes that steps do not leave, and such nodes
  with pure functions;
* `Schemata.World.Compiles` — a set of worlds in which compiling gives what was planned.

Main results:

* `Schemata.Schema.parse_steady`, `Schemata.Schema.serialize_steady` — **parsing and serializing are
  steady**.
-/

import Schemata.Execution.Engine
import Schemata.Proofs.History
import Schemata.Proofs.Purity

set_option relaxedAutoImplicit false
set_option autoImplicit false

namespace Schemata

variable {W : World → Prop} {m : Machine}

/-! ### Children, fields and members -/

theorem runners_eq_map (m : Machine) (ops : List Operation) :
    runners m ops = ops.map (Operation.run m) := by
  induction ops with
  | nil => rfl
  | cons op rest ih => rw [runners, ih, List.map_cons]

theorem fieldRunners_eq_map (m : Machine) (fields : List (String × Operation)) :
    fieldRunners m fields = fields.map fun f => (f.1, f.2.run m) := by
  induction fields with
  | nil => rfl
  | cons f rest ih => rw [fieldRunners, ih, List.map_cons]

theorem stagers_eq_map (m : Machine) (ops : List ParseOperation) :
    stagers m ops = ops.map (ParseOperation.stage m) := by
  induction ops with
  | nil => rfl
  | cons op rest ih => rw [stagers, ih, List.map_cons]

theorem fieldStagers_eq_map (m : Machine) (fields : List (String × ParseOperation)) :
    fieldStagers m fields = fields.map fun f => (f.1, f.2.stage m) := by
  induction fields with
  | nil => rfl
  | cons f rest ih => rw [fieldStagers, ih, List.map_cons]

theorem fieldStagers_map (m : Machine) (fields : List (String × Schema))
    (op : Schema → ParseOperation) :
    fieldStagers m (fields.map fun f => (f.1, op f.2)) =
      fields.map fun f => (f.1, (op f.2).stage m) := by
  rw [fieldStagers_eq_map, List.map_map]
  rfl

theorem runEach_steady : ∀ {children : List (Segment × Run Result)},
    (∀ c ∈ children, Steady W c.2) → Steady W (runEach children)
  | [], _ => .pure _
  | (s, child) :: rest, h => by
      have ih := runEach_steady fun c hc => h c (List.mem_cons_of_mem _ hc)
      refine (h _ (List.mem_cons_self ..)).attempt (fun e => .pure _) fun v => ?_
      exact ih.attempt (fun e => .pure _) fun vs => .pure _

theorem runFields_steady : ∀ {fields : List (String × Runner)},
    (∀ f ∈ fields, ∀ v, Steady W (f.2 v)) → ∀ entries, Steady W (runFields fields entries)
  | [], _, _ => .pure _
  | (name, field) :: rest, h, entries => by
      have ih := runFields_steady fun f hf => h f (List.mem_cons_of_mem _ hf)
      refine (h _ (List.mem_cons_self ..) _).attempt (fun e => .pure _) fun v => ?_
      exact (ih _).attempt (fun e => .pure _) fun r => .pure _

theorem runPresentFields_steady (omitted : List String) : ∀ {fields : List (String × Runner)},
    (∀ f ∈ fields, ∀ v, Steady W (f.2 v)) →
      ∀ entries, Steady W (runPresentFields omitted fields entries)
  | [], _, _ => .pure _
  | (name, field) :: rest, h, entries => by
      have ih := runPresentFields_steady omitted fun f hf => h f (List.mem_cons_of_mem _ hf)
      simp only [runPresentFields]
      split
      · exact ih entries
      · refine (h _ (List.mem_cons_self ..) _).attempt (fun e => .pure _) fun v => ?_
        exact (ih _).attempt (fun e => .pure _) fun vs => .pure _

theorem tryEach_steady {v : Value} : ∀ {members : List (Nat × Runner)},
    (∀ m ∈ members, Steady W (m.2 v)) → Steady W (tryEach v members)
  | [], _ => .pure _
  | (i, member) :: rest, h => by
      have ih := tryEach_steady fun m hm => h m (List.mem_cons_of_mem _ hm)
      refine (h _ (List.mem_cons_self ..)).attempt (fun e => ?_) fun a => .pure _
      exact ih.attempt (fun es => .pure _) fun a => .pure _

theorem mem_of_mem_selected {wanted : Bool} {tags : List (Option Tag)} {members : List Runner}
    {v : Value} {x : Nat × Runner} (h : x ∈ selected wanted (marked tags v members)) :
    x.2 ∈ members := by
  simp only [selected, marked, List.mem_map, List.mem_filter] at h
  obtain ⟨y, ⟨⟨z, hz, rfl⟩, -⟩, rfl⟩ := h
  exact List.fst_mem_of_mem_zipIdx (List.of_mem_zip hz).1

theorem parseMembers_steady {tags : List (Option Tag)} {members : List Runner} {v : Value}
    (h : ∀ member ∈ members, Steady W (member v)) : Steady W (parseMembers tags members v) := by
  have each : ∀ wanted, Steady W (tryEach v (selected wanted (marked tags v members))) :=
    fun wanted => tryEach_steady fun x hx => h _ (mem_of_mem_selected hx)
  refine (each true).attempt (fun first => ?_) fun a => .pure _
  exact (each false).attempt (fun rest => .pure _) fun a => .pure _

theorem serializeMembers_steady {tags : List (Option Tag)} {members : List Runner} {v : Value}
    (h : ∀ member ∈ members, Steady W (member v)) :
    Steady W (serializeMembers tags members v) := by
  rw [serializeMembers]
  split
  · exact .pure _
  · rename_i candidates hc
    refine (tryEach_steady fun x hx => h _ (mem_of_mem_selected hx)).bind fun r => ?_
    split <;> exact .pure _

/-! ### Operations -/

/-- **The operation is steady on every value.** -/
def Runs (W : World → Prop) (m : Machine) (op : Operation) : Prop := ∀ v, Steady W (op.run m v)

namespace Runs

attribute [local simp] Operation.run

variable {item base inner : Operation} {items : List Operation}

theorem noop : Runs W m .noop := fun _ => .pure _

theorem fail (e : Error) : Runs W m (.fail e) := fun _ => .pure _

theorem scalar (kind : Scalar) (direction : Direction) (expected : Thunk String) :
    Runs W m (.scalar kind direction expected) := by
  intro v
  rw [Operation.run]
  split <;> exact .pure _

theorem literal (direction : Direction) (l : Literal) : Runs W m (.literal direction l) := by
  intro v
  rw [Operation.run]
  split <;> exact .pure _

theorem array (h : Runs W m item) (direction : Direction) (expected : Thunk String) :
    Runs W m (.array direction expected item) := by
  intro v
  cases v with
  | array values =>
      refine (runEach_steady fun c hc => ?_).bind fun r => .pure _
      obtain ⟨x, hx, rfl⟩ := List.mem_map.1 hc
      obtain ⟨a, -, ha⟩ := List.mem_map.1 (List.fst_mem_of_mem_zipIdx hx)
      exact ha ▸ h a
  | _ => exact .pure _

theorem dict (h : Runs W m item) (direction : Direction) (expected : Thunk String) :
    Runs W m (.dict direction expected item) := by
  intro v
  cases v with
  | object entries =>
      refine (runEach_steady fun c hc => ?_).bind fun r => .pure _
      obtain ⟨x, hx, rfl⟩ := List.mem_map.1 hc
      obtain ⟨e, -, rfl⟩ := List.mem_map.1 hx
      exact h e.2
  | _ => exact .pure _

theorem tuple (h : ∀ op ∈ items, Runs W m op) (direction : Direction) (expected : Thunk String) :
    Runs W m (.tuple direction expected items) := by
  intro v
  cases v with
  | array values =>
      simp only [Operation.run]
      split
      · exact .pure _
      · refine (runEach_steady fun c hc => ?_).bind fun r => .pure _
        obtain ⟨x, hx, rfl⟩ := List.mem_map.1 hc
        have hx := List.fst_mem_of_mem_zipIdx hx
        rw [runners_eq_map, List.zipWith_map_left] at hx
        obtain ⟨i, hi, hget⟩ := List.mem_iff_getElem.1 hx
        rw [List.getElem_zipWith] at hget
        rw [← hget]
        exact h _ (List.getElem_mem _) _
  | _ => exact .pure _

theorem parseObject {fields : List (String × Operation)} (h : ∀ f ∈ fields, Runs W m f.2)
    (expected : Thunk String) (policy : UnknownKeys) :
    Runs W m (.parseObject expected fields policy) := by
  intro v
  cases v with
  | object entries =>
      refine (runFields_steady ?_ _).attempt (fun e => .pure _) fun r => ?_
      · rw [fieldRunners_eq_map]
        intro f hf
        obtain ⟨g, hg, rfl⟩ := List.mem_map.1 hf
        exact h g hg
      · dsimp only
        split <;> exact .pure _
  | _ => exact .pure _

theorem serializeObject {fields : List (String × Operation)} (h : ∀ f ∈ fields, Runs W m f.2)
    (expected : Thunk String) (omitted : List String) :
    Runs W m (.serializeObject expected fields omitted) := by
  intro v
  cases v with
  | object entries =>
      refine (runPresentFields_steady _ ?_ _).attempt (fun e => .pure _) fun r => .pure _
      rw [fieldRunners_eq_map]
      intro f hf
      obtain ⟨g, hg, rfl⟩ := List.mem_map.1 hf
      exact h g hg
  | _ => exact .pure _

theorem unlessNull (h : Runs W m inner) : Runs W m (.unlessNull inner) := by
  intro v
  cases v with
  | null => exact .pure _
  | _ => exact h _

theorem parseUnion (h : ∀ op ∈ items, Runs W m op) (tags : List (Option Tag)) :
    Runs W m (.parseUnion items tags) := by
  intro v
  rw [Operation.run, runners_eq_map]
  refine parseMembers_steady fun member hm => ?_
  obtain ⟨op, hop, rfl⟩ := List.mem_map.1 hm
  exact h op hop v

theorem serializeUnion (h : ∀ op ∈ items, Runs W m op) (tags : List (Option Tag)) :
    Runs W m (.serializeUnion items tags) := by
  intro v
  rw [Operation.run, runners_eq_map]
  refine serializeMembers_steady fun member hm => ?_
  obtain ⟨op, hop, rfl⟩ := List.mem_map.1 hm
  exact h op hop v

theorem decodeText (h : Runs W m inner) (expected : Thunk String) :
    Runs W m (.decodeText expected inner) := by
  intro v
  rw [Operation.run]
  split
  · exact .pure _
  · exact h _

theorem encodeText (h : Runs W m inner) : Runs W m (.encodeText inner) := fun v =>
  (h v).attempt (fun _ => .pure _) fun _ => .pure _

theorem apply {f : Action} (hf : f.Pure) (direction : Direction) :
    Runs W m (.apply direction f) := by
  intro v
  rw [Operation.run, Action.runAs_pure m hf]
  exact .pure _

theorem thenApply {f : Action} (hf : f.Pure) (h : Runs W m base) (direction : Direction) :
    Runs W m (.thenApply direction base f) := by
  intro v
  rw [Operation.run]
  refine (h v).attempt (fun e => .pure _) fun a => ?_
  dsimp only
  rw [Action.runAs_pure m hf]
  exact .pure _

theorem applyFirst {f : Action} (hf : f.Pure) (h : Runs W m base) (direction : Direction) :
    Runs W m (.applyFirst direction f base) := by
  intro v
  rw [Operation.run, Action.runAs_pure m hf]
  exact (Steady.pure _).attempt (fun e => .pure _) fun a => h a

theorem thenCheck {test : Test} (ht : test.Pure) (h : Runs W m base) (message : String) :
    Runs W m (.thenCheck message test base) := by
  intro v
  rw [Operation.run]
  refine (h v).attempt (fun e => .pure _) fun a => ?_
  dsimp only
  rw [checked_pure ht]
  exact .pure _

theorem checkFirst {test : Test} (ht : test.Pure) (h : Runs W m base) (message : String) :
    Runs W m (.checkFirst message test base) := by
  intro v
  rw [Operation.run, checked_pure ht]
  exact (Steady.pure _).attempt (fun e => .pure _) fun a => h a

theorem recover (h : Runs W m base) (fallback : Fallback) : Runs W m (.recover fallback base) :=
  fun v => (h v).attempt (fun _ => .pure _) fun _ => .pure _

theorem thenConstant (h : Runs W m base) (value : Value) : Runs W m (.thenConstant value base) :=
  fun v => (h v).attempt (fun _ => .pure _) fun _ => .pure _

theorem exchange (h : Runs W m base) (internal : Literal) (external : Value) :
    Runs W m (.exchange internal external base) := by
  intro v
  rw [Operation.run]
  split
  · exact h external
  · exact .pure _

theorem orSupply {supply : Supply} (hs : supply.tag = none) (h : Runs W m base) :
    Runs W m (.orSupply supply base) := by
  intro v
  rw [Operation.run]
  refine (h v).attempt (fun e => .pure _) fun a => ?_
  dsimp only
  rw [Supply.orElse_pure hs, pure_bind]
  exact .pure _

end Runs

/-! ### Kinds -/

section

variable {kind : Kind} {w : World} {id : NodeId}

/-- **The parse operation of a kind that does not wait is steady**, if those of the nodes below
are. -/
theorem Kind.directParser_runs {below : Schema → ParseOperation} (hpure : kind.Pure)
    (hbelow : ∀ t ∈ kind.children, Runs W m (below t).atOnce)
    (href : ∀ r, kind = .recursive r → ∀ v, Steady W (m.parse r v)) :
    Runs W m (kind.directParser w id below) := by
  have hself : ∀ t, t ∈ kind.children → Runs W m (below t).atOnce := hbelow
  cases kind with
  | unknown | json => exact .noop
  | never | unit | string | bool | int | float => exact .scalar _ _ _
  | literal l => exact .literal _ _
  | array t => exact .array (hbelow t (List.mem_singleton_self t)) _ _
  | dict t => exact .dict (hbelow t (List.mem_singleton_self t)) _ _
  | object fields policy =>
      refine .parseObject (fun f hf => ?_) _ _
      obtain ⟨g, hg, rfl⟩ := List.mem_map.1 hf
      exact hbelow g.2 (List.mem_map_of_mem hg)
  | tuple items =>
      refine .tuple (fun op hop => ?_) _ _
      obtain ⟨t, ht, rfl⟩ := List.mem_map.1 hop
      exact hbelow t ht
  | option t | null t | nullable t =>
      have ht := hbelow t (List.mem_singleton_self t)
      simp only [Kind.directParser, absentOr, unlessAllNoop]
      split
      · exact .noop
      · exact .unlessNull ht
  | union members =>
      refine .parseUnion (fun op hop => ?_) _
      obtain ⟨t, ht, rfl⟩ := List.mem_map.1 hop
      simp only [memberParser]
      split
      · exact .fail _
      · exact hbelow t ht
  | jsonString t => exact .decodeText (hbelow t (List.mem_singleton_self t)) _
  | custom name handlers =>
      simp only [Kind.directParser, customOperation]
      split
      · rename_i f hf
        exact .apply (hpure.parser _ hf) _
      · exact .fail _
      · exact .fail _
  | transformed base effect =>
      have hb := hbelow base (List.mem_singleton_self base)
      simp only [Kind.directParser]
      cases effect with
      | transform h =>
          simp only [Effect.parseAround]
          split
          · rename_i f hf
            exact .thenApply (hpure.parser _ hf) hb _
          · exact .fail _
          · exact .fail _
      | preprocess h =>
          simp only [Effect.parseAround]
          split
          · rename_i f hf
            exact .applyFirst (hpure.parser _ hf) hb _
          · exact .fail _
          · exact .fail _
      | refine message check =>
          cases check with
          | direct test => exact .thenCheck hpure hb _
          | async test => exact .fail _
      | recover fallback => exact .recover hb _
      | variant external internal => exact .thenConstant hb _
      | getOr supply => exact .orSupply hpure hb
  | recursive r =>
      simp only [Kind.directParser, followOperation]
      split
      · exact .fail _
      · exact href r rfl

theorem ParseOperation.atOnce_of_isAsync {op : ParseOperation} (h : op.isAsync = true) :
    op.atOnce = .fail unexpectedAsyncError := by
  cases op <;> first | rfl | cases h

theorem Kind.parser_runs {below : Schema → ParseOperation} (waits : Bool) (hpure : kind.Pure)
    (hbelow : ∀ t ∈ kind.children, Runs W m (below t).atOnce)
    (href : ∀ r, kind = .recursive r → ∀ v, Steady W (m.parse r v)) :
    Runs W m (kind.parser w id waits below).atOnce := by
  cases waits with
  | true =>
      rw [ParseOperation.atOnce_of_isAsync (Kind.parser_isAsync w id true below kind)]
      exact .fail _
  | false => exact Kind.directParser_runs hpure hbelow href

/-- An operation that is left out when there is nothing to do. -/
theorem Runs.unlessAllNoop {op : Operation} (h : Runs W m op) (ops : List Operation) :
    Runs W m (unlessAllNoop ops op) := by
  rw [Schemata.unlessAllNoop]
  split
  · exact .noop
  · exact h

/-- **The serialize operation of a kind is steady**, if those of the nodes below are. -/
theorem Kind.serializer_runs {below : Schema → Compiled Operation} (hpure : kind.Pure)
    (hbelow : ∀ t ∈ kind.children, Runs W m (below t).operation)
    (href : ∀ r, kind = .recursive r → ∀ v, Steady W (m.serialize r v)) :
    Runs W m (kind.serializer w id below).operation := by
  cases kind with
  | unknown | json | unit | string | bool | int | float => exact .noop
  | never => exact .scalar _ _ _
  | literal l => exact .literal _ _
  | array t => exact (Runs.array (hbelow t (List.mem_singleton_self t)) _ _).unlessAllNoop _
  | dict t => exact (Runs.dict (hbelow t (List.mem_singleton_self t)) _ _).unlessAllNoop _
  | object fields policy =>
      simp only [Kind.serializer, objectSerializer]
      split
      · exact .noop
      · refine .serializeObject (fun f hf => ?_) _ _
        obtain ⟨g, hg, rfl⟩ := List.mem_map.1 hf
        exact hbelow g.2 (List.mem_map_of_mem hg)
  | tuple items =>
      refine (Runs.tuple (fun op hop => ?_) _ _).unlessAllNoop _
      obtain ⟨t, ht, rfl⟩ := List.mem_map.1 hop
      exact hbelow t ht
  | option t | null t | nullable t =>
      exact (Runs.unlessNull (hbelow t (List.mem_singleton_self t))).unlessAllNoop _
  | union members =>
      refine .serializeUnion (fun op hop => ?_) _
      obtain ⟨t, ht, rfl⟩ := List.mem_map.1 hop
      simp only [memberSerializer]
      split
      · exact .fail _
      · exact hbelow t ht
  | jsonString t => exact .encodeText (hbelow t (List.mem_singleton_self t))
  | custom name handlers =>
      simp only [Kind.serializer]
      split
      · rename_i f hf
        exact .apply (hpure.serializer _ hf) _
      · exact .fail _
  | transformed base effect =>
      have hb := hbelow base (List.mem_singleton_self base)
      simp only [Kind.serializer]
      cases effect with
      | transform h =>
          simp only [Effect.serializeAround]
          split
          · rename_i f hf
            exact .applyFirst (hpure.serializer _ hf) hb _
          · exact .fail _
      | preprocess h =>
          simp only [Effect.serializeAround]
          split
          · rename_i f hf
            exact .thenApply (hpure.serializer _ hf) hb _
          · exact .fail _
      | refine message check =>
          cases check with
          | direct test => exact .checkFirst hpure hb _
          | async test => exact hb
      | recover fallback => exact hb
      | variant external internal => exact .exchange hb _ _
      | getOr supply => exact hb
  | recursive r =>
      simp only [Kind.serializer, followOperation]
      split
      · exact .fail _
      · exact href r rfl

end

/-! ### Schemas -/

/-- **Nodes that steps do not leave**, in a world whose operations are in shape. -/
structure World.Region (w₀ : World) (nodes : List Schema) (N : Schema → Prop) : Prop where
  sound : w₀.Sound nodes
  shaped : w₀.Shaped World.Before nodes
  member : ∀ s, N s → s ∈ nodes
  leads : ∀ s t, N s → w₀.Leads s t → N t

/-- **Nodes with pure functions, which steps do not leave**, in a world whose operations are in
shape. -/
structure World.Closed (w₀ : World) (nodes : List Schema) (N : Schema → Prop) : Prop where
  sound : w₀.Sound nodes
  shaped : w₀.Shaped World.Before nodes
  member : ∀ s, N s → s ∈ nodes
  leads : ∀ s t, N s → w₀.Leads s t → N t
  pure : ∀ s, N s → s.kind.Pure

/-- A set of worlds in which compiling gives what was planned. -/
structure World.Compiles (w₀ : World) (N : Schema → Prop) (W : World → Prop) : Prop where
  bindings : ∀ w, W w → w.bindings = w₀.bindings
  parse : ∀ s, N s → Gives W s.parseOperation (w₀.parsePlan s)
  serialize : ∀ s, N s → Gives W s.serializeOperation (w₀.serializePlan s)

section

variable {w₀ : World} {nodes : List Schema} {N : Schema → Prop}

/-- The worlds ahead are such a set. -/
theorem World.Sound.compiles (h : w₀.Sound nodes) (hmember : ∀ s, N s → s ∈ nodes) :
    w₀.Compiles N (w₀.Later nodes) where
  bindings _ hw := hw.ahead.bindings
  parse s hs := Schema.parseOperation_gives h (hmember s hs)
  serialize s hs := Schema.serializeOperation_gives h (hmember s hs)

theorem World.Closed.compiles (h : w₀.Closed nodes N) : w₀.Compiles N (w₀.Later nodes) :=
  h.sound.compiles h.member

/-- So are those with one log: compiling notes nothing. -/
theorem World.Closed.compiles_log (h : w₀.Closed nodes N) (log : List String) :
    w₀.Compiles N fun w => w₀.Later nodes w ∧ w.log = log where
  bindings _ hw := hw.1.ahead.bindings
  parse s hs w hw := by
    obtain ⟨w', hgives, hl, -, hlog⟩ := Schema.parseOperation_done h.sound (h.member s hs) hw.1
    exact ⟨w', ⟨hl, hlog.trans hw.2⟩, hgives⟩
  serialize s hs w hw := by
    obtain ⟨w', hgives, hl, -, hlog⟩ := Schema.serializeOperation_done h.sound (h.member s hs) hw.1
    exact ⟨w', ⟨hl, hlog.trans hw.2⟩, hgives⟩

/-- What can be reached from a node is closed. -/
theorem World.Closed.of_reaches {s : Schema} (hsound : w₀.Sound nodes)
    (hshaped : w₀.Shaped World.Before nodes) (hs : s ∈ nodes)
    (hpure : ∀ t, w₀.Reaches s t → t.kind.Pure) : w₀.Closed nodes (w₀.Reaches s) where
  sound := hsound
  shaped := hshaped
  member _ ht := hsound.hosts.reaches hs ht
  leads _ _ ht htu := ht.tail htu
  pure := hpure

/-- Induction along the nodes below. -/
theorem World.Region.induction (h : w₀.Region nodes N) {P : Schema → Prop}
    (step : ∀ s, N s → (∀ t ∈ s.children, P t) → P s) : ∀ s, N s → P s :=
  h.sound.hosts.induction_within h.member h.leads step

theorem World.Region.compiles (h : w₀.Region nodes N) : w₀.Compiles N (w₀.Later nodes) :=
  h.sound.compiles h.member

/-- What can be reached from a node of a scene is such a region. -/
theorem Scene.Reachable.region {σ : Scene} (h : σ.Reachable) {s : Schema} (hs : s ∈ σ.nodes) :
    σ.world.Region σ.nodes (σ.world.Reaches s) where
  sound := h.sound
  shaped := h.shaped
  member _ := h.sound.hosts.reaches hs
  leads _ _ ht htu := ht.tail htu

/-- Planned parse operations are steady on a machine whose references are. -/
theorem planned_runs (h : w₀.Closed nodes N)
    (href : ∀ s r, N s → s.kind = .recursive r → ∀ v, Steady W (m.parse r v)) :
    ∀ s, N s → Runs W m (w₀.planned s).atOnce := by
  refine h.sound.hosts.induction_within h.member h.leads fun s hs ih => ?_
  obtain ⟨w₁, o, waits, -, -, -, hplan⟩ :=
    h.sound.parsePlan_shape h.shaped (.refl w₀) (h.member s hs)
  rw [World.planned, hplan]
  exact Kind.parser_runs waits (h.pure s hs) ih fun r hr => href s r hs hr

/-- Planned serialize operations are steady on a machine whose references are. -/
theorem serializePlan_runs (h : w₀.Closed nodes N)
    (href : ∀ s r, N s → s.kind = .recursive r → ∀ v, Steady W (m.serialize r v)) :
    ∀ s, N s → Runs W m (w₀.serializePlan s).operation := by
  refine h.sound.hosts.induction_within h.member h.leads fun s hs ih => ?_
  obtain ⟨w₁, o, -, -, -, hplan⟩ :=
    h.sound.serializePlan_shape h.shaped (.refl w₀) (h.member s hs)
  rw [hplan]
  exact Kind.serializer_runs (h.pure s hs) ih fun r hr => href s r hs hr

/-- Parsing runs the planned operation, in a world of the set. -/
theorem Schema.parseOn_apply (hc : w₀.Compiles N W) {s : Schema} (hs : N s) {w : World} (hw : W w)
    (v : Value) : ∃ w', W w' ∧ s.parseOn m v w = (w₀.planned s).atOnce.run m v w' := by
  obtain ⟨w', hw', hop⟩ := hc.parse s hs w hw
  refine ⟨w', hw', ?_⟩
  rw [Schema.parseOn, bind_ok hop, World.planned]
  cases (w₀.parsePlan s).operation <;> rfl

/-- What the planned operation ensures, parsing ensures. -/
theorem Schema.parseOn_ensures (hc : w₀.Compiles N W) {s : Schema} (hs : N s) {v : Value}
    {P : Result → Prop} (h : Ensures W ((w₀.planned s).atOnce.run m v) P) :
    Ensures W (s.parseOn m v) P := by
  intro w r w' hw hrun
  obtain ⟨w₁, hw₁, happly⟩ := Schema.parseOn_apply hc hs hw v (m := m)
  exact h w₁ r w' hw₁ (happly ▸ hrun)

/-- What the planned operation gives, parsing gives. -/
theorem Schema.parseOn_gives (hc : w₀.Compiles N W) {s : Schema} (hs : N s) {v : Value} {r : Result}
    (h : Gives W ((w₀.planned s).atOnce.run m v) r) : Gives W (s.parseOn m v) r := by
  intro w hw
  obtain ⟨w', hw', happly⟩ := Schema.parseOn_apply hc hs hw v (m := m)
  rw [happly]
  exact h w' hw'

/-- What parsing gives in one world, the planned operation gives in all. -/
theorem Schema.gives_of_parseOn (hc : w₀.Compiles N W) {s : Schema} (hs : N s) {v : Value}
    (h : Runs W m (w₀.planned s).atOnce) {w w' : World} (hw : W w) {r : Result}
    (hrun : s.parseOn m v w = .ok (r, w')) : Gives W ((w₀.planned s).atOnce.run m v) r := by
  obtain ⟨w₁, hw₁, happly⟩ := Schema.parseOn_apply hc hs hw v (m := m)
  rw [happly] at hrun
  exact h v w₁ r w' hw₁ hrun

/-- What starting the planned operation ensures, starting a parse ensures. -/
theorem Schema.stageOn_ensures (hc : w₀.Compiles N W) {s : Schema} (hs : N s) {v : Value}
    {P : Except Error Staged → Prop} (h : Ensures W ((w₀.planned s).stage m v) P) :
    Ensures W (s.stageOn m v) P :=
  ((hc.parse s hs).ensures (P := fun c => c = w₀.parsePlan s) rfl).bind fun _ hplan => hplan ▸ h

/-- What the planned operation ensures, serializing ensures. -/
theorem Schema.serializeOn_ensures (hc : w₀.Compiles N W) {s : Schema} (hs : N s) {v : Value}
    {P : Result → Prop} (h : Ensures W ((w₀.serializePlan s).operation.run m v) P) :
    Ensures W (s.serializeOn m v) P :=
  ((hc.serialize s hs).ensures (P := fun c => c = w₀.serializePlan s) rfl).bind
    fun _ hplan => hplan ▸ h

/-- What the planned operation gives, serializing gives. -/
theorem Schema.serializeOn_gives (hc : w₀.Compiles N W) {s : Schema} (hs : N s) {v : Value}
    {r : Result} (h : Gives W ((w₀.serializePlan s).operation.run m v) r) :
    Gives W (s.serializeOn m v) r := (hc.serialize s hs).bind h

/-- What serializing gives in one world, the planned operation gives in all. -/
theorem Schema.gives_of_serializeOn (hc : w₀.Compiles N W) {s : Schema} (hs : N s) {v : Value}
    (h : Runs W m (w₀.serializePlan s).operation) {w w' : World} (hw : W w) {r : Result}
    (hrun : s.serializeOn m v w = .ok (r, w')) :
    Gives W ((w₀.serializePlan s).operation.run m v) r := by
  obtain ⟨w₁, hw₁, hop⟩ := hc.serialize s hs w hw
  rw [Schema.serializeOn, bind_ok hop] at hrun
  exact h v w₁ r w' hw₁ hrun

/-- Parsing is steady when the planned operation is. -/
theorem Schema.parseOn_steady (hc : w₀.Compiles N W) {s : Schema} (hs : N s)
    (h : Runs W m (w₀.planned s).atOnce) (v : Value) : Steady W (s.parseOn m v) :=
  fun _ _ _ hw hrun => Schema.parseOn_gives hc hs (Schema.gives_of_parseOn hc hs h hw hrun)

/-- Serializing is steady when the planned operation is. -/
theorem Schema.serializeOn_steady (hc : w₀.Compiles N W) {s : Schema} (hs : N s)
    (h : Runs W m (w₀.serializePlan s).operation) (v : Value) : Steady W (s.serializeOn m v) :=
  (hc.serialize s hs).bind_steady (h v)

theorem World.Compiles.target (hc : w₀.Compiles N W) {w : World} (hw : W w) (r : Reference) :
    w.target? r = w₀.target? r := by
  rw [World.target?, World.target?, hc.bindings w hw]

/-- Following a reference parses with its schema. -/
theorem World.Compiles.parse_target (hc : w₀.Compiles N W) {w : World} (hw : W w) {r : Reference}
    {t : Schema} (ht : w₀.target? r = some t) (fuel : Nat) (v : Value) :
    (machine (fuel + 1)).parse r v w = t.parseOn (machine fuel) v w := by
  simp only [machine, get_bind, hc.target hw r, ht]

/-- Following a reference serializes with its schema. -/
theorem World.Compiles.serialize_target (hc : w₀.Compiles N W) {w : World} (hw : W w)
    {r : Reference} {t : Schema} (ht : w₀.target? r = some t) (fuel : Nat) (v : Value) :
    (machine (fuel + 1)).serialize r v w = t.serializeOn (machine fuel) v w := by
  simp only [machine, get_bind, hc.target hw r, ht]

/-- **Following a reference is steady**, with any fuel. -/
theorem machine_parse_steady (h : w₀.Closed nodes N) (hc : w₀.Compiles N W) :
    ∀ (fuel : Nat) (s : Schema) (r : Reference), N s → s.kind = .recursive r →
      ∀ v, Steady W ((machine fuel).parse r v)
  | 0, _, _, _, _, _ => .halt _
  | fuel + 1, s, r, hs, hr, v => by
      have href := machine_parse_steady h hc fuel
      cases ht : w₀.target? r with
      | none =>
          refine Steady.congr (fun w hw => ?_) (.pure (.error (danglingError .parsing)))
          simp only [machine, get_bind, hc.target hw r, ht]
      | some t =>
          have htN := h.leads s t hs (World.leads_of_target hr ht)
          exact Steady.congr (fun w hw => hc.parse_target hw ht fuel v)
            (Schema.parseOn_steady hc htN (planned_runs h href t htN) v)

theorem machine_serialize_steady (h : w₀.Closed nodes N) (hc : w₀.Compiles N W) :
    ∀ (fuel : Nat) (s : Schema) (r : Reference), N s → s.kind = .recursive r →
      ∀ v, Steady W ((machine fuel).serialize r v)
  | 0, _, _, _, _, _ => .halt _
  | fuel + 1, s, r, hs, hr, v => by
      have href := machine_serialize_steady h hc fuel
      cases ht : w₀.target? r with
      | none =>
          refine Steady.congr (fun w hw => ?_) (.pure (.error (danglingError .serializing)))
          simp only [machine, get_bind, hc.target hw r, ht]
      | some t =>
          have htN := h.leads s t hs (World.leads_of_target hr ht)
          exact Steady.congr (fun w hw => hc.serialize_target hw ht fuel v)
            (Schema.serializeOn_steady hc htN (serializePlan_runs h href t htN) v)

/-- **Planned parse operations are steady.** -/
theorem World.Closed.parse_runs (h : w₀.Closed nodes N) (hc : w₀.Compiles N W) (fuel : Nat)
    {s : Schema} (hs : N s) : Runs W (machine fuel) (w₀.planned s).atOnce :=
  planned_runs h (machine_parse_steady h hc fuel) s hs

/-- **Planned serialize operations are steady.** -/
theorem World.Closed.serialize_runs (h : w₀.Closed nodes N) (hc : w₀.Compiles N W) (fuel : Nat)
    {s : Schema} (hs : N s) : Runs W (machine fuel) (w₀.serializePlan s).operation :=
  serializePlan_runs h (machine_serialize_steady h hc fuel) s hs

/-- **Parsing is steady.** -/
theorem Schema.parse_steady (h : w₀.Closed nodes N) (hc : w₀.Compiles N W) (fuel : Nat)
    {s : Schema} (hs : N s) (v : Value) : Steady W (s.parse fuel v) :=
  Schema.parseOn_steady hc hs (h.parse_runs hc fuel hs) v

/-- **Serializing is steady.** -/
theorem Schema.serialize_steady (h : w₀.Closed nodes N) (hc : w₀.Compiles N W) (fuel : Nat)
    {s : Schema} (hs : N s) (v : Value) : Steady W (s.serialize fuel v) :=
  Schema.serializeOn_steady hc hs (h.serialize_runs hc fuel hs) v

end

end Schemata
