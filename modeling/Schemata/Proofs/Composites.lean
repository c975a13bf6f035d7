/-
**Composites start their children.**

An array, a dict, an object or a tuple parses a value child by child.  The children and their inputs
can be told from its kind and the value.  Whether the composite waits or not, it starts them in
order, looks at the keys that are left over, and puts together what they leave.

Main definitions:

* `Schemata.Place`, `Schemata.Kind.places?` — the children of a composite, with their inputs;
* `Schemata.Kind.Opens` — the four composites, with the values of their shapes;
* `Schemata.Kind.excess?`, `Schemata.Kind.assembly` — the key in excess, and how values are put
  together;
* `Schemata.stagePlaces` — children started in order and put together.

Main results:

* `Schemata.Kind.stagedParser_places`, `Schemata.Kind.directParser_places` — **composites start
  their children**, waiting or not.
-/

import Schemata.Proofs.Children
import Schemata.Proofs.StagedSimulation

set_option relaxedAutoImplicit false
set_option autoImplicit false

namespace Schemata

/-! ### The children of a composite -/

/-- A child of a composite: where it stands, its schema, and its input. -/
structure Place where
  segment : Segment
  schema : Schema
  input : Value

/-- The children of an object: each field takes its value out of the entries. -/
def fieldPlaces : List (String × Schema) → List (String × Value) → List Place
  | [], _ => []
  | (name, s) :: rest, entries =>
      ⟨.key name, s, (Entries.find? name entries).getD .null⟩ ::
        fieldPlaces rest (Entries.remove name entries)

/-- **The children that a composite parses a value with**, in order.  A value that is not of its
shape has none. -/
def Kind.places? : Kind → Value → Option (List Place)
  | .array s, .array items => some (items.zipIdx.map fun c => ⟨.index c.2, s, c.1⟩)
  | .dict s, .object entries => some (entries.map fun e => ⟨.key e.1, s, e.2⟩)
  | .tuple items, .array values =>
      if items.length = values.length then
        some ((items.zip values).zipIdx.map fun c => ⟨.index c.2, c.1.1, c.1.2⟩)
      else none
  | .object fields _, .object entries => some (fieldPlaces fields entries)
  | _, _ => none

/-- **The four composites**, with the values of their shapes and the children that parse them. -/
inductive Kind.Opens : Kind → Value → List Place → Prop
  | array (s : Schema) (items : List Value) :
      Opens (.array s) (.array items) (items.zipIdx.map fun c => ⟨.index c.2, s, c.1⟩)
  | dict (s : Schema) (entries : List (String × Value)) :
      Opens (.dict s) (.object entries) (entries.map fun e => ⟨.key e.1, s, e.2⟩)
  | tuple (items : List Schema) (values : List Value) : items.length = values.length →
      Opens (.tuple items) (.array values)
        ((items.zip values).zipIdx.map fun c => ⟨.index c.2, c.1.1, c.1.2⟩)
  | object (fields : List (String × Schema)) (own : Option UnknownKeys)
      (entries : List (String × Value)) :
      Opens (.object fields own) (.object entries) (fieldPlaces fields entries)

/-- The error for the key that a strict object has in excess. -/
def Kind.excess? (w : World) : Kind → Value → Option Error
  | .object fields own, .object entries =>
      excessError? (policyOf w own)
        ((Entries.keys fields).foldl (fun left name => Entries.remove name left) entries)
  | _, _ => none

/-- How the values of the children are put together. -/
def Kind.assembly : Kind → Value → Assembly
  | .dict _, .object entries => .object (Entries.keys entries)
  | .object fields _, _ => .object (Entries.keys fields)
  | _, _ => .array

/-! ### Composites start their children -/

/-- What is left when the children have started: a key may be in excess. -/
def afterStarts (excess : Option Error) (assembly : Assembly) :
    Except Error (List Staged) → Except Error Staged
  | .error e => .error e
  | .ok children =>
      match excess with
      | some e => .error e
      | none => .ok (assemble assembly children)

/-- Start children, look for a key in excess, and put the children together. -/
def stagePlaces (starts : List (Segment × Run (Except Error Staged))) (excess : Option Error)
    (assembly : Assembly) : Run (Except Error Staged) := do
  return afterStarts excess assembly (← stageEach starts)

section

variable {m : Machine} {w : World} {id : NodeId} {kind : Kind} {v : Value} {places : List Place}

theorem Kind.opens_of_places? (h : kind.places? v = some places) : kind.Opens v places := by
  cases kind with
  | array s =>
      cases v with
      | array items => cases h; exact .array ..
      | _ => cases h
  | dict s =>
      cases v with
      | object entries => cases h; exact .dict ..
      | _ => cases h
  | tuple items =>
      cases v with
      | array values =>
          rw [Kind.places?] at h
          split at h
          · rename_i hlength
            cases h
            exact .tuple _ _ hlength
          · cases h
      | _ => cases h
  | object fields own =>
      cases v with
      | object entries => cases h; exact .object ..
      | _ => cases h
  | _ => cases v <;> cases h

/-- Operations on values one by one. -/
theorem zipWith_stagers (m : Machine) (ops : List ParseOperation) (values : List Value) :
    (stagers m ops).zipWith (fun stage v => stage v) values =
      (ops.zip values).map fun x => x.1.stage m x.2 := by
  rw [stagers_eq_map, List.zipWith_map_left, ← List.map_uncurry_zip_eq_zipWith]
  rfl

/-- Children are assembled when they have started and there is no key in excess. -/
theorem assembled_stageEach (assembly : Assembly)
    (starts : List (Segment × Run (Except Error Staged))) :
    (do return assembled assembly (← stageEach starts)) = stagePlaces starts none assembly := by
  simp only [stagePlaces]
  congr 1
  funext r
  rcases r with e | children <;> rfl

/-- Fields are started like the children of any composite. -/
theorem stageFields_places (below : Schema → ParseOperation) :
    ∀ (fields : List (String × Schema)) (entries : List (String × Value)),
      stageFields (fields.map fun f => (f.1, (below f.2).stage m)) entries = (do
        match ← stageEach ((fieldPlaces fields entries).map fun p =>
          (p.segment, (below p.schema).stage m p.input)) with
        | .error e => return .error e
        | .ok children => return .ok (children,
            (Entries.keys fields).foldl (fun left name => Entries.remove name left) entries))
  | [], _ => rfl
  | (name, s) :: rest, entries => by
      simp only [List.map_cons, stageFields, stageFields_places below rest, fieldPlaces, stageEach,
        bind_assoc]
      congr 1
      funext r
      rcases r with e | staged
      · rfl
      · simp only [bind_assoc]
        congr 1
        funext r
        rcases r with e | others <;> rfl

/-- **Composites that wait start their children.** -/
theorem Kind.stagedParser_places (below : Schema → ParseOperation)
    (h : kind.places? v = some places) :
    (kind.stagedParser w id below).stage m v =
      stagePlaces (places.map fun p => (p.segment, (below p.schema).stage m p.input))
        (kind.excess? w v) (kind.assembly v) := by
  cases Kind.opens_of_places? h with
  | array s items =>
      simp only [Kind.stagedParser, ParseOperation.stage, assembled_stageEach, Kind.excess?,
        Kind.assembly, indexed, List.map_map, List.zipIdx_map]
      rfl
  | dict s entries =>
      simp only [Kind.stagedParser, ParseOperation.stage, assembled_stageEach, Kind.excess?,
        Kind.assembly, keyed, List.map_map]
      rfl
  | tuple items values hlength =>
      simp only [Kind.stagedParser, ParseOperation.stage, sizeError?, List.length_map, hlength,
        if_true, zipWith_stagers, List.zip_map_left, assembled_stageEach, Kind.excess?,
        Kind.assembly, indexed, List.map_map, List.zipIdx_map]
      rfl
  | object fields own entries =>
      simp only [Kind.stagedParser, ParseOperation.stage, fieldStagers_map, Entries.keys_map,
        stageFields_places, bind_assoc, stagePlaces, Kind.excess?, Kind.assembly]
      congr 1
      funext r
      rcases r with e | children
      · rfl
      · simp only [pure_bind, afterStarts]
        generalize excessError? _ _ = excess
        cases excess <;> rfl

/-! ### Composites that do not wait -/

/-- Children that give their results at once, started. -/
theorem stageEach_ready : ∀ children : List (Segment × Run Result),
    stageEach (children.map fun c => (c.1, do return (← c.2).toStaged)) = (do
      match ← runEach children with
      | .error e => return .error e
      | .ok values => return .ok (values.map Staged.ready))
  | [] => rfl
  | (s, child) :: rest => by
      simp only [List.map_cons, stageEach, stageEach_ready rest, runEach, bind_assoc, pure_bind]
      congr 1
      funext r
      rcases r with e | v
      · rfl
      · simp only [Result.toStaged, bind_assoc]
        congr 1
        funext r
        rcases r with e | values <;> rfl

theorem readyValues?_ready (values : List Value) :
    readyValues? (values.map Staged.ready) = some values := by
  induction values with
  | nil => rfl
  | cons v rest ih => rw [List.map_cons, readyValues?, ih, Option.map_some]

/-- A composite whose children give their results at once. -/
theorem stagePlaces_ready (children : List (Segment × Run Result)) (excess : Option Error)
    (assembly : Assembly) :
    stagePlaces (children.map fun c => (c.1, do return (← c.2).toStaged)) excess assembly = (do
      match ← runEach children with
      | .error e => return .error e
      | .ok values =>
          match excess with
          | some e => return .error e
          | none => return .ok (.ready (assembly.build values))) := by
  rw [stagePlaces, stageEach_ready, bind_assoc]
  congr 1
  funext r
  rcases r with e | values
  · rfl
  · simp only [pure_bind, afterStarts, assemble, readyValues?_ready]
    cases excess <;> rfl

/-- Fields are run like the children of any composite. -/
theorem runFields_places (run : Schema → Runner) :
    ∀ (fields : List (String × Schema)) (entries : List (String × Value)),
      runFields (fields.map fun f => (f.1, run f.2)) entries = (do
        match ← runEach ((fieldPlaces fields entries).map fun p =>
          (p.segment, run p.schema p.input)) with
        | .error e => return .error e
        | .ok values => return .ok ((Entries.keys fields).zip values,
            (Entries.keys fields).foldl (fun left name => Entries.remove name left) entries))
  | [], _ => rfl
  | (name, s) :: rest, entries => by
      simp only [List.map_cons, runFields, runFields_places run rest, fieldPlaces, runEach,
        bind_assoc]
      congr 1
      funext r
      rcases r with e | v
      · rfl
      · simp only [bind_assoc]
        congr 1
        funext r
        rcases r with e | values <;> rfl

theorem fieldPlaces_schema : ∀ (fields : List (String × Schema)) (entries : List (String × Value)),
    ∀ p ∈ fieldPlaces fields entries, p.schema ∈ fields.map Prod.snd
  | [], _, p, hp => by cases hp
  | (name, s) :: rest, entries, p, hp => by
      rcases List.mem_cons.1 hp with rfl | hp
      · exact List.mem_cons_self ..
      · exact List.mem_cons_of_mem _ (fieldPlaces_schema rest _ p hp)

/-- The children of a composite stand directly below it. -/
theorem Kind.places?_schema (h : kind.places? v = some places) :
    ∀ p ∈ places, p.schema ∈ kind.children := by
  intro p hp
  cases Kind.opens_of_places? h with
  | array s items =>
      obtain ⟨c, -, rfl⟩ := List.mem_map.1 hp
      exact List.mem_singleton_self s
  | dict s entries =>
      obtain ⟨e, -, rfl⟩ := List.mem_map.1 hp
      exact List.mem_singleton_self s
  | tuple items values hlength =>
      obtain ⟨c, hc, rfl⟩ := List.mem_map.1 hp
      exact (List.of_mem_zip (List.fst_mem_of_mem_zipIdx hc)).1
  | object fields own entries => exact fieldPlaces_schema fields entries p hp

/-- Collected values are ready at once. -/
theorem collect_runEach (build : List Value → Value) (children : List (Segment × Run Result)) :
    (do
      let r ← (do return collect build (← runEach children) : Run Result)
      return r.toStaged) = (do
      match ← runEach children with
      | .error e => return .error e
      | .ok values => return .ok (.ready (build values))) := by
  rw [bind_assoc]
  congr 1
  funext r
  rcases r with e | values <;> rfl

/-- Children that do not wait start with what they give at once. -/
theorem starts_of_direct {below : Schema → ParseOperation} {children : List Place}
    (h : ∀ p ∈ children, (below p.schema).isAsync = false) :
    (children.map fun p => (p.segment, (below p.schema).stage m p.input)) =
      (children.map fun p => (p.segment, (below p.schema).atOnce.run m p.input)).map fun c =>
        (c.1, do return (← c.2).toStaged) := by
  rw [List.map_map]
  refine List.map_congr_left fun p hp => ?_
  have hdirect := h p hp
  cases hop : below p.schema with
  | direct op =>
      simp only [Function.comp, hop]
      rfl
  | _ =>
      rw [hop] at hdirect
      cases hdirect

/-- **Composites that do not wait start their children**, which give their results at once. -/
theorem Kind.directParser_places (below : Schema → ParseOperation)
    (hbelow : ∀ t ∈ kind.children, (below t).isAsync = false) (h : kind.places? v = some places) :
    (ParseOperation.direct (kind.directParser w id below)).stage m v =
      stagePlaces (places.map fun p => (p.segment, (below p.schema).stage m p.input))
        (kind.excess? w v) (kind.assembly v) := by
  rw [starts_of_direct fun p hp => hbelow p.schema (Kind.places?_schema h p hp), stagePlaces_ready,
    ParseOperation.stage]
  cases Kind.opens_of_places? h with
  | array s items =>
      simp only [Kind.directParser, Operation.run, collect_runEach, Kind.excess?, Kind.assembly,
        indexed, List.map_map, List.zipIdx_map]
      rfl
  | dict s entries =>
      simp only [Kind.directParser, Operation.run, collect_runEach, Kind.excess?, Kind.assembly,
        keyed, List.map_map]
      rfl
  | tuple items values hlength =>
      simp only [Kind.directParser, Operation.run, sizeError?, List.length_map, hlength, if_true,
        zipWith_runners, List.zip_map_left, collect_runEach, Kind.excess?, Kind.assembly,
        indexed, List.map_map, List.zipIdx_map]
      rfl
  | object fields own entries =>
      simp only [Kind.directParser, Operation.run, fieldRunners_map m fun s => (below s).atOnce,
        runFields_places fun s => (below s).atOnce.run m, bind_assoc, Kind.excess?, Kind.assembly]
      congr 1
      funext r
      rcases r with e | values
      · rfl
      · simp only [pure_bind]
        generalize excessError? _ _ = excess
        cases excess <;> rfl

end

end Schemata
