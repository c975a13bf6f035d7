/-
**Building schemas.**

A constructor makes a new node, with an identity that no node had before.  Children exist before
their parents; the one way to refer to a schema that is still being built is the placeholder of
`Schemata.Schema.recursive`, whose reference is bound once the schema is there.

Setting metadata makes a copy that shares what was compiled for the node it copies.  A copy of an
object with another policy shares nothing.

Main definitions:

* `Schemata.Schema.fresh` — a new node;
* `Schemata.Schema.ofFields`, `Schemata.Schema.ofMembers`, `Schemata.Schema.ofValue` — objects,
  unions, and the schema of exactly one value's shape;
* `Schemata.Schema.recursive` — schemas that refer to themselves;
* `Schemata.Schema.withMetadata`, `Schemata.Schema.withPolicy` — copies.
-/

import Schemata.World

set_option relaxedAutoImplicit false
set_option autoImplicit false

namespace Schemata

/-- An identity that no node has. -/
def newNodeId : Run NodeId := do
  let w ← get
  set { w with nextNode := w.nextNode + 1 }
  return w.nextNode

/-- A reference that nothing uses. -/
def newReference : Run Reference := do
  let w ← get
  set { w with nextReference := w.nextReference + 1 }
  return w.nextReference

/-- A reference bound to a schema, for functions that run it. -/
def capture (s : Schema) : Run Reference := do
  let r ← newReference
  bindReference r (.live s)
  return r

namespace Schema

/-- A new node with metadata, and the node that it is a copy of. -/
def freshWith (kind : Kind) (metadata : Metadata) (origin : Option Schema) : Run Schema := do
  return .node (← newNodeId) kind metadata origin

/-- A new node. -/
def fresh (kind : Kind) : Run Schema := freshWith kind Metadata.empty none

/-- The first name that stands twice. -/
def repeatedName? : List String → List (String × Schema) → Option String
  | _, [] => none
  | seen, (name, _) :: rest =>
      if seen.contains name then some name else repeatedName? (name :: seen) rest

/-- **An object**, unless a name stands twice. -/
def ofFields (fields : List (String × Schema)) : Run (Except DefinitionError Schema) := do
  match repeatedName? [] fields with
  | some name => return .error (.duplicateField name)
  | none => return .ok (← fresh (.object fields none))

/-- **A union**, unless it has no members. -/
def ofMembers (members : List Schema) : Run (Except DefinitionError Schema) := do
  if members.isEmpty then return .error .emptyUnion
  else return .ok (← fresh (.union members))

/-- The wire literal `external` for the literal `internal`. -/
def variant (external internal : Literal) : Run Schema := do
  let base ← fresh (.literal external)
  fresh (.transformed base (.variant external internal))

/-- A literal schema read as another literal; other schemas stay as they are. -/
def asVariant (s : Schema) (internal : Literal) : Run Schema :=
  match s.kind with
  | .literal external => fresh (.transformed s (.variant external internal))
  | _ => return s

mutual

/-- **The schema of exactly one value's shape**: scalars as literals, arrays as tuples, objects as
objects. -/
def ofValue : Value → Run Schema
  | .array items => do fresh (.tuple (← ofItems items))
  | .object entries => do fresh (.object (← ofEntries entries) none)
  | v => fresh (.literal (Literal.ofValue v))

/-- The schemas of items. -/
def ofItems : List Value → Run (List Schema)
  | [] => return []
  | v :: rest => do
      let s ← ofValue v
      return s :: (← ofItems rest)

/-- The schemas of entries. -/
def ofEntries : List (String × Value) → Run (List (String × Schema))
  | [] => return []
  | (name, v) :: rest => do
      let s ← ofValue v
      return (name, s) :: (← ofEntries rest)

end

/-- A placeholder for a schema that is still being built, with its reference. -/
def placeholder : Run (Reference × Schema) := do
  let r ← newReference
  return (r, ← fresh (.recursive r))

/-- **A schema that refers to itself**: `build` gets a placeholder for the schema that it builds. -/
def recursive (build : Schema → Run Schema) : Run Schema := do
  let (r, self) ← placeholder
  let s ← build self
  bindReference r (.live s)
  return s

/-- **A copy with other metadata.**  It shares whatever is compiled for the node it copies. -/
def withMetadata (s : Schema) (update : Metadata → Metadata) : Run Schema := do
  let copy ← freshWith s.kind (update s.metadata) (some s)
  let w ← get
  setParseCell copy.id (w.parseCells s.id)
  setSerializeCell copy.id (w.serializeCells s.id)
  setAsyncCell copy.id (w.asyncCells s.id)
  return copy

/-- **A copy of an object with another policy**, sharing nothing; other schemas stay as they are. -/
def withPolicy (s : Schema) (policy : UnknownKeys) : Run Schema :=
  match s.kind with
  | .object fields _ => freshWith (.object fields (some policy)) s.metadata (some s)
  | _ => return s

/-- A copy under a display name. -/
def setName (s : Schema) (name : String) : Run Schema :=
  s.withMetadata fun m => { m with name := some name }

/-- A copy with a description. -/
def describe (s : Schema) (text : String) : Run Schema :=
  s.withMetadata fun m => { m with description := some text }

/-- A copy marked as deprecated. -/
def setDeprecation (s : Schema) (text : String) : Run Schema :=
  s.withMetadata fun m => { m with deprecation := some text }

/-- A copy with a free entry; an entry under the key is replaced. -/
def setMetadata (s : Schema) (key : String) (v : Value) : Run Schema :=
  s.withMetadata fun m => { m with custom := Entries.insert key v m.custom }

/-- An effect around a schema. -/
def wrap (s : Schema) (effect : Effect) : Run Schema := fresh (.transformed s effect)

end Schema

end Schemata
