/-
**Schemas: descriptions of values that can be parsed and serialized.**

A schema is a node: its kind, which holds the schemas below it, descriptive metadata, and an
identity.  Two nodes with the same content are different nodes, and the same node can stand in
several places.  A node is never changed.  What is compiled for it is kept elsewhere, under its
identity.

A recursive schema refers to itself through a reference, which is a leaf: the schema it stands for
is looked up where it is bound.  A node that was made as a copy of another one keeps that one,
because a reference may stand for it.

Main definitions:

* `Schemata.UnknownKeys`, `Schemata.Config` — what objects do with keys they do not declare;
* `Schemata.Check`, `Schemata.Effect` — refinements, and everything a node can wrap around another;
* `Schemata.Metadata` — names, descriptions and free entries;
* `Schemata.Schema`, `Schemata.Kind` — nodes and their kinds;
* `Schemata.Kind.label`, `Schemata.Schema.children` — the kind's own name and the nodes below.
-/

import Schemata.Action

set_option relaxedAutoImplicit false
set_option autoImplicit false

namespace Schemata

/-! ### Settings -/

/-- What an object does with keys that it does not declare. -/
inductive UnknownKeys where
  | strip
  | strict
deriving DecidableEq, Inhabited

/-- The policy in configuration documents. -/
def UnknownKeys.text : UnknownKeys → String
  | .strip => "strip"
  | .strict => "strict"

/-- Defaults that are read while operations are compiled. -/
structure Config where
  unknownKeys : UnknownKeys
deriving DecidableEq, Inhabited

/-- The configuration that is in force until another one is set. -/
def Config.default : Config := ⟨.strip⟩

/-! ### Metadata -/

/-- Descriptive data, which neither parsing nor serializing reads. -/
structure Metadata where
  name : Option String
  description : Option String
  deprecation : Option String
  custom : List (String × Value)

namespace Metadata

/-- No descriptive data. -/
def empty : Metadata := ⟨none, none, none, []⟩

/-- Equality, in which the order of the free entries does not matter. -/
def equal (a b : Metadata) : Bool :=
  a.name == b.name && a.description == b.description && a.deprecation == b.deprecation &&
    (Value.object a.custom).equal (.object b.custom)

end Metadata

/-! ### Effects -/

/-- The test behind a refinement. -/
inductive Check where
  | direct (test : Test)
  | async (test : AsyncTest)

/-- Whether the test is asynchronous. -/
def Check.isAsync : Check → Bool
  | .direct _ => false
  | .async _ => true

/-- What a node wraps around the schema below it. -/
inductive Effect where
  /-- Functions after parsing and before serializing. -/
  | transform (handlers : Handlers)
  /-- Functions before parsing and after serializing. -/
  | preprocess (handlers : Handlers)
  /-- A test of the parsed value. -/
  | refine (message : String) (check : Check)
  /-- A value instead of a failure to parse. -/
  | recover (fallback : Fallback)
  /-- A literal outside for a literal inside. -/
  | variant (external internal : Literal)
  /-- A value instead of an absent one. -/
  | getOr (supply : Supply)

namespace Effect

/-- Whether parsing waits for the effect's own function. -/
def isAsync : Effect → Bool
  | .transform h => h.isAsync
  | .preprocess h => h.isAsync
  | .refine _ check => check.isAsync
  | _ => false

/-- The name of the effect. -/
def label : Effect → String
  | .transform _ => "transform"
  | .preprocess _ => "preprocess"
  | .refine _ _ => "refine"
  | .recover _ => "catch"
  | .variant _ _ => "variant"
  | .getOr _ => "get_or"

/-- The references that the effect's functions use. -/
def references : Effect → List Reference
  | .transform h => h.references
  | .preprocess h => h.references
  | _ => []

end Effect

/-! ### Nodes -/

/-- The identity of a node. -/
abbrev NodeId := Nat

mutual

/-- A node: identity, kind, metadata, and the node that it was copied from. -/
inductive Schema where
  | node (id : NodeId) (kind : Kind) (metadata : Metadata) (origin : Option Schema)

/-- The kind of a node. -/
inductive Kind where
  /-- No value. -/
  | never
  /-- Any value. -/
  | unknown
  /-- Null. -/
  | unit
  | string
  | bool
  /-- Integers of 32 bits, also when they are written as floating-point numbers. -/
  | int
  /-- Any number. -/
  | float
  /-- Any value, as a document. -/
  | json
  | literal (value : Literal)
  | array (item : Schema)
  | dict (value : Schema)
  /-- Fields in the order of their declaration; without a policy the configuration decides. -/
  | object (fields : List (String × Schema)) (unknownKeys : Option UnknownKeys)
  | tuple (items : List Schema)
  /-- Null or absent for nothing; left out when serialized as a field. -/
  | option (inner : Schema)
  /-- Null for nothing. -/
  | null (inner : Schema)
  /-- Null or absent for nothing, serialized as null. -/
  | nullable (inner : Schema)
  | union (members : List Schema)
  /-- A document inside a string. -/
  | jsonString (inner : Schema)
  /-- A leaf with functions of its own. -/
  | custom (name : String) (handlers : Handlers)
  | transformed (base : Schema) (effect : Effect)
  /-- The schema bound to a reference. -/
  | recursive (target : Reference)

end

/-- The kind's own name. -/
def Kind.label : Kind → String
  | .never => "never"
  | .unknown => "unknown"
  | .unit => "unit"
  | .string => "string"
  | .bool => "bool"
  | .int => "int"
  | .float => "float"
  | .json => "json"
  | .literal _ => "literal"
  | .array _ => "array"
  | .dict _ => "dict"
  | .object _ _ => "object"
  | .tuple _ => "tuple"
  | .option _ => "option"
  | .null _ => "null"
  | .nullable _ => "nullable"
  | .union _ => "union"
  | .jsonString _ => "json_string"
  | .custom _ _ => "custom"
  | .transformed _ effect => effect.label
  | .recursive _ => "recursive"

/-- The nodes directly below, in the order of their declaration. -/
def Kind.children : Kind → List Schema
  | .array s | .dict s | .option s | .null s | .nullable s | .jsonString s => [s]
  | .object fields _ => fields.map Prod.snd
  | .tuple items => items
  | .union members => members
  | .transformed base _ => [base]
  | _ => []

/-- The references that the kind's own functions use. -/
def Kind.captured : Kind → List Reference
  | .custom _ h => h.references
  | .transformed _ e => e.references
  | _ => []

namespace Schema

/-- The identity of a node. -/
def id : Schema → NodeId
  | .node id _ _ _ => id

/-- The kind of a node. -/
def kind : Schema → Kind
  | .node _ kind _ _ => kind

/-- The metadata of a node. -/
def metadata : Schema → Metadata
  | .node _ _ metadata _ => metadata

/-- The node that this one was copied from. -/
def origin : Schema → Option Schema
  | .node _ _ _ origin => origin

/-- Whether two nodes are the same node. -/
def sameNode (a b : Schema) : Bool := a.id == b.id

/-- The nodes directly below. -/
def children (s : Schema) : List Schema := s.kind.children

/-- The field of an object under a name. -/
def field? (name : String) (s : Schema) : Option Schema :=
  match s.kind with
  | .object fields _ => Entries.find? name fields
  | _ => none

end Schema

end Schemata
