/-
**Compiling serialize operations.**

A typed value satisfies its schema already, so most leaves serialize by doing nothing, and a
composite does nothing when everything below it does nothing.  The operation of a node is built
when it is first needed and kept in the node's cell.  A refinement that waits, a stand-in for
failures and a supply for absent values leave the operation of the schema below them as it is.

What is compiled is decided here, in `Schemata.Kind.serializer`; when, and in which order, is decided
in `Schemata.Schema.compile`.

Main definitions:

* `Schemata.danglingError`, `Schemata.selfMemberError`, `Schemata.missingHandler` — the errors of
  schemas that cannot run;
* `Schemata.Kind.serializer` — the operation of a kind, given the operations of the nodes below;
* `Schemata.Schema.serializeOperation` — the serialize operation of a node.
-/

import Schemata.Compilation.Traversal
import Schemata.Schema.Name
import Schemata.Union.Tag

set_option relaxedAutoImplicit false
set_option autoImplicit false

namespace Schemata

/-! ### Schemas that cannot run -/

/-- A reference without a schema. -/
def danglingError (direction : Direction) : Error :=
  Error.atRoot (.invalidOperation "The recursive schema reference doesn't resolve to a schema")
    direction

/-- A union member that is the union itself. -/
def selfMemberError (direction : Direction) : Error :=
  Error.atRoot (.invalidOperation "The union member refers back to the union itself") direction

/-- A direction without a function. -/
def missingHandler (owner : String) (direction : Direction) : Error :=
  let which := match direction with
    | .parsing => "parser"
    | .serializing => "serializer"
  Error.atRoot (.invalidOperation ("The " ++ owner ++ " " ++ which ++ " is missing")) direction

/-- Whether the reference of a node stands for a schema other than the node itself. -/
def usableTarget (w : World) (id : NodeId) (r : Reference) : Bool :=
  match w.target? r with
  | some s => s.id != id
  | none => false

/-- The operation of a reference.  One that was bound, but not to a schema that can run, fails; one
that is not bound yet is looked up later. -/
def followOperation (w : World) (direction : Direction) (id : NodeId) (r : Reference) : Operation :=
  if w.isSet r && !usableTarget w id r then .fail (danglingError direction)
  else .follow direction r

/-! ### Compiling -/

/-- An operation around others that does nothing when they all do nothing. -/
def unlessAllNoop (ops : List Operation) (op : Operation) : Operation :=
  if ops.all Operation.isNoop then .noop else op

/-- The serialize operation of an effect around a base. -/
def Effect.serializeAround (effect : Effect) (id : NodeId) (base : Compiled Operation) :
    Compiled Operation :=
  match effect with
  | .transform h =>
      match h.serializer with
      | some f => ⟨id, .applyFirst .serializing f base.operation⟩
      | none => ⟨id, .fail (missingHandler "transform" .serializing)⟩
  | .preprocess h =>
      match h.serializer with
      | some f => ⟨id, .thenApply .serializing base.operation f⟩
      | none => ⟨id, .fail (missingHandler "preprocess" .serializing)⟩
  | .refine message (.direct test) => ⟨id, .checkFirst message test base.operation⟩
  | .refine _ (.async _) => base
  | .recover _ => base
  | .getOr _ => base
  | .variant external internal => ⟨id, .exchange internal external.toValue base.operation⟩

/-- Whether a field is left out when its value is null. -/
def isOmittable (s : Schema) : Bool :=
  match s.kind with
  | .option _ => true
  | _ => false

/-- The names of the fields that are left out when their value is null. -/
def omittedFields (fields : List (String × Schema)) : List String :=
  (fields.filter fun f => isOmittable f.2).map Prod.fst

/-! ### Kinds -/

/-- The operation of a union member: a member that is the union itself fails. -/
def memberSerializer (w : World) (ids : List NodeId) (below : Schema → Compiled Operation)
    (s : Schema) : Operation :=
  if refersBack w ids s then .fail (selfMemberError .serializing) else (below s).operation

/-- The serialize operation of an object: nothing is done when every field does nothing and none
is left out for null. -/
def objectSerializer (expected : Thunk String) (ops : List (String × Operation))
    (omitted : List String) : Operation :=
  if omitted.isEmpty && ops.all (fun f => f.2.isNoop) then .noop
  else .serializeObject expected ops omitted

/-- **The serialize operation of a kind**, given the operations of the nodes below. -/
def Kind.serializer (w : World) (id : NodeId) (below : Schema → Compiled Operation) (kind : Kind) :
    Compiled Operation :=
  let expected := kind.expectedName
  match kind with
  | .unknown | .json | .unit | .string | .bool | .int | .float => ⟨id, .noop⟩
  | .never => ⟨id, .scalar .never .serializing expected⟩
  | .literal l => ⟨id, .literal .serializing l⟩
  | .array s =>
      let item := (below s).operation
      ⟨id, unlessAllNoop [item] (.array .serializing expected item)⟩
  | .dict s =>
      let value := (below s).operation
      ⟨id, unlessAllNoop [value] (.dict .serializing expected value)⟩
  | .object fields _ =>
      ⟨id, objectSerializer expected (fields.map fun f => (f.1, (below f.2).operation))
        (omittedFields fields)⟩
  | .tuple items =>
      let ops := items.map fun s => (below s).operation
      ⟨id, unlessAllNoop ops (.tuple .serializing expected ops)⟩
  | .option s | .null s | .nullable s =>
      let inner := (below s).operation
      ⟨id, unlessAllNoop [inner] (.unlessNull inner)⟩
  | .union members =>
      ⟨id, .serializeUnion (members.map (memberSerializer w (members.map Schema.id) below))
        (members.map (Schema.tag? .output))⟩
  | .jsonString s => ⟨id, .encodeText (below s).operation⟩
  | .custom name handlers =>
      match handlers.serializer with
      | some f => ⟨id, .apply .serializing f⟩
      | none => ⟨id, .fail (missingHandler name .serializing)⟩
  | .transformed base effect => effect.serializeAround id (below base)
  | .recursive r => ⟨id, followOperation w .serializing id r⟩

/-- What the serialize cell of a node holds. -/
def World.serializerOf (w : World) (s : Schema) : Compiled Operation :=
  match (w.serializeCells s.id).content? with
  | some c => c
  | none => ⟨s.id, .noop⟩

/-! ### Nodes -/

/-- How serialize operations are compiled. -/
def serializeCompiler : Compiler (Compiled Operation) where
  cells w := w.serializeCells
  withCells cells w := { w with serializeCells := cells }
  waits _ := return false
  build w id _ kind := kind.serializer w id w.serializerOf

/-- **The serialize operation of a node**, built when it is first needed. -/
def Schema.serializeOperation (s : Schema) : Run (Compiled Operation) := s.compile serializeCompiler

end Schemata
