/-
**Compiling parse operations.**

A node from which no asynchronous function can be reached gets an operation that gives its result
at once; any other node gets one that leaves a task.  The operation is built when it is first
needed and kept in the node's cell, together with everything that was decided while building it:
the policy of objects comes from the configuration in force at that moment.

What is compiled is decided here, in `Schemata.Kind.parser`; when, and in which order, is decided in
`Schemata.Schema.compile`.

Main definitions:

* `Schemata.ParseOperation.atOnce` — the operation of a child under a parent that does not wait;
* `Schemata.Effect.parseAround`, `Schemata.Effect.stageAround` — an effect around a base;
* `Schemata.Kind.parser` — the operation of a kind, given the operations of the nodes below;
* `Schemata.Schema.parseOperation` — the parse operation of a node.
-/

import Schemata.Asynchrony
import Schemata.Compilation.Serialize

set_option relaxedAutoImplicit false
set_option autoImplicit false

namespace Schemata

/-- The error of a schema that waits where nothing may wait. -/
def unexpectedAsyncError : Error := Error.atRoot .unexpectedAsync .parsing

/-- The operation of a child under a parent that does not wait. -/
def ParseOperation.atOnce : ParseOperation → Operation
  | .direct op => op
  | _ => .fail unexpectedAsyncError

/-! ### Effects -/

/-- The parse operation of an effect around a base, neither of which waits. -/
def Effect.parseAround (effect : Effect) (base : Operation) : Operation :=
  match effect with
  | .transform h =>
      match h.parser with
      | some (.direct f) => .thenApply .parsing base f
      | some (.async _) => .fail unexpectedAsyncError
      | none => .fail (missingHandler "transform" .parsing)
  | .preprocess h =>
      match h.parser with
      | some (.direct f) => .applyFirst .parsing f base
      | some (.async _) => .fail unexpectedAsyncError
      | none => .fail (missingHandler "preprocess" .parsing)
  | .refine message (.direct test) => .thenCheck message test base
  | .refine _ (.async _) => .fail unexpectedAsyncError
  | .recover fallback => .recover fallback base
  | .variant _ internal => .thenConstant internal.toValue base
  | .getOr supply => .orSupply supply base

/-- The parse operation of an effect around a base, one of which waits. -/
def Effect.stageAround (effect : Effect) (base : ParseOperation) : ParseOperation :=
  match effect with
  | .transform h =>
      match h.parser with
      | some (.direct f) => .thenApply base f
      | some (.async f) => .thenApplyAsync base f
      | none => .ready (.fail (missingHandler "transform" .parsing))
  | .preprocess h =>
      match h.parser with
      | some (.direct f) => .applyFirst f base
      | some (.async f) => .applyAsyncFirst f base
      | none => .ready (.fail (missingHandler "preprocess" .parsing))
  | .refine message (.direct test) => .thenCheck message test base
  | .refine message (.async test) => .thenCheckAsync message test base
  | .recover fallback => .recover fallback base
  | .variant _ internal => .thenConstant internal.toValue base
  | .getOr supply => .orSupply supply base

/-! ### Leaves -/

/-- The policy of an object: its own, or else that of the configuration. -/
def policyOf (w : World) (own : Option UnknownKeys) : UnknownKeys := own.getD w.config.unknownKeys

/-- The operation of a custom leaf that does not wait. -/
def customOperation (name : String) (handlers : Handlers) : Operation :=
  match handlers.parser with
  | some (.direct f) => .apply .parsing f
  | some (.async _) => .fail unexpectedAsyncError
  | none => .fail (missingHandler name .parsing)

/-- An operation that does nothing when the one inside does nothing. -/
def absentOr (inner : Operation) : Operation := unlessAllNoop [inner] (.unlessNull inner)

/-- The operation of a reference that waits.  Without a schema that can run it fails. -/
def followStaged (w : World) (id : NodeId) (r : Reference) : ParseOperation :=
  if usableTarget w id r then .follow r else .ready (.fail (danglingError .parsing))

/-! ### Kinds -/

/-- The operation of a union member: a member that is the union itself fails. -/
def memberParser (w : World) (ids : List NodeId) (below : Schema → ParseOperation) (s : Schema) :
    ParseOperation :=
  if refersBack w ids s then .direct (.fail (selfMemberError .parsing)) else below s

/-- The parse operation of a kind that does not wait, given the operations of the nodes below. -/
def Kind.directParser (w : World) (id : NodeId) (below : Schema → ParseOperation) (kind : Kind) :
    Operation :=
  let expected := kind.expectedName
  match kind with
  | .unknown | .json => .noop
  | .never => .scalar .never .parsing expected
  | .unit => .scalar .unit .parsing expected
  | .string => .scalar .string .parsing expected
  | .bool => .scalar .bool .parsing expected
  | .int => .scalar .int .parsing expected
  | .float => .scalar .float .parsing expected
  | .literal l => .literal .parsing l
  | .array s => .array .parsing expected (below s).atOnce
  | .dict s => .dict .parsing expected (below s).atOnce
  | .object fields policy =>
      .parseObject expected (fields.map fun f => (f.1, (below f.2).atOnce)) (policyOf w policy)
  | .tuple items => .tuple .parsing expected (items.map fun s => (below s).atOnce)
  | .option s | .null s | .nullable s => absentOr (below s).atOnce
  | .union members =>
      .parseUnion (members.map fun s => (memberParser w (members.map Schema.id) below s).atOnce)
        (members.map (Schema.tag? .input))
  | .jsonString s => .decodeText expected (below s).atOnce
  | .custom name handlers => customOperation name handlers
  | .transformed base effect => effect.parseAround (below base).atOnce
  | .recursive r => followOperation w .parsing id r

/-- The parse operation of a kind that waits, given the operations of the nodes below. -/
def Kind.stagedParser (w : World) (id : NodeId) (below : Schema → ParseOperation) (kind : Kind) :
    ParseOperation :=
  let expected := kind.expectedName
  match kind with
  | .array s => .array expected (below s)
  | .dict s => .dict expected (below s)
  | .object fields policy =>
      .object expected (fields.map fun f => (f.1, below f.2)) (policyOf w policy)
  | .tuple items => .tuple expected (items.map below)
  | .option s | .null s | .nullable s => .unlessNull (below s)
  | .union members => .union (members.map (memberParser w (members.map Schema.id) below))
  | .jsonString s => .decodeText expected (below s)
  | .custom name handlers =>
      match handlers.parser with
      | some (.async f) => .applyAsync f
      | _ => .ready (customOperation name handlers)
  | .transformed base effect => effect.stageAround (below base)
  | .recursive r => followStaged w id r
  | .unknown | .json => .ready .noop
  | .never => .ready (.scalar .never .parsing expected)
  | .unit => .ready (.scalar .unit .parsing expected)
  | .string => .ready (.scalar .string .parsing expected)
  | .bool => .ready (.scalar .bool .parsing expected)
  | .int => .ready (.scalar .int .parsing expected)
  | .float => .ready (.scalar .float .parsing expected)
  | .literal l => .ready (.literal .parsing l)

/-- **The parse operation of a kind**, given whether it waits and the operations of the nodes
below. -/
def Kind.parser (w : World) (id : NodeId) (waits : Bool) (below : Schema → ParseOperation)
    (kind : Kind) : ParseOperation :=
  if waits then kind.stagedParser w id below else .direct (kind.directParser w id below)

/-- The parse operation in the cell of a node. -/
def World.parserOf (w : World) (s : Schema) : ParseOperation :=
  match (w.parseCells s.id).content? with
  | some c => c.operation
  | none => .direct .noop

/-! ### Nodes -/

/-- How parse operations are compiled. -/
def parseCompiler : Compiler (Compiled ParseOperation) where
  cells w := w.parseCells
  withCells cells w := { w with parseCells := cells }
  waits s := s.isAsync
  build w id waits kind := ⟨id, kind.parser w id waits w.parserOf⟩

/-- **The parse operation of a node**, built when it is first needed. -/
def Schema.parseOperation (s : Schema) : Run (Compiled ParseOperation) := s.compile parseCompiler

end Schemata
