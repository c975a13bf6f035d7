/-
**The world: everything that changes.**

Schemas never change.  What does change is kept in one place: the cells that hold what was compiled
for a node, the schemas that references are bound to, the configuration, and the log of user
functions.  A cell is written once.  While it is being filled it is marked, so that a second attempt
to fill it is seen.

A reference does not keep its schema: once nothing else holds the schema, the reference is left
without it.

Main definitions:

* `Schemata.Cell`, `Schemata.Compiled` — write-once cells, and operations with the node that built
  them;
* `Schemata.Binding` — what a reference is bound to;
* `Schemata.World` — the world;
* `Schemata.Halt`, `Schemata.Run` — why a computation stops without a result, and computations;
* `Schemata.World.target?` — the schema that a reference stands for.
-/

import Schemata.Operation

set_option relaxedAutoImplicit false
set_option autoImplicit false

namespace Schemata

/-- A cell that is written once. -/
inductive Cell (α : Type) where
  | empty
  | filling
  | filled (content : α)

/-- What a cell holds, once it is filled. -/
def Cell.content? {α : Type} : Cell α → Option α
  | .filled a => some a
  | _ => none

/-- An operation with the node that built it.  Operations are the same when they come from the same
node, or when both do nothing. -/
structure Compiled (α : Type) where
  builder : NodeId
  operation : α

/-- What a reference is bound to. -/
inductive Binding where
  /-- Nothing yet. -/
  | unset
  | live (schema : Schema)
  /-- A schema that nothing else held. -/
  | gone

/-- Everything that changes. -/
structure World where
  /-- The next identity of a node. -/
  nextNode : NodeId
  /-- The next reference. -/
  nextReference : Reference
  config : Config
  bindings : Reference → Binding
  parseCells : NodeId → Cell (Compiled ParseOperation)
  serializeCells : NodeId → Cell (Compiled Operation)
  asyncCells : NodeId → Cell Bool
  /-- The lines noted by user functions, the latest first. -/
  log : List String

/-- Why a computation stops without a result. -/
inductive Halt where
  /-- References were followed too often. -/
  | outOfFuel
  /-- A cell was to be filled while it was being filled. -/
  | reentered (node : NodeId)
deriving DecidableEq

/-- Computations in the world. -/
abbrev Run := StateT World (Except Halt)

/-- The result of an operation. -/
abbrev Result := Except Error Value

/-- The function with another value at one place. -/
def updateAt {α : Type} (f : Nat → α) (place : Nat) (value : α) : Nat → α :=
  fun n => if n = place then value else f n

namespace World

/-- The world in which nothing has been built. -/
def initial : World :=
  { nextNode := 0
    nextReference := 0
    config := Config.default
    bindings := fun _ => .unset
    parseCells := fun _ => .empty
    serializeCells := fun _ => .empty
    asyncCells := fun _ => .empty
    log := [] }

/-- The schema that a reference stands for. -/
def target? (w : World) (r : Reference) : Option Schema :=
  match w.bindings r with
  | .live s => some s
  | _ => none

/-- Whether a schema has ever been bound to the reference. -/
def isSet (w : World) (r : Reference) : Bool :=
  match w.bindings r with
  | .unset => false
  | _ => true

end World

/-! ### Steps -/

/-- Stop without a result. -/
def halt {α : Type} (h : Halt) : Run α := throw h

/-- Note a value under a tag. -/
def note (tag : String) (v : Value) : Run Unit :=
  modify fun w => { w with log := (tag ++ ":" ++ v.text) :: w.log }

/-- Write a parse cell. -/
def setParseCell (id : NodeId) (c : Cell (Compiled ParseOperation)) : Run Unit :=
  modify fun w => { w with parseCells := updateAt w.parseCells id c }

/-- Write a serialize cell. -/
def setSerializeCell (id : NodeId) (c : Cell (Compiled Operation)) : Run Unit :=
  modify fun w => { w with serializeCells := updateAt w.serializeCells id c }

/-- Write an async cell. -/
def setAsyncCell (id : NodeId) (c : Cell Bool) : Run Unit :=
  modify fun w => { w with asyncCells := updateAt w.asyncCells id c }

/-- Bind a reference. -/
def bindReference (r : Reference) (b : Binding) : Run Unit :=
  modify fun w => { w with bindings := updateAt w.bindings r b }

end Schemata
