/-
**Filling the cells of nodes.**

Parse and serialize operations are compiled in the same way.  A node whose cell is filled gives what
is there.  Otherwise the cell is marked, the nodes directly below are compiled in order, and the
operation is put together from what their cells hold then.  A reference is a leaf, so compiling a
cyclic schema does not come back to where it began.

Main definitions:

* `Schemata.refersBack` — whether a union member is nothing but a reference to the union itself;
* `Schemata.Compiler` — which cells are filled, and how an operation is put together;
* `Schemata.Schema.compile` — the content of a node's cell, filled when it is first needed.
-/

import Schemata.World

set_option relaxedAutoImplicit false
set_option autoImplicit false

namespace Schemata

/-- Whether a member is a bare reference to a union of the very same members. -/
def refersBack (w : World) (members : List NodeId) (member : Schema) : Bool :=
  match member.kind with
  | .recursive r =>
      match w.target? r with
      | some s =>
          match s.kind with
          | .union others => others.map Schema.id == members
          | _ => false
      | none => false
  | _ => false

/-- How the cells of one direction are filled. -/
structure Compiler (α : Type) where
  cells : World → NodeId → Cell α
  /-- The world with other cells. -/
  withCells : (NodeId → Cell α) → World → World
  /-- What has to be known about a node before the nodes below it are compiled. -/
  waits : Schema → Run Bool
  /-- The content of a node's cell, the nodes below being compiled. -/
  build : World → NodeId → Bool → Kind → α

/-- Write a cell. -/
def Compiler.setCell {α : Type} (c : Compiler α) (id : NodeId) (content : Cell α) : Run Unit :=
  modify fun w => c.withCells (updateAt (c.cells w) id content) w

variable {α : Type}

mutual

/-- **The content of a node's cell**, filled when it is first needed. -/
def Schema.compile (c : Compiler α) : Schema → Run α
  | .node id kind metadata origin => do
      match c.cells (← get) id with
      | .filled op => return op
      | .filling => halt (.reentered id)
      | .empty =>
          c.setCell id .filling
          let waits ← c.waits (.node id kind metadata origin)
          kind.compileBelow c
          let op := c.build (← get) id waits kind
          c.setCell id (.filled op)
          return op

/-- Compile the nodes directly below a kind. -/
def Kind.compileBelow (c : Compiler α) : Kind → Run Unit
  | .array s => do let _ ← s.compile c
  | .dict s => do let _ ← s.compile c
  | .option s => do let _ ← s.compile c
  | .null s => do let _ ← s.compile c
  | .nullable s => do let _ ← s.compile c
  | .jsonString s => do let _ ← s.compile c
  | .transformed base _ => do let _ ← base.compile c
  | .object fields _ => compileFields c fields
  | .tuple items => compileItems c items
  | .union members => compileMembers c (members.map Schema.id) members
  | .never | .unknown | .unit | .string | .bool | .int | .float | .json | .literal _
  | .custom _ _ | .recursive _ => return ()

/-- Compile the schemas of fields. -/
def compileFields (c : Compiler α) : List (String × Schema) → Run Unit
  | [] => return ()
  | (_, s) :: rest => do
      let _ ← s.compile c
      compileFields c rest

/-- Compile items. -/
def compileItems (c : Compiler α) : List Schema → Run Unit
  | [] => return ()
  | s :: rest => do
      let _ ← s.compile c
      compileItems c rest

/-- Compile union members, but for those that are the union itself. -/
def compileMembers (c : Compiler α) (ids : List NodeId) : List Schema → Run Unit
  | [] => return ()
  | s :: rest => do
      if refersBack (← get) ids s then compileMembers c ids rest
      else
        let _ ← s.compile c
        compileMembers c ids rest

end

end Schemata
