/-
**Which schemas are still held.**

A reference that a placeholder stands for does not keep its schema.  A schema is held by the nodes
above it, by copies made of it, by functions that run it, and by whoever has it in hand.  When
nothing holds a schema any more, the references bound to it are left without it, for good.

Main definitions:

* `Schemata.Schema.mark` — the nodes held through one schema;
* `Schemata.World.held` — the nodes held through a list of schemas;
* `Schemata.World.release` — the world in which unheld schemas are gone.
-/

import Schemata.World

set_option relaxedAutoImplicit false
set_option autoImplicit false

namespace Schemata

/-- Marking: the nodes marked before, and those marked after. -/
abbrev Marking := List NodeId → List NodeId

/-- Mark through the schemas that functions run. -/
def markCaptured (follow : Reference → Marking) : List Reference → Marking
  | [], marked => marked
  | r :: rest, marked => markCaptured follow rest (follow r marked)

mutual

/-- **Mark a node and all that it holds.** -/
def Schema.mark (follow : Reference → Marking) : Schema → Marking
  | .node id kind _ origin, marked =>
      if marked.contains id then marked
      else markOrigin follow origin (kind.mark follow (id :: marked))

/-- Mark what a copy keeps. -/
def markOrigin (follow : Reference → Marking) : Option Schema → Marking
  | none, marked => marked
  | some s, marked => s.mark follow marked

/-- Mark what a kind holds. -/
def Kind.mark (follow : Reference → Marking) : Kind → Marking
  | .array s, marked => s.mark follow marked
  | .dict s, marked => s.mark follow marked
  | .option s, marked => s.mark follow marked
  | .null s, marked => s.mark follow marked
  | .nullable s, marked => s.mark follow marked
  | .jsonString s, marked => s.mark follow marked
  | .object fields _, marked => markFields follow fields marked
  | .tuple items, marked => markAll follow items marked
  | .union members, marked => markAll follow members marked
  | .custom _ handlers, marked => markCaptured follow handlers.references marked
  | .transformed base effect, marked =>
      markCaptured follow effect.references (base.mark follow marked)
  | .never, marked | .unknown, marked | .unit, marked | .string, marked | .bool, marked
  | .int, marked | .float, marked | .json, marked | .literal _, marked
  | .recursive _, marked => marked

/-- Mark the schemas of fields. -/
def markFields (follow : Reference → Marking) : List (String × Schema) → Marking
  | [], marked => marked
  | (_, s) :: rest, marked => markFields follow rest (s.mark follow marked)

/-- Mark schemas. -/
def markAll (follow : Reference → Marking) : List Schema → Marking
  | [], marked => marked
  | s :: rest, marked => markAll follow rest (s.mark follow marked)

end

namespace World

/-- Mark the schema bound to a reference that a function uses, following at most `fuel` references
on one way. -/
def markBound (w : World) : Nat → Reference → Marking
  | 0, _, marked => marked
  | fuel + 1, r, marked =>
      match w.target? r with
      | some s => s.mark (w.markBound fuel) marked
      | none => marked

/-- **The nodes held through the given schemas.** -/
def held (w : World) (roots : List Schema) : List NodeId :=
  markAll (w.markBound w.nextReference) roots []

/-- Whether a reference is bound to a schema that is not held. -/
def isStale (w : World) (nodes : List NodeId) (r : Reference) : Bool :=
  match w.target? r with
  | some s => !nodes.contains s.id
  | none => false

/-- **The world in which schemas held by none of the roots are gone.** -/
def release (w : World) (roots : List Schema) : World :=
  let nodes := w.held roots
  let stale := (List.range w.nextReference).filter (w.isStale nodes)
  { w with bindings := stale.foldl (fun f r => updateAt f r .gone) w.bindings }

end World

/-- Let go of everything that none of the roots holds. -/
def releaseExcept (roots : List Schema) : Run Unit := modify fun w => w.release roots

end Schemata
