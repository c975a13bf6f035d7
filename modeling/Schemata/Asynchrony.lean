/-
**Which schemas wait for asynchronous functions.**

Parsing needs the asynchronous entry points when an asynchronous function can be reached from the
schema, through the schemas below it and through references.  The walk keeps the nodes that it has
seen, so that it ends on cyclic schemas.  Below a reference it may have been cut short by a node
seen before, so only the answer for its root is kept.

Main definitions:

* `Schemata.Schema.reachesAsync` — the walk through one schema, given how references are followed;
* `Schemata.World.walk` — the walk through references as well;
* `Schemata.Schema.isAsync` — the answer, which is kept.
-/

import Schemata.World

set_option relaxedAutoImplicit false
set_option autoImplicit false

namespace Schemata

/-- The answer for a node that is known already: kept from an earlier walk, or from the compiled
operation. -/
def World.knownAsync? (w : World) (id : NodeId) : Option Bool :=
  match (w.asyncCells id).content? with
  | some b => some b
  | none => (w.parseCells id).content?.map fun c => c.operation.isAsync

/-- A walk: the nodes seen before, and the answer with the nodes seen after it. -/
abbrev Walk := List NodeId → Bool × List NodeId

mutual

/-- Whether an asynchronous function can be reached from a schema. -/
def Schema.reachesAsync (w : World) (follow : Schema → Walk) : Schema → Walk
  | .node id kind _ _, seen =>
      match w.knownAsync? id with
      | some b => (b, seen)
      | none =>
          if seen.contains id then (false, seen)
          else kind.reachesAsync w follow (id :: seen)

/-- Whether an asynchronous function can be reached from a kind. -/
def Kind.reachesAsync (w : World) (follow : Schema → Walk) : Kind → Walk
  | .custom _ handlers, seen => (handlers.isAsync, seen)
  | .transformed base effect, seen =>
      if effect.isAsync then (true, seen) else base.reachesAsync w follow seen
  | .recursive r, seen =>
      match w.target? r with
      | some s => follow s seen
      | none => (false, seen)
  | .array s, seen => s.reachesAsync w follow seen
  | .dict s, seen => s.reachesAsync w follow seen
  | .option s, seen => s.reachesAsync w follow seen
  | .null s, seen => s.reachesAsync w follow seen
  | .nullable s, seen => s.reachesAsync w follow seen
  | .jsonString s, seen => s.reachesAsync w follow seen
  | .object fields _, seen => anyFieldAsync w follow fields seen
  | .tuple items, seen => anyAsync w follow items seen
  | .union members, seen => anyAsync w follow members seen
  | .never, seen | .unknown, seen | .unit, seen | .string, seen | .bool, seen | .int, seen
  | .float, seen | .json, seen | .literal _, seen => (false, seen)

/-- Whether an asynchronous function can be reached from one of the fields. -/
def anyFieldAsync (w : World) (follow : Schema → Walk) : List (String × Schema) → Walk
  | [], seen => (false, seen)
  | (_, s) :: rest, seen =>
      match s.reachesAsync w follow seen with
      | (true, seen) => (true, seen)
      | (false, seen) => anyFieldAsync w follow rest seen

/-- Whether an asynchronous function can be reached from one of the schemas. -/
def anyAsync (w : World) (follow : Schema → Walk) : List Schema → Walk
  | [], seen => (false, seen)
  | s :: rest, seen =>
      match s.reachesAsync w follow seen with
      | (true, seen) => (true, seen)
      | (false, seen) => anyAsync w follow rest seen

end

/-- The walk that follows references, at most `fuel` of them on one way.  Each one leads to a node
that has not been seen, so as many as there are references suffice. -/
def World.walk (w : World) : Nat → Schema → Walk
  | 0, _, seen => (false, seen)
  | fuel + 1, s, seen => s.reachesAsync w (w.walk fuel) seen

/-- **Whether parsing needs the asynchronous entry points.**  The compiled operation tells, if
there is one; otherwise the answer of the walk is kept.  Nothing is compiled. -/
def Schema.isAsync (s : Schema) : Run Bool := do
  let w ← get
  match (w.parseCells s.id).content? with
  | some c => return c.operation.isAsync
  | none =>
      match w.asyncCells s.id with
      | .filled b => return b
      | .filling => halt (.reentered s.id)
      | .empty =>
          setAsyncCell s.id .filling
          let answer := ((← get).walk (w.nextReference + 1) s []).1
          setAsyncCell s.id (.filled answer)
          return answer

end Schemata
