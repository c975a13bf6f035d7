/-
**Sessions: building schemas from expressions.**

A session has a world and names that stand for schemas, its variables.  While an expression is
evaluated, the schemas that were built for its other parts are in hand; everything that is neither
in hand nor held by a variable may go.  It is let go before anything is asked that could tell.

Main definitions:

* `Schemata.Session` — a world and what names stand for;
* `Schemata.Trouble` — why an expression has no schema;
* `Schemata.Evaluation` — computations in a session;
* `Schemata.Expression.build` — the schema of an expression.
-/

import Schemata.Execution.Engine
import Schemata.Liveness
import Schemata.Session.Expression

set_option relaxedAutoImplicit false
set_option autoImplicit false

namespace Schemata

/-- A world, and what names stand for. -/
structure Session where
  world : World
  names : List (String × Schema)

/-- The session in which nothing has been done. -/
def Session.initial : Session := ⟨World.initial, []⟩

/-- Why an expression has no schema. -/
inductive Trouble where
  /-- A mistake in a definition. -/
  | mistake (e : DefinitionError)
  /-- A mistake that ended the computation. -/
  | raised (e : DefinitionError)
  /-- Something that is not there: a variable, a child, a field, a target. -/
  | missing (what : String)

/-- Computations in a session. -/
abbrev Evaluation := ExceptT Trouble (StateT Session (Except Halt))

namespace Evaluation

/-- A computation in the session's world. -/
def inWorld {α : Type} (r : Run α) : Evaluation α := do
  let s ← get
  match r.run s.world with
  | .ok (a, w) =>
      set { s with world := w }
      return a
  | .error h => ExceptT.lift (throw h : StateT Session (Except Halt) _)

/-- Let go of all that neither a variable nor the hand holds. -/
def letGo (inHand : List Schema) : Evaluation Unit :=
  modify fun s =>
    { s with world := s.world.release (inHand ++ s.names.map Prod.snd) }

/-- The schema of a variable. -/
def named? (name : String) : Evaluation (Option Schema) := do
  return Entries.find? name (← get).names

/-- Make a name stand for a schema. -/
def assign (name : String) (s : Schema) : Evaluation Unit :=
  modify fun session => { session with names := Entries.insert name s session.names }

/-- Make a name stand for what it stood for before. -/
def restore (name : String) (before : Option Schema) : Evaluation Unit :=
  match before with
  | some s => assign name s
  | none =>
      modify fun session =>
        { session with names := session.names.filter fun v => v.1 != name }

/-- A computation with something done after it, whether or not there is trouble. -/
def andFinally {α : Type} (e : Evaluation α) (last : Evaluation Unit) : Evaluation α :=
  ExceptT.mk do
    let outcome ← ExceptT.run e
    let _ ← ExceptT.run last
    return outcome

/-- A schema, or a mistake that is met in one of two ways. -/
def orMistake (mode : OnMistake) (r : Except DefinitionError Schema) : Evaluation Schema :=
  match r, mode with
  | .ok s, _ => return s
  | .error e, .report => throw (.mistake e)
  | .error e, .raise => throw (.raised e)

/-- Something that may be missing. -/
def present {α : Type} (what : String) : Option α → Evaluation α
  | some a => return a
  | none => throw (.missing what)

end Evaluation

open Evaluation

/-- Handlers with one more set; the two forms of parse functions replace each other. -/
def Handlers.withParser (h : Handlers) (p : Parser) : Handlers := { h with parser := some p }

/-- Handlers with the serialize function set. -/
def Handlers.withSerializer (h : Handlers) (f : Action) : Handlers :=
  { h with serializer := some f }

/-- The schemas that handlers hold. -/
def Handlers.captured (w : World) (h : Handlers) : List Schema := h.references.filterMap w.target?

mutual

/-- **The schema of an expression**, built while `inHand` is held. -/
def Expression.build (inHand : List Schema) : Expression → Evaluation Schema
  | .leaf kind => inWorld (Schema.fresh kind.kind)
  | .literal l => inWorld (Schema.fresh (.literal l))
  | .wrapped wrapper inner => do
      let s ← inner.build inHand
      inWorld (Schema.fresh (wrapper.kind s))
  | .object mode fields => do
      let fields ← buildFields inHand fields
      orMistake mode (← inWorld (Schema.ofFields fields))
  | .tuple items => do
      let items ← buildAll inHand items
      inWorld (Schema.fresh (.tuple items))
  | .union mode members => do
      let members ← buildAll inHand members
      orMistake mode (← inWorld (Schema.ofMembers members))
  | .shapeOf v => inWorld (Schema.ofValue v)
  | .custom name handlers => do
      let handlers ← buildHandlers inHand Handlers.empty handlers
      inWorld (Schema.fresh (.custom name handlers))
  | .variant external internal => inWorld (Schema.variant external internal)
  | .asVariant base internal => do
      let s ← base.build inHand
      inWorld (s.asVariant internal)
  | .variable name => do present ("variable " ++ name) (← named? name)
  | .save name inner => do
      let s ← inner.build inHand
      assign name s
      return s
  | .compiled inner => do
      let s ← inner.build inHand
      letGo (s :: inHand)
      let _ ← inWorld s.parseOperation
      let _ ← inWorld s.serializeOperation
      return s
  | .probed inner => do
      let s ← inner.build inHand
      letGo (s :: inHand)
      let _ ← inWorld s.isAsync
      return s
  | .recursive name inner => do
      let before ← named? name
      let (r, self) ← inWorld Schema.placeholder
      assign name self
      let s ← andFinally (inner.build (before.toList ++ self :: inHand)) (restore name before)
      inWorld (bindReference r (.live s))
      return s
  | .child parent position => do
      let s ← parent.build inHand
      present "child" s.children[position]?
  | .field parent name => do
      let s ← parent.build inHand
      present ("field " ++ name) (s.field? name)
  | .target placeholder => do
      let s ← placeholder.build inHand
      letGo (s :: inHand)
      let w := (← get).world
      match s.kind with
      | .recursive r => present "target" (w.target? r)
      | _ => throw (.missing "target")
  | .copy how inner => do
      let s ← inner.build inHand
      inWorld (how.apply s)
  | .transform base handlers => do
      let s ← base.build inHand
      let handlers ← buildHandlers (s :: inHand) Handlers.empty handlers
      inWorld (s.wrap (.transform handlers))
  | .preprocess base handlers => do
      let s ← base.build inHand
      let handlers ← buildHandlers (s :: inHand) Handlers.empty handlers
      inWorld (s.wrap (.preprocess handlers))
  | .refine base message check => do
      let s ← base.build inHand
      inWorld (s.wrap (.refine message check))
  | .recover base fallback => do
      let s ← base.build inHand
      inWorld (s.wrap (.recover fallback))
  | .getOr base supply => do
      let s ← base.build inHand
      inWorld (s.wrap (.getOr supply))
  | .constrain base c => do
      let s ← base.build inHand
      inWorld (s.constrain c)
  | .timestamp base => do
      let s ← base.build inHand
      inWorld s.timestamp
  | .trim base => do
      let s ← base.build inHand
      inWorld s.trim

/-- The schemas of fields, each held while the next is built. -/
def buildFields (inHand : List Schema) :
    List (String × Expression) → Evaluation (List (String × Schema))
  | [] => return []
  | (name, e) :: rest => do
      let s ← e.build inHand
      return (name, s) :: (← buildFields (s :: inHand) rest)

/-- The schemas of expressions, each held while the next is built. -/
def buildAll (inHand : List Schema) : List Expression → Evaluation (List Schema)
  | [] => return []
  | e :: rest => do
      let s ← e.build inHand
      return s :: (← buildAll (s :: inHand) rest)

/-- Handlers set one after the other. -/
def buildHandlers (inHand : List Schema) (sofar : Handlers) :
    List HandlerExpression → Evaluation Handlers
  | [] => return sofar
  | h :: rest => do
      let held := sofar.captured (← get).world ++ inHand
      buildHandlers inHand (← h.build held sofar) rest

/-- Handlers with one more set. -/
def HandlerExpression.build (inHand : List Schema) (sofar : Handlers) :
    HandlerExpression → Evaluation Handlers
  | .parser f => do return sofar.withParser (.direct (← f.build inHand))
  | .asyncParser f waits announce => do
      return sofar.withParser (.async ⟨← f.build inHand, waits, announce⟩)
  | .serializer f => do return sofar.withSerializer (← f.build inHand)

/-- The action of a function expression. -/
def FunctionExpression.build (inHand : List Schema) : FunctionExpression → Evaluation Action
  | .action a => return a
  | .andThen first second => do
      let a ← first.build inHand
      return .andThen a (← second.build (a.references.filterMap (← get).world.target? ++ inHand))
  | .choose test yes no => do
      let a ← yes.build inHand
      return .choose test a
        (← no.build (a.references.filterMap (← get).world.target? ++ inHand))
  | .parseWith e => do
      let s ← e.build inHand
      return .parseWith (← inWorld (capture s))
  | .serializeWith e => do
      let s ← e.build inHand
      return .serializeWith (← inWorld (capture s))

end

end Schemata
