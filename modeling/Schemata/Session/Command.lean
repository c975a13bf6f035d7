/-
**Commands to a session, and their answers.**

Main definitions:

* `Schemata.Command` — what a session can be asked to do;
* `Schemata.Answer` — what it answers;
* `Schemata.Anatomy` — what is seen of a node from outside.
-/

import Schemata.Session.Building
import Schemata.Typed.Decode
import Schemata.Typed.Read

set_option relaxedAutoImplicit false
set_option autoImplicit false

namespace Schemata

/-- A change of a path. -/
inductive PathStep where
  | start (segments : List Segment)
  | prepend (s : Segment)
  | append (s : Segment)
  | concat (segments : List Segment)

/-- The path after a change. -/
def PathStep.apply (p : Path) : PathStep → Path
  | .start segments => ⟨segments⟩
  | .prepend s => p.prepend s
  | .append s => p.append s
  | .concat segments => p.concat ⟨segments⟩

/-- A path and what it becomes after each change. -/
def PathStep.states (p : Path) : List PathStep → List Path
  | [] => [p]
  | step :: rest => p :: PathStep.states (step.apply p) rest

/-- A change of the place of an error. -/
inductive ErrorStep where
  | prepend (s : Segment)
  | withPath (segments : List Segment)

/-- The error after a change. -/
def ErrorStep.apply (e : Error) : ErrorStep → Error
  | .prepend s => e.prepend s
  | .withPath segments => e.withPath ⟨segments⟩

/-- How a failure is met. -/
inductive OnFailure where
  /-- It is the outcome. -/
  | report
  /-- It is raised. -/
  | raise
deriving DecidableEq

/-- A value that is there, or made from typed data. -/
abbrev Source := Except Misfit Value

/-- What a session can be asked to do. -/
inductive Command where
  | define (name : String) (e : Expression)
  | parse (mode : OnFailure) (e : Expression) (input : Source)
  | serialize (mode : OnFailure) (e : Expression) (input : Source)
  | roundTrip (e : Expression) (input : Value)
  | parseText (mode : OnFailure) (e : Expression) (text : String)
  | serializeText (mode : OnFailure) (e : Expression) (input : Value) (indent : Option Nat)
  | parseInto (mode : OnFailure) (e : Expression) (input : Value) (shape : Shape)
  | parseAsync (e : Expression) (input : Source)
  | parseInSteps (e : Expression) (input : Source)
  | stage (e : Expression) (input : Value)
  /-- Run the parse operation; what it leaves to do is not done. -/
  | start (e : Expression) (input : Value)
  | operations (e : Expression)
  | compileParse (e : Expression)
  | compileSerialize (e : Expression)
  | flags (e : Expression)
  | isAsync (e : Expression)
  | sameOperations (a b : Expression)
  | noop (input : Value)
  | name (e : Expression)
  | structuralName (e : Expression)
  | source (e : Expression)
  | description (e : Expression)
  | structurallyEqual (a b : Expression)
  | sameNode (a b : Expression)
  | anatomy (e : Expression)
  | metadata (e : Expression)
  | metadataEntry (e : Expression) (key : String)
  | readConfig (text : String)
  | setConfig (text : String)
  | getConfig
  | resetConfig
  | literal (l : Literal) (values : List Value)
  | path (steps : List PathStep)
  | error (e : Error) (steps : List ErrorStep)
  | equalErrors (a b : Error)
  | readText (shape : Shape) (text : String)

/-- What is seen of a kind besides the nodes below it. -/
inductive Feature where
  | nothing
  | literal (l : Literal)
  | object (names : List String) (policy : Option UnknownKeys)
  | custom (name : String)
  | recursive (bound : Bool)
  | effect (isAsync : Bool)

/-- What is seen of a node from outside. -/
structure Anatomy where
  label : String
  children : List String
  feature : Feature

/-- What a node shows. -/
def Schema.anatomy (bound : Reference → Bool) (s : Schema) : Anatomy :=
  { label := s.kind.label
    children := s.children.map fun c => c.kind.label
    feature := match s.kind with
      | .literal l => .literal l
      | .object fields policy => .object (Entries.keys fields) policy
      | .custom name _ => .custom name
      | .recursive r => .recursive (bound r)
      | .transformed _ e => .effect e.isAsync
      | _ => .nothing }

/-- An outcome with the lines noted on the way to it. -/
structure Noted (α : Type) where
  outcome : α
  log : List String

/-- A result, with how a failure is met. -/
structure Met (α : Type) where
  mode : OnFailure
  outcome : Except Error α

/-- What a round trip comes to. -/
inductive RoundTrip where
  | notParsed (e : Error)
  | notSerialized (parsed : Value) (e : Error)
  | complete (parsed serialized : Value) (reparsed : Result)

/-- What a started parse comes to. -/
structure StagedOutcome where
  ready : Bool
  description : String
  rest : Noted Result

/-- What a parse operation comes to when nothing is waited for. -/
inductive StartOutcome where
  | result (r : Result)
  | staged (r : Except Error Bool)

/-- What a session answers. -/
inductive Answer where
  | defined
  | compiled
  | value (r : Met Value)
  | text (r : Met String)
  | roundTrip (r : RoundTrip)
  | inSteps (r : Except Error (Noted Result))
  | staged (r : Except Error StagedOutcome)
  | started (r : StartOutcome)
  | operations (isAsync parseNoop serializeNoop : Bool) (description : String)
  | flags (parse serialize : Bool)
  | same (parse serialize : Bool)
  | truth (b : Bool)
  | words (text : String)
  | source (r : Except DefinitionError String)
  | anatomy (a : Anatomy)
  | metadata (m : Metadata)
  | entry (v : Option Value)
  | config (r : Except Error Config)
  | literal (l : Literal) (accepted equal : List Bool)
  | paths (ps : List Path)
  | error (e : Error)
  | trouble (t : Trouble)

end Schemata
