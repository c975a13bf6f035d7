/-
**User functions.**

A schema may call functions that are not its own: handlers that change a value, tests that a
refinement makes, the stand-in for a failed parse, and the supply for an absent value.  Functions
of values are arbitrary.  What a user function can do beyond computing is spelled out by the
combinators of `Schemata.Action` and `Schemata.Test`: note a line in the log, and run a schema that
is bound to a reference.

An asynchronous function is called first and carried out later: the call may note a line, and the
work starts once the function has been asked `waits` times in vain.

Main definitions:

* `Schemata.Failure` — a message of the function, or an error of this library passed on;
* `Schemata.Action`, `Schemata.Test` — functions to a value and to a truth value;
* `Schemata.AsyncAction`, `Schemata.AsyncTest` — their asynchronous forms;
* `Schemata.Supply`, `Schemata.Fallback` — values for absent input and for failures;
* `Schemata.Handlers` — the functions of a custom schema, a transform or a preprocess.
-/

import Schemata.Error

set_option relaxedAutoImplicit false
set_option autoImplicit false

namespace Schemata

/-- The name of a place that a schema is bound to. -/
abbrev Reference := Nat

/-- How a user function fails: in its own words, or with an error that it hands on. -/
inductive Failure where
  | message (text : String)
  | error (e : Error)

/-- A failure as an error.  An error that was handed on stays as it is. -/
def Failure.toError (direction : Direction) : Failure → Error
  | .message text => Error.atRoot (.custom text) direction
  | .error e => e

/-- A test of a value. -/
inductive Test where
  | holds (p : Value → Bool)
  /-- Note the value under a tag, then test it. -/
  | log (tag : String) (test : Test)
  | not (test : Test)

/-- A function from values to values that may fail. -/
inductive Action where
  | compute (f : Value → Except Failure Value)
  /-- Note the value under a tag and give it back. -/
  | log (tag : String)
  | andThen (first second : Action)
  | choose (test : Test) (yes no : Action)
  /-- Parse with the schema bound to a reference. -/
  | parseWith (schema : Reference)
  /-- Serialize with the schema bound to a reference. -/
  | serializeWith (schema : Reference)

/-- The references that a function uses. -/
def Action.references : Action → List Reference
  | .andThen a b => a.references ++ b.references
  | .choose _ a b => a.references ++ b.references
  | .parseWith r => [r]
  | .serializeWith r => [r]
  | _ => []

/-- An action whose work begins after it has been polled `waits` times.  Calling it notes the value
under the tag `announce`. -/
structure AsyncAction where
  body : Action
  waits : Nat
  announce : Option String

/-- A test that is made after it has been polled `waits` times. -/
structure AsyncTest where
  test : Test
  waits : Nat

/-- A value for an absent one; asking for it may note it under a tag. -/
structure Supply where
  value : Value
  tag : Option String

/-- The value that stands in for a failed parse, from the error and the input. -/
abbrev Fallback := Error → Value → Value

/-- The parse function of a pair of handlers. -/
inductive Parser where
  | direct (f : Action)
  | async (f : AsyncAction)

/-- Functions for the two directions.  A direction without a function cannot run. -/
structure Handlers where
  parser : Option Parser
  serializer : Option Action

namespace Handlers

/-- No function for either direction. -/
def empty : Handlers := ⟨none, none⟩

/-- Whether the parse function is asynchronous. -/
def isAsync (h : Handlers) : Bool :=
  match h.parser with
  | some (.async _) => true
  | _ => false

/-- The references that the functions use. -/
def references (h : Handlers) : List Reference :=
  (match h.parser with
    | some (.direct f) => f.references
    | some (.async f) => f.body.references
    | none => []) ++
  (match h.serializer with
    | some f => f.references
    | none => [])

end Handlers

end Schemata
