/-
**Errors of parsing and serializing, and mistakes in definitions.**

An error holds its reason, the direction in which it arose and the path from the outermost value to
the one at fault.  Reasons are causes; `Schemata.Reason.message` puts them into words.

Main definitions:

* `Schemata.Direction`, `Schemata.Reason`, `Schemata.Error` — errors;
* `Schemata.Error.prepend` — the same error one level further out;
* `Schemata.Error.message` — the error in words;
* `Schemata.Error.equal` — equality of errors, which compares received values as values;
* `Schemata.DefinitionError` — mistakes in a definition.
-/

import Schemata.Literal
import Schemata.Path

set_option relaxedAutoImplicit false
set_option autoImplicit false

namespace Schemata

/-- Whether a value comes in or goes out. -/
inductive Direction where
  | parsing
  | serializing
deriving DecidableEq, Inhabited

/-- The direction in messages. -/
def Direction.text : Direction → String
  | .parsing => "parsing"
  | .serializing => "serializing"

mutual

/-- Why an operation failed. -/
inductive Reason where
  /-- A value of the wrong shape. -/
  | invalidType (expected : String) (received : Value)
  /-- A value that is not the constant. -/
  | invalidLiteral (expected : Literal) (received : Value)
  /-- An array of the wrong length for a tuple. -/
  | invalidTupleSize (expected received : Nat)
  /-- A key that a strict object does not declare. -/
  | excessField (key : String)
  /-- All members of a union failed, each with its own error. -/
  | invalidUnion (errors : List Error)
  /-- A refinement does not hold. -/
  | refinement (text : String)
  /-- A user function failed. -/
  | custom (text : String)
  /-- Something outside the schemas failed: reading a document, converting a value. -/
  | operationFailed (text : String)
  /-- The schema cannot run in this direction. -/
  | invalidOperation (text : String)
  /-- The schema needs the asynchronous entry points. -/
  | unexpectedAsync

/-- A failure: why, in which direction, and where. -/
structure Error where
  reason : Reason
  direction : Direction
  path : Path

end

namespace Error

/-- An error at the root. -/
def atRoot (reason : Reason) (direction : Direction) : Error := ⟨reason, direction, Path.root⟩

/-- The same error one level further out. -/
def prepend (s : Segment) (e : Error) : Error := { e with path := e.path.prepend s }

/-- The same error at another path. -/
def withPath (p : Path) (e : Error) : Error := { e with path := p }

/-- An error for a value of the wrong shape. -/
def invalidType (direction : Direction) (expected : String) (received : Value) : Error :=
  atRoot (.invalidType expected received) direction

end Error

/-! ### Messages -/

/-- How many characters of a received value messages show. -/
def shownCharacters : Nat := 64

/-- A received value in messages, cut when it is long. -/
def describeReceived (v : Value) : String :=
  let text := v.text
  if shownCharacters < text.length then String.ofList (text.toList.take shownCharacters) ++ "…"
  else text

/-- The lines with each run of equal ones reduced to one. -/
def collapseRuns : List String → List String
  | [] => []
  | [a] => [a]
  | a :: b :: rest => if a = b then collapseRuns (b :: rest) else a :: collapseRuns (b :: rest)

mutual

/-- **A reason in words.** -/
def Reason.message : Reason → String
  | .invalidType expected received =>
      "Expected " ++ expected ++ ", received " ++ describeReceived received
  | .invalidLiteral expected received =>
      "Expected " ++ expected.text ++ ", received " ++ describeReceived received
  | .invalidTupleSize expected received =>
      "Expected Tuple with " ++ toString expected ++ " items, received " ++ toString received
  | .excessField key => "Encountered disallowed excess key " ++ Text.quoted key ++ " on an object"
  | .invalidUnion errors =>
      "Invalid union with following errors" ++ String.join (collapseRuns (memberLines errors))
  | .refinement text => text
  | .custom text => text
  | .operationFailed text => text
  | .invalidOperation text => text
  | .unexpectedAsync =>
      "Encountered unexpected asynchronous transform or refine. Use parse_async instead"

/-- An error of a union member as a line of the union's message. -/
def Error.memberLine : Error → String
  | ⟨reason, _, path⟩ =>
      if path.isRoot then "\n- " ++ reason.message
      else "\n- At " ++ path.text ++ ": " ++ reason.message

/-- The lines of all members. -/
def memberLines : List Error → List String
  | [] => []
  | e :: rest => e.memberLine :: memberLines rest

end

/-- **An error in words.** -/
def Error.message (e : Error) : String :=
  "Failed " ++ e.direction.text ++ " at " ++ e.path.text ++ ". Reason: " ++ e.reason.message

/-! ### Equality -/

mutual

/-- Equality of reasons. -/
def Reason.equal : Reason → Reason → Bool
  | .invalidType a v, .invalidType b w => a == b && v.equal w
  | .invalidLiteral a v, .invalidLiteral b w => a.equal b && v.equal w
  | .invalidTupleSize a m, .invalidTupleSize b n => a == b && m == n
  | .excessField a, .excessField b => a == b
  | .invalidUnion as, .invalidUnion bs => equalErrors as bs
  | .refinement a, .refinement b => a == b
  | .custom a, .custom b => a == b
  | .operationFailed a, .operationFailed b => a == b
  | .invalidOperation a, .invalidOperation b => a == b
  | .unexpectedAsync, .unexpectedAsync => true
  | _, _ => false

/-- Equality of errors. -/
def Error.equal : Error → Error → Bool
  | ⟨r, d, p⟩, ⟨s, e, q⟩ => r.equal s && d == e && p == q

/-- Equality error by error. -/
def equalErrors : List Error → List Error → Bool
  | [], [] => true
  | a :: as, b :: bs => a.equal b && equalErrors as bs
  | _, _ => false

end

instance : BEq Error := ⟨Error.equal⟩

/-! ### Mistakes in definitions -/

/-- A mistake in a definition. -/
inductive DefinitionError where
  | emptyUnion
  | duplicateField (name : String)
  /-- A schema around a function or a recursive reference has no source text. -/
  | notInlinable (what : String)
deriving DecidableEq

/-- A mistake in words. -/
def DefinitionError.message : DefinitionError → String
  | .emptyUnion => "A union schema requires at least one member"
  | .duplicateField name => "The field " ++ Text.quoted name ++ " is defined multiple times"
  | .notInlinable what => "The " ++ what ++ " schema can't be rendered as source"

end Schemata
