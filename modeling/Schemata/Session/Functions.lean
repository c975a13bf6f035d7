/-
**Ready-made user functions.**

A small stock of functions and tests over values, for schemas that are written down rather than
programmed: arithmetic on 64-bit integers, text, wrapping and unwrapping, and comparisons.

Main definitions:

* `Schemata.Functions.add` and its neighbours — functions that may fail;
* `Schemata.Tests.above` and its neighbours — tests;
* `Schemata.Functions.report` — a stand-in for failures that tells the error.
-/

import Schemata.Action

set_option relaxedAutoImplicit false
set_option autoImplicit false

namespace Schemata

namespace Functions

/-- A function that may fail. -/
abbrev Function := Value → Except Failure Value

/-- A failure in the function's own words. -/
def fails (text : String) : Except Failure Value := .error (.message text)

/-- The integer that a value is, as far as it fits a signed 64-bit word. -/
def integer (v : Value) : Except Failure Int :=
  match v.signed64? with
  | some i => .ok i
  | none => .error (.message ("expected an integer, got " ++ v.text))

/-- A signed 64-bit integer as a value. -/
def checked (i : Int) : Except Failure Value :=
  match (Number.int i).signed64? with
  | some i => .ok (.number (.int i))
  | none => fails "overflow"

/-- The value itself. -/
def same : Function := fun v => .ok v

/-- Always the same value. -/
def const (v : Value) : Function := fun _ => .ok v

/-- The sum with a number. -/
def add (n : Int) : Function := fun v => do checked ((← integer v) + n)

/-- The product with a number. -/
def mul (n : Int) : Function := fun v => do checked ((← integer v) * n)

/-- The quotient by a number, without its fraction. -/
def div (n : Int) : Function := fun v => do
  let i ← integer v
  if n = 0 then fails "overflow" else checked (i.tdiv n)

/-- The text of a value as a string. -/
def toText : Function := fun v => .ok (.string v.text)

/-- The number of characters, items or entries. -/
def size : Function
  | .string s => .ok (.number (.int s.length))
  | .array items => .ok (.number (.int items.length))
  | .object entries => .ok (.number (.int entries.length))
  | _ => fails "no length"

/-- A string with each character changed. -/
def mapText (f : Char → Char) : Function
  | .string s => .ok (.string (String.ofList (s.toList.map f)))
  | _ => fails "not a string"

/-- Letters without accents in upper case. -/
def upper : Function := mapText Char.toUpper

/-- Letters without accents in lower case. -/
def lower : Function := mapText Char.toLower

/-- The value under a key. -/
def wrap (key : String) : Function := fun v => .ok (.object [(key, v)])

/-- What stands under a key. -/
def get (key : String) : Function
  | .object entries =>
      match Entries.find? key entries with
      | some v => .ok v
      | none => fails ("no key " ++ key)
  | _ => fails ("no key " ++ key)

/-- Always the same failure. -/
def failing (f : Failure) : Function := fun _ => .error f

/-- A stand-in for failures: the error's reason, place and direction, and the input. -/
def report : Fallback := fun e v =>
  .object
    [("reason", .string e.reason.message), ("path", .string e.path.text),
     ("operation", .string e.direction.text), ("input", v)]

end Functions

namespace Tests

/-- A kind of values. -/
inductive ValueKind where
  | null
  | bool
  | number
  | string
  | array
  | object
deriving DecidableEq

/-- The kind of a value. -/
def kindOf : Value → ValueKind
  | .null => .null
  | .bool _ => .bool
  | .number _ => .number
  | .string _ => .string
  | .array _ => .array
  | .object _ => .object

/-- A test that gives the same answer for every value. -/
def always (b : Bool) : Test := .holds fun _ => b

/-- Numbers above a bound. -/
def above (bound : Binary64) : Test :=
  .holds fun v => (v.binary64?.map bound.lt).getD false

/-- Numbers below a bound. -/
def below (bound : Binary64) : Test :=
  .holds fun v => (v.binary64?.map fun x => x.lt bound).getD false

/-- Even integers of 64 bits. -/
def even : Test := .holds fun v => (v.signed64?.map fun i => i % 2 == 0).getD false

/-- Values equal to a given one. -/
def equals (v : Value) : Test := .holds fun w => w.equal v

/-- Values of a kind. -/
def ofKind (k : ValueKind) : Test := .holds fun v => kindOf v == k

/-- Objects with a key. -/
def has (key : String) : Test :=
  .holds fun v =>
    match v with
    | .object entries => (Entries.find? key entries).isSome
    | _ => false

end Tests

end Schemata
