/-
**Shapes of typed data.**

Typed data has a shape that is fixed in advance: numbers of a range, strings, lists, tuples, maps,
records and choices between named variants.  A shape can be read from a value and from JSON text.
What is read is given back as a value in the shape's own form.  What cannot be read is a misfit,
told together with the place where it was met.

Main definitions:

* `Schemata.Shape`, `Schemata.Field`, `Schemata.Content` — shapes;
* `Schemata.Shape.expectation` — what a shape expects, in messages;
* `Schemata.Misfit` — what cannot be read, and where;
* `Schemata.Unexpected` — what was met instead.
-/

import Schemata.Error

set_option relaxedAutoImplicit false
set_option autoImplicit false

namespace Schemata

/-- What stands for a field that is missing. -/
inductive Absence where
  /-- Nothing: the field has to be there. -/
  | required
  /-- Null, in a map of fields; in a list of them the field has to be there. -/
  | nullable
  /-- A value. -/
  | value (v : Value)

mutual

/-- The shape of typed data. -/
inductive Shape where
  /-- The integers from `low` to `high`, under a name. -/
  | int (name : String) (low high : Int)
  | bool
  | string
  | option (inner : Shape)
  | list (item : Shape)
  | tuple (items : List Shape)
  | map (value : Shape)
  | record (name : String) (fields : List Field)
  | choice (name : String) (variants : List (String × Content))

/-- A field of a record. -/
inductive Field where
  | mk (name : String) (shape : Shape) (absence : Absence)

/-- What a variant holds. -/
inductive Content where
  | nothing
  | one (shape : Shape)
  | tuple (items : List Shape)
  | record (fields : List Field)

end

/-- The name of a field. -/
def Field.name : Field → String
  | .mk name _ _ => name

/-- What stands for a field that is missing. -/
def Field.absence : Field → Absence
  | .mk _ _ absence => absence

/-- What a shape expects. -/
def Shape.expectation : Shape → String
  | .int name _ _ => name
  | .bool => "a boolean"
  | .string => "a string"
  | .option inner => inner.expectation
  | .list _ => "a sequence"
  | .tuple items => "a tuple of size " ++ toString items.length
  | .map _ => "a map"
  | .record name _ => "struct " ++ name
  | .choice _ _ => "string or map"

/-- What was met instead of what was expected. -/
inductive Unexpected where
  | null
  | bool (b : Bool)
  | number (n : Number)
  | string (s : String)
  | sequence
  | map
  /-- The name of a variant alone. -/
  | bareVariant

namespace Unexpected

/-- What a value is. -/
def ofValue : Value → Unexpected
  | .null => .null
  | .bool b => .bool b
  | .number n => .number n
  | .string s => .string s
  | .array _ => .sequence
  | .object _ => .map

/-- What was met, in messages. -/
def text : Unexpected → String
  | .null => "null"
  | .bool b => "boolean `" ++ (if b then "true" else "false") ++ "`"
  | .number (.int i) => "integer `" ++ toString i ++ "`"
  | .number (.float x) => "floating point `" ++ (Number.float x).text ++ "`"
  | .string s => "string " ++ Text.quoted s
  | .sequence => "sequence"
  | .map => "map"
  | .bareVariant => "unit variant"

end Unexpected

/-! ### Messages -/

/-- The message for something of the wrong kind. -/
def wrongType (met : Unexpected) (expected : String) : String :=
  "invalid type: " ++ met.text ++ ", expected " ++ expected

/-- The message for something of the right kind that does not fit. -/
def wrongValue (met : Unexpected) (expected : String) : String :=
  "invalid value: " ++ met.text ++ ", expected " ++ expected

/-- The message for a wrong number of items. -/
def wrongLength (received : Nat) (expected : String) : String :=
  "invalid length " ++ toString received ++ ", expected " ++ expected

/-- The message for a field that is missing. -/
def missingField (name : String) : String := "missing field `" ++ name ++ "`"

/-- The message for a field that stands twice. -/
def duplicateField (name : String) : String := "duplicate field `" ++ name ++ "`"

/-- What a record or a variant that is written as a list expects. -/
def withElements (what : String) (count : Nat) : String :=
  what ++ " with " ++ toString count ++ " element" ++ (if count = 1 then "" else "s")

/-- The names that are known, in messages. -/
def knownNames (names : List String) : String :=
  let quoted := names.map fun n => "`" ++ n ++ "`"
  match quoted with
  | [a] => a
  | [a, b] => a ++ " or " ++ b
  | _ => "one of " ++ ", ".intercalate quoted

/-- The message for a variant that is not known. -/
def unknownVariant (name : String) (known : List String) : String :=
  "unknown variant `" ++ name ++ "`, expected " ++ knownNames known

/-- What a variant expects. -/
def variantExpectation (kind choice variant : String) : String :=
  kind ++ " variant " ++ choice ++ "::" ++ variant

/-- What cannot be read, and the place of it. -/
structure Misfit where
  message : String
  path : List Segment

namespace Misfit

/-- A misfit in the place that is being read. -/
def here (message : String) : Misfit := ⟨message, []⟩

/-- The same misfit one level further out. -/
def inside (s : Segment) (m : Misfit) : Misfit := ⟨m.message, s :: m.path⟩

/-- A misfit as an error of a direction. -/
def toError (direction : Direction) (m : Misfit) : Error :=
  ⟨.operationFailed m.message, direction, ⟨m.path⟩⟩

end Misfit

/-- An outcome one level further out. -/
def insideOf {α : Type} (s : Segment) : Except Misfit α → Except Misfit α
  | .ok a => .ok a
  | .error m => .error (m.inside s)

/-- The value that stands for a missing field, or the misfit that it is missing. -/
def Field.whenMissing (f : Field) : Except Misfit Value :=
  match f.absence with
  | .required => .error (.here (missingField f.name))
  | .nullable => .ok .null
  | .value v => .ok v

/-- The fields in order, with what was read for them or stands for them. -/
def completeFields (found : List (String × Value)) :
    List Field → Except Misfit (List (String × Value))
  | [] => .ok []
  | f :: rest => do
      let v ← match Entries.find? f.name found with
        | some v => pure v
        | none => f.whenMissing
      return (f.name, v) :: (← completeFields found rest)

/-- Entries in the order of their keys. -/
def sortedByKey (entries : List (String × Value)) : List (String × Value) :=
  entries.mergeSort fun a b => decide (a.1 ≤ b.1)

end Schemata
