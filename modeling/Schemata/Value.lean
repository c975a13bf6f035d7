/-
**Untyped values: what a schema reads and writes.**

A value is null, a boolean, a number, a string, an array or an object.  Integers and floating-point
numbers stay apart: `1` and `1.0` are different values.  Objects keep the order of their entries,
but equality does not look at it.

Main definitions:

* `Schemata.Number`, `Schemata.Value` — numbers and values;
* `Schemata.Value.equal` — equality up to the order of the entries of objects, at any depth;
* `Schemata.Value.WellFormed` — every object has distinct keys, every integer fits 64 bits and every
  floating-point number is finite: what reading a document guarantees.
-/

import Schemata.Binary64
import Schemata.Entries

set_option relaxedAutoImplicit false
set_option autoImplicit false

namespace Schemata

/-- An integer or a floating-point number. -/
inductive Number where
  | int (value : Int)
  | float (value : Binary64)
deriving DecidableEq, Inhabited

namespace Number

/-- Numeric equality within one form; an integer never equals a floating-point number. -/
def equal : Number → Number → Bool
  | .int a, .int b => a == b
  | .float a, .float b => a.numEq b
  | _, _ => false

/-- The nearest binary64 number. -/
def toBinary64 : Number → Binary64
  | .int i => Binary64.ofInt i
  | .float x => x

/-- The integer, if it fits a signed 64-bit word. -/
def signed64? : Number → Option Int
  | .int i => if -0x8000000000000000 ≤ i ∧ i < 0x8000000000000000 then some i else none
  | .float _ => none

/-- The integer, if it fits an unsigned 64-bit word. -/
def unsigned64? : Number → Option Nat
  | .int i => if 0 ≤ i ∧ i < 0x10000000000000000 then some i.toNat else none
  | .float _ => none

/-- Integers fit 64 bits and floating-point numbers are finite. -/
def WellFormed : Number → Prop
  | .int i => -0x8000000000000000 ≤ i ∧ i < 0x10000000000000000
  | .float x => x.Finite

end Number

/-- An untyped value. -/
inductive Value where
  | null
  | bool (value : Bool)
  | number (value : Number)
  | string (value : String)
  | array (items : List Value)
  | object (entries : List (String × Value))
deriving Inhabited

namespace Value

/-! ### Equality -/

mutual

/-- **Equality of values**: the order of the entries of objects does not matter. -/
def equal : Value → Value → Bool
  | .null, .null => true
  | .bool a, .bool b => a == b
  | .number a, .number b => a.equal b
  | .string a, .string b => a == b
  | .array a, .array b => equalItems a b
  | .object a, .object b => a.length == b.length && entriesIn a b
  | _, _ => false

/-- Equality item by item. -/
def equalItems : List Value → List Value → Bool
  | [], [] => true
  | a :: as, b :: bs => equal a b && equalItems as bs
  | _, _ => false

/-- Whether each entry of the first object is matched by the entry of the second under its key. -/
def entriesIn : List (String × Value) → List (String × Value) → Bool
  | [], _ => true
  | (k, v) :: rest, b =>
      (match Entries.find? k b with
        | some w => equal v w
        | none => false) && entriesIn rest b

end

instance : BEq Value := ⟨equal⟩

/-! ### Well-formedness -/

mutual

/-- Every object has distinct keys and every number is well formed, at any depth. -/
def WellFormed : Value → Prop
  | .number n => n.WellFormed
  | .array items => WellFormedItems items
  | .object entries => (Entries.keys entries).Nodup ∧ WellFormedEntries entries
  | _ => True

/-- Every item is well formed. -/
def WellFormedItems : List Value → Prop
  | [] => True
  | v :: rest => WellFormed v ∧ WellFormedItems rest

/-- Every value of the entries is well formed. -/
def WellFormedEntries : List (String × Value) → Prop
  | [] => True
  | (_, v) :: rest => WellFormed v ∧ WellFormedEntries rest

end

/-! ### Reading parts of a value -/

/-- Whether the value is null. -/
def isNull : Value → Bool
  | .null => true
  | _ => false

/-- The text of a string value. -/
def string? : Value → Option String
  | .string s => some s
  | _ => none

/-- The items of an array. -/
def items? : Value → Option (List Value)
  | .array items => some items
  | _ => none

/-- The nearest binary64 number of a number value. -/
def binary64? : Value → Option Binary64
  | .number n => some n.toBinary64
  | _ => none

/-- The signed 64-bit integer that a number value is. -/
def signed64? : Value → Option Int
  | .number n => n.signed64?
  | _ => none

/-- The unsigned 64-bit integer that a number value is. -/
def unsigned64? : Value → Option Nat
  | .number n => n.unsigned64?
  | _ => none

/-- An integer value. -/
def ofInt (i : Int) : Value := .number (.int i)

end Value

end Schemata
