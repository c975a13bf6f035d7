/-
**Literals: constants that a value must equal.**

Numbers are compared by their binary64 value, so `1` and `1.0` are the same literal.  Arrays and
objects are kept as they are and compared as values.

Main definitions:

* `Schemata.Literal` — constants;
* `Schemata.Literal.ofValue`, `Schemata.Literal.toValue` — the literal of a value and back;
* `Schemata.Literal.accepts` — whether a value is a literal;
* `Schemata.Literal.equal` — equality of literals, in which all not-a-numbers are one.
-/

import Schemata.Json.Printer

set_option relaxedAutoImplicit false
set_option autoImplicit false

namespace Schemata

/-- A constant. -/
inductive Literal where
  | null
  | bool (value : Bool)
  | number (value : Binary64)
  | string (value : String)
  /-- An array or an object. -/
  | composite (value : Value)
deriving Inhabited

namespace Literal

/-- The literal that a value is. -/
def ofValue : Value → Literal
  | .null => .null
  | .bool b => .bool b
  | .number n => .number n.toBinary64
  | .string s => .string s
  | v => .composite v

/-- The value of a number literal: an integer when the number is integral and below `2 ^ 63`, and
null when no value holds it. -/
def numberValue (x : Binary64) : Value :=
  if x.isIntegral && x.belowTwoPow63 then .number (.int x.truncate)
  else if x.isFinite then .number (.float x)
  else .null

/-- The value of a literal. -/
def toValue : Literal → Value
  | .null => .null
  | .bool b => .bool b
  | .number x => numberValue x
  | .string s => .string s
  | .composite v => v

/-- **Whether a value is the literal.** -/
def accepts : Literal → Value → Bool
  | .null, .null => true
  | .bool a, .bool b => a == b
  | .number x, .number n => n.toBinary64.same x
  | .string a, .string b => a == b
  | .composite a, b => a.equal b
  | _, _ => false

/-- Equality of literals. -/
def equal : Literal → Literal → Bool
  | .null, .null => true
  | .bool a, .bool b => a == b
  | .number x, .number y => x.same y
  | .string a, .string b => a == b
  | .composite a, .composite b => a.equal b
  | _, _ => false

instance : BEq Literal := ⟨equal⟩

/-- Whether the literal is null, a boolean, a number or a string. -/
def isPrimitive : Literal → Bool
  | .composite _ => false
  | _ => true

/-- The text of a literal: that of its value. -/
def text (l : Literal) : String := l.toValue.text

end Literal

end Schemata
