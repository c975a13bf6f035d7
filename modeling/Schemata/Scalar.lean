/-
**Scalars: what can be told from a value alone.**

Main definitions:

* `Schemata.Value.int32?` — the 32-bit integer that a number is, also written as a floating-point
  number;
* `Schemata.Scalar.read?` — the value in the form that the kind gives it, if it is of the kind.
-/

import Schemata.Operation

set_option relaxedAutoImplicit false
set_option autoImplicit false

namespace Schemata

/-- Whether an integer fits a signed 32-bit word. -/
def fits32 (i : Int) : Bool := decide (-0x80000000 ≤ i ∧ i < 0x80000000)

/-- The 32-bit integer that a binary64 number is. -/
def Binary64.int32? (x : Binary64) : Option Int :=
  if x.isIntegral && fits32 x.truncate then some x.truncate else none

/-- **The 32-bit integer that a value is.** -/
def Value.int32? : Value → Option Int
  | .number (.int i) => if fits32 i then some i else none
  | .number (.float x) => x.int32?
  | _ => none

/-- **The value in the form of the kind**, if it is of the kind.  An integer loses the form of a
floating-point number; everything else stays as it is. -/
def Scalar.read? : Scalar → Value → Option Value
  | .unit, .null => some .null
  | .string, .string s => some (.string s)
  | .bool, .bool b => some (.bool b)
  | .int, v => v.int32?.map Value.ofInt
  | .float, .number n => some (.number n)
  | _, _ => none

end Schemata
