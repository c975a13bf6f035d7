/-
**Where literals come from, and what they feed to a hash.**

A literal is made from a native constant or from a value, and every number is rounded to binary64 on
the way.  A hash is fed which literal it is and then what it holds; of an array or an object, which
equality looks at without regard to the order of keys, it is fed nothing.  A number is fed as 64
bits, and the bits may differ for numbers that are one as literals only if the hash breaks its
contract with equality.

Main definitions:

* `Schemata.Native`, `Schemata.Literal.ofNative` — what literals are made from, and how;
* `Schemata.Datum`, `Schemata.Hashing` — what a hash is fed, and a way of hashing;
* `Schemata.Hashing.Lawful` — numbers that are one as literals have the same bits;
* `Schemata.Literal.hashed` — what a literal feeds to a hash;
* `Schemata.Binary64.layout`, `Schemata.Hashing.plain` — bits with one zero and one not-a-number.
-/

import Schemata.Literal

set_option relaxedAutoImplicit false
set_option autoImplicit false

namespace Schemata

/-! ### Where literals come from -/

/-- What a literal can be made from.  Narrower integers are 64-bit integers. -/
inductive Native where
  | unit
  | bool (value : Bool)
  | integer (value : Int64)
  | float (value : Binary64)
  | string (value : String)
  | value (value : Value)

/-- The literal made from a native constant or a value. -/
def Literal.ofNative : Native → Literal
  | .unit => .null
  | .bool b => .bool b
  | .integer i => .number (Binary64.ofInt i.toInt)
  | .float x => .number x
  | .string s => .string s
  | .value v => .ofValue v

/-! ### What is hashed -/

/-- What a hash is fed, piece by piece. -/
inductive Datum where
  /-- Which of several forms it is. -/
  | form (position : Nat)
  | bool (value : Bool)
  | bits (value : UInt64)
  | text (value : String)
deriving DecidableEq, Hashable

/-- A way of hashing: the bits of a number, and what becomes of all that is fed. -/
structure Hashing where
  bits : Binary64 → UInt64
  digest : List Datum → UInt64

/-- **Numbers that are one as literals have the same bits**: both zeros, and not-a-number. -/
def Hashing.Lawful (H : Hashing) : Prop :=
  ∀ x y : Binary64, x.same y = true → H.bits x = H.bits y

/-- **What a literal feeds to a hash.**  An array or an object feeds only that it is one. -/
def Literal.hashed (H : Hashing) : Literal → List Datum
  | .null => [.form 0]
  | .bool b => [.form 1, .bool b]
  | .number x => [.form 2, .bits (H.bits x)]
  | .string s => [.form 3, .text s]
  | .composite _ => [.form 4]

/-! ### The layout of numbers -/

/-- The 64 bits of a number: eleven of exponent and fifty-two of significand behind the sign.  Zero
has no sign, and there is one not-a-number. -/
def Binary64.layout : Binary64 → UInt64
  | .nan => 0x7ff8000000000000
  | .infinity negative => if negative then 0xfff0000000000000 else 0x7ff0000000000000
  | .finite negative units =>
      let exponent := units.log2 - 52
      let magnitude := UInt64.ofNat (exponent * Nat.pow 2 52 + units / Nat.pow 2 exponent)
      if negative && units != 0 then 0x8000000000000000 + magnitude else magnitude

/-- Hashing by the layout of numbers. -/
def Hashing.plain : Hashing := ⟨Binary64.layout, hash⟩

theorem Hashing.plain_lawful : plain.Lawful := by
  intro x y h
  change x.layout = y.layout
  cases x with
  | nan =>
      cases y with
      | nan => rfl
      | _ => cases h
  | infinity a =>
      cases y with
      | infinity b => rw [beq_iff_eq.1 (show (a == b) = true from h)]
      | _ => cases h
  | finite a m =>
      cases y with
      | finite b n =>
          simp only [Binary64.same, Binary64.numEq, Bool.and_eq_true, beq_iff_eq,
            Bool.or_eq_true] at h
          obtain ⟨rfl, rfl | rfl⟩ := h
          · rfl
          · -- without units the sign is left out
            simp [Binary64.layout]
      | _ => cases h

end Schemata
