/-
**Binary64 numbers as exact multiples of their smallest step.**

Every finite binary64 number is a whole multiple of `2 ^ -1074`, the smallest positive one.  A
finite number is therefore kept here as a sign and the number of such steps, its *units*, so that
equality, order and integrality are statements about natural numbers and need no floating-point
arithmetic at all.  The sign is kept beside the units because zero has one too.

Numbers enter through `Schemata.Binary64.ofQuotient`, which rounds an exact quotient to the nearest
number that 53 significant bits can hold, a half going to the even neighbour.

Main definitions:

* `Schemata.Binary64` — not-a-number, an infinity, or a sign and units;
* `Schemata.Binary64.spacing`, `Schemata.Binary64.roundQuotient` — the distance between
  neighbouring numbers of a magnitude, and rounding to them;
* `Schemata.Binary64.ofInt`, `Schemata.Binary64.ofDecimal` — the numbers nearest to an integer and
  to a decimal;
* `Schemata.Binary64.numEq`, `Schemata.Binary64.le`, `Schemata.Binary64.lt` — numeric comparison,
  in which not-a-number equals nothing and both zeros are one;
* `Schemata.Binary64.same` — the equivalence that also identifies not-a-number with itself.
-/

set_option relaxedAutoImplicit false
set_option autoImplicit false

namespace Schemata

/-- A binary64 number: not-a-number, an infinity, or a signed multiple of `2 ^ -1074`. -/
inductive Binary64 where
  | nan
  | infinity (negative : Bool)
  | finite (negative : Bool) (units : Nat)
deriving DecidableEq, Inhabited

namespace Binary64

/-! ### Rounding -/

/-- The units of the number one. -/
def one : Nat := Nat.pow 2 1074

/-- Magnitudes from here on are infinite: the units of `2 ^ 1024`. -/
def overflow : Nat := Nat.pow 2 2098

/-- The distance from a magnitude to the next larger one: one unit as long as 53 bits hold the
units, then the weight of the last of their leading 53 bits. -/
def spacing (units : Nat) : Nat := Nat.pow 2 (units.log2 - 52)

/-- The units nearest to `num / den` units among those that 53 significant bits can hold; a half
goes to the even neighbour. -/
def roundQuotient (num den : Nat) : Nat :=
  let step := spacing (num / den)
  let whole := num / (den * step)
  let rest := num % (den * step)
  let up : Nat :=
    if 2 * rest < den * step then 0 else if den * step < 2 * rest then 1 else whole % 2
  (whole + up) * step

/-- The number of a sign and a magnitude that 53 bits can hold. -/
def ofUnits (negative : Bool) (units : Nat) : Binary64 :=
  if overflow ≤ units then .infinity negative else .finite negative units

/-- The number nearest to `± num / den` units. -/
def ofQuotient (negative : Bool) (num den : Nat) : Binary64 :=
  ofUnits negative (roundQuotient num den)

/-- The number nearest to an integer. -/
def ofInt (value : Int) : Binary64 := ofQuotient (value < 0) (value.natAbs * one) 1

/-- The number nearest to `± digits · 10 ^ exponent`.  Exponents that put the value beyond every
finite number, or below half the smallest one, are answered without computing the power. -/
def ofDecimal (negative : Bool) (digits : Nat) (exponent : Int) : Binary64 :=
  if digits = 0 then .finite negative 0
  else if 310 < exponent then .infinity negative
  else if exponent + digits.log2 < -330 then .finite negative 0
  else if 0 ≤ exponent then ofQuotient negative (digits * Nat.pow 10 exponent.toNat * one) 1
  else ofQuotient negative (digits * one) (Nat.pow 10 (-exponent).toNat)

/-! ### Comparison -/

/-- The units with their sign; `none` for not-a-number and the infinities. -/
def signedUnits? : Binary64 → Option Int
  | .finite negative units => some (if negative then -(units : Int) else units)
  | _ => none

/-- Numeric equality: both zeros are equal and not-a-number differs from everything. -/
def numEq : Binary64 → Binary64 → Bool
  | .nan, _ => false
  | .infinity a, .infinity b => a == b
  | .finite a m, .finite b n => m == n && (a == b || m == 0)
  | _, _ => false

/-- Numeric order; not-a-number is below and above nothing. -/
def lt : Binary64 → Binary64 → Bool
  | .infinity a, .infinity b => a && !b
  | .infinity a, .finite _ _ => a
  | .finite _ _, .infinity b => !b
  | .finite a m, .finite b n =>
      decide ((if a then -(m : Int) else m) < (if b then -(n : Int) else n))
  | _, _ => false

/-- Below or numerically equal. -/
def le (x y : Binary64) : Bool := lt x y || numEq x y

/-- Numeric equality with not-a-number identified with itself. -/
def same : Binary64 → Binary64 → Bool
  | .nan, .nan => true
  | x, y => numEq x y

/-! ### Integers -/

/-- Whether the number is finite and has no fractional part. -/
def isIntegral : Binary64 → Bool
  | .finite _ units => units % one == 0
  | _ => false

/-- The integer next to a finite number on the side of zero, and zero for the rest. -/
def truncate : Binary64 → Int
  | .finite negative units =>
      if negative then -((units / one : Nat) : Int) else ((units / one : Nat) : Int)
  | _ => 0

/-- Whether the number is neither not-a-number nor infinite. -/
def isFinite : Binary64 → Bool
  | .finite _ _ => true
  | _ => false

/-- The number is finite, with units that 53 significant bits can hold. -/
def Finite (x : Binary64) : Prop :=
  ∃ negative units, x = .finite negative units ∧ spacing units ∣ units ∧ units < overflow

/-- Whether the magnitude is below that of `2 ^ 63`. -/
def belowTwoPow63 : Binary64 → Bool
  | .finite _ units => decide (units < 0x8000000000000000 * one)
  | _ => false

end Binary64

end Schemata
