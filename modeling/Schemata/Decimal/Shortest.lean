/-
**The shortest decimal that reads back as a given binary64 number.**

A decimal stands for a binary64 number when the number is the nearest one to it.  Those decimals
form an interval around the number, and `Schemata.Decimal.shortest` takes from it a decimal of the
fewest digits and, among these, the one nearest to the number.  For every digit count only the two
points of that decimal grid around the number matter, and all comparisons are exact, in natural
numbers.

Main definitions:

* `Schemata.Decimal` — digits as one natural number, and a power of ten;
* `Schemata.Decimal.Tie` — which of two equally near decimals is taken;
* `Schemata.Decimal.shortest` — the shortest decimal of a positive magnitude.
-/

import Schemata.Binary64

set_option relaxedAutoImplicit false
set_option autoImplicit false

namespace Schemata

/-- The decimal number `significand · 10 ^ exponent`. -/
structure Decimal where
  significand : Nat
  exponent : Int
deriving DecidableEq, Inhabited

namespace Decimal

/-- Which of two decimals at the same distance is taken. -/
inductive Tie where
  | toEven
  | up
deriving DecidableEq

/-! ### Digits -/

/-- The decimal digits of a natural number, most significant first. -/
def digits (n : Nat) : List Char := Nat.toDigits 10 n

/-- The exponent of the first digit: `3` for `1234.5`. -/
def leadingExponent (d : Decimal) : Int := d.exponent + (digits d.significand).length - 1

/-- The same decimal without zeros at the end of its significand. -/
def trim (fuel : Nat) (d : Decimal) : Decimal :=
  match fuel with
  | 0 => d
  | fuel + 1 =>
      if d.significand ≠ 0 ∧ d.significand % 10 = 0 then
        trim fuel ⟨d.significand / 10, d.exponent + 1⟩
      else d

/-! ### The decimals that stand for a number -/

/-- The two ends, in half units, of the interval of reals that round to a magnitude.  Below a power
of two the neighbour is only half as far. -/
def interval (units : Nat) : Nat × Nat :=
  let gap := Binary64.spacing units
  let below := if units = Nat.pow 2 units.log2 ∧ 53 ≤ units.log2 then gap / 2 else gap
  (2 * units - below, 2 * units + gap)

/-- Whether the ends of the interval belong to it: a half rounds to the even significand. -/
def closed (units : Nat) : Bool := units / Binary64.spacing units % 2 == 0

/-- A point of a decimal grid in half units, as a quotient: `10 ^ exponent` is
`(scale exponent).1 / (scale exponent).2` half units. -/
def scale (exponent : Int) : Nat × Nat :=
  if 0 ≤ exponent then (2 * Binary64.one * Nat.pow 10 exponent.toNat, 1)
  else (2 * Binary64.one, Nat.pow 10 (-exponent).toNat)

/-- Whether `significand · 10 ^ exponent` rounds to the magnitude. -/
def standsFor (units significand : Nat) (exponent : Int) : Bool :=
  let point := significand * (scale exponent).1
  let den := (scale exponent).2
  let ends := interval units
  if closed units then decide (ends.1 * den ≤ point ∧ point ≤ ends.2 * den)
  else decide (ends.1 * den < point ∧ point < ends.2 * den)

/-- The exponent of the first digit of a positive magnitude. -/
def magnitude (units : Nat) : Int :=
  ((digits (units * Nat.pow 10 330 / Binary64.one)).length : Int) - 331

/-- The better of the two neighbours of a magnitude on the grid of `10 ^ exponent`, if one of them
stands for it. -/
def onGrid (tie : Tie) (units : Nat) (exponent : Int) : Option Decimal :=
  let num := (scale exponent).1
  let value := 2 * units * (scale exponent).2
  let low := value / num
  let high := low + 1
  let lowFits := standsFor units low exponent
  let highFits := standsFor units high exponent
  let toLow := value - low * num
  let toHigh := high * num - value
  let takeLow := toLow < toHigh ∨ (toLow = toHigh ∧ tie = .toEven ∧ low % 2 = 0)
  if lowFits && (!highFits || decide takeLow) then some ⟨low, exponent⟩
  else if highFits then some ⟨high, exponent⟩
  else none

/-- **The shortest decimal that reads back as a positive magnitude**, nearest to it among those of
its length.  Seventeen digits always suffice. -/
def shortest (tie : Tie) (units : Nat) : Decimal :=
  let first := magnitude units
  let found := (List.range 17).findSome? fun (n : Nat) => onGrid tie units (first - (n : Int))
  trim 20 (found.getD ⟨0, 0⟩)

end Decimal

end Schemata
