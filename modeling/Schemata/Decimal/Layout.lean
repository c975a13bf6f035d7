/-
**Writing binary64 numbers: three layouts of the shortest decimal.**

All three write the shortest decimal that reads back.  They differ in when they leave positional
notation, in whether an integral number keeps a `.0`, and in how an exponent is spelled; a layout is
a record of these decisions and `Schemata.Layout.write` is the one function that follows it.

Main definitions:

* `Schemata.Layout` — the decisions;
* `Schemata.Layout.json`, `Schemata.Layout.plain`, `Schemata.Layout.source` — the layouts of JSON
  text, of bounds in messages, and of source text and descriptions;
* `Schemata.Layout.write` — the text of a number.
-/

import Schemata.Decimal.Shortest

set_option relaxedAutoImplicit false
set_option autoImplicit false

namespace Schemata

/-- How a binary64 number is written. -/
structure Layout where
  /-- The exponents of the first digit that are written positionally; `none` is all of them. -/
  positional : Option (Int × Int)
  /-- Whether an integral number in positional notation ends in `.0`. -/
  keepsPoint : Bool
  /-- Whether a positive exponent has a plus sign. -/
  signsExponent : Bool
  /-- Which of two equally near shortest decimals is written. -/
  tie : Decimal.Tie

namespace Layout

/-- Numbers in JSON text: positional for exponents from -5 to 15, otherwise like `1e+16`. -/
def json : Layout := ⟨some (-5, 15), true, true, .toEven⟩

/-- Numbers in messages: always positional, an integral one without a point. -/
def plain : Layout := ⟨none, false, false, .up⟩

/-- Numbers in source text and descriptions: positional for exponents from -4 to 15, otherwise like
`1e16`. -/
def source : Layout := ⟨some (-4, 15), true, false, .up⟩

/-- Digits with the point after the digit of exponent zero. -/
def positionalText (keepsPoint : Bool) (ds : List Char) (first : Int) : List Char :=
  if first < 0 then
    '0' :: '.' :: (List.replicate (-first - 1).toNat '0' ++ ds)
  else
    let whole := first.toNat + 1
    if ds.length ≤ whole then
      ds ++ List.replicate (whole - ds.length) '0' ++ (if keepsPoint then ['.', '0'] else [])
    else ds.take whole ++ '.' :: ds.drop whole

/-- One digit, the others after a point, and the exponent. -/
def scientificText (signsExponent : Bool) (ds : List Char) (first : Int) : List Char :=
  let fraction := match ds.drop 1 with
    | [] => []
    | more => '.' :: more
  let sign := if first < 0 then ['-'] else if signsExponent then ['+'] else []
  ds.take 1 ++ fraction ++ 'e' :: (sign ++ Decimal.digits first.natAbs)

/-- The text of a magnitude. -/
def magnitudeText (l : Layout) (units : Nat) : List Char :=
  if units = 0 then positionalText l.keepsPoint ['0'] 0
  else
    let d := Decimal.shortest l.tie units
    let ds := Decimal.digits d.significand
    let first := d.leadingExponent
    match l.positional with
    | none => positionalText l.keepsPoint ds first
    | some (low, high) =>
        if low ≤ first ∧ first ≤ high then positionalText l.keepsPoint ds first
        else scientificText l.signsExponent ds first

/-- **The text of a number in a layout.** -/
def write (l : Layout) : Binary64 → String
  | .nan => "NaN"
  | .infinity negative => if negative then "-inf" else "inf"
  | .finite negative units =>
      String.ofList ((if negative then ['-'] else []) ++ magnitudeText l units)

end Layout

end Schemata
