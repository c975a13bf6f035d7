/-
**Sets of characters given by ranges of code points.**

Main definitions:

* `Schemata.Text.inRanges` — whether a code point lies in one of the ranges.
-/

set_option relaxedAutoImplicit false
set_option autoImplicit false

namespace Schemata

namespace Text

/-- Whether a code point lies in one of the ranges, each given by its first and last code point. -/
def inRanges (ranges : List (Nat × Nat)) (code : Nat) : Bool :=
  ranges.any fun r => decide (r.1 ≤ code ∧ code ≤ r.2)

end Text

end Schemata
