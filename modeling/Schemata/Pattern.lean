/-
**Patterns over text.**

A pattern is a regular expression with anchors.  It matches a text when it matches some part of it;
`^` and `$` hold only at the two ends of the text.  Matching computes, for a position, all positions
at which a match from there can end; a position is given by the text that is left.

Main definitions:

* `Schemata.Pattern`, `Schemata.Pattern.Place` — patterns, and positions in a text;
* `Schemata.Pattern.ends` — where matches from a position can end;
* `Schemata.Pattern.matchesIn` — whether a text has a match.
-/

import Schemata.Text.Classes

set_option relaxedAutoImplicit false
set_option autoImplicit false

namespace Schemata

/-- A regular expression. -/
inductive Pattern where
  /-- The empty text. -/
  | empty
  /-- One character of a class. -/
  | char (admits : Char → Bool)
  /-- The start of the text. -/
  | start
  /-- The end of the text. -/
  | stop
  | andThen (first second : Pattern)
  | either (first second : Pattern)
  /-- Any number of times. -/
  | many (inner : Pattern)

namespace Pattern

/-- A position in a text: how many characters are left, and which. -/
structure Place where
  left : Nat
  rest : List Char

/-- Whether a position is among others. -/
def Place.among (s : Place) (others : List Place) : Bool := others.any fun t => t.left == s.left

/-- The positions that are new, added to those found before. -/
def addNew : List Place → List Place → List Place
  | [], found => found
  | s :: rest, found => if s.among found then addNew rest found else addNew rest (s :: found)

/-- The positions reached by repeating a step, from those still to be looked at.  Each position is
looked at once, so `fuel` need not exceed their number. -/
def repeatStep (step : Place → List Place) : Nat → List Place → List Place → List Place
  | 0, _, found => found
  | _ + 1, [], found => found
  | fuel + 1, s :: waiting, found =>
      let fresh := (addNew (step s) []).filter fun t => !t.among found
      repeatStep step fuel (fresh ++ waiting) (fresh ++ found)

/-- **Where matches can end** that begin at a position of a text of `total` characters. -/
def ends (total : Nat) : Pattern → Place → List Place
  | .empty, s => [s]
  | .char admits, s =>
      match s.rest with
      | [] => []
      | c :: rest => if admits c then [⟨s.left - 1, rest⟩] else []
  | .start, s => if s.left = total then [s] else []
  | .stop, s => if s.rest.isEmpty then [s] else []
  | .andThen p q, s => addNew ((p.ends total s).flatMap (q.ends total)) []
  | .either p q, s => addNew (p.ends total s ++ q.ends total s) []
  | .many p, s => repeatStep (p.ends total) (total + 1) [s] [s]

/-- All positions of a text. -/
def places : Nat → List Char → List Place
  | left, [] => [⟨left, []⟩]
  | left, c :: rest => ⟨left, c :: rest⟩ :: places (left - 1) rest

/-- **Whether a text has a match.** -/
def matchesIn (p : Pattern) (text : String) : Bool :=
  let cs := text.toList
  (places cs.length cs).any fun s => !(p.ends cs.length s).isEmpty

/-! ### Combinations -/

/-- Patterns one after the other. -/
def sequence : List Pattern → Pattern
  | [] => .empty
  | [p] => p
  | p :: rest => .andThen p (sequence rest)

/-- Once or not at all. -/
def optional (p : Pattern) : Pattern := .either p .empty

/-- At least once. -/
def oneOrMore (p : Pattern) : Pattern := .andThen p (.many p)

/-- So many times. -/
def times (n : Nat) (p : Pattern) : Pattern := sequence (List.replicate n p)

/-- At least so many times. -/
def atLeast (n : Nat) (p : Pattern) : Pattern := .andThen (times n p) (.many p)

/-- At least `n` times and at most `n + more` times. -/
def between (n more : Nat) (p : Pattern) : Pattern :=
  .andThen (times n p) (times more (optional p))

/-- One given character. -/
def exactly (c : Char) : Pattern := .char fun d => d == c

/-- The characters of a text, in order. -/
def text (s : String) : Pattern := sequence (s.toList.map exactly)

/-- One character of those given. -/
def oneOf (s : String) : Pattern := .char fun c => s.toList.contains c

/-- Any character but a line break. -/
def anyChar : Pattern := .char fun c => c != '\n'

/-- A letter that a character is, of either case. -/
def sameLetter (c d : Char) : Bool := c.toLower == d.toLower

end Pattern

end Schemata
