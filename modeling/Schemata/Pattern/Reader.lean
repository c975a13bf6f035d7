/-
**Reading patterns from their usual notation.**

Alternatives are separated by `|`; a part may be repeated with `*`, `+`, `?`, `{n}`, `{n,}` and
`{n,m}`; `(…)` groups, `[…]` and `[^…]` list characters and ranges, and `\d`, `\w`, `\s` with their
capital opposites stand for Unicode classes.  `(?i)` in front makes letters match in either case.

Main definitions:

* `Schemata.Pattern.ofText?` — the pattern of a text in this notation.
-/

import Schemata.Pattern

set_option relaxedAutoImplicit false
set_option autoImplicit false

namespace Schemata

namespace Pattern

/-- The class of an escape letter, if it is one. -/
def classOf? (c : Char) : Option (Char → Bool) :=
  match c with
  | 'd' => some Text.isDigit
  | 'w' => some Text.isWord
  | 's' => some Text.isBlank
  | 'D' => some fun d => !Text.isDigit d
  | 'W' => some fun d => !Text.isWord d
  | 'S' => some fun d => !Text.isBlank d
  | _ => none

/-- The character of an escape that is no class. -/
def escaped (c : Char) : Char :=
  match c with
  | 'n' => '\n'
  | 't' => '\t'
  | 'r' => '\r'
  | c => c

/-- A class that also admits the letters of the other case. -/
def anyCase (ignoreCase : Bool) (admits : Char → Bool) : Char → Bool :=
  if ignoreCase then fun c => admits c || admits c.toLower || admits c.toUpper else admits

/-- The characters listed up to the closing bracket, after a class of earlier ones. -/
def listed (fuel : Nat) (acc : Char → Bool) : List Char → Option ((Char → Bool) × List Char)
  | [] => none
  | ']' :: rest => some (acc, rest)
  | '\\' :: c :: rest =>
      match fuel with
      | 0 => none
      | fuel + 1 =>
          let admits := (classOf? c).getD fun d => d == escaped c
          listed fuel (fun d => acc d || admits d) rest
  | a :: '-' :: b :: rest =>
      match fuel with
      | 0 => none
      | fuel + 1 =>
          if b = ']' then some ((fun d => acc d || d == a || d == '-'), rest)
          else if b = '\\' then
            match rest with
            | c :: rest => listed fuel (fun d => acc d || (a ≤ d && d ≤ c)) rest
            | [] => none
          else listed fuel (fun d => acc d || (a ≤ d && d ≤ b)) rest
  | a :: rest =>
      match fuel with
      | 0 => none
      | fuel + 1 => listed fuel (fun d => acc d || d == a) rest

/-- A bracket's class; a caret in front takes the opposite. -/
def bracket (cs : List Char) : Option ((Char → Bool) × List Char) :=
  match cs with
  | '^' :: rest =>
      match listed rest.length (fun _ => false) rest with
      | some (admits, rest) => some ((fun c => !admits c), rest)
      | none => none
  | cs => listed cs.length (fun _ => false) cs

/-- A number in front of a text. -/
def leadingNumber (cs : List Char) : Option (Nat × List Char) :=
  let ds := cs.takeWhile Char.isDigit
  if ds.isEmpty then none
  else some (ds.foldl (fun n d => n * 10 + (d.toNat - '0'.toNat)) 0, cs.dropWhile Char.isDigit)

/-- A pattern with the repetitions written behind it. -/
def repeated (fuel : Nat) (p : Pattern) (cs : List Char) : Option (Pattern × List Char) :=
  match fuel with
  | 0 => some (p, cs)
  | fuel + 1 =>
      match cs with
      | '*' :: rest => repeated fuel (.many p) rest
      | '+' :: rest => repeated fuel (oneOrMore p) rest
      | '?' :: rest => repeated fuel (optional p) rest
      | '\x7b' :: rest =>
          match leadingNumber rest with
          | some (n, '\x7d' :: rest) => repeated fuel (times n p) rest
          | some (n, ',' :: '\x7d' :: rest) => repeated fuel (atLeast n p) rest
          | some (n, ',' :: rest) =>
              match leadingNumber rest with
              | some (m, '\x7d' :: rest) => repeated fuel (between n (m - n) p) rest
              | _ => none
          | _ => none
      | cs => some (p, cs)

mutual

/-- Alternatives. -/
def alternatives (ignoreCase : Bool) : Nat → List Char → Option (Pattern × List Char)
  | 0, _ => none
  | fuel + 1, cs =>
      match concatenation ignoreCase fuel cs with
      | some (p, '|' :: rest) =>
          match alternatives ignoreCase fuel rest with
          | some (q, rest) => some (.either p q, rest)
          | none => none
      | other => other

/-- Parts one after the other. -/
def concatenation (ignoreCase : Bool) : Nat → List Char → Option (Pattern × List Char)
  | 0, _ => none
  | fuel + 1, cs =>
      match cs with
      | [] => some (.empty, [])
      | '|' :: rest => some (.empty, '|' :: rest)
      | ')' :: rest => some (.empty, ')' :: rest)
      | cs =>
          match atom ignoreCase fuel cs with
          | none => none
          | some (p, rest) =>
              match repeated rest.length p rest with
              | none => none
              | some (p, rest) =>
                  match concatenation ignoreCase fuel rest with
                  | some (q, rest) => some (.andThen p q, rest)
                  | none => none

/-- One part. -/
def atom (ignoreCase : Bool) : Nat → List Char → Option (Pattern × List Char)
  | 0, _ => none
  | fuel + 1, cs =>
      match cs with
      | [] => none
      | '^' :: rest => some (.start, rest)
      | '$' :: rest => some (.stop, rest)
      | '.' :: rest => some (anyChar, rest)
      | '[' :: rest =>
          match bracket rest with
          | some (admits, rest) => some (.char (anyCase ignoreCase admits), rest)
          | none => none
      | '(' :: rest =>
          let inner := match rest with
            | '?' :: ':' :: rest => rest
            | rest => rest
          match alternatives ignoreCase fuel inner with
          | some (p, ')' :: rest) => some (p, rest)
          | _ => none
      | '\\' :: c :: rest =>
          let admits := (classOf? c).getD (anyCase ignoreCase fun d => d == escaped c)
          some (.char admits, rest)
      | '\\' :: [] => none
      | c :: rest =>
          if c = '*' || c = '+' || c = '?' then none
          else some (.char (anyCase ignoreCase fun d => d == c), rest)

end

/-- **The pattern of a text in the usual notation.** -/
def ofText? (s : String) : Option Pattern :=
  let cs := s.toList
  let (ignoreCase, cs) := match cs with
    | '(' :: '?' :: 'i' :: ')' :: rest => (true, rest)
    | cs => (false, cs)
  match alternatives ignoreCase (4 * cs.length + 4) cs with
  | some (p, []) => some p
  | _ => none

end Pattern

end Schemata
