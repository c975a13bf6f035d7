/-
**Built-in refinements: lengths, patterns, bounds, item counts.**

Every refinement is a test with a message around a schema; `Schemata.Constraint` lists them.  Two
text effects change the value instead: a timestamp is brought into its normal form, and trimming
takes white space away in both directions.

Main definitions:

* `Schemata.Constraint`, `Schemata.Constraint.message`, `Schemata.Constraint.holds` — the
  refinements;
* `Schemata.Schema.constrain` — a refinement around a schema;
* `Schemata.Schema.timestamp`, `Schemata.Schema.trim` — the two text effects.
-/

import Schemata.Build
import Schemata.Pattern
import Schemata.Timestamp

set_option relaxedAutoImplicit false
set_option autoImplicit false

namespace Schemata

/-- A built-in refinement. -/
inductive Constraint where
  | minLength (n : Nat)
  | maxLength (n : Nat)
  | length (n : Nat)
  | pattern (p : Pattern)
  | email
  | uuid
  | cuid
  | url
  | min (bound : Binary64)
  | max (bound : Binary64)
  /-- A number that addresses a service on a machine. -/
  | networkPort
  | minItems (n : Nat)
  | maxItems (n : Nat)
  | items (n : Nat)

/-! ### Patterns of common texts -/

namespace Pattern

/-- A letter without accents. -/
def letter : Pattern := .char Char.isAlpha

/-- A letter or digit without accents. -/
def alphanumeric : Pattern := .char Char.isAlphanum

/-- A hexadecimal digit. -/
def hex : Pattern :=
  .char fun c => c.isDigit || (decide ('a' ≤ c) && decide (c ≤ 'f')) ||
    (decide ('A' ≤ c) && decide (c ≤ 'F'))

/-- A character of the part of an address before the at sign. -/
def addressChar : Pattern := .char fun c => c.isAlphanum || "_'+-".toList.contains c

/-- A part of a host's name, with the point after it. -/
def hostPart : Pattern :=
  sequence [alphanumeric, .many (.char fun c => c.isAlphanum || c == '-'), exactly '.']

/-- Addresses for electronic mail. -/
def email : Pattern :=
  sequence
    [.start, addressChar.oneOrMore, .many (.andThen (exactly '.') addressChar.oneOrMore),
     exactly '@', hostPart.oneOrMore, letter.atLeast 2, .stop]

/-- Universally unique identifiers of the versions 1 to 5, and the one of zeros. -/
def uuid : Pattern :=
  .either
    (sequence
      [.start, times 8 hex, exactly '-', times 4 hex, exactly '-', oneOf "12345", times 3 hex,
       exactly '-', oneOf "89abAB", times 3 hex, exactly '-', times 12 hex, .stop])
    (sequence [.start, text "00000000-0000-0000-0000-000000000000", .stop])

/-- Collision-resistant identifiers. -/
def cuid : Pattern :=
  sequence [.start, exactly 'c', atLeast 8 (.char fun c => !Text.isBlank c && c != '-'), .stop]

/-- A scheme with something after it. -/
def schemed : Pattern :=
  sequence
    [.start, letter, .many (.char fun c => c.isAlphanum || "+.-".toList.contains c), exactly ':',
     (Pattern.char fun c => !Text.isBlank c).oneOrMore, .stop]

end Pattern

/-- What follows the first occurrence of a text. -/
def afterFirst (separator : List Char) : List Char → Option (List Char)
  | [] => if separator.isEmpty then some [] else none
  | c :: rest =>
      if separator.isPrefixOf (c :: rest) then some ((c :: rest).drop separator.length)
      else afterFirst separator rest

/-- Whether a text looks like a locator: a scheme with something after it, which is a host when two
slashes introduce it. -/
def looksLikeUrl (s : String) : Bool :=
  Pattern.schemed.matchesIn s &&
    match afterFirst "://".toList s.toList with
    | some [] => false
    | some (c :: _) => c != '/'
    | none => ["mailto:", "tel:", "urn:"].any fun scheme => scheme.toList.isPrefixOf s.toList

namespace Constraint

/-- **The message of a refinement.** -/
def message : Constraint → String
  | .minLength n => "String must be " ++ toString n ++ " or more characters long"
  | .maxLength n => "String must be " ++ toString n ++ " or fewer characters long"
  | .length n => "String must be exactly " ++ toString n ++ " characters long"
  | .pattern _ => "Invalid"
  | .email => "Invalid email address"
  | .uuid => "Invalid UUID"
  | .cuid => "Invalid CUID"
  | .url => "Invalid url"
  | .min bound => "Number must be greater than or equal to " ++ Layout.plain.write bound
  | .max bound => "Number must be lower than or equal to " ++ Layout.plain.write bound
  | .networkPort => "Invalid port"
  | .minItems n => "Array must be " ++ toString n ++ " or more items long"
  | .maxItems n => "Array must be " ++ toString n ++ " or fewer items long"
  | .items n => "Array must be exactly " ++ toString n ++ " items long"

/-- The number of characters of a string; zero for other values. -/
def characterCount (v : Value) : Nat := (v.string?.map String.length).getD 0

/-- The number of items of an array; zero for other values. -/
def itemCount (v : Value) : Nat := (v.items?.map List.length).getD 0

/-- The number that a value is; not-a-number for other values. -/
def numberOf (v : Value) : Binary64 := v.binary64?.getD .nan

/-- A test of strings, which no other value passes. -/
def onString (p : String → Bool) (v : Value) : Bool := (v.string?.map p).getD false

/-- **Whether a refinement holds for a value.** -/
def holds : Constraint → Value → Bool
  | .minLength n, v => decide (n ≤ characterCount v)
  | .maxLength n, v => decide (characterCount v ≤ n)
  | .length n, v => characterCount v == n
  | .pattern p, v => onString p.matchesIn v
  | .email, v => onString Pattern.email.matchesIn v
  | .uuid, v => onString Pattern.uuid.matchesIn v
  | .cuid, v => onString Pattern.cuid.matchesIn v
  | .url, v => onString looksLikeUrl v
  | .min bound, v => bound.le (numberOf v)
  | .max bound, v => (numberOf v).le bound
  | .networkPort, v =>
      match v.unsigned64? with
      | some n => decide (n ≤ 65535)
      | none => false
  | .minItems n, v => decide (n ≤ itemCount v)
  | .maxItems n, v => decide (itemCount v ≤ n)
  | .items n, v => itemCount v == n

end Constraint

namespace Schema

/-- **A refinement around a schema.** -/
def constrain (s : Schema) (c : Constraint) : Run Schema :=
  s.wrap (.refine c.message (.direct (.holds c.holds)))

/-- The normal form of a timestamp. -/
def normalTimestamp (v : Value) : Except Failure Value :=
  match Timestamp.read? (v.string?.getD "") with
  | some t => .ok (.string t.text)
  | none =>
      .error (.error (Error.atRoot (.refinement "Invalid datetime string! Expected UTC") .parsing))

/-- **Timestamps with any offset, brought to universal time.**  Serializing leaves them as they
are. -/
def timestamp (s : Schema) : Run Schema :=
  s.wrap (.transform ⟨some (.direct (.compute normalTimestamp)), some (.compute .ok)⟩)

/-- A string without the white space around it; other values stay as they are. -/
def trimmed : Value → Except Failure Value
  | .string text => .ok (.string (Text.trim text))
  | v => .ok v

/-- **Strings without the white space around them**, in both directions. -/
def trim (s : Schema) : Run Schema :=
  s.wrap (.transform ⟨some (.direct (.compute trimmed)), some (.compute trimmed)⟩)

end Schema

end Schemata
