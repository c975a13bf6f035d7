/-
**JSON text of values.**

The compact text has no space outside strings.  The indented text puts every item and entry on a
line of its own, and leaves empty arrays and objects closed.  Strings escape the quote, the
backslash and the control characters below the space, nothing else.

Main definitions:

* `Schemata.Json.stringText` — a string between quotes;
* `Schemata.Value.text` — the compact text;
* `Schemata.Value.indentedText` — the text over several lines.
-/

import Schemata.Decimal.Layout
import Schemata.Value

set_option relaxedAutoImplicit false
set_option autoImplicit false

namespace Schemata

namespace Json

/-- A hexadecimal digit. -/
def hexDigit (n : Nat) : Char := Nat.digitChar n

/-- One character inside a string. -/
def escapedChar (c : Char) : List Char :=
  if c = '"' then ['\\', '"']
  else if c = '\\' then ['\\', '\\']
  else if c.toNat = 8 then ['\\', 'b']
  else if c.toNat = 9 then ['\\', 't']
  else if c.toNat = 10 then ['\\', 'n']
  else if c.toNat = 12 then ['\\', 'f']
  else if c.toNat = 13 then ['\\', 'r']
  else if c.toNat < 32 then ['\\', 'u', '0', '0', hexDigit (c.toNat / 16), hexDigit (c.toNat % 16)]
  else [c]

/-- A string between quotes. -/
def stringText (s : String) : String :=
  String.ofList ('"' :: (s.toList.flatMap escapedChar ++ ['"']))

end Json

/-- The text of a number; a number that is not finite has no JSON form and is written as null. -/
def Number.text : Number → String
  | .int i => toString i
  | .float x => if x.isFinite then Layout.json.write x else "null"

namespace Value

/-! ### Compact text -/

mutual

/-- **The compact JSON text of a value.** -/
def text : Value → String
  | .null => "null"
  | .bool b => if b then "true" else "false"
  | .number n => n.text
  | .string s => Json.stringText s
  | .array items => "[" ++ ",".intercalate (itemTexts items) ++ "]"
  | .object entries => "\x7b" ++ ",".intercalate (entryTexts entries) ++ "\x7d"

/-- The texts of the items. -/
def itemTexts : List Value → List String
  | [] => []
  | v :: rest => text v :: itemTexts rest

/-- The texts of the entries, key and value joined by a colon. -/
def entryTexts : List (String × Value) → List String
  | [] => []
  | (k, v) :: rest => (Json.stringText k ++ ":" ++ text v) :: entryTexts rest

end

/-! ### Indented text -/

/-- A new line with the indentation of a depth. -/
def newLine (width depth : Nat) : String :=
  "\n" ++ String.ofList (List.replicate (width * depth) ' ')

/-- Parts between brackets, each on a line of its own one step deeper. -/
def block (width depth : Nat) (opening closing : String) (parts : List String) : String :=
  if parts.isEmpty then opening ++ closing
  else
    opening ++ newLine width (depth + 1) ++ ("," ++ newLine width (depth + 1)).intercalate parts ++
      newLine width depth ++ closing

mutual

/-- The text of a value that stands at a depth. -/
def textAt (width depth : Nat) : Value → String
  | .array items => block width depth "[" "]" (itemTextsAt width (depth + 1) items)
  | .object entries => block width depth "\x7b" "\x7d" (entryTextsAt width (depth + 1) entries)
  | .null => "null"
  | .bool b => if b then "true" else "false"
  | .number n => n.text
  | .string s => Json.stringText s

/-- The texts of the items at a depth. -/
def itemTextsAt (width depth : Nat) : List Value → List String
  | [] => []
  | v :: rest => textAt width depth v :: itemTextsAt width depth rest

/-- The texts of the entries at a depth. -/
def entryTextsAt (width depth : Nat) : List (String × Value) → List String
  | [] => []
  | (k, v) :: rest =>
      (Json.stringText k ++ ": " ++ textAt width depth v) :: entryTextsAt width depth rest

end

/-- **The JSON text of a value over several lines**, indented by `width` spaces a level. -/
def indentedText (width : Nat) (v : Value) : String := textAt width 0 v

end Value

end Schemata
