/-
**Quoted text: a string between double quotes, with everything invisible spelled out.**

Keys in locations and messages, and strings in descriptions and source text, are written between
double quotes.  The quote and the backslash are escaped, tab, newline, carriage return and the null
character have short escapes, and any other character without a form of its own is written by its
code in hexadecimal between braces.

Main definitions:

* `Schemata.Text.quotedChar` — how one character is written;
* `Schemata.Text.quoted` — the quoted form of a string.
-/

import Schemata.Text.Unprintable

set_option relaxedAutoImplicit false
set_option autoImplicit false

namespace Schemata

namespace Text

/-- The lower-case hexadecimal digits of a number, without padding. -/
def hexDigits (n : Nat) : List Char := Nat.toDigits 16 n

/-- One character of a quoted string. -/
def quotedChar (c : Char) : List Char :=
  if c = '"' then ['\\', '"']
  else if c = '\\' then ['\\', '\\']
  else if c = '\t' then ['\\', 't']
  else if c = '\n' then ['\\', 'n']
  else if c = '\r' then ['\\', 'r']
  else if c.toNat = 0 then ['\\', '0']
  else if isUnprintable c then '\\' :: 'u' :: '\x7b' :: (hexDigits c.toNat ++ ['\x7d'])
  else [c]

/-- **The quoted form of a string.** -/
def quoted (s : String) : String :=
  String.ofList ('"' :: (s.toList.flatMap quotedChar ++ ['"']))

end Text

end Schemata
