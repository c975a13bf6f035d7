/-
**Passing over JSON values without reading them.**

A value that nobody asks for is still checked for its form.  The check is a little coarser than
reading: numbers may have any size, escapes may stand for half of a pair, nesting has no limit, a
comma in front of a closing bracket is told as a missing value or key, and a control character is
told at the place in front of it.

Main definitions:

* `Schemata.Json.skipValue` — passing over a value.
-/

import Schemata.Json.Reader

set_option relaxedAutoImplicit false
set_option autoImplicit false

namespace Schemata

namespace Json

/-- Move over digits. -/
def skipDigits (limit : Nat) : Reader Nat := do return (← readDigits limit 0 0).2

/-- Pass over an exponent, from its letter on. -/
def skipExponent (limit : Nat) : Reader Unit := do
  skip
  match ← peek with
  | some '+' => skip
  | some '-' => skip
  | _ => pure ()
  match ← peek with
  | none => failHere .invalidNumber
  | some c =>
      if c.isDigit then
        let _ ← skipDigits limit
        pure ()
      else failAfterByte .invalidNumber

/-- Pass over what follows the digits in front of the point. -/
def skipFraction (limit : Nat) : Reader Unit := do
  match ← peek with
  | some '.' =>
      skip
      if (← skipDigits limit) = 0 then failNext .invalidNumber
      else
        match ← peek with
        | some 'e' => skipExponent limit
        | some 'E' => skipExponent limit
        | _ => pure ()
  | some 'e' => skipExponent limit
  | some 'E' => skipExponent limit
  | _ => pure ()

/-- Pass over a number, the sign being consumed already. -/
def skipNumber (limit : Nat) : Reader Unit := do
  match ← peek with
  | none => failHere .invalidNumber
  | some '0' =>
      skip
      match ← peek with
      | some c => if c.isDigit then failNext .invalidNumber else skipFraction limit
      | none => pure ()
  | some c =>
      if c.isDigit then
        let _ ← skipDigits limit
        skipFraction limit
      else failAfterByte .invalidNumber

/-- Pass over the characters up to the closing quote. -/
def skipCharacters (limit : Nat) : Reader Unit :=
  match limit with
  | 0 => failHere .endInString
  | limit + 1 => do
      match ← peek with
      | none => failHere .endInString
      | some '"' => skip
      | some '\\' =>
          skip
          match ← peek with
          | none => failHere .endInString
          | some 'u' =>
              skip
              let _ ← readHex
              skipCharacters limit
          | some c =>
              if "\"\\/bfnrt".toList.contains c then
                skip
                skipCharacters limit
              else failAfterByte .invalidEscape
      | some c =>
          if c.toNat < 32 then failHere .controlCharacter
          else
            skip
            skipCharacters limit

/-- The key of an entry and its colon. -/
def skipKey (limit : Nat) : Reader Unit := do
  match ← peekToken with
  | none => failNext .endInObject
  | some '"' =>
      skip
      skipCharacters limit
      readColon
  | some _ => failNext .keyMustBeString

mutual

/-- **Pass over a value.** -/
def skipValue (limit : Nat) (fuel : Nat) : Reader Unit :=
  match fuel with
  | 0 => failHere .endInValue
  | fuel + 1 => do
      match ← peekToken with
      | none => failNext .endInValue
      | some 'n' => skip; readWord "ull".toList
      | some 't' => skip; readWord "rue".toList
      | some 'f' => skip; readWord "alse".toList
      | some '"' => skip; skipCharacters limit
      | some '-' => skip; skipNumber limit
      | some '[' =>
          skip
          match ← peekToken with
          | none => failNext .endInList
          | some ']' => skip
          | some _ => skipItems limit fuel
      | some c =>
          if c = '\x7b' then
            skip
            match ← peekToken with
            | none => failNext .endInObject
            | some d => if d = '\x7d' then skip else skipEntries limit fuel
          else if c.isDigit then skipNumber limit
          else failNext .expectedValue

/-- Pass over items, up to the closing bracket. -/
def skipItems (limit : Nat) (fuel : Nat) : Reader Unit :=
  match fuel with
  | 0 => failHere .endInValue
  | fuel + 1 => do
      skipValue limit fuel
      match ← peekToken with
      | none => failNext .endInList
      | some ']' => skip
      | some ',' => skip; skipItems limit fuel
      | some _ => failNext .expectedListEnd

/-- Pass over entries, up to the closing brace. -/
def skipEntries (limit : Nat) (fuel : Nat) : Reader Unit :=
  match fuel with
  | 0 => failHere .endInValue
  | fuel + 1 => do
      skipKey limit
      skipValue limit fuel
      match ← peekToken with
      | none => failNext .endInObject
      | some c =>
          if c = '\x7d' then skip
          else if c = ',' then
            skip
            skipEntries limit fuel
          else failNext .expectedObjectEnd

end

end Json

end Schemata
