/-
**Reading JSON text.**

The reader takes one value from the front of a text.  A number without point and exponent is an
integer when it fits 64 bits, and otherwise the nearest binary64 number; `-0` is the floating-point
zero with a sign.  For a repeated key of an object the last value wins and the first place stays.
Nesting is limited: opening bracket number `depth` is refused.

Main definitions:

* `Schemata.Json.readNumber`, `Schemata.Json.readString` — the scalars;
* `Schemata.Json.readValue` — a value of any kind;
* `Schemata.Json.readDocument` — a whole text that holds one value and nothing else.
-/

import Schemata.Json.Cursor
import Schemata.Value

set_option relaxedAutoImplicit false
set_option autoImplicit false

namespace Schemata

namespace Json

/-! ### Words -/

/-- The rest of one of the words `null`, `true` and `false`. -/
def readWord : List Char → Reader Unit
  | [] => pure ()
  | expected :: more => do
      match ← peek with
      | none => failHere .endInValue
      | some c =>
          if c = expected then
            skip
            readWord more
          else failAfterByte .expectedIdent

/-! ### Numbers -/

/-- The value of a digit. -/
def digitValue (c : Char) : Nat := c.toNat - '0'.toNat

/-- Digits up to the first other character: their value after `acc`, and their number. -/
def readDigits (limit : Nat) (acc count : Nat) : Reader (Nat × Nat) :=
  match limit with
  | 0 => pure (acc, count)
  | limit + 1 => do
      match ← peek with
      | some c =>
          if c.isDigit then
            skip
            readDigits limit (acc * 10 + digitValue c) (count + 1)
          else pure (acc, count)
      | none => pure (acc, count)

/-- The digits of an exponent after `acc`.  An exponent of 2 ^ 31 or more is too large for any
digits other than zeros, and too small with a minus sign; `none` stands for a number that became
zero. -/
def readExponentDigits (limit : Nat) (vanishes : Bool) (acc : Nat) : Reader (Option Nat) :=
  match limit with
  | 0 => pure (some acc)
  | limit + 1 => do
      match ← peek with
      | some c =>
          if c.isDigit then
            skip
            let next := acc * 10 + digitValue c
            if 0x80000000 ≤ next then
              if vanishes then
                let _ ← readDigits limit 0 0
                pure none
              else failHere .numberOutOfRange
            else readExponentDigits limit vanishes next
          else pure (some acc)
      | none => pure (some acc)

/-- The number that digits, a shift of the point and an exponent stand for. -/
def finishFloat (negative : Bool) (digits : Nat) (exponent : Int) : Reader Number :=
  let x := Binary64.ofDecimal negative digits exponent
  if x.isFinite then pure (.float x) else failHere .numberOutOfRange

/-- The exponent after its letter. -/
def readExponent (limit : Nat) (negative : Bool) (digits : Nat) (shift : Nat) : Reader Number := do
  skip
  let down ← (do
    match ← peek with
    | some '+' => skip; pure false
    | some '-' => skip; pure true
    | _ => pure false)
  match ← peek with
  | none => failHere .endInValue
  | some c =>
      if c.isDigit then
        match ← readExponentDigits limit (down || digits == 0) 0 with
        | none => pure (.float (.finite negative 0))
        | some e =>
            finishFloat negative digits ((if down then -(e : Int) else (e : Int)) - (shift : Int))
      else failAfterByte .invalidNumber

/-- What follows the digits in front of the point. -/
def readFraction (limit : Nat) (negative : Bool) (whole : Nat) : Reader Number := do
  match ← peek with
  | some '.' =>
      skip
      let (digits, count) ← readDigits limit whole 0
      if count = 0 then
        match ← peek with
        | some _ => failNext .invalidNumber
        | none => failNext .endInValue
      else
        match ← peek with
        | some 'e' => readExponent limit negative digits count
        | some 'E' => readExponent limit negative digits count
        | _ => finishFloat negative digits (-(count : Int))
  | some 'e' => readExponent limit negative whole 0
  | some 'E' => readExponent limit negative whole 0
  | _ =>
      if negative then
        if whole = 0 ∨ 0x8000000000000000 < whole then finishFloat true whole 0
        else pure (.int (-(whole : Int)))
      else if whole < 0x10000000000000000 then pure (.int whole)
      else finishFloat false whole 0

/-- **A number**, the sign being consumed already. -/
def readNumber (limit : Nat) (negative : Bool) : Reader Number := do
  match ← peek with
  | none => failHere .endInValue
  | some '0' =>
      skip
      match ← peek with
      | some c => if c.isDigit then failNext .invalidNumber else readFraction limit negative 0
      | none => readFraction limit negative 0
  | some c =>
      if c.isDigit then
        let (whole, _) ← readDigits limit 0 0
        readFraction limit negative whole
      else failAfterByte .invalidNumber

/-! ### Strings -/

/-- The value of a hexadecimal digit. -/
def hexValue? (c : Char) : Option Nat :=
  if '0' ≤ c ∧ c ≤ '9' then some (c.toNat - '0'.toNat)
  else if 'a' ≤ c ∧ c ≤ 'f' then some (c.toNat - 'a'.toNat + 10)
  else if 'A' ≤ c ∧ c ≤ 'F' then some (c.toNat - 'A'.toNat + 10)
  else none

/-- Fail `bytes` bytes further on, or at the end of the text when fewer are left. -/
def failAfterBytes {α : Type} : List Char → Nat → Nat → Nat → Reader α
  | _, 0, line, column => throw ⟨.invalidEscape, line, column⟩
  | [], _ + 1, line, column => throw ⟨.endInString, line, column⟩
  | c :: rest, bytes + 1, line, column =>
      if c.utf8Size ≤ bytes + 1 then
        let p := positionAfter line column c c.utf8Size
        failAfterBytes rest (bytes + 1 - c.utf8Size) p.1 p.2
      else throw ⟨.invalidEscape, line, column + bytes + 1⟩

/-- Four hexadecimal digits. -/
def readHex : Reader Nat := do
  let c ← get
  match c.rest with
  | a :: b :: d :: e :: _ =>
      match hexValue? a, hexValue? b, hexValue? d, hexValue? e with
      | some w, some x, some y, some z =>
          skip; skip; skip; skip
          return ((w * 16 + x) * 16 + y) * 16 + z
      | _, _, _, _ => failAfterBytes c.rest 4 c.line c.column
  | _ => failAfterBytes c.rest 4 c.line c.column

/-- A character that has to stand in the middle of a pair of surrogates. -/
def expectInPair (expected : Char) : Reader Unit := do
  match ← peek with
  | none => failHere .endInString
  | some c => if c = expected then skip else failAfterByte .unfinishedSurrogate

/-- The character of a `\u` escape, whose letter is consumed already. -/
def readUnicode : Reader Char := do
  let n ← readHex
  if 0xDC00 ≤ n ∧ n ≤ 0xDFFF then failHere .loneSurrogate
  else if 0xD800 ≤ n ∧ n ≤ 0xDBFF then
    expectInPair '\\'
    expectInPair 'u'
    let m ← readHex
    if 0xDC00 ≤ m ∧ m ≤ 0xDFFF then
      return Char.ofNat (0x10000 + (n - 0xD800) * 0x400 + (m - 0xDC00))
    else failHere .loneSurrogate
  else return Char.ofNat n

/-- The character of an escape, whose backslash is consumed already. -/
def readEscape : Reader Char := do
  match ← peek with
  | none => failHere .endInString
  | some '"' => skip; return '"'
  | some '\\' => skip; return '\\'
  | some '/' => skip; return '/'
  | some 'b' => skip; return Char.ofNat 8
  | some 'f' => skip; return Char.ofNat 12
  | some 'n' => skip; return '\n'
  | some 'r' => skip; return '\r'
  | some 't' => skip; return '\t'
  | some 'u' => skip; readUnicode
  | some _ => failAfterByte .invalidEscape

/-- The characters up to the closing quote, after `acc` in reverse. -/
def readCharacters (limit : Nat) (acc : List Char) : Reader String :=
  match limit with
  | 0 => failHere .endInString
  | limit + 1 => do
      match ← peek with
      | none => failHere .endInString
      | some '"' => skip; return String.ofList acc.reverse
      | some '\\' =>
          skip
          let c ← readEscape
          readCharacters limit (c :: acc)
      | some c =>
          if c.toNat < 32 then failAfterByte .controlCharacter
          else
            skip
            readCharacters limit (c :: acc)

/-- **A string**, its opening quote included. -/
def readString (limit : Nat) : Reader String := do
  skip
  readCharacters limit []

/-! ### Composites -/

/-- Whether another item follows.  `first` tells that none has been read. -/
def anotherItem (first : Bool) : Reader Bool := do
  match ← peekToken with
  | none => failNext .endInList
  | some ']' => pure false
  | some c =>
      if first then pure true
      else if c = ',' then
        skip
        match ← peekToken with
        | some ']' => failNext .trailingComma
        | some _ => pure true
        | none => failNext .endInValue
      else failNext .expectedListEnd

/-- Whether another key follows.  `first` tells that none has been read. -/
def anotherKey (first : Bool) : Reader Bool := do
  match ← peekToken with
  | none => failNext .endInObject
  | some c =>
      if c = '\x7d' then pure false
      else if first then
        if c = '"' then pure true else failNext .keyMustBeString
      else if c = ',' then
        skip
        match ← peekToken with
        | some d =>
            if d = '"' then pure true
            else if d = '\x7d' then failNext .trailingComma
            else failNext .keyMustBeString
        | none => failNext .endInValue
      else failNext .expectedObjectEnd

/-- The colon between a key and its value. -/
def readColon : Reader Unit := do
  match ← peekToken with
  | some ':' => skip
  | some _ => failNext .expectedColon
  | none => failNext .endInObject

/-- The depth left inside one more bracket. -/
def enter (depth : Nat) : Reader Nat :=
  if depth ≤ 1 then failNext .tooDeep else do
    skip
    return depth - 1

mutual

/-- **A value of any kind.**  `limit` bounds the characters left, `depth` the brackets. -/
def readValue (limit : Nat) (fuel : Nat) (depth : Nat) : Reader Value :=
  match fuel with
  | 0 => failHere .endInValue
  | fuel + 1 => do
      match ← peekToken with
      | none => failNext .endInValue
      | some 'n' => skip; readWord "ull".toList; return .null
      | some 't' => skip; readWord "rue".toList; return .bool true
      | some 'f' => skip; readWord "alse".toList; return .bool false
      | some '"' => return .string (← readString limit)
      | some '-' => skip; return .number (← readNumber limit true)
      | some '[' =>
          let inner ← enter depth
          let items ← readItems limit fuel inner []
          return .array items
      | some c =>
          if c = '\x7b' then
            let inner ← enter depth
            let entries ← readEntries limit fuel inner true []
            return .object (Entries.ofList entries)
          else if c.isDigit then return .number (← readNumber limit false)
          else failNext .expectedValue

/-- The items up to the closing bracket, after `acc` in reverse. -/
def readItems (limit : Nat) (fuel : Nat) (depth : Nat) (acc : List Value) : Reader (List Value) :=
  match fuel with
  | 0 => failHere .endInValue
  | fuel + 1 => do
      if ← anotherItem acc.isEmpty then
        let v ← readValue limit fuel depth
        readItems limit fuel depth (v :: acc)
      else
        skip
        return acc.reverse

/-- The entries up to the closing brace, after `acc` in reverse. -/
def readEntries (limit : Nat) (fuel : Nat) (depth : Nat) (first : Bool)
    (acc : List (String × Value)) : Reader (List (String × Value)) :=
  match fuel with
  | 0 => failHere .endInValue
  | fuel + 1 => do
      if ← anotherKey first then
        let key ← readString limit
        readColon
        let v ← readValue limit fuel depth
        readEntries limit fuel depth false ((key, v) :: acc)
      else
        skip
        return acc.reverse

end

/-! ### Documents -/

/-- The nesting that documents may have: the 128th open bracket is refused. -/
def documentDepth : Nat := 128

/-- The value at the front of a text. -/
def readFront (depth : Nat) (text : String) : Except ReadError (Value × Cursor) :=
  (readValue (text.length + 1) (2 * text.length + 2) depth).run (Cursor.start text)

/-- Nothing but white space is left. -/
def readEnd : Reader Unit := do
  match ← peekToken with
  | none => pure ()
  | some _ => failNext .trailingCharacters

/-- **The value of a text that holds nothing else**, nested less than `depth` brackets deep. -/
def readDocument (depth : Nat) (text : String) : Except ReadError Value := do
  let (v, c) ← readFront depth text
  let (_, _) ← readEnd.run c
  return v

end Json

end Schemata
