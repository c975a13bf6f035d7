/-
**A cursor over JSON text, and what can be wrong there.**

A cursor holds the text that is left and the line and column reached so far.  Columns count bytes
from the last line break.  A fault is reported at one of two positions: *here*, after everything
consumed, or at the *next* byte, which has been looked at but not consumed.

Main definitions:

* `Schemata.Json.Fault`, `Schemata.Json.Fault.message` — what is wrong, and how it is said;
* `Schemata.Json.ReadError` — a fault with its position;
* `Schemata.Json.Cursor`, `Schemata.Json.Reader` — the cursor, and functions that move it;
* `Schemata.Json.failHere`, `Schemata.Json.failNext` — failing at one of the two positions.
-/

set_option relaxedAutoImplicit false
set_option autoImplicit false

namespace Schemata

namespace Json

/-- What is wrong with a JSON text. -/
inductive Fault where
  | endInValue
  | endInList
  | endInObject
  | endInString
  | expectedValue
  | expectedIdent
  | expectedColon
  | expectedListEnd
  | expectedObjectEnd
  | trailingComma
  | trailingCharacters
  | keyMustBeString
  | invalidNumber
  | numberOutOfRange
  | invalidEscape
  | controlCharacter
  | loneSurrogate
  | unfinishedSurrogate
  | tooDeep
  /-- A value of the wrong shape, told in full. -/
  | mismatch (text : String)
deriving DecidableEq

/-- How a fault is said. -/
def Fault.message : Fault → String
  | .endInValue => "EOF while parsing a value"
  | .endInList => "EOF while parsing a list"
  | .endInObject => "EOF while parsing an object"
  | .endInString => "EOF while parsing a string"
  | .expectedValue => "expected value"
  | .expectedIdent => "expected ident"
  | .expectedColon => "expected `:`"
  | .expectedListEnd => "expected `,` or `]`"
  | .expectedObjectEnd => "expected `,` or `\x7d`"
  | .trailingComma => "trailing comma"
  | .trailingCharacters => "trailing characters"
  | .keyMustBeString => "key must be a string"
  | .invalidNumber => "invalid number"
  | .numberOutOfRange => "number out of range"
  | .invalidEscape => "invalid escape"
  | .controlCharacter => "control character (\\u0000-\\u001F) found while parsing a string"
  | .loneSurrogate => "lone leading surrogate in hex escape"
  | .unfinishedSurrogate => "unexpected end of hex escape"
  | .tooDeep => "recursion limit exceeded"
  | .mismatch text => text

/-- A fault at a line and a column. -/
structure ReadError where
  fault : Fault
  line : Nat
  column : Nat
deriving DecidableEq

/-- The fault and where it is. -/
def ReadError.message (e : ReadError) : String :=
  e.fault.message ++ " at line " ++ toString e.line ++ " column " ++ toString e.column

/-- The text that is left, and the position reached. -/
structure Cursor where
  rest : List Char
  line : Nat
  column : Nat

/-- The cursor at the start of a text. -/
def Cursor.start (text : String) : Cursor := ⟨text.toList, 1, 0⟩

/-- The position after `size` bytes that begin with `c`. -/
def positionAfter (line column : Nat) (c : Char) (size : Nat) : Nat × Nat :=
  if c = '\n' then (line + 1, 0) else (line, column + size)

/-- Functions that read from a cursor and move it. -/
abbrev Reader := StateT Cursor (Except ReadError)

/-- Fail at the position reached. -/
def failHere {α : Type} (fault : Fault) : Reader α := do
  let c ← get
  throw ⟨fault, c.line, c.column⟩

/-- The position of the next byte: one byte further, if there is one. -/
def Cursor.next (c : Cursor) : Nat × Nat :=
  match c.rest with
  | [] => (c.line, c.column)
  | d :: _ => positionAfter c.line c.column d 1

/-- Fail at the next byte. -/
def failNext {α : Type} (fault : Fault) : Reader α := do
  let p := (← get).next
  throw ⟨fault, p.1, p.2⟩

/-- The next character, left in place. -/
def peek : Reader (Option Char) := do return (← get).rest.head?

/-- Move over the next character. -/
def skip : Reader Unit :=
  modify fun c =>
    match c.rest with
    | [] => c
    | d :: rest =>
        let p := positionAfter c.line c.column d d.utf8Size
        ⟨rest, p.1, p.2⟩

/-- Move over the next character and give it. -/
def take : Reader (Option Char) := do
  let c ← peek
  skip
  return c

/-- Move over the first byte of the next character and fail there. -/
def failAfterByte {α : Type} (fault : Fault) : Reader α := failNext fault

/-- Whether a character is white space between tokens. -/
def isSpace (c : Char) : Bool := c = ' ' || c = '\n' || c = '\t' || c = '\r'

/-- The cursor after the white space in front of it. -/
def skipSpaces : List Char → Nat → Nat → Cursor
  | [], line, column => ⟨[], line, column⟩
  | c :: rest, line, column =>
      if isSpace c then
        let p := positionAfter line column c 1
        skipSpaces rest p.1 p.2
      else ⟨c :: rest, line, column⟩

/-- Move over white space. -/
def spaces : Reader Unit := modify fun c => skipSpaces c.rest c.line c.column

/-- Move over white space and look at the character after it. -/
def peekToken : Reader (Option Char) := do
  spaces
  peek

end Json

end Schemata
