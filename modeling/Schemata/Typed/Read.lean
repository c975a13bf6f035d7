/-
**Reading typed data from JSON text.**

The text is read from front to back, so the first misfit in the text is the one that is told, with
the line and the column reached when it was found.  A misfit that only shows after a bracket has
been closed is placed behind the bracket.  What follows the value is not looked at.

Main definitions:

* `Schemata.Typed.Whereabouts`, `Schemata.Typed.TextMisfit` — misfits in a text;
* `Schemata.Shape.read` — the value at the cursor in the form of a shape;
* `Schemata.Shape.ofText` — the value at the front of a text;
* `Schemata.Config.ofText` — a configuration document.
-/

import Schemata.Json.Skipping
import Schemata.Schema
import Schemata.Typed.Shape

set_option relaxedAutoImplicit false
set_option autoImplicit false

namespace Schemata

namespace Typed

/-- The position of a misfit. -/
inductive Whereabouts where
  | known (line column : Nat)
  /-- It is known once the list or map around it is closed. -/
  | pending (cursor : Json.Cursor)

/-- A misfit in a text. -/
structure TextMisfit where
  message : String
  place : Whereabouts
  path : List Segment

/-- A misfit in a text as one without position, which is part of its message. -/
def TextMisfit.toMisfit (m : TextMisfit) : Misfit :=
  match m.place with
  | .known line column =>
      ⟨m.message ++ " at line " ++ toString line ++ " column " ++ toString column, m.path⟩
  | .pending _ => ⟨m.message, m.path⟩

/-- Reading typed data. -/
abbrev TypedReader := StateT Json.Cursor (Except TextMisfit)

/-- Reading that knows nothing of shapes. -/
def plain {α : Type} (r : Json.Reader α) : TypedReader α := fun c =>
  match r.run c with
  | .ok a => .ok a
  | .error e => .error ⟨e.fault.message, .known e.line e.column, []⟩

/-- A misfit at the position reached. -/
def misfit {α : Type} (message : String) : TypedReader α := fun c =>
  .error ⟨message, .known c.line c.column, []⟩

/-- A misfit whose position is still open. -/
def unplaced {α : Type} (message : String) : TypedReader α := fun c =>
  .error ⟨message, .pending c, []⟩

/-- A misfit one level further out. -/
def inside {α : Type} (s : Segment) (r : TypedReader α) : TypedReader α := fun c =>
  match r.run c with
  | .ok a => .ok a
  | .error m => .error { m with path := s :: m.path }

/-- The cursor after closing a list, as far as that goes. -/
def afterList : Json.Reader Unit := do
  match ← Json.peekToken with
  | some ']' => Json.skip
  | some ',' => Json.skip; Json.spaces
  | _ => pure ()

/-- The cursor after closing a map, as far as that goes. -/
def afterMap : Json.Reader Unit := do
  match ← Json.peekToken with
  | some c => if c = '\x7d' then Json.skip else pure ()
  | none => pure ()

/-- The position after some reading that cannot fail. -/
def positionAfter (close : Json.Reader Unit) (c : Json.Cursor) : Whereabouts :=
  match close.run c with
  | .ok (_, d) => .known d.line d.column
  | .error e => .known e.line e.column

/-- Place a misfit that waits for its position. -/
def settle {α : Type} (close : Json.Reader Unit) (r : TypedReader α) : TypedReader α := fun c =>
  match r.run c with
  | .ok a => .ok a
  | .error m =>
      match m.place with
      | .pending d => .error { m with place := positionAfter close d }
      | .known _ _ => .error m

/-- Fail because something of another kind stands at the cursor. -/
def mismatch {α : Type} (limit : Nat) (expected : String) : TypedReader α := do
  match ← plain Json.peekToken with
  | none => plain (Json.failNext .endInValue)
  | some 'n' =>
      plain (do Json.skip; Json.readWord "ull".toList)
      misfit (wrongType .null expected)
  | some 't' =>
      plain (do Json.skip; Json.readWord "rue".toList)
      misfit (wrongType (.bool true) expected)
  | some 'f' =>
      plain (do Json.skip; Json.readWord "alse".toList)
      misfit (wrongType (.bool false) expected)
  | some '-' =>
      let n ← plain (do Json.skip; Json.readNumber limit true)
      misfit (wrongType (.number n) expected)
  | some '"' =>
      let s ← plain (Json.readString limit)
      misfit (wrongType (.string s) expected)
  | some '[' => misfit (wrongType .sequence expected)
  | some c =>
      if c = '\x7b' then misfit (wrongType .map expected)
      else if c.isDigit then
        let n ← plain (Json.readNumber limit false)
        misfit (wrongType (.number n) expected)
      else plain (Json.failNext .expectedValue)

/-- An integer of a range. -/
def readInt (limit : Nat) (name : String) (low high : Int) : TypedReader Value := do
  let start ← plain Json.peekToken
  let number : Option Number ←
    match start with
    | some '-' => do
        let n ← plain (do Json.skip; Json.readNumber limit true)
        pure (some n)
    | some c =>
        if c.isDigit then do
          let n ← plain (Json.readNumber limit false)
          pure (some n)
        else pure none
    | none => pure none
  match number with
  | some (.int i) =>
      if low ≤ i ∧ i ≤ high then return .number (.int i)
      else misfit (wrongValue (.number (.int i)) name)
  | some n => misfit (wrongType (.number n) name)
  | none => mismatch limit name

/-- A truth value. -/
def readBool (limit : Nat) : TypedReader Value := do
  match ← plain Json.peekToken with
  | some 't' =>
      plain (do Json.skip; Json.readWord "rue".toList)
      return .bool true
  | some 'f' =>
      plain (do Json.skip; Json.readWord "alse".toList)
      return .bool false
  | _ => mismatch limit "a boolean"

/-- The items up to the closing bracket. -/
def readItems (item : TypedReader Value) : Nat → Nat → TypedReader (List Value)
  | 0, _ => plain (Json.failHere .endInValue)
  | fuel + 1, i => do
      if ← plain (Json.anotherItem (i == 0)) then
        let v ← inside (.index i) item
        return v :: (← readItems item fuel (i + 1))
      else
        plain Json.skip
        return []

/-- The closing bracket after the last item that is wanted. -/
def endList : Json.Reader Unit := do
  match ← Json.peekToken with
  | none => Json.failNext .endInList
  | some ']' => Json.skip
  | some ',' =>
      Json.skip
      match ← Json.peekToken with
      | some ']' => Json.failNext .trailingComma
      | _ => Json.failNext .trailingCharacters
  | some _ => Json.failNext .trailingCharacters

/-- Items read in turn, each with the value that may stand for it at the end. -/
def readInTurn (expected : String) : Nat → List (Option Value × TypedReader Value) →
    TypedReader (List Value)
  | _, [] => do
      plain endList
      return []
  | i, (default, item) :: rest => do
      if ← plain (Json.anotherItem (i == 0)) then
        let v ← inside (.index i) item
        return v :: (← readInTurn expected (i + 1) rest)
      else
        match default with
        | some v => return v :: (← readInTurn expected i rest)
        | none =>
            plain Json.skip
            misfit (wrongLength i expected)

/-- The entries up to the closing brace; each key decides how its value is read. -/
def readEntries (limit : Nat) (value : String → TypedReader Value) : Nat → Bool →
    TypedReader (List (String × Value))
  | 0, _ => plain (Json.failHere .endInValue)
  | fuel + 1, first => do
      if ← plain (Json.anotherKey first) then
        let key ← plain (Json.readString limit)
        plain Json.readColon
        let v ← inside (.key key) (value key)
        return (key, v) :: (← readEntries limit value fuel false)
      else
        plain Json.skip
        return []

/-- The known fields up to the closing brace, after those found before.  Unknown ones are passed
over. -/
def readKnown (limit : Nat) (field : String → Option (TypedReader Value)) : Nat → Bool →
    List (String × Value) → TypedReader (List (String × Value))
  | 0, _, _ => plain (Json.failHere .endInValue)
  | fuel + 1, first, found => do
      if ← plain (Json.anotherKey first) then
        let key ← plain (Json.readString limit)
        match field key with
        | some read =>
            if (Entries.find? key found).isSome then
              plain afterMap
              misfit (duplicateField key)
            else
              plain Json.readColon
              let v ← inside (.key key) read
              readKnown limit field fuel false ((key, v) :: found)
        | none =>
            plain Json.readColon
            inside (.key key) (plain (Json.skipValue limit limit))
            readKnown limit field fuel false found
      else
        plain Json.skip
        return found

/-- The value that may stand for a field at the end of a list. -/
def listDefault (f : Field) : Option Value :=
  match f.absence with
  | .value v => some v
  | _ => none

/-- A record, from a map or from a list of its fields. -/
def readRecord (limit : Nat) (expected : String) (fields : List (Field × TypedReader Value)) :
    TypedReader Value := do
  match ← plain Json.peekToken with
  | some '[' =>
      plain Json.skip
      let items := fields.map fun f => (listDefault f.1, f.2)
      let values ← settle afterList (readInTurn (withElements expected fields.length) 0 items)
      return .object ((fields.map fun f => f.1.name).zip values)
  | some c =>
      if c = '\x7b' then
        plain Json.skip
        let field := fun (name : String) =>
          (fields.find? fun f => f.1.name == name).map Prod.snd
        let found ← settle afterMap (readKnown limit field limit true [])
        match completeFields found (fields.map Prod.fst) with
        | .ok entries => return .object entries
        | .error m => misfit m.message
      else mismatch limit expected
  | none => mismatch limit expected

/-- A list of exactly these items. -/
def readTuple (limit : Nat) (expected length : String) (items : List (TypedReader Value)) :
    TypedReader Value := do
  match ← plain Json.peekToken with
  | some '[' =>
      plain Json.skip
      let values ← settle afterList (readInTurn length 0 (items.map fun r => (none, r)))
      return .array values
  | _ => mismatch limit expected

/-- Null alone. -/
def readNull (limit : Nat) : TypedReader Unit := do
  match ← plain Json.peekToken with
  | some 'n' => plain (do Json.skip; Json.readWord "ull".toList)
  | _ => mismatch limit "unit"

/-- How a variant is read: from its content, and from its name alone. -/
structure VariantReader where
  content : TypedReader (Option Value)
  /-- What a variant that cannot be given by its name alone expects. -/
  needs : Option String

/-- A variant in its own form. -/
def variantForm (name : String) : Option Value → Value
  | none => .string name
  | some v => .object [(name, v)]

/-- The name of a variant, at its opening quote. -/
def readVariantName (limit : Nat) (variants : List (String × VariantReader)) :
    TypedReader (String × VariantReader) := do
  let name ← plain (Json.readString limit)
  match variants.find? fun v => v.1 == name with
  | some v => return v
  | none => misfit (unknownVariant name (variants.map Prod.fst))

/-- The opening quote of the one key of a map. -/
def onlyKey : Json.Reader Unit := do
  match ← Json.peekToken with
  | none => Json.failNext .endInObject
  | some '"' => pure ()
  | some c =>
      if c = '\x7d' then Json.failNext .expectedValue else Json.failNext .keyMustBeString

/-- A choice: the name of a variant, or a map from it to its content. -/
def readChoice (limit : Nat) (variants : List (String × VariantReader)) : TypedReader Value := do
  match ← plain Json.peekToken with
  | none => plain (Json.failNext .endInValue)
  | some '"' =>
      let (name, variant) ← readVariantName limit variants
      match variant.needs with
      | none => return .string name
      | some expected => inside (.key name) (unplaced (wrongType .bareVariant expected))
  | some c =>
      if c = '\x7b' then
        plain Json.skip
        plain onlyKey
        let (name, variant) ← readVariantName limit variants
        plain Json.readColon
        let content ← inside (.key name) variant.content
        match ← plain Json.peekToken with
        | some d =>
            if d = '\x7d' then
              plain Json.skip
              return variantForm name content
            else plain (Json.failHere .expectedValue)
        | none => plain (Json.failHere .endInObject)
      else plain (Json.failNext .expectedValue)

end Typed

open Typed

mutual

/-- **The value at the cursor in the form of a shape.** -/
def Shape.read (limit : Nat) : Shape → TypedReader Value
  | .int name low high => readInt limit name low high
  | .bool => readBool limit
  | .string => do
      match ← plain Json.peekToken with
      | some '"' => return .string (← plain (Json.readString limit))
      | _ => mismatch limit "a string"
  | .option inner => do
      match ← plain Json.peekToken with
      | some 'n' =>
          plain (do Json.skip; Json.readWord "ull".toList)
          return .null
      | _ => inner.read limit
  | .list item => do
      match ← plain Json.peekToken with
      | some '[' =>
          plain Json.skip
          return .array (← settle afterList (Typed.readItems (item.read limit) limit 0))
      | _ => mismatch limit "a sequence"
  | .tuple items =>
      let expected := (Shape.tuple items).expectation
      readTuple limit expected expected (typedReaders limit items)
  | .map value => do
      match ← plain Json.peekToken with
      | some c =>
          if c = '\x7b' then
            plain Json.skip
            let value := value.read limit
            let entries ← settle afterMap (Typed.readEntries limit (fun _ => value) limit true)
            return .object (sortedByKey (Entries.ofList entries))
          else mismatch limit "a map"
      | none => mismatch limit "a map"
  | .record name fields => readRecord limit ("struct " ++ name) (fieldReaders limit fields)
  | .choice choice variants => readChoice limit (variantReaders limit choice variants)

/-- What a variant holds. -/
def Content.read (limit : Nat) (choice name : String) : Content → VariantReader
  | .nothing =>
      { content := do
          readNull limit
          return none
        needs := none }
  | .one shape => { content := some <$> shape.read limit, needs := some "newtype variant" }
  | .tuple items =>
      let expected := variantExpectation "tuple" choice name
      { content :=
          some <$> readTuple limit expected (withElements expected items.length)
            (typedReaders limit items)
        needs := some "tuple variant" }
  | .record fields =>
      { content :=
          some <$> readRecord limit (variantExpectation "struct" choice name)
            (fieldReaders limit fields)
        needs := some "struct variant" }

/-- Shapes as functions. -/
def typedReaders (limit : Nat) : List Shape → List (TypedReader Value)
  | [] => []
  | s :: rest => s.read limit :: typedReaders limit rest

/-- The shapes of fields as functions. -/
def fieldReaders (limit : Nat) : List Field → List (Field × TypedReader Value)
  | [] => []
  | .mk name shape absence :: rest =>
      (.mk name shape absence, shape.read limit) :: fieldReaders limit rest

/-- The variants of a choice as functions. -/
def variantReaders (limit : Nat) (choice : String) :
    List (String × Content) → List (String × VariantReader)
  | [] => []
  | (name, content) :: rest =>
      (name, content.read limit choice name) :: variantReaders limit choice rest

end

/-- **The value at the front of a text in the form of a shape.** -/
def Shape.ofText (s : Shape) (text : String) : Except Misfit Value :=
  match (s.read (2 * text.length + 2)).run (Json.Cursor.start text) with
  | .ok (v, _) => .ok v
  | .error m => .error m.toMisfit

/-- The shape of configuration documents. -/
def Config.shape : Shape :=
  .record "Config"
    [.mk "unknownKeys" (.choice "UnknownKeys" [("strip", .nothing), ("strict", .nothing)])
      (.value (.string Config.default.unknownKeys.text))]

/-- The configuration of a value in its shape. -/
def Config.ofShaped (v : Value) : Config :=
  match v with
  | .object [(_, .string text)] => if text = UnknownKeys.strict.text then ⟨.strict⟩ else ⟨.strip⟩
  | _ => Config.default

/-- **The configuration of a document**; what follows the document is not looked at. -/
def Config.ofText (text : String) : Except Error Config :=
  match Config.shape.ofText text with
  | .ok v => .ok (Config.ofShaped v)
  | .error m => .error (m.toError .parsing)

end Schemata
