/-
**Reading typed data from values.**

Main definitions:

* `Schemata.Shape.decode` — the value in the form of a shape, or the misfit in it.
-/

import Schemata.Typed.Shape

set_option relaxedAutoImplicit false
set_option autoImplicit false

namespace Schemata

/-- The items of a list, each read by the same function. -/
def decodeItems (item : Value → Except Misfit Value) :
    Nat → List Value → Except Misfit (List Value)
  | _, [] => .ok []
  | i, v :: rest => do
      let a ← insideOf (.index i) (item v)
      return a :: (← decodeItems item (i + 1) rest)

/-- The entries of a map, each read by the same function. -/
def decodeEntries (value : Value → Except Misfit Value) :
    List (String × Value) → Except Misfit (List (String × Value))
  | [] => .ok []
  | (k, v) :: rest => do
      let a ← insideOf (.key k) (value v)
      return (k, a) :: (← decodeEntries value rest)

/-- The known fields among entries, in the order of the entries. -/
def decodeKnown (field : String → Option (Value → Except Misfit Value)) :
    List (String × Value) → Except Misfit (List (String × Value))
  | [] => .ok []
  | (k, v) :: rest =>
      match field k with
      | none => decodeKnown field rest
      | some read => do
          let a ← insideOf (.key k) (read v)
          return (k, a) :: (← decodeKnown field rest)

/-- As many items as there are functions, read in order. -/
def decodeInTurn (expected : String) : Nat → List (Value → Except Misfit Value) → List Value →
    Except Misfit (List Value)
  | _, [], _ => .ok []
  | i, _ :: _, [] => .error (.here (wrongLength i expected))
  | i, item :: items, v :: rest => do
      let a ← insideOf (.index i) (item v)
      return a :: (← decodeInTurn expected (i + 1) items rest)

/-- As many items as there are functions, and no more. -/
def decodeExactly (expected : String) (items : List (Value → Except Misfit Value))
    (values : List Value) : Except Misfit (List Value) := do
  let read ← decodeInTurn expected 0 items values
  if items.length < values.length then
    .error (.here (wrongLength values.length "fewer elements in array"))
  else return read

/-- The name of a single entry or of a string, with what stands under it. -/
def variantOf : Value → Except Misfit (String × Option Value)
  | .string name => .ok (name, none)
  | .object [(name, v)] => .ok (name, some v)
  | .object _ => .error (.here (wrongValue .map "map with a single key"))
  | v => .error (.here (wrongType (.ofValue v) "string or map"))

/-- A variant in its own form: its name alone, or its name over its content. -/
def variantValue (name : String) : Option Value → Value
  | none => .string name
  | some v => .object [(name, v)]

/-- Fields of a list read as the fields of a record; a value stands for one that is missing at the
end. -/
def fillFields (expected : String) : Nat → List (Field × (Value → Except Misfit Value)) →
    List Value → Except Misfit (List (String × Value))
  | _, [], _ => .ok []
  | i, (f, _) :: fields, [] =>
      match f.absence with
      | .value v => do return (f.name, v) :: (← fillFields expected (i + 1) fields [])
      | _ => .error (.here (wrongLength i expected))
  | i, (f, read) :: fields, v :: rest => do
      let a ← insideOf (.index i) (read v)
      return (f.name, a) :: (← fillFields expected (i + 1) fields rest)

/-- The record of a list of fields. -/
def decodeFieldList (expected : String) (fields : List (Field × (Value → Except Misfit Value)))
    (values : List Value) : Except Misfit Value := do
  let read ← fillFields expected 0 fields values
  if fields.length < values.length then
    .error (.here (wrongLength values.length "fewer elements in array"))
  else return .object read

/-- The function that reads the field of a name. -/
def readerOf (fields : List (Field × (Value → Except Misfit Value))) (name : String) :
    Option (Value → Except Misfit Value) :=
  (fields.find? fun f => f.1.name == name).map Prod.snd

/-- The record of entries. -/
def decodeFieldMap (fields : List (Field × (Value → Except Misfit Value)))
    (entries : List (String × Value)) : Except Misfit Value := do
  let found ← decodeKnown (readerOf fields) entries
  return .object (← completeFields found (fields.map Prod.fst))

mutual

/-- **The value in the form of a shape.** -/
def Shape.decode : Shape → Value → Except Misfit Value
  | .int name low high, v =>
      match v with
      | .number (.int i) =>
          if low ≤ i ∧ i ≤ high then .ok (.number (.int i))
          else .error (.here (wrongValue (.number (.int i)) name))
      | v => .error (.here (wrongType (.ofValue v) name))
  | .bool, v =>
      match v with
      | .bool b => .ok (.bool b)
      | v => .error (.here (wrongType (.ofValue v) "a boolean"))
  | .string, v =>
      match v with
      | .string s => .ok (.string s)
      | v => .error (.here (wrongType (.ofValue v) "a string"))
  | .option inner, v =>
      match v with
      | .null => .ok .null
      | v => inner.decode v
  | .list item, v =>
      match v with
      | .array values => do return .array (← decodeItems item.decode 0 values)
      | v => .error (.here (wrongType (.ofValue v) "a sequence"))
  | .tuple items, v =>
      let expected := (Shape.tuple items).expectation
      match v with
      | .array values => do return .array (← decodeExactly expected (decoders items) values)
      | v => .error (.here (wrongType (.ofValue v) expected))
  | .map value, v =>
      match v with
      | .object entries => do return .object (sortedByKey (← decodeEntries value.decode entries))
      | v => .error (.here (wrongType (.ofValue v) "a map"))
  | .record name fields, v =>
      let expected := "struct " ++ name
      match v with
      | .object entries => decodeFieldMap (fieldDecoders fields) entries
      | .array values =>
          decodeFieldList (withElements expected fields.length) (fieldDecoders fields) values
      | v => .error (.here (wrongType (.ofValue v) expected))
  | .choice choice variants, v => do
      let (name, content) ← variantOf v
      match decodeVariant choice name variants content with
      | some r => return variantValue name (← insideOf (.key name) r)
      | none => .error (.here (unknownVariant name (variants.map Prod.fst)))

/-- The content of the variant of a name, if there is such a variant. -/
def decodeVariant (choice name : String) : List (String × Content) → Option Value →
    Option (Except Misfit (Option Value))
  | [], _ => none
  | (variant, content) :: rest, v =>
      if variant = name then some (content.decode choice name v)
      else decodeVariant choice name rest v

/-- What a variant holds; `none` stands for a variant without content. -/
def Content.decode (choice name : String) : Content → Option Value → Except Misfit (Option Value)
  | .nothing, v =>
      match v with
      | none => .ok none
      | some .null => .ok none
      | some v => .error (.here (wrongType (.ofValue v) "unit"))
  | .one shape, v =>
      match v with
      | none => .error (.here (wrongType .bareVariant "newtype variant"))
      | some v => do return some (← shape.decode v)
  | .tuple items, v =>
      let expected := variantExpectation "tuple" choice name
      match v with
      | none => .error (.here (wrongType .bareVariant "tuple variant"))
      | some (.array []) => .error (.here (wrongType .null expected))
      | some (.array values) => do
          let read ← decodeExactly (withElements expected items.length) (decoders items) values
          return some (.array read)
      | some v => .error (.here (wrongType (.ofValue v) "tuple variant"))
  | .record fields, v =>
      match v with
      | none => .error (.here (wrongType .bareVariant "struct variant"))
      | some (.object entries) => do return some (← decodeFieldMap (fieldDecoders fields) entries)
      | some v => .error (.here (wrongType (.ofValue v) "struct variant"))

/-- Shapes as functions. -/
def decoders : List Shape → List (Value → Except Misfit Value)
  | [] => []
  | s :: rest => s.decode :: decoders rest

/-- The shapes of fields as functions. -/
def fieldDecoders : List Field → List (Field × (Value → Except Misfit Value))
  | [] => []
  | .mk name shape absence :: rest => (.mk name shape absence, shape.decode) :: fieldDecoders rest

end

end Schemata
