/-
**Names of schemas.**

The structural name of a schema is derived from its shape alone, such as `Array(Int)` or
`{id: String, tags: Option(Array(String))}`.  Errors use it, so metadata never changes it.

Main definitions:

* `Schemata.Schema.structuralName` — the name of the shape;
* `Schemata.Schema.name` — the name that was set, or else the structural one;
* `Schemata.Kind.expectedName` — the name that errors give, worked out when one needs it.
-/

import Schemata.Schema

set_option relaxedAutoImplicit false
set_option autoImplicit false

namespace Schemata

mutual

/-- **The name of a schema's shape.** -/
def Schema.structuralName : Schema → String
  | .node _ kind _ _ => kind.structuralName

/-- The name of a kind. -/
def Kind.structuralName : Kind → String
  | .never => "Never"
  | .unknown => "Unknown"
  | .unit => "Unit"
  | .string => "String"
  | .bool => "Bool"
  | .int => "Int"
  | .float => "Float"
  | .json => "JSON"
  | .literal l => l.text
  | .array s => "Array(" ++ s.structuralName ++ ")"
  | .dict s => "Dict(" ++ s.structuralName ++ ")"
  | .object fields _ => "\x7b" ++ ", ".intercalate (fieldNames fields) ++ "\x7d"
  | .tuple items => "Tuple(" ++ ", ".intercalate (schemaNames items) ++ ")"
  | .option s => "Option(" ++ s.structuralName ++ ")"
  | .null s => "Null(" ++ s.structuralName ++ ")"
  | .nullable s => "Nullable(" ++ s.structuralName ++ ")"
  | .union members => " | ".intercalate (schemaNames members)
  | .jsonString s => "JsonString(" ++ s.structuralName ++ ")"
  | .custom name _ => name
  | .transformed base _ => base.structuralName
  | .recursive _ => "Self"

/-- The fields with the names of their schemas. -/
def fieldNames : List (String × Schema) → List String
  | [] => []
  | (name, s) :: rest => (name ++ ": " ++ s.structuralName) :: fieldNames rest

/-- The names of schemas. -/
def schemaNames : List Schema → List String
  | [] => []
  | s :: rest => s.structuralName :: schemaNames rest

end

/-- The name that was set, or else the structural one. -/
def Schema.name (s : Schema) : String := s.metadata.name.getD s.structuralName

/-- The name of a kind, worked out when it is needed. -/
def Kind.expectedName (k : Kind) : Thunk String := Thunk.mk fun _ => k.structuralName

end Schemata
