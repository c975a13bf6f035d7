/-
**Descriptions: everything about a schema on one line.**

A description shows the kind of a node with all nodes below it and their metadata.  Functions are
not shown, only which of them there are, and a reference shows whether a schema is bound to it.

Main definitions:

* `Schemata.Value.description`, `Schemata.Literal.description` — values and literals;
* `Schemata.Schema.description` — a schema, given which references are bound.
-/

import Schemata.Schema

set_option relaxedAutoImplicit false
set_option autoImplicit false

namespace Schemata

/-- Parts between braces, or braces alone. -/
def braced (parts : List String) : String := "\x7b" ++ ", ".intercalate parts ++ "\x7d"

/-- A name with labelled parts. -/
def record (name : String) (fields : List (String × String)) : String :=
  name ++ " \x7b " ++ ", ".intercalate (fields.map fun f => f.1 ++ ": " ++ f.2) ++ " \x7d"

/-- A truth value. -/
def boolText (b : Bool) : String := if b then "true" else "false"

/-- An optional part. -/
def optionalText : Option String → String
  | none => "None"
  | some text => "Some(" ++ text ++ ")"

mutual

/-- **The description of a value.** -/
def Value.description : Value → String
  | .null => "Null"
  | .bool b => "Bool(" ++ boolText b ++ ")"
  | .number n => "Number(" ++ n.text ++ ")"
  | .string s => "String(" ++ Text.quoted s ++ ")"
  | .array items => "Array [" ++ ", ".intercalate (itemDescriptions items) ++ "]"
  | .object entries => "Object " ++ braced (entryDescriptions entries)

/-- The descriptions of items. -/
def itemDescriptions : List Value → List String
  | [] => []
  | v :: rest => v.description :: itemDescriptions rest

/-- The descriptions of entries. -/
def entryDescriptions : List (String × Value) → List String
  | [] => []
  | (k, v) :: rest => (Text.quoted k ++ ": " ++ v.description) :: entryDescriptions rest

end

/-- **The description of a literal.** -/
def Literal.description : Literal → String
  | .null => "Null"
  | .bool b => "Bool(" ++ boolText b ++ ")"
  | .number x => "Number(" ++ Layout.source.write x ++ ")"
  | .string s => "String(" ++ Text.quoted s ++ ")"
  | .composite v => "Json(" ++ v.description ++ ")"

/-- The description of metadata. -/
def Metadata.describe (m : Metadata) : String :=
  record "Metadata"
    [("name", optionalText (m.name.map Text.quoted)),
     ("description", optionalText (m.description.map Text.quoted)),
     ("deprecation", optionalText (m.deprecation.map Text.quoted)),
     ("custom", braced (entryDescriptions m.custom))]

/-- The description of a pair of handlers. -/
def Handlers.description (h : Handlers) : String :=
  let parser := match h.parser with
    | none => "none"
    | some (.direct _) => "sync"
    | some (.async _) => "async"
  record "Handlers"
    [("parser", Text.quoted parser), ("serializer", boolText h.serializer.isSome)]

/-- The description of an effect. -/
def Effect.description : Effect → String
  | .transform h => "Transform(" ++ h.description ++ ")"
  | .preprocess h => "Preprocess(" ++ h.description ++ ")"
  | .refine message check =>
      record "Refine" [("message", Text.quoted message), ("async", boolText check.isAsync)]
  | .recover _ => "Catch"
  | .variant external internal =>
      record "Variant" [("external", external.description), ("internal", internal.description)]
  | .getOr _ => "Default"

/-- The description of an object's own policy. -/
def policyDescription : Option UnknownKeys → String
  | none => "None"
  | some .strip => "Some(Strip)"
  | some .strict => "Some(Strict)"

mutual

/-- **The description of a schema.** -/
def Schema.description (bound : Reference → Bool) : Schema → String
  | .node _ kind metadata _ =>
      record "Schema" [("kind", kind.description bound), ("metadata", metadata.describe)]

/-- The description of a kind. -/
def Kind.description (bound : Reference → Bool) : Kind → String
  | .never => "Never"
  | .unknown => "Unknown"
  | .unit => "Unit"
  | .string => "String"
  | .bool => "Bool"
  | .int => "Int"
  | .float => "Float"
  | .json => "Json"
  | .literal l => "Literal(" ++ l.description ++ ")"
  | .array s => "Array(" ++ s.description bound ++ ")"
  | .dict s => "Dict(" ++ s.description bound ++ ")"
  | .object fields policy =>
      "Object(" ++ record "ObjectShape"
        [("fields", braced (fieldDescriptions bound fields)),
         ("unknown_keys", policyDescription policy)] ++ ")"
  | .tuple items => "Tuple([" ++ ", ".intercalate (schemaDescriptions bound items) ++ "])"
  | .option s => "Option(" ++ s.description bound ++ ")"
  | .null s => "Null(" ++ s.description bound ++ ")"
  | .nullable s => "Nullable(" ++ s.description bound ++ ")"
  | .union members => "Union([" ++ ", ".intercalate (schemaDescriptions bound members) ++ "])"
  | .jsonString s => "JsonString(" ++ s.description bound ++ ")"
  | .custom name handlers =>
      "Custom(" ++ record "Custom"
        [("name", Text.quoted name), ("handlers", handlers.description)] ++ ")"
  | .transformed base effect =>
      record "Transformed" [("base", base.description bound), ("effect", effect.description)]
  | .recursive r =>
      "Recursive(RecursiveRef(" ++ (if bound r then "resolved" else "unresolved") ++ "))"

/-- The descriptions of fields. -/
def fieldDescriptions (bound : Reference → Bool) : List (String × Schema) → List String
  | [] => []
  | (name, s) :: rest =>
      (Text.quoted name ++ ": " ++ s.description bound) :: fieldDescriptions bound rest

/-- The descriptions of schemas. -/
def schemaDescriptions (bound : Reference → Bool) : List Schema → List String
  | [] => []
  | s :: rest => s.description bound :: schemaDescriptions bound rest

end

end Schemata
