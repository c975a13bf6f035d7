/-
**Source text of schemas.**

The source text of a schema is the expression that builds it from constructors, with its metadata
as calls at the end: `array(option(string())).describe("tags")`.  A schema around a user function,
and a recursive reference, have no source text.

Main definitions:

* `Schemata.Literal.source` — the source text of a literal;
* `Schemata.Metadata.source` — the calls that attach metadata;
* `Schemata.Schema.source` — the source text of a schema, or what stands in its way.
-/

import Schemata.Schema

set_option relaxedAutoImplicit false
set_option autoImplicit false

namespace Schemata

/-- A value embedded in source text. -/
def Value.source (v : Value) : String := "serde_json::json!(" ++ v.text ++ ")"

/-- A number in source text: integral ones within 32 bits are written as integers. -/
def Binary64.source : Binary64 → String
  | .nan => "f64::NAN"
  | .infinity false => "f64::INFINITY"
  | .infinity true => "f64::NEG_INFINITY"
  | .finite negative units =>
      let x := Binary64.finite negative units
      let i := x.truncate
      if x.isIntegral && decide (-0x80000000 ≤ i ∧ i < 0x80000000) then toString i
      else Layout.source.write x

/-- **The source text of a literal.** -/
def Literal.source : Literal → String
  | .null => "()"
  | .bool b => if b then "true" else "false"
  | .number x => x.source
  | .string s => Text.quoted s
  | .composite v => v.source

/-- A call with one quoted argument, if there is one. -/
def optionalCall (method : String) : Option String → String
  | none => ""
  | some text => "." ++ method ++ "(" ++ Text.quoted text ++ ")"

/-- **The calls that attach metadata.** -/
def Metadata.source (m : Metadata) : String :=
  optionalCall "set_name" m.name ++ optionalCall "describe" m.description ++
    optionalCall "deprecate" m.deprecation ++
    String.join (m.custom.map fun e =>
      ".set_metadata(" ++ Text.quoted e.1 ++ ", " ++ e.2.source ++ ")")

/-- The call that sets the policy of an object. -/
def policySource : Option UnknownKeys → String
  | none => ""
  | some .strict => ".strict()"
  | some .strip => ".strip()"

/-- A constructor around one argument. -/
def call (constructor : String) (argument : Except DefinitionError String) :
    Except DefinitionError String := do
  return constructor ++ "(" ++ (← argument) ++ ")"

mutual

/-- **The source text of a schema.** -/
def Schema.source : Schema → Except DefinitionError String
  | .node _ kind metadata _ => do return (← kind.source) ++ metadata.source

/-- The source text of a kind. -/
def Kind.source : Kind → Except DefinitionError String
  | .never => return "never()"
  | .unknown => return "unknown()"
  | .unit => return "unit()"
  | .string => return "string()"
  | .bool => return "bool()"
  | .int => return "int()"
  | .float => return "float()"
  | .json => return "json()"
  | .literal l => return "literal(" ++ l.source ++ ")"
  | .array s => call "array" s.source
  | .dict s => call "dict" s.source
  | .option s => call "option" s.source
  | .null s => call "null" s.source
  | .nullable s => call "nullable" s.source
  | .jsonString s => call "json_string" s.source
  | .object [] policy => return "object(Vec::<(&str, Schema)>::new())" ++ policySource policy
  | .object (field :: fields) policy => do
      return "object([" ++ ", ".intercalate (← fieldSources (field :: fields)) ++ "])" ++
        policySource policy
  | .tuple items => do return "tuple([" ++ ", ".intercalate (← schemaSources items) ++ "])"
  | .union members => do return "union([" ++ ", ".intercalate (← schemaSources members) ++ "])"
  | .transformed _ (.variant external internal) =>
      return "variant(" ++ external.source ++ ", " ++ internal.source ++ ")"
  | .transformed _ effect => throw (.notInlinable effect.label)
  | .custom name _ => throw (.notInlinable name)
  | .recursive _ => throw (.notInlinable "recursive")

/-- The source texts of fields, each a pair of name and schema. -/
def fieldSources : List (String × Schema) → Except DefinitionError (List String)
  | [] => return []
  | (name, s) :: rest => do
      let field := "(" ++ Text.quoted name ++ ", " ++ (← s.source) ++ ")"
      return field :: (← fieldSources rest)

/-- The source texts of schemas. -/
def schemaSources : List Schema → Except DefinitionError (List String)
  | [] => return []
  | s :: rest => do
      let first ← s.source
      return first :: (← schemaSources rest)

end

end Schemata
