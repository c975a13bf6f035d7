/-
**Schema expressions.**

An expression says how a schema is built: by a constructor, by an effect, a refinement or a copy of
another schema, by going to a schema below another one, or by naming a variable.  Each occurrence
of an expression builds a node of its own; only variables stand for the same node more than once.

Main definitions:

* `Schemata.Expression` — expressions;
* `Schemata.HandlerExpression`, `Schemata.FunctionExpression` — the functions in them, which may run
  schemas that are expressions themselves.
-/

import Schemata.Refinement
import Schemata.Session.Functions

set_option relaxedAutoImplicit false
set_option autoImplicit false

namespace Schemata

/-- Kinds without parts. -/
inductive Leaf where
  | never
  | unknown
  | unit
  | string
  | bool
  | int
  | float
  | json
deriving DecidableEq

/-- The kind of a leaf. -/
def Leaf.kind : Leaf → Kind
  | .never => .never
  | .unknown => .unknown
  | .unit => .unit
  | .string => .string
  | .bool => .bool
  | .int => .int
  | .float => .float
  | .json => .json

/-- Kinds with one schema below. -/
inductive Wrapper where
  | array
  | dict
  | option
  | null
  | nullable
  | jsonString
deriving DecidableEq

/-- The kind of a wrapper around a schema. -/
def Wrapper.kind : Wrapper → Schema → Kind
  | .array => .array
  | .dict => .dict
  | .option => .option
  | .null => .null
  | .nullable => .nullable
  | .jsonString => .jsonString

/-- Ways to copy a schema. -/
inductive Copy where
  | strict
  | strip
  | setName (name : String)
  | describe (text : String)
  | setDeprecation (text : String)
  | setMetadata (key : String) (value : Value)

/-- The copy of a schema. -/
def Copy.apply (s : Schema) : Copy → Run Schema
  | .strict => s.withPolicy .strict
  | .strip => s.withPolicy .strip
  | .setName name => s.setName name
  | .describe text => s.describe text
  | .setDeprecation text => s.setDeprecation text
  | .setMetadata key v => s.setMetadata key v

/-- How a mistake in a definition is met. -/
inductive OnMistake where
  /-- It is the outcome. -/
  | report
  /-- It ends the computation. -/
  | raise
deriving DecidableEq

mutual

/-- How a schema is built. -/
inductive Expression where
  | leaf (kind : Leaf)
  | literal (value : Literal)
  | wrapped (wrapper : Wrapper) (inner : Expression)
  | object (mode : OnMistake) (fields : List (String × Expression))
  | tuple (items : List Expression)
  | union (mode : OnMistake) (members : List Expression)
  | shapeOf (value : Value)
  | custom (name : String) (handlers : List HandlerExpression)
  | variant (external internal : Literal)
  | asVariant (base : Expression) (internal : Literal)
  | variable (name : String)
  /-- The schema, which also becomes a variable. -/
  | save (name : String) (inner : Expression)
  /-- The schema, compiled in both directions while it is built. -/
  | compiled (inner : Expression)
  /-- The schema, asked while it is built whether it waits. -/
  | probed (inner : Expression)
  /-- A schema in which a name stands for the schema itself. -/
  | recursive (name : String) (inner : Expression)
  | child (parent : Expression) (position : Nat)
  | field (parent : Expression) (name : String)
  /-- The schema that a placeholder stands for. -/
  | target (placeholder : Expression)
  | copy (how : Copy) (inner : Expression)
  | transform (base : Expression) (handlers : List HandlerExpression)
  | preprocess (base : Expression) (handlers : List HandlerExpression)
  | refine (base : Expression) (message : String) (check : Check)
  | recover (base : Expression) (fallback : Fallback)
  | getOr (base : Expression) (supply : Supply)
  | constrain (base : Expression) (constraint : Constraint)
  | timestamp (base : Expression)
  | trim (base : Expression)

/-- One of a pair of handlers. -/
inductive HandlerExpression where
  | parser (f : FunctionExpression)
  | asyncParser (f : FunctionExpression) (waits : Nat) (announce : Option String)
  | serializer (f : FunctionExpression)

/-- A function. -/
inductive FunctionExpression where
  | action (a : Action)
  | andThen (first second : FunctionExpression)
  | choose (test : Test) (yes no : FunctionExpression)
  | parseWith (s : Expression)
  | serializeWith (s : Expression)

end

end Schemata
