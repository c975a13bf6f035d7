/-
**Running operations that give their result at once.**

Main definitions:

* `Schemata.decodeDocument` — the value of a document inside a string;
* `Schemata.Operation.run` — the result of an operation on a value.
-/

import Schemata.Execution.Machine
import Schemata.Json.Reader

set_option relaxedAutoImplicit false
set_option autoImplicit false

namespace Schemata

/-- The value of a text, or the error of reading it. -/
def readText (text : String) : Result :=
  match Json.readDocument Json.documentDepth text with
  | .ok v => .ok v
  | .error e => .error (Error.atRoot (.operationFailed e.message) .parsing)

/-- The value of a document inside a string. -/
def decodeDocument (expected : Thunk String) : Value → Result
  | .string text => readText text
  | v => .error (Error.invalidType .parsing expected.get v)

/-- The error for a value that is not the constant. -/
def literalError (direction : Direction) (expected : Literal) (received : Value) : Error :=
  Error.atRoot (.invalidLiteral expected received) direction

/-- The result of a composite, made of the results of its children. -/
def collect (build : List Value → Value) : Except Error (List Value) → Result
  | .ok values => .ok (build values)
  | .error e => .error e

mutual

/-- **The result of an operation on a value.** -/
def Operation.run (m : Machine) : Operation → Runner
  | .noop, v => return .ok v
  | .fail e, _ => return .error e
  | .scalar kind direction expected, v =>
      match kind.read? v with
      | some a => return .ok a
      | none => return .error (Error.invalidType direction expected.get v)
  | .literal direction l, v =>
      if l.accepts v then return .ok v else return .error (literalError direction l v)
  | .array direction expected item, v =>
      match v with
      | .array items => do
          return collect .array (← runEach (indexed (items.map (item.run m))))
      | v => return .error (Error.invalidType direction expected.get v)
  | .dict direction expected value, v =>
      match v with
      | .object entries => do
          let results ← runEach (keyed (entries.map fun e => (e.1, value.run m e.2)))
          return collect (fun values => .object ((Entries.keys entries).zip values)) results
      | v => return .error (Error.invalidType direction expected.get v)
  | .tuple direction expected items, v =>
      match v with
      | .array values =>
          match sizeError? direction items.length values.length with
          | some e => return .error e
          | none => do
              let children := (runners m items).zipWith (fun run v => run v) values
              return collect .array (← runEach (indexed children))
      | v => return .error (Error.invalidType direction expected.get v)
  | .parseObject expected fields policy, v =>
      match v with
      | .object entries => do
          match ← runFields (fieldRunners m fields) entries with
          | .error e => return .error e
          | .ok (values, left) =>
              match excessError? policy left with
              | some e => return .error e
              | none => return .ok (.object values)
      | v => return .error (Error.invalidType .parsing expected.get v)
  | .serializeObject expected fields omitted, v =>
      match v with
      | .object entries => do
          match ← runPresentFields omitted (fieldRunners m fields) entries with
          | .error e => return .error e
          | .ok values => return .ok (.object values)
      | v => return .error (Error.invalidType .serializing expected.get v)
  | .unlessNull inner, v =>
      match v with
      | .null => return .ok .null
      | v => inner.run m v
  | .parseUnion members tags, v => parseMembers tags (runners m members) v
  | .serializeUnion members tags, v => serializeMembers tags (runners m members) v
  | .decodeText expected inner, v =>
      match decodeDocument expected v with
      | .error e => return .error e
      | .ok a => inner.run m a
  | .encodeText inner, v => do
      match ← inner.run m v with
      | .error e => return .error e
      | .ok a => return .ok (.string a.text)
  | .apply direction f, v => f.runAs m direction v
  | .thenApply direction base f, v => do
      match ← base.run m v with
      | .error e => return .error e
      | .ok a => f.runAs m direction a
  | .applyFirst direction f base, v => do
      match ← f.runAs m direction v with
      | .error e => return .error e
      | .ok a => base.run m a
  | .thenCheck message test base, v => do
      match ← base.run m v with
      | .error e => return .error e
      | .ok a => checked .parsing message test a
  | .checkFirst message test base, v => do
      match ← checked .serializing message test v with
      | .error e => return .error e
      | .ok a => base.run m a
  | .recover fallback base, v => do
      match ← base.run m v with
      | .error e => return .ok (fallback e v)
      | .ok a => return .ok a
  | .thenConstant value base, v => do
      match ← base.run m v with
      | .error e => return .error e
      | .ok _ => return .ok value
  | .exchange internal external base, v =>
      if internal.accepts v then base.run m external
      else return .error (literalError .serializing internal v)
  | .orSupply supply base, v => do
      match ← base.run m v with
      | .error e => return .error e
      | .ok a => return .ok (← supply.orElse a)
  | .follow .parsing r, v => m.parse r v
  | .follow .serializing r, v => m.serialize r v

/-- Operations as functions. -/
def runners (m : Machine) : List Operation → List Runner
  | [] => []
  | op :: rest => op.run m :: runners m rest

/-- The operations of fields as functions. -/
def fieldRunners (m : Machine) : List (String × Operation) → List (String × Runner)
  | [] => []
  | (name, op) :: rest => (name, op.run m) :: fieldRunners m rest

end

end Schemata
