/-
**Starting parses that may wait.**

Everything that need not wait is done here: types, literals and sizes are checked, and children that
wait for nothing are parsed.  Asynchronous functions are called as soon as their input is there, but
none is carried out.

Main definitions:

* `Schemata.ParseOperation.stage` — the outcome of starting to parse a value.
-/

import Schemata.Execution.Direct

set_option relaxedAutoImplicit false
set_option autoImplicit false

namespace Schemata

/-- Do something with the outcome of a base, unless it failed. -/
def afterStage (base : Run (Except Error Staged))
    (next : Staged → Run (Except Error Staged)) : Run (Except Error Staged) := do
  match ← base with
  | .error e => return .error e
  | .ok staged => next staged

/-- A result as the outcome of a parse with nothing left to do. -/
def Result.toStaged : Result → Except Error Staged
  | .ok v => .ok (.ready v)
  | .error e => .error e

/-- The children of a composite put together. -/
def assembled (assembly : Assembly) : Except Error (List Staged) → Except Error Staged
  | .ok children => .ok (assemble assembly children)
  | .error e => .error e

mutual

/-- **The outcome of starting to parse a value.** -/
def ParseOperation.stage (m : Machine) : ParseOperation → Stager
  | .direct op, v => do return (← op.run m v).toStaged
  | .ready op, v => do return (← op.run m v).toStaged
  | .array expected item, v =>
      match v with
      | .array items => do
          return assembled .array (← stageEach (indexed (items.map (item.stage m))))
      | v => return .error (Error.invalidType .parsing expected.get v)
  | .dict expected value, v =>
      match v with
      | .object entries => do
          let outcomes ← stageEach (keyed (entries.map fun e => (e.1, value.stage m e.2)))
          return assembled (.object (Entries.keys entries)) outcomes
      | v => return .error (Error.invalidType .parsing expected.get v)
  | .tuple expected items, v =>
      match v with
      | .array values =>
          match sizeError? .parsing items.length values.length with
          | some e => return .error e
          | none => do
              let children := (stagers m items).zipWith (fun stage v => stage v) values
              return assembled .array (← stageEach (indexed children))
      | v => return .error (Error.invalidType .parsing expected.get v)
  | .object expected fields policy, v =>
      match v with
      | .object entries => do
          match ← stageFields (fieldStagers m fields) entries with
          | .error e => return .error e
          | .ok (children, left) =>
              match excessError? policy left with
              | some e => return .error e
              | none => return .ok (assemble (.object (Entries.keys fields)) children)
      | v => return .error (Error.invalidType .parsing expected.get v)
  | .unlessNull inner, v =>
      match v with
      | .null => return .ok (.ready .null)
      | v => inner.stage m v
  | .union members, v => do return resolveMembers (← stageMembers v (stagers m members))
  | .decodeText expected inner, v =>
      match decodeDocument expected v with
      | .error e => return .error e
      | .ok a => inner.stage m a
  | .applyAsync f, v => do return .ok (.pending (← f.start v))
  | .thenApply base f, v =>
      afterStage (base.stage m v) fun staged =>
        staged.andThen (.apply f) (f.runAs m .parsing)
  | .thenApplyAsync base f, v =>
      afterStage (base.stage m v) fun staged => do
        match staged with
        | .ready a => return .ok (.pending (← f.start a))
        | .pending t => return .ok (.pending (.andThen t (.applyAsync f)))
  | .applyFirst f base, v => do
      match ← f.runAs m .parsing v with
      | .error e => return .error e
      | .ok a => base.stage m a
  | .applyAsyncFirst f base, v => do
      return .ok (.pending (.andThen (← f.start v) (.parse base)))
  | .thenCheck message test base, v =>
      afterStage (base.stage m v) fun staged =>
        staged.andThen (.check message test) (checked .parsing message test)
  | .thenCheckAsync message test base, v =>
      afterStage (base.stage m v) fun staged =>
        return .ok (.pending (.andThen staged.toTask (.checkAsync message test)))
  | .recover fallback base, v => do
      match ← base.stage m v with
      | .error e => return .ok (.ready (fallback e v))
      | .ok (.ready a) => return .ok (.ready a)
      | .ok (.pending t) => return .ok (.pending (.recover fallback v t))
  | .thenConstant value base, v =>
      afterStage (base.stage m v) fun staged =>
        staged.andThen (.constant value) fun _ => return .ok value
  | .orSupply supply base, v =>
      afterStage (base.stage m v) fun staged =>
        staged.andThen (.orSupply supply) fun a => return .ok (← supply.orElse a)
  | .follow r, v => m.stage r v

/-- Parse operations as functions. -/
def stagers (m : Machine) : List ParseOperation → List Stager
  | [] => []
  | op :: rest => op.stage m :: stagers m rest

/-- The parse operations of fields as functions. -/
def fieldStagers (m : Machine) : List (String × ParseOperation) → List (String × Stager)
  | [] => []
  | (name, op) :: rest => (name, op.stage m) :: fieldStagers m rest

end

end Schemata
