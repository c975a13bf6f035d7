/-
**Sessions: carrying out commands.**

A command builds the schemas of its expressions, lets go of all that is held by nothing else, and
then does what it is asked.  Lines noted by user functions belong to the command during which they
were noted.  A command that fails does not stop the following ones.

Main definitions:

* `Schemata.Session.fuel` — how many references a session follows on one way;
* `Schemata.Command.carryOut` — the answer to a command;
* `Schemata.Session.answer`, `Schemata.Session.answerAll` — commands one after the other.
-/

import Schemata.Operation.Description
import Schemata.Schema.Equality
import Schemata.Schema.Source
import Schemata.Session.Command

set_option relaxedAutoImplicit false
set_option autoImplicit false

namespace Schemata

/-- How many references a session follows on one way. -/
def Session.fuel : Nat := 1000000

open Evaluation

/-- The lines noted so far, which are then forgotten. -/
def takeLog : Run (List String) := do
  let w ← get
  set { w with log := [] }
  return w.log.reverse

/-- An outcome with the lines noted since the log was last taken. -/
def noting {α : Type} (r : Run α) : Run (Noted α) := do
  let a ← r
  return ⟨a, ← takeLog⟩

/-- Whether two compiled operations are the same one. -/
def sameCompiled {α : Type} (isNoop : α → Bool) (a b : Compiled α) : Bool :=
  (isNoop a.operation && isNoop b.operation) ||
    (a.builder == b.builder && !isNoop a.operation && !isNoop b.operation)

/-- The value of a source, or its misfit as an error. -/
def Source.value (direction : Direction) : Source → Result
  | .ok v => .ok v
  | .error m => .error (m.toError direction)

/-- Something done to the value of a source. -/
def onSource {α : Type} (direction : Direction) (input : Source)
    (next : Value → Run (Except Error α)) : Run (Except Error α) :=
  match Source.value direction input with
  | .ok v => next v
  | .error e => return .error e

namespace Schema

/-- Parse, serialize what came of it, and parse that. -/
def roundTrip (fuel : Nat) (s : Schema) (v : Value) : Run RoundTrip := do
  match ← s.parse fuel v with
  | .error e => return .notParsed e
  | .ok parsed =>
      match ← s.serialize fuel parsed with
      | .error e => return .notSerialized parsed e
      | .ok serialized => return .complete parsed serialized (← s.parse fuel serialized)

/-- Parse in two steps, the lines of the second one apart. -/
def parseInSteps (fuel : Nat) (s : Schema) (v : Value) :
    Run (Except Error (Noted Result) × List String) := do
  match ← s.stage fuel v with
  | .error e => return (.error e, ← takeLog)
  | .ok staged =>
      let log ← takeLog
      return (.ok (← noting (finish fuel staged)), log)

/-- Start a parse and finish it, the lines of the second part apart. -/
def stageAndFinish (fuel : Nat) (s : Schema) (v : Value) :
    Run (Except Error StagedOutcome × List String) := do
  match ← s.stage fuel v with
  | .error e => return (.error e, ← takeLog)
  | .ok staged =>
      let log ← takeLog
      let rest ← noting (finish fuel staged)
      return (.ok ⟨staged.isReady, staged.description, rest⟩, log)

/-- Run the parse operation without waiting for anything. -/
def start (fuel : Nat) (s : Schema) (v : Value) : Run StartOutcome := do
  match (← s.parseOperation).operation with
  | .direct op => return .result (← op.run (machine fuel) v)
  | op =>
      match ← op.stage (machine fuel) v with
      | .error e => return .staged (.error e)
      | .ok staged => return .staged (.ok staged.isReady)

/-- Parse and read the result in a shape. -/
def parseInto (fuel : Nat) (s : Schema) (v : Value) (shape : Shape) : Run Result := do
  match ← s.parse fuel v with
  | .error e => return .error e
  | .ok parsed =>
      match shape.decode parsed with
      | .ok a => return .ok a
      | .error m => return .error (m.toError .parsing)

end Schema

/-- The schema of an expression, all else being let go. -/
def schemaOf (e : Expression) : Evaluation Schema := do
  let s ← e.build []
  letGo [s]
  return s

/-- The schemas of two expressions, all else being let go. -/
def schemasOf (a b : Expression) : Evaluation (Schema × Schema) := do
  let s ← a.build []
  let t ← b.build [s]
  letGo [s, t]
  return (s, t)

/-- An answer with the lines noted for it. -/
def noted (r : Run Answer) : Evaluation (Noted Answer) := inWorld (noting r)

/-- Do something with the schema of an expression. -/
def withSchema (e : Expression) (next : Schema → Run Answer) : Evaluation (Noted Answer) := do
  let s ← schemaOf e
  noted (next s)

/-- **The answer to a command.** -/
def Command.carryOut (fuel : Nat) : Command → Evaluation (Noted Answer)
  | .define new e => do
      let s ← e.build []
      assign new s
      noted (return .defined)
  | .parse mode e input =>
      withSchema e fun s => do
        return .value ⟨mode, ← onSource .parsing input (s.parse fuel)⟩
  | .serialize mode e input =>
      withSchema e fun s => do
        return .value ⟨mode, ← onSource .serializing input (s.serialize fuel)⟩
  | .roundTrip e input => withSchema e fun s => do return .roundTrip (← s.roundTrip fuel input)
  | .parseText mode e text =>
      withSchema e fun s => do return .value ⟨mode, ← s.parseText fuel text⟩
  | .serializeText mode e input indent =>
      withSchema e fun s => do return .text ⟨mode, ← s.serializeText fuel input indent⟩
  | .parseInto mode e input shape =>
      withSchema e fun s => do return .value ⟨mode, ← s.parseInto fuel input shape⟩
  | .parseAsync e input =>
      withSchema e fun s => do
        return .value ⟨.report, ← onSource .parsing input (s.parseAsync fuel)⟩
  | .parseInSteps e input => do
      let s ← schemaOf e
      match Source.value .parsing input with
      | Except.error e => return ⟨.inSteps (.error e), []⟩
      | Except.ok v =>
          let (outcome, log) ← inWorld (s.parseInSteps fuel v)
          return ⟨.inSteps outcome, log⟩
  | .stage e input => do
      let s ← schemaOf e
      let (outcome, log) ← inWorld (s.stageAndFinish fuel input)
      return ⟨.staged outcome, log⟩
  | .start e input => withSchema e fun s => do return .started (← s.start fuel input)
  | .operations e =>
      withSchema e fun s => do
        let parse := (← s.parseOperation).operation
        let serialize := (← s.serializeOperation).operation
        return .operations parse.isAsync parse.isNoop serialize.isNoop
          (parse.description ++ " " ++ serialize.description)
  | .compileParse e =>
      withSchema e fun s => do
        let _ ← s.parseOperation
        return .compiled
  | .compileSerialize e =>
      withSchema e fun s => do
        let _ ← s.serializeOperation
        return .compiled
  | .flags e =>
      withSchema e fun s => do
        let w ← get
        return .flags (w.parseCells s.id).content?.isSome (w.serializeCells s.id).content?.isSome
  | .isAsync e => withSchema e fun s => do return .truth (← s.isAsync)
  | .sameOperations a b => do
      let (s, t) ← schemasOf a b
      noted do
        let parse := sameCompiled ParseOperation.isNoop (← s.parseOperation) (← t.parseOperation)
        let serialize :=
          sameCompiled Operation.isNoop (← s.serializeOperation) (← t.serializeOperation)
        return .same parse serialize
  | .noop input => noted do return .value ⟨.report, ← Operation.noop.run (machine fuel) input⟩
  | .name e => withSchema e fun s => return .words s.name
  | .structuralName e => withSchema e fun s => return .words s.structuralName
  | .source e => withSchema e fun s => return .source s.source
  | .description e =>
      withSchema e fun s => do
        let w ← get
        return .words (s.description fun r => (w.target? r).isSome)
  | .structurallyEqual a b => do
      let (s, t) ← schemasOf a b
      noted (return .truth (s.structurallyEqual t))
  | .sameNode a b => do
      let (s, t) ← schemasOf a b
      noted (return .truth (s.sameNode t))
  | .anatomy e =>
      withSchema e fun s => do
        let w ← get
        return .anatomy (s.anatomy fun r => (w.target? r).isSome)
  | .metadata e => withSchema e fun s => return .metadata s.metadata
  | .metadataEntry e key =>
      withSchema e fun s => return .entry (Entries.find? key s.metadata.custom)
  | .readConfig text => noted (return .config (Config.ofText text))
  | .setConfig text =>
      noted do
        match Config.ofText text with
        | .error e => return .config (.error e)
        | .ok c =>
            modify fun w => { w with config := c }
            return .config (.ok c)
  | .getConfig =>
      noted do
        let w ← get
        return .config (.ok w.config)
  | .resetConfig =>
      noted do
        modify fun w => { w with config := Config.default }
        return .config (.ok Config.default)
  | .literal l values =>
      noted do
        let accepted := values.map l.accepts
        let equal := values.map fun v => l.equal (Literal.ofValue v)
        return .literal l accepted equal
  | .path steps => noted (return .paths (PathStep.states Path.root steps))
  | .error e steps => noted (return .error (steps.foldl ErrorStep.apply e))
  | .equalErrors a b => noted (return .truth (a.equal b))
  | .readText shape text =>
      match shape.ofText text with
      | .ok v => noted (return .value ⟨.report, .ok v⟩)
      | .error m => noted (return .value ⟨.report, .error (m.toError .parsing)⟩)

namespace Session

/-- **One command to a session.** -/
def answer (c : Command) : StateT Session (Except Halt) (Noted Answer) := do
  match ← ExceptT.run (c.carryOut fuel) with
  | .ok a => return a
  | .error t => return ⟨.trouble t, []⟩

/-- **Commands to a session, one after the other.** -/
def answerAll : List Command → StateT Session (Except Halt) (List (Noted Answer))
  | [] => return []
  | c :: rest => do
      let a ← answer c
      return a :: (← answerAll rest)

end Session

end Schemata
