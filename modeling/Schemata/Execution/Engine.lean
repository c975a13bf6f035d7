/-
**The machine behind references, and the entry points.**

Following a reference uses one unit of fuel, and so does going on with a parse that began late;
nothing else does.  A computation on a schema whose references consume input therefore ends when
there is fuel enough.

Main definitions:

* `Schemata.Schema.parseOn`, `Schemata.Schema.serializeOn`, `Schemata.Schema.stageOn` — a schema on
  a value, with a machine for its references;
* `Schemata.machine` — the machine with a supply of fuel;
* `Schemata.Schema.parse`, `Schemata.Schema.serialize`, `Schemata.Schema.stage`,
  `Schemata.Schema.parseAsync` — the entry points.
-/

import Schemata.Compilation.Parse
import Schemata.Execution.Polling

set_option relaxedAutoImplicit false
set_option autoImplicit false

namespace Schemata

/-! ### Schemas on values -/

/-- Parse at once; a schema that waits fails. -/
def Schema.parseOn (m : Machine) (s : Schema) : Runner := fun v => do
  match (← s.parseOperation).operation with
  | .direct op => op.run m v
  | _ => return .error unexpectedAsyncError

/-- Serialize. -/
def Schema.serializeOn (m : Machine) (s : Schema) : Runner := fun v => do
  (← s.serializeOperation).operation.run m v

/-- Start to parse. -/
def Schema.stageOn (m : Machine) (s : Schema) : Stager := fun v => do
  (← s.parseOperation).operation.stage m v

/-! ### The machine -/

/-- **The machine that follows at most `fuel` references on one way.** -/
def machine : Nat → Machine
  | 0 =>
      { parse := fun _ _ => halt .outOfFuel
        serialize := fun _ _ => halt .outOfFuel
        stage := fun _ _ => halt .outOfFuel
        poll := fun _ => halt .outOfFuel }
  | fuel + 1 =>
      { parse := fun r v => do
          match (← get).target? r with
          | some s => s.parseOn (machine fuel) v
          | none => return .error (danglingError .parsing)
        serialize := fun r v => do
          match (← get).target? r with
          | some s => s.serializeOn (machine fuel) v
          | none => return .error (danglingError .serializing)
        stage := fun r v => do
          match (← get).target? r with
          | some s => s.stageOn (machine fuel) v
          | none => return .error (danglingError .parsing)
        poll := fun t => t.poll (machine fuel) }

/-! ### Entry points -/

namespace Schema

/-- **Parse a value.**  A schema that waits for asynchronous functions fails. -/
def parse (fuel : Nat) (s : Schema) : Runner := s.parseOn (machine fuel)

/-- **Serialize a typed value.** -/
def serialize (fuel : Nat) (s : Schema) : Runner := s.serializeOn (machine fuel)

/-- **Start to parse a value**: everything that need not wait is done. -/
def stage (fuel : Nat) (s : Schema) : Stager := s.stageOn (machine fuel)

/-- Carry a started parse to its end. -/
def finish (fuel : Nat) (staged : Staged) : Run Result := staged.toTask.drive (machine fuel) fuel

/-- **Parse a value, waiting for asynchronous functions.** -/
def parseAsync (fuel : Nat) (s : Schema) : Runner := fun v => do
  match ← s.stage fuel v with
  | .error e => return .error e
  | .ok staged => finish fuel staged

/-- Parse the value of a JSON text. -/
def parseText (fuel : Nat) (s : Schema) (text : String) : Run Result :=
  match readText text with
  | .error e => return .error e
  | .ok v => s.parse fuel v

/-- Serialize to JSON text: compact, or indented by a number of spaces. -/
def serializeText (fuel : Nat) (s : Schema) (v : Value) (indent : Option Nat) :
    Run (Except Error String) := do
  match ← s.serialize fuel v with
  | .error e => return .error e
  | .ok a =>
      match indent with
      | none => return .ok a.text
      | some width => return .ok (a.indentedText width)

end Schema

end Schemata
