/-
**Descriptions of operations and outcomes.**

Main definitions:

* `Schemata.Operation.description`, `Schemata.ParseOperation.description` — what kind of operation
  it is, and whether it does nothing;
* `Schemata.Staged.description` — the value, or that something is left to do.
-/

import Schemata.Operation
import Schemata.Schema.Description

set_option relaxedAutoImplicit false
set_option autoImplicit false

namespace Schemata

/-- An operation: one that does nothing, or another one. -/
def Operation.description (op : Operation) : String :=
  if op.isNoop then "Operation(noop)" else "Operation(..)"

/-- A parse operation: with its operation when it never waits. -/
def ParseOperation.description : ParseOperation → String
  | .direct op => "Sync(" ++ op.description ++ ")"
  | _ => "Async(AsyncOperation(..))"

/-- The outcome of starting a parse. -/
def Staged.description : Staged → String
  | .ready v => "Ready(" ++ v.description ++ ")"
  | .pending _ => "Pending(..)"

end Schemata
