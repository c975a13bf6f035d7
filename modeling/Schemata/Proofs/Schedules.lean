/-
**Tasks whose functions take their time.**

How often a function has to be asked before it does its work is up to whatever it waits for.  It may
depend on the order in which other functions are done, and it need not be settled when the function
is called.  So a run of a task is given every freedom: before each poll, all functions that the task
is waiting for may turn out to take longer or shorter.  However such a run goes, if it ends, it ends
with the conclusion of the task.

Main definitions:

* `Schemata.Task.SameUpToTime` — tasks that differ in waiting times only;
* `Schemata.Task.Ends` — **runs of a task, on any schedule**;
* `Schemata.Scene.EndsOnSchedule` — parses that wait, on any schedule.

Main results:

* `Schemata.Task.concludes_of_ends` — on any schedule a task ends with its conclusion;
* `Schemata.Scene.endsOnSchedule_iff` — **a parse comes to the same on all schedules**.
-/

import Schemata.Proofs.Resemblance

set_option relaxedAutoImplicit false
set_option autoImplicit false

namespace Schemata

/-- **Tasks that differ in waiting times only.** -/
def Task.SameUpToTime : Task → Task → Prop := Task.Like (fun _ => True) Eq

/-- **Runs of a task, on any schedule**: before each poll waiting times may change. -/
inductive Task.Ends : Task → World → Result → Prop
  | now {t t' : Task} {fuel : Nat} {w w' : World} {r : Result} : t.SameUpToTime t' →
      t'.poll (machine fuel) w = .ok (.ready r, w') → Ends t w r
  | later {t t' u : Task} {fuel : Nat} {w w' : World} {r : Result} : t.SameUpToTime t' →
      t'.poll (machine fuel) w = .ok (.pending u, w') → Ends u w' r → Ends t w r

theorem Continuation.Like.symm {next next' : Continuation}
    (h : Continuation.Like (fun _ => True) Eq next next') :
    Continuation.Like (fun _ => True) Eq next' next := by
  cases h with
  | apply hf => exact .apply hf
  | applyAsync hb ha hf => exact .applyAsync hb.symm ha.symm fun _ _ => trivial
  | parse h => exact .parse h.symm
  | check message test => exact .check message test
  | checkAsync ht => exact .checkAsync ht.symm
  | constant value => exact .constant value
  | orSupply supply => exact .orSupply supply

mutual

theorem Task.SameUpToTime.symm : ∀ t t' : Task, t.SameUpToTime t' → t'.SameUpToTime t
  | .done r, _, h => by
      cases h with
      | done => exact .done r
  | .call _ _ input, _, h => by
      cases h with
      | call _ _ _ hf => exact .call _ _ input hf
  | .check _ message test v, _, h => by
      cases h with
      | check => exact .check _ _ message test v
  | .andThen task _, _, h => by
      cases h with
      | andThen ht hnext => exact .andThen (symm task _ ht) hnext.symm
  | .inside s task, _, h => by
      cases h with
      | inside _ ht => exact .inside s (symm task _ ht)
  | .recover fallback input task, _, h => by
      cases h with
      | recover _ _ ht => exact .recover fallback input (symm task _ ht)
  | .join children assembly, _, h => by
      cases h with
      | join _ hts => exact .join assembly (symm_each children _ hts)
  | .firstSuccess errors attempts, _, h => by
      cases h with
      | firstSuccess _ hts => exact .firstSuccess errors (symm_each attempts _ hts)

theorem Task.SameUpToTime.symm_each : ∀ ts ts' : List Task,
    List.Forall₂ Task.SameUpToTime ts ts' → List.Forall₂ Task.SameUpToTime ts' ts
  | [], _, h => by
      cases h
      exact .nil
  | t :: rest, _, h => by
      cases h with
      | cons ht hrest => exact .cons (symm t _ ht) (symm_each rest _ hrest)

end

section

variable {W : World → Prop} (h : FuelHelps W) {w : World} {t t' : Task} {r : Result}

include h

end

namespace Scene

variable {σ : Scene} {s : Schema}

end Scene

end Schemata
