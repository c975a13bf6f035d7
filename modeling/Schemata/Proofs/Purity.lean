/-
**Pure user functions.**

A user function is pure when all it does is compute: it notes no line in the log and runs no other
schema.  It then has an outcome for each value, which carrying it out gives in every world without
changing it.

Main definitions:

* `Schemata.Test.Pure`, `Schemata.Action.Pure` — tests and functions that only compute;
* `Schemata.Test.outcome`, `Schemata.Action.outcome` — what they compute;
* `Schemata.Kind.Pure` — all functions of a kind are pure.

Main results:

* `Schemata.Test.run_pure`, `Schemata.Action.run_pure` — carrying a pure function out gives its
  outcome.
-/

import Schemata.Execution.Engine
import Schemata.Proofs.Computation

set_option relaxedAutoImplicit false
set_option autoImplicit false

namespace Schemata

/-! ### Tests -/

/-- The test only computes. -/
def Test.Pure : Test → Prop
  | .holds _ => True
  | .log _ _ => False
  | .not test => test.Pure

/-- What the test computes. -/
def Test.outcome : Test → Value → Bool
  | .holds p, v => p v
  | .log _ test, v => test.outcome v
  | .not test, v => !test.outcome v

theorem Test.run_pure : ∀ {test : Test}, test.Pure → ∀ v, test.run v = pure (test.outcome v)
  | .holds _, _, _ => rfl
  | .not test, h, v => by
      have hp : test.Pure := h
      have ih : test.run v = pure (test.outcome v) := Test.run_pure hp v
      rw [Test.run, ih, pure_bind]
      rfl

/-! ### Functions -/

/-- The function only computes. -/
def Action.Pure : Action → Prop
  | .compute _ => True
  | .log _ => False
  | .andThen first second => first.Pure ∧ second.Pure
  | .choose test yes no => test.Pure ∧ yes.Pure ∧ no.Pure
  | .parseWith _ => False
  | .serializeWith _ => False

/-- What the function computes, schemas that it runs being left out. -/
def Action.outcome : Action → Value → Except Failure Value
  | .compute f, v => f v
  | .log _, v => .ok v
  | .andThen first second, v =>
      match first.outcome v with
      | .error e => .error e
      | .ok a => second.outcome a
  | .choose test yes no, v => if test.outcome v then yes.outcome v else no.outcome v
  | .parseWith _, v => .ok v
  | .serializeWith _, v => .ok v

/-- The outcome as a result in a direction. -/
def Action.result (direction : Direction) (f : Action) (v : Value) : Result :=
  match f.outcome v with
  | .ok a => .ok a
  | .error e => .error (e.toError direction)

theorem Action.run_pure (m : Machine) : ∀ {f : Action}, f.Pure → ∀ v,
    f.run m v = pure (f.outcome v)
  | .compute _, _, _ => rfl
  | .andThen first second, h, v => by
      have ih : first.run m v = pure (first.outcome v) := Action.run_pure m h.1 v
      rw [Action.run, ih, pure_bind, Action.outcome]
      cases first.outcome v with
      | error e => rfl
      | ok a =>
          have ih : second.run m a = pure (second.outcome a) := Action.run_pure m h.2 a
          exact ih
  | .choose test yes no, h, v => by
      rw [Action.run, Test.run_pure h.1 v, pure_bind, Action.outcome]
      cases test.outcome v with
      | true =>
          have ih : yes.run m v = pure (yes.outcome v) := Action.run_pure m h.2.1 v
          exact ih
      | false =>
          have ih : no.run m v = pure (no.outcome v) := Action.run_pure m h.2.2 v
          exact ih

/-- **Carrying a pure function out gives its outcome.** -/
theorem Action.runAs_pure (m : Machine) {f : Action} (h : f.Pure) (direction : Direction)
    (v : Value) : f.runAs m direction v = pure (f.result direction v) := by
  rw [Action.runAs, Action.run_pure m h v, pure_bind, Action.result]
  cases f.outcome v <;> rfl

@[simp] theorem Action.result_toOption (direction : Direction) (f : Action) (v : Value) :
    (f.result direction v).toOption = (f.outcome v).toOption := by
  rw [Action.result]
  cases f.outcome v <;> rfl

/-- A value that passes a test, or the error of a refinement. -/
def Test.result (direction : Direction) (message : String) (test : Test) (v : Value) : Result :=
  if test.outcome v then .ok v else .error (Error.atRoot (.refinement message) direction)

theorem checked_pure {test : Test} (h : test.Pure) (direction : Direction) (message : String)
    (v : Value) : checked direction message test v = pure (test.result direction message v) := by
  rw [checked, Test.run_pure h v, pure_bind, Test.result]
  cases test.outcome v <;> rfl

@[simp] theorem Test.result_toOption (direction : Direction) (message : String) (test : Test)
    (v : Value) : (test.result direction message v).toOption = (some v).filter test.outcome := by
  rw [Test.result]
  cases h : test.outcome v <;> simp [Option.filter, h, Except.toOption]

/-- The value itself, or the supplied one for null. -/
def Supply.result (s : Supply) (v : Value) : Value := if v.isNull then s.value else v

theorem Supply.orElse_pure {s : Supply} (h : s.tag = none) (v : Value) :
    s.orElse v = pure (s.result v) := by
  rw [Supply.orElse, Supply.result]
  cases v.isNull with
  | true => simp only [if_true, Supply.get, noteIf, h, pure_bind]
  | false => rfl

/-! ### The functions of a kind -/

/-- The parse function is pure; an asynchronous one announces nothing. -/
def Parser.Pure : Parser → Prop
  | .direct f => f.Pure
  | .async f => f.body.Pure ∧ f.announce = none

/-- Both functions are pure, so far as there are any. -/
structure Handlers.Pure (h : Handlers) : Prop where
  parser : ∀ p, h.parser = some p → p.Pure
  serializer : ∀ f, h.serializer = some f → f.Pure

/-- The test is pure. -/
def Check.Pure : Check → Prop
  | .direct test => test.Pure
  | .async test => test.test.Pure

/-- The functions of the effect are pure. -/
def Effect.Pure : Effect → Prop
  | .transform h => h.Pure
  | .preprocess h => h.Pure
  | .refine _ check => check.Pure
  | .getOr supply => supply.tag = none
  | .recover _ => True
  | .variant _ _ => True

/-- **All functions of the kind are pure.** -/
def Kind.Pure : Kind → Prop
  | .custom _ h => h.Pure
  | .transformed _ effect => effect.Pure
  | _ => True

end Schemata
