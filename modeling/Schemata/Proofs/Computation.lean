/-
**Reasoning about computations in the world.**

A computation takes a world to a result and a world, or it halts.  Two predicates carry most of the
proofs about compiling and running schemas.  Both are relative to a set of worlds that differ only
in what has been compiled so far: a computation *gives* a value when it does so in each of these
worlds without leaving the set, and it is *steady* when whatever it gives in one of them it gives in
all of them.

Main definitions:

* `Schemata.Gives` — one result in every world of a set;
* `Schemata.Steady` — a result that does not depend on the world;
* `Schemata.Ensures` — whatever a computation ends with is as required.

Main results:

* `Schemata.bind_apply` and its companions — how computations unfold;
* `Schemata.Gives.bind`, `Schemata.Steady.bind` — both predicates pass through sequencing.
-/

import Schemata.World

set_option relaxedAutoImplicit false
set_option autoImplicit false

namespace Schemata

variable {α β : Type}

/-! ### Unfolding computations -/

theorem bind_apply (c : Run α) (f : α → Run β) (w : World) :
    (c >>= f) w = match c w with
      | .ok (a, w') => f a w'
      | .error h => .error h := by
  cases h : c w with
  | error e => simp [bind, StateT.bind, Except.bind, h]
  | ok p => simp [bind, StateT.bind, Except.bind, h]

/-- A first part that ends hands its value and world on. -/
theorem bind_ok {c : Run α} {f : α → Run β} {w w' : World} {a : α} (h : c w = .ok (a, w')) :
    (c >>= f) w = f a w' := by
  rw [bind_apply, h]

/-- What ends as a whole has a first part that ends. -/
theorem of_bind_ok {c : Run α} {f : α → Run β} {w w'' : World} {b : β}
    (h : (c >>= f) w = .ok (b, w'')) :
    ∃ a w', c w = .ok (a, w') ∧ f a w' = .ok (b, w'') := by
  rw [bind_apply] at h
  cases hc : c w with
  | error e => rw [hc] at h; cases h
  | ok p => rw [hc] at h; exact ⟨p.1, p.2, rfl, h⟩

@[simp] theorem pure_apply (a : α) (w : World) : (pure a : Run α) w = .ok (a, w) := rfl

@[simp] theorem get_apply (w : World) : (get : Run World) w = .ok (w, w) := rfl

@[simp] theorem modify_apply (f : World → World) (w : World) :
    (modify f : Run Unit) w = .ok ((), f w) := rfl

@[simp] theorem set_apply (w' w : World) : (set w' : Run Unit) w = .ok ((), w') := rfl

@[simp] theorem halt_apply (e : Halt) (w : World) : (halt e : Run α) w = .error e := rfl

theorem get_bind (f : World → Run β) (w : World) : ((get : Run World) >>= f) w = f w w := rfl

theorem modify_bind (g : World → World) (f : Unit → Run β) (w : World) :
    ((modify g : Run Unit) >>= f) w = f () (g w) := rfl

/-! ### Results that do not depend on the world -/

/-- In every world of a set the computation ends with `a`, in a world of the set. -/
def Gives (W : World → Prop) (c : Run α) (a : α) : Prop :=
  ∀ w, W w → ∃ w', W w' ∧ c w = .ok (a, w')

/-- **What the computation gives in one world of a set it gives in all of them.** -/
def Steady (W : World → Prop) (c : Run α) : Prop :=
  ∀ w a w', W w → c w = .ok (a, w') → Gives W c a

section

variable {W : World → Prop}

theorem Gives.pure (a : α) : Gives W (pure a : Run α) a := fun w hw => ⟨w, hw, rfl⟩

theorem Gives.bind {c : Run α} {f : α → Run β} {a : α} {b : β} (hc : Gives W c a)
    (hf : Gives W (f a) b) : Gives W (c >>= f) b := by
  intro w hw
  obtain ⟨w₁, hw₁, h₁⟩ := hc w hw
  obtain ⟨w₂, hw₂, h₂⟩ := hf w₁ hw₁
  exact ⟨w₂, hw₂, by rw [bind_ok h₁, h₂]⟩

/-- Two values that are given in a world are the same. -/
theorem Gives.unique {c : Run α} {a b : α} {w : World} (ha : Gives W c a) (hb : Gives W c b)
    (hw : W w) : a = b := by
  obtain ⟨w₁, -, h₁⟩ := ha w hw
  obtain ⟨w₂, -, h₂⟩ := hb w hw
  rw [h₁] at h₂
  cases h₂
  rfl

theorem Steady.pure (a : α) : Steady W (pure a : Run α) := by
  intro w b w' _ h
  cases h
  exact Gives.pure a

theorem Steady.halt (e : Halt) : Steady W (halt e : Run α) := by
  intro w a w' _ h
  cases h

/-- A computation that gives a value is steady. -/
theorem Gives.steady {c : Run α} {a : α} (hc : Gives W c a) : Steady W c := by
  intro w b w' hw h
  obtain ⟨w₁, -, h₁⟩ := hc w hw
  rw [h₁] at h
  cases h
  exact hc

/-- A steady computation does not leave the set. -/
theorem Steady.keeps {c : Run α} (hc : Steady W c) {w w' : World} {a : α} (hw : W w)
    (h : c w = .ok (a, w')) : W w' := by
  obtain ⟨w₁, hw₁, h₁⟩ := hc w a w' hw h w hw
  rw [h] at h₁
  cases h₁
  exact hw₁

/-- **Sequencing steady computations.** -/
theorem Steady.bind {c : Run α} {f : α → Run β} (hc : Steady W c) (hf : ∀ a, Steady W (f a)) :
    Steady W (c >>= f) := by
  intro w b w'' hw h
  obtain ⟨a, w₁, h₁, h₂⟩ := of_bind_ok h
  exact (hc w a w₁ hw h₁).bind (hf a w₁ b w'' (hc.keeps hw h₁) h₂)

/-- Sequencing after a computation that gives a value. -/
theorem Gives.bind_steady {c : Run α} {f : α → Run β} {a : α} (hc : Gives W c a)
    (hf : Steady W (f a)) : Steady W (c >>= f) := by
  intro w b w'' hw h
  obtain ⟨a', w₁, h₁, h₂⟩ := of_bind_ok h
  obtain ⟨w₁', hw₁, h₁'⟩ := hc w hw
  rw [h₁] at h₁'
  cases h₁'
  exact hc.bind (hf w₁ b w'' hw₁ h₂)

/-- Sequencing where the second part tells success and failure apart. -/
theorem Steady.attempt {ε : Type} {c : Run (Except ε α)} {f : Except ε α → Run β}
    (hc : Steady W c) (he : ∀ e, Steady W (f (.error e))) (ha : ∀ a, Steady W (f (.ok a))) :
    Steady W (c >>= f) :=
  hc.bind fun r => match r with
    | .error e => he e
    | .ok a => ha a

theorem Gives.congr {c c' : Run α} {a : α} (h : ∀ w, W w → c w = c' w) (hc : Gives W c' a) :
    Gives W c a := by
  intro w hw
  rw [h w hw]
  exact hc w hw

/-- Computations that are the same in all worlds of the set. -/
theorem Steady.congr {c c' : Run α} (h : ∀ w, W w → c w = c' w) (hc : Steady W c') :
    Steady W c := by
  intro w a w' hw hrun v hv
  rw [h w hw] at hrun
  rw [h v hv]
  exact hc w a w' hw hrun v hv

end

/-! ### What a computation ensures -/

/-- **Started in a world of a set, the computation does not leave the set, and what it ends with is
as required.**  It need not end. -/
def Ensures (W : World → Prop) (c : Run α) (P : α → Prop) : Prop :=
  ∀ w a w', W w → c w = .ok (a, w') → W w' ∧ P a

section

variable {W : World → Prop} {P Q : α → Prop}

theorem Ensures.pure {a : α} (h : P a) : Ensures W (pure a : Run α) P := by
  intro w b w' hw hrun
  cases hrun
  exact ⟨hw, h⟩

theorem Ensures.halt (e : Halt) : Ensures W (halt e : Run α) P := by
  intro w a w' _ hrun
  cases hrun

/-- **Sequencing.** -/
theorem Ensures.bind {c : Run α} {f : α → Run β} {R : β → Prop} (hc : Ensures W c P)
    (hf : ∀ a, P a → Ensures W (f a) R) : Ensures W (c >>= f) R := by
  intro w b w'' hw hrun
  obtain ⟨a, w', hfirst, hsecond⟩ := of_bind_ok hrun
  obtain ⟨hw', ha⟩ := hc w a w' hw hfirst
  exact hf a ha w' b w'' hw' hsecond

/-- Sequencing where the second part tells success and failure apart. -/
theorem Ensures.attempt {ε : Type} {c : Run (Except ε α)} {f : Except ε α → Run β}
    {P : Option α → Prop} {R : β → Prop} (hc : Ensures W c fun r => P r.toOption)
    (he : ∀ e, P none → Ensures W (f (.error e)) R)
    (ha : ∀ a, P (some a) → Ensures W (f (.ok a)) R) : Ensures W (c >>= f) R :=
  hc.bind fun r hr => match r, hr with
    | .error e, hr => he e hr
    | .ok a, hr => ha a hr

theorem Ensures.mono {c : Run α} (hc : Ensures W c P) (h : ∀ a, P a → Q a) : Ensures W c Q :=
  fun w a w' hw hrun => (hc w a w' hw hrun).imp_right (h a)

/-- What is given is ensured. -/
theorem Gives.ensures {c : Run α} {a : α} (hc : Gives W c a) (h : P a) : Ensures W c P := by
  intro w b w' hw hrun
  obtain ⟨w₁, hw₁, hgiven⟩ := hc w hw
  rw [hrun] at hgiven
  cases hgiven
  exact ⟨hw₁, h⟩

/-- Computations that are the same in all worlds of the set. -/
theorem Ensures.congr {c c' : Run α} (h : ∀ w, W w → c w = c' w) (hc : Ensures W c' P) :
    Ensures W c P := by
  intro w a w' hw hrun
  rw [h w hw] at hrun
  exact hc w a w' hw hrun

end

end Schemata
