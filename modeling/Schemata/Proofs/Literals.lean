/-
**Literals accept their own values.**

A number literal holds a binary64 number and shows itself as an integer when it can.  That the
integer is read back as the same number rests on rounding: what 53 significant bits can hold stays
as it is, and every number that enters has been rounded.  Composite literals accept themselves
because keys are distinct and numbers are finite.

Main results:

* `Schemata.Binary64.spacing_dvd_roundQuotient`, `Schemata.Binary64.roundQuotient_of_dvd` —
  rounding gives representable numbers and leaves them alone;
* `Schemata.Value.equal_self` — well-formed values equal themselves;
* `Schemata.Literal.accepts_toValue` — **a literal read from a value accepts its own value**.
-/

import Mathlib.Algebra.Ring.Nat
import Schemata.Literal
import Schemata.Proofs.Lookup

set_option relaxedAutoImplicit false
set_option autoImplicit false

namespace Schemata

namespace Binary64

/-! ### Rounding -/

theorem spacing_eq (units : Nat) : spacing units = 2 ^ (units.log2 - 52) := rfl

theorem spacing_pos (units : Nat) : 0 < spacing units := Nat.two_pow_pos _

/-- Up to 53 bits, shifted, are representable. -/
theorem spacing_dvd_shifted {k : Nat} (hk : k ≤ 2 ^ 53) (b : Nat) :
    spacing (k * 2 ^ b) ∣ k * 2 ^ b := by
  rw [spacing_eq]
  have hb := Nat.two_pow_pos b
  rcases Nat.lt_or_eq_of_le hk with hlt | rfl
  · by_cases h0 : k = 0
    · rw [h0, Nat.zero_mul]
      exact Nat.dvd_zero _
    · have hne : k * 2 ^ b ≠ 0 := Nat.mul_ne_zero h0 (Nat.ne_of_gt hb)
      have hlog : (k * 2 ^ b).log2 < 53 + b := by
        rw [Nat.log2_lt hne, Nat.pow_add]
        exact Nat.mul_lt_mul_of_pos_right hlt hb
      exact Nat.dvd_trans (Nat.pow_dvd_pow 2 (by omega)) (Nat.dvd_mul_left ..)
  · rw [← Nat.pow_add, Nat.log2_two_pow]
    exact Nat.pow_dvd_pow 2 (by omega)

/-- What rounding gives: at most 53 bits, shifted. -/
theorem roundQuotient_eq (num den : Nat) :
    ∃ k ≤ 2 ^ 53, roundQuotient num den = k * 2 ^ ((num / den).log2 - 52) := by
  have hwhole : num / (den * spacing (num / den)) < 2 ^ 53 := by
    rw [← Nat.div_div_eq_div_mul, Nat.div_lt_iff_lt_mul (spacing_pos _), spacing_eq, ← Nat.pow_add]
    exact Nat.lt_of_lt_of_le Nat.lt_log2_self (Nat.pow_le_pow_right (by omega) (by omega))
  refine ⟨_, ?_, rfl⟩
  split
  · omega
  · split <;> omega

/-- **Rounding gives what 53 bits can hold.** -/
theorem spacing_dvd_roundQuotient (num den : Nat) :
    spacing (roundQuotient num den) ∣ roundQuotient num den := by
  obtain ⟨k, hk, hround⟩ := roundQuotient_eq num den
  rw [hround]
  exact spacing_dvd_shifted hk _

/-- **Rounding changes nothing that 53 bits can hold.** -/
theorem roundQuotient_of_dvd {units : Nat} (h : spacing units ∣ units) :
    roundQuotient units 1 = units := by
  have hpos := spacing_pos units
  simp only [roundQuotient, Nat.div_one, Nat.one_mul, Nat.mod_eq_zero_of_dvd h]
  rw [if_pos (by omega), Nat.add_zero, Nat.div_mul_cancel h]

/-- Rounding at most doubles. -/
theorem roundQuotient_le (num : Nat) : roundQuotient num 1 ≤ 2 * num := by
  rcases Nat.eq_zero_or_pos num with rfl | hpos
  · decide
  · have hstep : spacing num ≤ num :=
      Nat.le_trans (Nat.pow_le_pow_right (by omega) (Nat.sub_le ..))
        (Nat.log2_self_le (Nat.ne_of_gt hpos))
    have hwhole := Nat.div_mul_le_self num (spacing num)
    simp only [roundQuotient, Nat.div_one, Nat.one_mul]
    split
    · rw [Nat.add_zero]
      omega
    · rw [Nat.add_mul]
      split
      · omega
      · rcases Nat.mod_two_eq_zero_or_one (num / spacing num) with h | h <;> rw [h] <;> omega

theorem shifted_lt {a b : Nat} (h : a + 65 < b) : 2 * (2 ^ 64 * Nat.pow 2 a) < Nat.pow 2 b := by
  rw [Nat.pow_eq, Nat.pow_eq, ← Nat.pow_add, ← Nat.pow_succ']
  exact Nat.pow_lt_pow_right (by omega) (by omega)

/-- A 64-bit integer has a finite number next to it. -/
theorem ofInt_finite {i : Int} (h : i.natAbs ≤ 2 ^ 64) : (ofInt i).Finite := by
  have hle := roundQuotient_le (i.natAbs * one)
  have hone : 2 * (2 ^ 64 * one) < overflow := by
    unfold one overflow
    exact shifted_lt (by decide)
  have hlt : roundQuotient (i.natAbs * one) 1 < overflow := by
    have := Nat.mul_le_mul_right one h
    omega
  rw [ofInt, ofQuotient, ofUnits, if_neg (Nat.not_le.2 hlt)]
  exact ⟨_, _, rfl, spacing_dvd_roundQuotient _ _, hlt⟩

/-- The sign of an integer that is not zero. -/
theorem sign_of_pos (negative : Bool) {whole : Nat} (h : 0 < whole) :
    decide ((if negative then -(whole : Int) else whole) < 0) = negative := by
  cases negative <;> simp [h]

/-- **An integral number is the one next to its integer.** -/
theorem ofInt_truncate {x : Binary64} (hx : x.Finite) (h : x.isIntegral = true) :
    (ofInt x.truncate).same x = true := by
  obtain ⟨negative, units, rfl, hdvd, hlt⟩ := hx
  have hunits : units / one * one = units :=
    Nat.div_mul_cancel (Nat.dvd_of_mod_eq_zero (beq_iff_eq.1 h))
  have habs : (truncate (.finite negative units)).natAbs = units / one := by
    cases negative with
    | false => exact Int.natAbs_natCast _
    | true => exact (Int.natAbs_neg _).trans (Int.natAbs_natCast _)
  rw [ofInt, habs, hunits, ofQuotient, roundQuotient_of_dvd hdvd, ofUnits,
    if_neg (Nat.not_le.2 hlt)]
  simp only [same, numEq, beq_self_eq_true, Bool.true_and]
  rcases Nat.eq_zero_or_pos units with rfl | hpos
  · -- both zeros are one number
    simp
  · have hwhole : 0 < units / one := by
      refine Nat.pos_of_ne_zero fun h0 => ?_
      rw [h0, Nat.zero_mul] at hunits
      omega
    have hsign : decide (truncate (.finite negative units) < 0) = negative :=
      sign_of_pos negative hwhole
    rw [hsign, beq_self_eq_true, Bool.true_or]

theorem same_self {x : Binary64} (hx : x.Finite) : x.same x = true := by
  obtain ⟨negative, units, rfl, -, -⟩ := hx
  simp [same, numEq]

end Binary64
/-! ### Values -/

theorem Number.equal_self {n : Number} (h : n.WellFormed) : n.equal n = true := by
  cases n with
  | int i => exact beq_self_eq_true i
  | float x =>
      obtain ⟨negative, units, rfl, -, -⟩ := h
      simp [Number.equal, Binary64.numEq]

mutual

/-- **Well-formed values equal themselves.** -/
theorem Value.equal_self : ∀ {v : Value}, v.WellFormed → v.equal v = true
  | .null, _ => rfl
  | .bool b, _ => beq_self_eq_true b
  | .number n, h => Number.equal_self h
  | .string s, _ => beq_self_eq_true s
  | .array items, h => Value.equalItems_self h
  | .object entries, h => by
      have hin := Value.entriesIn_self h.2 fun e he => (Entries.find?_eq_some_iff h.1).2 he
      rw [Value.equal, beq_self_eq_true, Bool.true_and]
      exact hin

theorem Value.equalItems_self : ∀ {items : List Value},
    Value.WellFormedItems items → Value.equalItems items items = true
  | [], _ => rfl
  | v :: rest, h => by
      rw [Value.equalItems, Value.equal_self h.1, Value.equalItems_self h.2]
      rfl

theorem Value.entriesIn_self : ∀ {entries all : List (String × Value)},
    Value.WellFormedEntries entries → (∀ e ∈ entries, Entries.find? e.1 all = some e.2) →
      Value.entriesIn entries all = true
  | [], _, _, _ => rfl
  | (k, v) :: rest, all, h, hall => by
      have hfound : Entries.find? k all = some v := hall _ (List.mem_cons_self ..)
      have ih := Value.entriesIn_self h.2 fun e he => hall e (List.mem_cons_of_mem _ he)
      rw [Value.entriesIn, hfound, ih, Bool.and_true]
      exact Value.equal_self h.1

end

/-! ### Literals -/

/-- The number of a well-formed number value is finite. -/
theorem Number.toBinary64_finite {n : Number} (h : n.WellFormed) : n.toBinary64.Finite := by
  cases n with
  | int i =>
      have hbounds : -0x8000000000000000 ≤ i ∧ i < 0x10000000000000000 := h
      exact Binary64.ofInt_finite (by omega)
  | float x => exact h

/-- A finite number literal accepts its own value. -/
theorem Literal.accepts_numberValue {x : Binary64} (hx : x.Finite) :
    (Literal.number x).accepts (Literal.numberValue x) = true := by
  rw [Literal.numberValue]
  split
  · rename_i h
    have hintegral : x.isIntegral = true := (Bool.and_eq_true_iff.1 h).1
    rw [Literal.accepts, Number.toBinary64]
    exact Binary64.ofInt_truncate hx hintegral
  · split
    · exact Binary64.same_self hx
    · rename_i h
      obtain ⟨negative, units, rfl, -, -⟩ := hx
      exact absurd rfl h

/-- **A literal read from a value accepts its own value.** -/
theorem Literal.accepts_toValue {v : Value} (h : v.WellFormed) :
    (Literal.ofValue v).accepts (Literal.ofValue v).toValue = true := by
  cases v with
  | null => rfl
  | bool b => exact beq_self_eq_true b
  | number n => exact Literal.accepts_numberValue (Number.toBinary64_finite h)
  | string s => exact beq_self_eq_true s
  | array items => exact Value.equal_self h
  | object entries => exact Value.equal_self h

end Schemata
