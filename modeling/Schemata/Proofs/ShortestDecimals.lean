/-
**Shortest decimals stand for one number.**

The decimals that are read as a binary64 magnitude are an interval around it.  The intervals of two
magnitudes have at most an end in common, and then at most one of them owns it, because of two
neighbours one has an odd significand.  With seventeen digits the grid is so fine that one of the
two points around a magnitude lies inside its interval, so the search for a shortest decimal always
finds one, and the decimal that it finds tells which magnitude it was made for.

Main definitions:

* `Schemata.Decimal.value` — the rational number that a decimal is;
* `Schemata.Decimal.ReadAs` — **the interval of a magnitude**.

Main results:

* `Schemata.Decimal.ends_apart` — intervals of different magnitudes;
* `Schemata.Decimal.onGrid_isSome` — seventeen digits suffice;
* `Schemata.Decimal.shortest_readAs` — **the shortest decimal is read as the magnitude**;
* `Schemata.Decimal.ReadAs.unique` — and as no other one.
-/

import Mathlib.Algebra.Order.Field.Rat
import Mathlib.Tactic.FieldSimp
import Mathlib.Tactic.Linarith
import Mathlib.Tactic.NormNum
import Mathlib.Tactic.Positivity
import Mathlib.Tactic.Ring
import Schemata.Decimal.Shortest
import Schemata.Proofs.Literals

set_option relaxedAutoImplicit false
set_option autoImplicit false

namespace Schemata

/-! ### Neighbours -/

namespace Binary64

variable {m n : Nat}

theorem two_pow_log2_le (hm : 0 < m) : 2 ^ m.log2 ≤ m := Nat.log2_self_le hm.ne'

theorem lt_two_pow_log2 (m : Nat) : m < 2 ^ (m.log2 + 1) := Nat.lt_log2_self

theorem log2_mono (hm : 0 < m) (h : m < n) : m.log2 ≤ n.log2 := by
  by_contra hlt
  have hle : 2 ^ (n.log2 + 1) ≤ 2 ^ m.log2 := Nat.pow_le_pow_right (by omega) (by omega)
  have := two_pow_log2_le hm
  have := lt_two_pow_log2 n
  omega

theorem spacing_dvd_two_pow {k : Nat} (h : m.log2 ≤ k) : spacing m ∣ 2 ^ k :=
  Nat.pow_dvd_pow 2 (by omega)

/-- Up to the next power of two there is room for one step more. -/
theorem add_spacing_le_two_pow (hm : spacing m ∣ m) : m + spacing m ≤ 2 ^ (m.log2 + 1) := by
  have hlt := lt_two_pow_log2 m
  exact Nat.le_of_lt_add_of_dvd (by omega) (Nat.dvd_add hm (Nat.dvd_refl _))
    (spacing_dvd_two_pow (Nat.le_succ _))

theorem spacing_le (hm : 0 < m) : spacing m ≤ m :=
  Nat.le_trans (Nat.pow_le_pow_right (by omega) (Nat.sub_le ..)) (two_pow_log2_le hm)

/-- **The next magnitude** is one step away. -/
theorem add_spacing_le (h0 : 0 < m) (hm : spacing m ∣ m) (hn : spacing n ∣ n) (h : m < n) :
    m + spacing m ≤ n := by
  rcases Nat.eq_or_lt_of_le (log2_mono h0 h) with hlog | hlog
  · have heq : spacing m = spacing n := by rw [spacing_eq, spacing_eq, hlog]
    exact Nat.le_of_lt_add_of_dvd (by omega) (Nat.dvd_add hm (Nat.dvd_refl _)) (heq ▸ hn)
  · calc m + spacing m ≤ 2 ^ (m.log2 + 1) := add_spacing_le_two_pow hm
      _ ≤ 2 ^ n.log2 := Nat.pow_le_pow_right (by omega) hlog
      _ ≤ n := two_pow_log2_le (by omega)

end Binary64

namespace Decimal

open Binary64 (spacing spacing_eq spacing_pos)

variable {m n : Nat}

/-! ### Intervals -/

/-- How far the interval of a magnitude goes down, in half units. -/
def reach (units : Nat) : Nat :=
  if units = 2 ^ units.log2 ∧ 53 ≤ units.log2 then spacing units / 2 else spacing units

theorem interval_eq (units : Nat) :
    interval units = (2 * units - reach units, 2 * units + spacing units) := rfl

theorem reach_le_spacing (units : Nat) : reach units ≤ spacing units := by
  rw [reach]
  split
  · exact Nat.div_le_self ..
  · exact le_rfl

/-- Below a power of two the neighbour is half as far. -/
theorem reach_of_half (h : n = 2 ^ n.log2 ∧ 53 ≤ n.log2) : reach n = 2 ^ (n.log2 - 53) := by
  have hsub : n.log2 - 52 = n.log2 - 53 + 1 := by omega
  rw [reach, if_pos h, spacing_eq, hsub, Nat.pow_succ, Nat.mul_div_cancel _ (by omega)]

theorem reach_pos (units : Nat) : 0 < reach units := by
  by_cases h : units = 2 ^ units.log2 ∧ 53 ≤ units.log2
  · rw [reach_of_half h]
    exact Nat.two_pow_pos _
  · rw [reach, if_neg h]
    exact spacing_pos _

/-- **The magnitude before** is as far away as the interval goes down. -/
theorem add_reach_le (h0 : 0 < m) (hm : spacing m ∣ m) (hn : spacing n ∣ n) (h : m < n) :
    m + reach n ≤ n := by
  have hlog := Binary64.log2_mono h0 h
  by_cases hhalf : n = 2 ^ n.log2 ∧ 53 ≤ n.log2
  · obtain ⟨hn2, h53⟩ := hhalf
    rw [reach_of_half ⟨hn2, h53⟩]
    have hmn : m.log2 + 1 ≤ n.log2 := by
      refine Nat.lt_of_le_of_ne hlog fun heq => ?_
      have := Binary64.two_pow_log2_le h0
      rw [heq, ← hn2] at this
      omega
    rcases Nat.eq_or_lt_of_le hmn with heq | hlt
    · have hspacing : spacing m = 2 ^ (n.log2 - 53) := by
        rw [spacing_eq, ← heq, Nat.succ_sub_succ]
      exact hspacing ▸ Binary64.add_spacing_le h0 hm hn h
    · have hsmall : m < 2 ^ (n.log2 - 1) :=
        Nat.lt_of_lt_of_le (Binary64.lt_two_pow_log2 m)
          (Nat.pow_le_pow_right (by omega) (by omega))
      have hstep : 2 ^ (n.log2 - 53) ≤ 2 ^ (n.log2 - 1) :=
        Nat.pow_le_pow_right (by omega) (by omega)
      have hdouble : 2 ^ (n.log2 - 1) + 2 ^ (n.log2 - 1) = 2 ^ n.log2 :=
        Nat.two_pow_pred_add_two_pow_pred (by omega)
      omega
  · rw [reach, if_neg hhalf]
    by_cases hlow : m < 2 ^ n.log2
    · -- what is not above the power of two is not above the number before
      have hpow := Binary64.two_pow_log2_le (Nat.lt_of_le_of_lt (Nat.zero_le m) h)
      rcases Nat.eq_or_lt_of_le hpow with heq | hlt
      · have hsmall : n.log2 < 53 := Nat.not_le.1 fun h53 => hhalf ⟨heq.symm, h53⟩
        have hone : spacing n = 1 := by
          rw [spacing_eq, Nat.sub_eq_zero_of_le (by omega), Nat.pow_zero]
        omega
      · have := Nat.le_of_lt_add_of_dvd (Nat.add_lt_add_right hlt (spacing n))
          (Nat.dvd_add (Binary64.spacing_dvd_two_pow le_rfl) (Nat.dvd_refl _)) hn
        omega
    · have hsame : m.log2 = n.log2 := by
        refine Nat.le_antisymm hlog (Nat.le_of_lt_succ ?_)
        exact (Nat.pow_lt_pow_iff_right (by omega)).1
          (Nat.lt_of_le_of_lt (Nat.not_lt.1 hlow) (Binary64.lt_two_pow_log2 m))
      have heq : spacing m = spacing n := by rw [spacing_eq, spacing_eq, hsame]
      exact heq ▸ Binary64.add_spacing_le h0 hm hn h

theorem closed_iff (units : Nat) : closed units = true ↔ units / spacing units % 2 = 0 := by
  rw [closed, beq_iff_eq]

/-- Of two neighbours one has an odd significand. -/
theorem not_both_closed (h0 : 0 < m) (hm : spacing m ∣ m) (h : n = m + spacing m) :
    ¬ (closed m = true ∧ closed n = true) := by
  rw [closed_iff, closed_iff]
  rintro ⟨hmeven, hneven⟩
  have hpos := spacing_pos m
  have hnext : n / spacing m = m / spacing m + 1 := by
    rw [h, Nat.add_div_right _ hpos]
  have hlog := Binary64.log2_mono h0 (show m < n by omega)
  rcases Nat.eq_or_lt_of_le hlog with hlog | hlog
  · have heq : spacing m = spacing n := by rw [spacing_eq, spacing_eq, hlog]
    rw [← heq, hnext] at hneven
    omega
  · -- the neighbour is the next power of two, an even number of steps
    have htop : n = 2 ^ (m.log2 + 1) := by
      refine Nat.le_antisymm (h ▸ Binary64.add_spacing_le_two_pow hm) ?_
      exact Nat.le_trans (Nat.pow_le_pow_right (by omega) hlog)
        (Binary64.two_pow_log2_le (by omega))
    have hquotient : n / spacing m = 2 ^ (m.log2 + 1 - (m.log2 - 52)) := by
      rw [htop, spacing_eq, Nat.pow_div (by omega) (by omega)]
    have hexponent : m.log2 + 1 - (m.log2 - 52) = m.log2 - (m.log2 - 52) + 1 := by omega
    rw [hexponent, Nat.pow_succ, hnext] at hquotient
    omega

/-- **Intervals of different magnitudes** have at most an end in common, and not both own it. -/
theorem ends_apart (h0 : 0 < m) (hm : spacing m ∣ m) (hn : spacing n ∣ n) (h : m < n) :
    (interval m).2 ≤ (interval n).1 ∧
      ((interval m).2 = (interval n).1 → ¬ (closed m = true ∧ closed n = true)) := by
  have hnext := Binary64.add_spacing_le h0 hm hn h
  have hbefore := add_reach_le h0 hm hn h
  simp only [interval_eq]
  refine ⟨by omega, fun heq => not_both_closed h0 hm ?_⟩
  omega

/-! ### Rational numbers -/

/-- The rational number that a decimal is. -/
def value (d : Decimal) : ℚ := d.significand * (10 : ℚ) ^ d.exponent

/-- **The interval of a magnitude**, in half units, with its ends if it owns them. -/
def ReadAs (units : Nat) (point : ℚ) : Prop :=
  if closed units then (interval units).1 ≤ point ∧ point ≤ (interval units).2
  else (interval units).1 < point ∧ point < (interval units).2

/-- A rational number in half units. -/
def inHalfUnits (q : ℚ) : ℚ := 2 * Binary64.one * q

theorem one_pos : 0 < Binary64.one := by decide +kernel

theorem scale_pos (exponent : Int) : 0 < (scale exponent).1 ∧ 0 < (scale exponent).2 := by
  have hone := one_pos
  rw [scale]
  split
  · exact ⟨Nat.mul_pos (by omega) (Nat.pow_pos (by omega)), Nat.one_pos⟩
  · exact ⟨by omega, Nat.pow_pos (by omega)⟩

/-- A point of a decimal grid, as a quotient. -/
theorem scale_eq (exponent : Int) :
    ((scale exponent).1 : ℚ) = inHalfUnits (10 ^ exponent) * (scale exponent).2 := by
  rw [scale, inHalfUnits]
  generalize Binary64.one = one
  split
  · rename_i h
    obtain ⟨k, rfl⟩ := Int.eq_ofNat_of_zero_le h
    simp [mul_assoc]
  · rename_i h
    obtain ⟨k, hk⟩ := Int.eq_ofNat_of_zero_le (show 0 ≤ -exponent by omega)
    obtain rfl : exponent = -(k : Int) := by omega
    simp [mul_assoc]

/-- **To stand for a magnitude is to lie in its interval.** -/
theorem standsFor_iff (units significand : Nat) (exponent : Int) :
    standsFor units significand exponent = true ↔
      ReadAs units (inHalfUnits (value ⟨significand, exponent⟩)) := by
  have hden : (0 : ℚ) < (scale exponent).2 := Nat.cast_pos.2 (scale_pos exponent).2
  have hpoint : ((significand * (scale exponent).1 : Nat) : ℚ) =
      inHalfUnits (value ⟨significand, exponent⟩) * (scale exponent).2 := by
    rw [Nat.cast_mul, scale_eq, inHalfUnits, inHalfUnits, value]
    ring
  have hle : ∀ k : Nat, k * (scale exponent).2 ≤ significand * (scale exponent).1 ↔
      (k : ℚ) ≤ inHalfUnits (value ⟨significand, exponent⟩) := by
    intro k
    rw [← Nat.cast_le (α := ℚ), hpoint, Nat.cast_mul, mul_le_mul_iff_left₀ hden]
  have hge : ∀ k : Nat, significand * (scale exponent).1 ≤ k * (scale exponent).2 ↔
      inHalfUnits (value ⟨significand, exponent⟩) ≤ k := by
    intro k
    rw [← Nat.cast_le (α := ℚ), hpoint, Nat.cast_mul, mul_le_mul_iff_left₀ hden]
  rw [standsFor, ReadAs]
  split
  · rw [decide_eq_true_iff, hle, hge]
  · rw [decide_eq_true_iff, ← not_le, ← not_le, ← not_le, ← not_le, hle, hge]

/-- **A number is read as one magnitude only.** -/
theorem ReadAs.unique {q : ℚ} (hm0 : 0 < m) (hn0 : 0 < n) (hm : spacing m ∣ m)
    (hn : spacing n ∣ n) (h : ReadAs m q) (h' : ReadAs n q) : m = n := by
  have hsplit : ∀ {a b : Nat}, 0 < a → spacing a ∣ a → spacing b ∣ b → a < b →
      ReadAs a q → ReadAs b q → False := by
    intro a b h0 ha hb hlt hqa hqb
    obtain ⟨hends, hclosed⟩ := ends_apart h0 ha hb hlt
    have hends' : ((interval a).2 : ℚ) ≤ (interval b).1 := Nat.cast_le.2 hends
    rw [ReadAs] at hqa hqb
    split at hqa <;> split at hqb
    · rename_i hca hcb
      have heq : ((interval a).2 : ℚ) = (interval b).1 :=
        le_antisymm hends' (hqb.1.trans hqa.2)
      exact hclosed (Nat.cast_injective heq) ⟨hca, hcb⟩
    all_goals linarith [hqa.1, hqa.2, hqb.1, hqb.2]
  rcases Nat.lt_trichotomy m n with hlt | heq | hlt
  · exact (hsplit hm0 hm hn hlt h h').elim
  · exact heq
  · exact (hsplit hn0 hn hm hlt h' h).elim

/-- What is read as a magnitude is positive. -/
theorem ReadAs.pos {q : ℚ} (hm0 : 0 < m) (h : ReadAs m q) : 0 < q := by
  have hlow : 0 < (interval m).1 := by
    have hreach := Nat.le_trans (reach_le_spacing m) (Binary64.spacing_le hm0)
    rw [interval_eq]
    simp only
    omega
  have hlow' : (0 : ℚ) < (interval m).1 := Nat.cast_pos.2 hlow
  rw [ReadAs] at h
  split at h
  · exact hlow'.trans_le h.1
  · exact hlow'.trans h.1

/-! ### Seventeen digits -/

/-- The interval goes so far down that 53 bits more reach the magnitude. -/
theorem le_reach_mul (units : Nat) : units ≤ reach units * 2 ^ 53 := by
  by_cases h : units = 2 ^ units.log2 ∧ 53 ≤ units.log2
  · rw [reach_of_half h, ← Nat.pow_add, Nat.sub_add_cancel h.2]
    exact h.1.le
  · rw [reach, if_neg h, spacing_eq, ← Nat.pow_add]
    exact (Binary64.lt_two_pow_log2 units).le.trans (Nat.pow_le_pow_right (by omega) (by omega))

/-- What lies strictly inside the interval stands for the magnitude. -/
theorem standsFor_of_inside {units significand : Nat} {exponent : Int}
    (hlow : (interval units).1 * (scale exponent).2 < significand * (scale exponent).1)
    (hhigh : significand * (scale exponent).1 < (interval units).2 * (scale exponent).2) :
    standsFor units significand exponent = true := by
  rw [standsFor]
  split
  · exact decide_eq_true ⟨hlow.le, hhigh.le⟩
  · exact decide_eq_true ⟨hlow, hhigh⟩

/-- On a fine grid half a step is less than the interval goes down. -/
theorem half_step_lt {t num den : Nat} (hden : 0 < den) (ht : 2 * t ≤ num)
    (hfine : num * 10 ^ 16 ≤ 2 * m * den) : t < reach m * den := by
  have hpos : 0 < reach m * den := Nat.mul_pos (reach_pos m) hden
  have hreach : m * den ≤ reach m * den * 2 ^ 53 := by
    calc m * den ≤ reach m * 2 ^ 53 * den := Nat.mul_le_mul_right _ (le_reach_mul m)
      _ = reach m * den * 2 ^ 53 := by ring
  have hdouble : 2 * m * den = 2 * (m * den) := by ring
  norm_num at hreach hfine
  omega

/-- On a fine grid one of the two points around a magnitude stands for it. -/
theorem onGrid_isSome (tie : Tie) {exponent : Int} (hm0 : 0 < m)
    (hfine : (scale exponent).1 * 10 ^ 16 ≤ 2 * m * (scale exponent).2) :
    (onGrid tie m exponent).isSome = true := by
  obtain ⟨hnum, hden⟩ := scale_pos exponent
  suffices hfits : standsFor m (2 * m * (scale exponent).2 / (scale exponent).1) exponent = true ∨
      standsFor m (2 * m * (scale exponent).2 / (scale exponent).1 + 1) exponent = true by
    rw [onGrid]
    split
    · rfl
    · rename_i hlow
      split
      · rfl
      · rename_i hhigh
        rcases hfits with h | h
        · simp [h, hhigh] at hlow
        · exact absurd h hhigh
  have hreach := Nat.le_trans (reach_le_spacing m) (Binary64.spacing_le hm0)
  have hspacing := Nat.mul_le_mul_right (scale exponent).2 (reach_le_spacing m)
  have hlower : (interval m).1 * (scale exponent).2 + reach m * (scale exponent).2 =
      2 * m * (scale exponent).2 := by
    rw [interval_eq, ← Nat.add_mul]
    congr 1
    simp only
    omega
  have hupper : (interval m).2 * (scale exponent).2 =
      2 * m * (scale exponent).2 + spacing m * (scale exponent).2 := by
    rw [interval_eq, ← Nat.add_mul]
  have hdiv := Nat.div_add_mod (2 * m * (scale exponent).2) (scale exponent).1
  have hmod := Nat.mod_lt (2 * m * (scale exponent).2) hnum
  rw [Nat.mul_comm] at hdiv
  by_cases hnear : 2 * (2 * m * (scale exponent).2 % (scale exponent).1) ≤ (scale exponent).1
  · have hlt := half_step_lt hden hnear hfine
    exact .inl (standsFor_of_inside (by omega) (by omega))
  · have hlt := half_step_lt (t := (scale exponent).1 - 2 * m * (scale exponent).2 %
      (scale exponent).1) hden (by omega) hfine
    refine .inr (standsFor_of_inside ?_ ?_) <;> rw [Nat.add_mul, Nat.one_mul] <;> omega

theorem onGrid_standsFor {tie : Tie} {exponent : Int} {d : Decimal}
    (h : onGrid tie m exponent = some d) : standsFor m d.significand d.exponent = true := by
  simp only [onGrid] at h
  split at h
  · rename_i hlow
    cases h
    exact (Bool.and_eq_true_iff.1 hlow).1
  · split at h
    · rename_i hhigh
      cases h
      exact hhigh
    · cases h

/-- A number of so many digits is not less than the power of ten with as many. -/
theorem ten_pow_le_of_length {k : Nat} (h0 : 0 < n) (hk : (digits n).length = k + 1) :
    10 ^ k ≤ n := by
  rcases Nat.eq_zero_or_pos k with rfl | hpos
  · exact h0
  · refine Nat.not_lt.1 fun hlt => ?_
    have hlength := (Nat.length_toDigits_le_iff (by omega) hpos).2 hlt
    rw [digits] at hk
    omega

/-- The first digit of a quotient, found by moving the point so far that there is one. -/
theorem first_digit_le {shift den : Nat} (hden : 0 < den) (h : 0 < m * Nat.pow 10 shift / den) :
    (den : ℚ) * (10 : ℚ) ^ (((digits (m * Nat.pow 10 shift / den)).length : Int) -
      (shift + 1 : Nat)) ≤ m := by
  obtain ⟨k, hk⟩ : ∃ k, (digits (m * Nat.pow 10 shift / den)).length = k + 1 :=
    Nat.exists_eq_succ_of_ne_zero Nat.length_toDigits_pos.ne'
  have hnat : 10 ^ k * den ≤ m * 10 ^ shift :=
    (Nat.le_div_iff_mul_le hden).1 (ten_pow_le_of_length h hk)
  have hexponent : ((k + 1 : Nat) : Int) - (shift + 1 : Nat) = k - shift := by omega
  rw [hk, hexponent, zpow_sub₀ (by norm_num), zpow_natCast, zpow_natCast, ← mul_div_assoc,
    div_le_iff₀ (by positivity), mul_comm]
  exact_mod_cast hnat

/-- The first digit of a magnitude stands where the grid puts it. -/
theorem ten_pow_magnitude_le (hm0 : 0 < m) :
    (Binary64.one : ℚ) * (10 : ℚ) ^ magnitude m ≤ m := by
  have hone : Binary64.one ≤ Nat.pow 10 330 := by decide +kernel
  have hscaled := Nat.div_pos (hone.trans (Nat.le_mul_of_pos_left _ hm0)) one_pos
  have hfirst := first_digit_le one_pos hscaled
  rwa [magnitude]

/-- With sixteen digits after the first one the grid is fine. -/
theorem fine_grid (hm0 : 0 < m) :
    (scale (magnitude m - 16)).1 * 10 ^ 16 ≤ 2 * m * (scale (magnitude m - 16)).2 := by
  have hsplit : (10 : ℚ) ^ (magnitude m - 16) * 10 ^ 16 = 10 ^ magnitude m := by
    rw [← zpow_natCast, ← zpow_add₀ (by norm_num)]
    congr 1
    omega
  have hfirst := ten_pow_magnitude_le hm0
  have hscale := scale_eq (magnitude m - 16)
  generalize scale (magnitude m - 16) = s at *
  have hden : (0 : ℚ) ≤ s.2 := Nat.cast_nonneg _
  have hcast : (s.1 : ℚ) * (10 : ℚ) ^ 16 ≤ 2 * m * s.2 := by
    calc (s.1 : ℚ) * (10 : ℚ) ^ 16
        = 2 * ((Binary64.one : ℚ) * ((10 : ℚ) ^ (magnitude m - 16) * 10 ^ 16)) * (s.2 : ℚ) := by
          rw [hscale, inHalfUnits]
          ring
      _ ≤ 2 * (m : ℚ) * (s.2 : ℚ) := by
          rw [hsplit]
          exact mul_le_mul_of_nonneg_right (by linarith) hden
  exact_mod_cast hcast

/-! ### The shortest decimal -/

/-- Zeros at the end are worth nothing. -/
theorem trim_value (fuel : Nat) (d : Decimal) : (trim fuel d).value = d.value := by
  induction fuel generalizing d with
  | zero => rfl
  | succ fuel ih =>
      rw [trim]
      split
      · rename_i h
        have hten : d.significand = 10 * (d.significand / 10) := by omega
        rw [ih, value, value, zpow_add_one₀ (by norm_num)]
        conv_rhs => rw [hten]
        push_cast
        ring
      · rfl

/-- **The shortest decimal is read as the magnitude** that it was made for. -/
theorem shortest_readAs (tie : Tie) (hm0 : 0 < m) :
    ReadAs m (inHalfUnits (shortest tie m).value) := by
  rw [shortest]
  simp only [trim_value]
  cases hfound : (List.range 17).findSome? fun (n : Nat) => onGrid tie m (magnitude m - n) with
  | none =>
      have hnone := List.findSome?_eq_none_iff.1 hfound 16 (by simp)
      have hsome := onGrid_isSome tie hm0 (fine_grid hm0)
      rw [Nat.cast_ofNat] at hnone
      rw [hnone] at hsome
      cases hsome
  | some d =>
      obtain ⟨n, -, hgrid⟩ := List.exists_of_findSome?_eq_some hfound
      exact (standsFor_iff ..).1 (onGrid_standsFor hgrid)

/-- Nothing but zero is worth nothing. -/
theorem shortest_value_pos (tie : Tie) (hm0 : 0 < m) : 0 < (shortest tie m).value := by
  have hpos := (shortest_readAs tie hm0).pos hm0
  have hone : (0 : ℚ) < 2 * Binary64.one := mul_pos two_pos (Nat.cast_pos.2 one_pos)
  exact (mul_pos_iff_of_pos_left hone).1 hpos

/-- **Different magnitudes have different shortest decimals.** -/
theorem shortest_injective {tie tie' : Tie} (hm0 : 0 < m) (hn0 : 0 < n) (hm : spacing m ∣ m)
    (hn : spacing n ∣ n) (h : (shortest tie m).value = (shortest tie' n).value) : m = n :=
  ReadAs.unique hm0 hn0 hm hn (shortest_readAs tie hm0) (h ▸ shortest_readAs tie' hn0)

end Decimal

end Schemata
