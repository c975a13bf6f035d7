/-
**The text of a number tells the number.**

Whatever its layout, the text of a finite number has a value that can be read off it: the digits as
one natural number, moved by the point and by the exponent.  The value is that of the shortest
decimal, which stands for one magnitude only, and a sign in front is not a digit.  So different
numbers have different texts.  A layout that keeps the point has no text in common with integers.

Main definitions:

* `Schemata.Numeral.cut` — the parts of a text before and after a mark;
* `Schemata.Numeral.value` — **the value of a text**.

Main results:

* `Schemata.Numeral.value_positionalText`, `Schemata.Numeral.value_scientificText` — the value in
  both notations;
* `Schemata.Layout.write_injective` — **different numbers have different texts**;
* `Schemata.Layout.marked_write` — floating-point numbers do not look like integers.
-/

import Mathlib.Data.List.TakeWhile
import Schemata.Decimal.Layout
import Schemata.Proofs.ShortestDecimals

set_option relaxedAutoImplicit false
set_option autoImplicit false

namespace Schemata

namespace Numeral

/-! ### Reading a text -/

/-- Nothing but digits. -/
def Digits (ds : List Char) : Prop := ∀ c ∈ ds, c.isDigit = true

/-- The parts of a text before and after a mark. -/
def cut (mark : Char) (cs : List Char) : List Char × List Char :=
  (cs.takeWhile (· != mark), (cs.dropWhile (· != mark)).drop 1)

/-- The value of an exponent: digits, after a sign if there is one. -/
def exponent : List Char → Int
  | '-' :: ds => -(Nat.ofDigitChars 10 ds 0 : Int)
  | '+' :: ds => Nat.ofDigitChars 10 ds 0
  | ds => Nat.ofDigitChars 10 ds 0

/-- **The value of a text**: its digits as one natural number, moved by the point and the
exponent. -/
def value (cs : List Char) : ℚ :=
  let parts := cut '.' (cut 'e' cs).1
  Nat.ofDigitChars 10 (parts.1 ++ parts.2) 0 *
    (10 : ℚ) ^ (exponent (cut 'e' cs).2 - parts.2.length)

section

variable {mark : Char} {ds es cs : List Char}

theorem digits_toDigits (n : Nat) : Digits (Decimal.digits n) :=
  fun _ hc => Nat.isDigit_of_mem_toDigits (by omega) (by omega) hc

theorem Digits.append (hd : Digits ds) (he : Digits es) : Digits (ds ++ es) := by
  intro c hc
  rcases List.mem_append.1 hc with hc | hc
  · exact hd c hc
  · exact he c hc

theorem Digits.sublist (hd : Digits ds) (h : es.Sublist ds) : Digits es :=
  fun c hc => hd c (h.subset hc)

theorem digits_zeros (n : Nat) : Digits (List.replicate n '0') := by
  intro c hc
  rw [List.eq_of_mem_replicate hc]
  rfl

theorem Digits.not_mem (hd : Digits ds) (hmark : mark.isDigit = false) : mark ∉ ds := by
  intro hmem
  rw [hd mark hmem] at hmark
  cases hmark

theorem cut_of_not_mem (h : mark ∉ cs) : cut mark cs = (cs, []) := by
  have hall : ∀ c ∈ cs, (c != mark) = true := fun c hc => bne_iff_ne.2 fun he => h (he ▸ hc)
  rw [cut, List.takeWhile_eq_self_iff.2 hall, List.dropWhile_eq_nil_iff.2 hall, List.drop_nil]

theorem cut_append (h : mark ∉ cs) (rest : List Char) :
    cut mark (cs ++ mark :: rest) = (cs, rest) := by
  have hall : ∀ c ∈ cs, (c != mark) = true := fun c hc => bne_iff_ne.2 fun he => h (he ▸ hc)
  rw [cut, List.takeWhile_append_of_pos hall, List.dropWhile_append_of_pos hall]
  simp

theorem exponent_digits (hd : Digits ds) : exponent ds = Nat.ofDigitChars 10 ds 0 := by
  unfold exponent
  split
  · cases hd '-' List.mem_cons_self
  · cases hd '+' List.mem_cons_self
  · rfl

/-- The value without an exponent. -/
theorem value_digits (hd : Digits ds) : value ds = Nat.ofDigitChars 10 ds 0 := by
  rw [value, cut_of_not_mem (hd.not_mem rfl), cut_of_not_mem (hd.not_mem rfl)]
  simp [exponent]

theorem value_point (hd : Digits ds) (he : Digits es) :
    value (ds ++ '.' :: es) =
      Nat.ofDigitChars 10 (ds ++ es) 0 * (10 : ℚ) ^ (-(es.length : Int)) := by
  have hnot : 'e' ∉ ds ++ '.' :: es := by
    have hds : 'e' ∉ ds := hd.not_mem rfl
    have hes : 'e' ∉ es := he.not_mem rfl
    simp [hds, hes]
  rw [value, cut_of_not_mem hnot, cut_append (hd.not_mem rfl)]
  simp [exponent]

/-- An exponent moves the point. -/
theorem value_exponent (h : 'e' ∉ cs) (rest : List Char) :
    value (cs ++ 'e' :: rest) = value cs * (10 : ℚ) ^ exponent rest := by
  rw [value, value, cut_append h, cut_of_not_mem h]
  have hnil : exponent [] = 0 := rfl
  simp only [hnil]
  rw [mul_assoc, ← zpow_add₀ (by norm_num)]
  congr 2
  omega

end

/-! ### Both notations -/

section

variable {ds : List Char}

/-- **The value in positional notation.** -/
theorem value_positionalText (hd : Digits ds) (keepsPoint : Bool) (first : Int) :
    value (Layout.positionalText keepsPoint ds first) =
      Nat.ofDigitChars 10 ds 0 * (10 : ℚ) ^ (first + 1 - ds.length) := by
  have hzero : Digits ['0'] := digits_zeros 1
  rw [Layout.positionalText]
  split
  · rename_i hneg
    have hvalue := value_point hzero ((digits_zeros (-first - 1).toNat).append hd)
    rw [show ['0'] ++ '.' :: (List.replicate (-first - 1).toNat '0' ++ ds) =
      '0' :: '.' :: (List.replicate (-first - 1).toNat '0' ++ ds) from rfl] at hvalue
    rw [hvalue, ← List.append_assoc, Nat.ofDigitChars_append,
      show ['0'] ++ List.replicate (-first - 1).toNat '0' =
        List.replicate ((-first - 1).toNat + 1) '0' from List.replicate_succ.symm,
      Nat.ofDigitChars_replicate_zero, Nat.mul_zero, List.length_append, List.length_replicate]
    congr 2
    omega
  · rename_i hpos
    simp only
    split
    · rename_i hlength
      have hzeros := digits_zeros (first.toNat + 1 - ds.length)
      have hwhole : (Nat.ofDigitChars 10 (ds ++
          List.replicate (first.toNat + 1 - ds.length) '0') 0 : ℚ) =
            Nat.ofDigitChars 10 ds 0 * (10 : ℚ) ^ (first + 1 - ds.length) := by
        have hexponent : first + 1 - ds.length = (first.toNat + 1 - ds.length : Nat) := by omega
        rw [Nat.ofDigitChars_append, Nat.ofDigitChars_replicate_zero, hexponent, zpow_natCast,
          Nat.cast_mul, Nat.cast_pow, mul_comm]
        rfl
      cases keepsPoint with
      | false =>
          rw [← hwhole, if_neg (by simp), List.append_nil]
          exact value_digits (hd.append hzeros)
      | true =>
          rw [← hwhole, if_pos rfl]
          rw [value_point (hd.append hzeros) hzero, Nat.ofDigitChars_append]
          simp only [Nat.ofDigitChars_cons, Nat.ofDigitChars_nil]
          norm_num
          ring
    · rename_i hlength
      have htake := hd.sublist (List.take_sublist (first.toNat + 1) ds)
      have hdrop := hd.sublist (List.drop_sublist (first.toNat + 1) ds)
      rw [value_point htake hdrop, List.take_append_drop, List.length_drop]
      congr 2
      omega

/-- **The value in scientific notation.** -/
theorem value_scientificText (hd : Digits ds) (hne : ds ≠ []) (signs : Bool) (first : Int) :
    value (Layout.scientificText signs ds first) =
      Nat.ofDigitChars 10 ds 0 * (10 : ℚ) ^ (first + 1 - ds.length) := by
  obtain ⟨d, more, rfl⟩ := List.exists_cons_of_ne_nil hne
  have hsign : exponent ((if first < 0 then ['-'] else if signs then ['+'] else []) ++
      Decimal.digits first.natAbs) = first := by
    have hdigits := digits_toDigits first.natAbs
    split
    · rename_i hneg
      rw [List.singleton_append, exponent, Decimal.digits, Nat.ofDigitChars_ten_toDigits]
      omega
    · split
      · rw [List.singleton_append, exponent, Decimal.digits, Nat.ofDigitChars_ten_toDigits]
        omega
      · rw [List.nil_append, exponent_digits hdigits, Decimal.digits,
          Nat.ofDigitChars_ten_toDigits]
        omega
  have hhead : Digits [d] := hd.sublist (by simp)
  have hmore : Digits more := hd.sublist (List.sublist_cons_self d more)
  have hexponent : (10 : ℚ) ^ (first + 1 - ((d :: more).length : Int)) =
      (10 : ℚ) ^ (-(more.length : Int)) * (10 : ℚ) ^ first := by
    rw [← zpow_add₀ (by norm_num), List.length_cons]
    congr 1
    omega
  rw [Layout.scientificText, hexponent, ← mul_assoc]
  cases more with
  | nil =>
      refine (value_exponent (hhead.not_mem rfl) _).trans ?_
      rw [hsign, value_digits hhead]
      simp
  | cons c more =>
      have hnot : 'e' ∉ [d] ++ '.' :: c :: more := by
        have hds : 'e' ∉ d :: c :: more := hd.not_mem rfl
        simp at hds ⊢
        exact hds
      refine (value_exponent hnot _).trans ?_
      rw [hsign, value_point hhead hmore]
      rfl

end

end Numeral

namespace Layout

open Binary64 (spacing)

variable {l : Layout} {m n : Nat}

/-! ### Magnitudes -/

theorem ofDigitChars_digits (n : Nat) : Nat.ofDigitChars 10 (Decimal.digits n) 0 = n :=
  Nat.ofDigitChars_ten_toDigits

theorem value_magnitudeText_zero (l : Layout) : Numeral.value (l.magnitudeText 0) = 0 := by
  have hzero : Numeral.Digits ['0'] := Numeral.digits_zeros 1
  rw [magnitudeText, if_pos rfl, Numeral.value_positionalText hzero]
  simp [Nat.ofDigitChars_cons]

/-- The value of a decimal, from its digits and where the first of them stands. -/
theorem decimal_value_eq (d : Decimal) :
    d.value = Nat.ofDigitChars 10 (Decimal.digits d.significand) 0 *
      (10 : ℚ) ^ (d.leadingExponent + 1 - (Decimal.digits d.significand).length) := by
  have hexponent : d.leadingExponent + 1 - (Decimal.digits d.significand).length = d.exponent := by
    rw [Decimal.leadingExponent]
    omega
  rw [ofDigitChars_digits, hexponent, Decimal.value]

/-- **The text of a magnitude has the value of its shortest decimal.** -/
theorem value_magnitudeText (l : Layout) (hm0 : 0 < m) :
    Numeral.value (l.magnitudeText m) = (Decimal.shortest l.tie m).value := by
  rw [magnitudeText, if_neg hm0.ne']
  generalize Decimal.shortest l.tie m = d
  have hdigits := Numeral.digits_toDigits d.significand
  rw [decimal_value_eq]
  simp only
  split
  · exact Numeral.value_positionalText hdigits ..
  · split
    · exact Numeral.value_positionalText hdigits ..
    · exact Numeral.value_scientificText hdigits Nat.toDigits_ne_nil ..

/-- **Different magnitudes have different texts.** -/
theorem magnitudeText_injective (hm : spacing m ∣ m) (hn : spacing n ∣ n)
    (h : l.magnitudeText m = l.magnitudeText n) : m = n := by
  have hvalue := congrArg Numeral.value h
  rcases Nat.eq_zero_or_pos m with rfl | hm0 <;> rcases Nat.eq_zero_or_pos n with rfl | hn0
  · rfl
  · rw [value_magnitudeText_zero, value_magnitudeText l hn0] at hvalue
    exact absurd hvalue (Decimal.shortest_value_pos _ hn0).ne
  · rw [value_magnitudeText_zero, value_magnitudeText l hm0] at hvalue
    exact absurd hvalue (Decimal.shortest_value_pos _ hm0).ne'
  · rw [value_magnitudeText l hm0, value_magnitudeText l hn0] at hvalue
    exact Decimal.shortest_injective hm0 hn0 hm hn hvalue

/-! ### The characters of a text -/

/-- The characters that texts of numbers are made of. -/
def Numeric (c : Char) : Prop := c.isDigit = true ∨ c ∈ ['-', '+', '.', 'e']

/-- A text that is made of them and begins with a digit. -/
def Plain (cs : List Char) : Prop :=
  (∃ d rest, cs = d :: rest ∧ d.isDigit = true) ∧ ∀ c ∈ cs, Numeric c

/-- A text that begins with a digit or a minus sign. -/
def Signed (cs : List Char) : Prop := ∃ c rest, cs = c :: rest ∧ (c.isDigit = true ∨ c = '-')

/-- A text that no integer has. -/
def Marked (cs : List Char) : Prop := '.' ∈ cs ∨ 'e' ∈ cs

section

variable {ds cs : List Char}

theorem numeric_of_digits (hd : Numeral.Digits ds) : ∀ c ∈ ds, Numeric c :=
  fun c hc => .inl (hd c hc)

theorem plain_of_digits (hd : Numeral.Digits ds) (hne : ds ≠ []) (h : ∀ c ∈ cs, Numeric c) :
    Plain (ds ++ cs) := by
  obtain ⟨d, rest, rfl⟩ := List.exists_cons_of_ne_nil hne
  refine ⟨⟨d, rest ++ cs, rfl, hd d List.mem_cons_self⟩, fun c hc => ?_⟩
  rcases List.mem_append.1 hc with hc | hc
  · exact numeric_of_digits hd c hc
  · exact h c hc

theorem plain_positionalText (hd : Numeral.Digits ds) (hne : ds ≠ []) (keepsPoint : Bool)
    (first : Int) : Plain (positionalText keepsPoint ds first) := by
  have hzero : Numeral.Digits ['0'] := Numeral.digits_zeros 1
  have hpoint : Numeric '.' := .inr (by simp)
  have hmore : ∀ {es : List Char}, Numeral.Digits es → ∀ c ∈ '.' :: es, Numeric c := by
    intro es he c hc
    rcases List.mem_cons.1 hc with rfl | hc
    · exact hpoint
    · exact numeric_of_digits he c hc
  rw [positionalText]
  split
  · exact plain_of_digits hzero (by simp) (hmore ((Numeral.digits_zeros _).append hd))
  · simp only
    split
    · rw [List.append_assoc]
      refine plain_of_digits hd hne fun c hc => ?_
      rcases List.mem_append.1 hc with hc | hc
      · exact numeric_of_digits (Numeral.digits_zeros _) c hc
      · split at hc
        · exact hmore (Numeral.digits_zeros 1) c hc
        · cases hc
    · have hdrop := hd.sublist (List.drop_sublist (first.toNat + 1) ds)
      exact plain_of_digits (hd.sublist (List.take_sublist (first.toNat + 1) ds)) (by simpa)
        (hmore hdrop)

theorem plain_scientificText (hd : Numeral.Digits ds) (hne : ds ≠ []) (signs : Bool)
    (first : Int) : Plain (scientificText signs ds first) := by
  have hmore := hd.sublist (List.drop_sublist 1 ds)
  rw [scientificText, List.append_assoc]
  refine plain_of_digits (hd.sublist (List.take_sublist 1 ds)) (by simpa) fun c hc => ?_
  rcases List.mem_append.1 hc with hc | hc
  · generalize ds.drop 1 = more at hmore hc
    cases more with
    | nil => cases hc
    | cons d rest =>
        rcases List.mem_cons.1 hc with rfl | hc
        · exact .inr (by simp)
        · exact numeric_of_digits hmore c hc
  · rcases List.mem_cons.1 hc with rfl | hc
    · exact .inr (by simp)
    · rcases List.mem_append.1 hc with hc | hc
      · refine .inr ?_
        split at hc
        · simp_all
        · split at hc <;> simp_all
      · exact numeric_of_digits (Numeral.digits_toDigits _) c hc

end

theorem plain_magnitudeText (l : Layout) (units : Nat) : Plain (l.magnitudeText units) := by
  rw [magnitudeText]
  split
  · exact plain_positionalText (Numeral.digits_zeros 1) (by simp) ..
  · generalize Decimal.shortest l.tie units = d
    have hdigits := Numeral.digits_toDigits d.significand
    simp only
    split
    · exact plain_positionalText hdigits Nat.toDigits_ne_nil ..
    · split
      · exact plain_positionalText hdigits Nat.toDigits_ne_nil ..
      · exact plain_scientificText hdigits Nat.toDigits_ne_nil ..

theorem marked_positionalText (ds : List Char) (first : Int) :
    Marked (positionalText true ds first) := by
  rw [positionalText]
  refine .inl ?_
  split
  · simp
  · simp only
    split <;> simp

theorem marked_magnitudeText (hl : l.keepsPoint = true) (units : Nat) :
    Marked (l.magnitudeText units) := by
  rw [magnitudeText, hl]
  split
  · exact marked_positionalText ..
  · simp only
    split
    · exact marked_positionalText ..
    · split
      · exact marked_positionalText ..
      · exact .inr (by simp [scientificText])

/-! ### Numbers -/

theorem toList_write (l : Layout) (negative : Bool) (units : Nat) :
    (l.write (.finite negative units)).toList =
      (if negative then ['-'] else []) ++ l.magnitudeText units := by
  rw [write, String.toList_ofList]

/-- **Different numbers have different texts.** -/
theorem write_injective {x y : Binary64} (hx : x.Finite) (hy : y.Finite)
    (h : l.write x = l.write y) : x = y := by
  obtain ⟨negative, m, rfl, hm, -⟩ := hx
  obtain ⟨negative', n, rfl, hn, -⟩ := hy
  have htext := congrArg String.toList h
  rw [toList_write, toList_write] at htext
  -- a magnitude begins with a digit, so the signs are the same
  obtain ⟨⟨d, rest, hd, hdigit⟩, -⟩ := plain_magnitudeText l m
  obtain ⟨⟨e, more, he, hdigit'⟩, -⟩ := plain_magnitudeText l n
  have hminus : ∀ {c : Char}, c.isDigit = true → c ≠ '-' := by
    rintro c hc rfl
    cases hc
  cases negative <;> cases negative' <;> simp only [Bool.false_eq_true, if_true, if_false,
    List.nil_append, List.cons_append] at htext
  · rw [magnitudeText_injective hm hn htext]
  · rw [hd] at htext
    exact absurd (List.cons.inj htext).1 (hminus hdigit)
  · rw [he] at htext
    exact absurd (List.cons.inj htext).1.symm (hminus hdigit')
  · rw [magnitudeText_injective hm hn (List.cons.inj htext).2]

/-- Texts of finite numbers are made of digits, signs and marks. -/
theorem numeric_write {x : Binary64} (hx : x.Finite) : ∀ c ∈ (l.write x).toList, Numeric c := by
  obtain ⟨negative, m, rfl, -, -⟩ := hx
  intro c hc
  rw [toList_write] at hc
  rcases List.mem_append.1 hc with hc | hc
  · split at hc
    · exact .inr (by simp_all)
    · cases hc
  · exact (plain_magnitudeText l m).2 c hc

theorem signed_append (negative : Prop) [Decidable negative] {cs : List Char}
    (h : ∃ d rest, cs = d :: rest ∧ d.isDigit = true) :
    Signed ((if negative then ['-'] else []) ++ cs) := by
  obtain ⟨d, rest, rfl, hd⟩ := h
  split
  · exact ⟨'-', _, rfl, .inr rfl⟩
  · exact ⟨d, _, rfl, .inl hd⟩

theorem signed_write {x : Binary64} (hx : x.Finite) : Signed (l.write x).toList := by
  obtain ⟨negative, m, rfl, -, -⟩ := hx
  rw [toList_write]
  exact signed_append _ (plain_magnitudeText l m).1

/-- **Floating-point numbers do not look like integers** in a layout that keeps the point. -/
theorem marked_write (hl : l.keepsPoint = true) {x : Binary64} (hx : x.Finite) :
    Marked (l.write x).toList := by
  obtain ⟨negative, m, rfl, -, -⟩ := hx
  rw [toList_write]
  exact (marked_magnitudeText hl m).imp (List.mem_append_right _) (List.mem_append_right _)

end Layout

/-! ### Integers -/

theorem toList_toString_int (i : Int) :
    (toString i).toList = (if i < 0 then ['-'] else []) ++ Decimal.digits i.natAbs := by
  have hrepr : toString i = i.repr := rfl
  rw [hrepr, Int.repr_eq_if]
  split
  · rename_i h
    have habs : i.toNat = i.natAbs := by omega
    rw [Nat.repr_eq_ofList_toDigits, String.toList_ofList, if_neg (by omega), habs]
    rfl
  · rename_i h
    have habs : (-i).toNat = i.natAbs := by omega
    rw [String.toList_append, Nat.repr_eq_ofList_toDigits, String.toList_ofList,
      String.toList_ofList, if_pos (by omega), habs]
    rfl

theorem numeric_toString_int (i : Int) : ∀ c ∈ (toString i).toList, Layout.Numeric c := by
  intro c hc
  rw [toList_toString_int] at hc
  rcases List.mem_append.1 hc with hc | hc
  · split at hc
    · exact .inr (by simp_all)
    · cases hc
  · exact .inl (Numeral.digits_toDigits _ c hc)

theorem signed_toString_int (i : Int) : Layout.Signed (toString i).toList := by
  have hdigits := Numeral.digits_toDigits i.natAbs
  have hne : Decimal.digits i.natAbs ≠ [] := Nat.toDigits_ne_nil
  obtain ⟨d, rest, hd⟩ := List.exists_cons_of_ne_nil hne
  rw [toList_toString_int]
  exact Layout.signed_append _ ⟨d, rest, hd, hdigits d (hd ▸ List.mem_cons_self)⟩

/-- **Different integers have different texts.** -/
theorem toString_int_injective {i j : Int} (h : toString i = toString j) : i = j := by
  have htext := congrArg String.toList h
  rw [toList_toString_int, toList_toString_int] at htext
  have hminus : ∀ {n : Nat} {ds : List Char}, Decimal.digits n = '-' :: ds → False := by
    intro n ds hds
    have hdigit := Numeral.digits_toDigits n '-' (hds ▸ List.mem_cons_self)
    cases hdigit
  have hvalue : ∀ {m n : Nat}, Decimal.digits m = Decimal.digits n → m = n := by
    intro m n hmn
    rw [← Layout.ofDigitChars_digits m, hmn, Layout.ofDigitChars_digits]
  split at htext <;> split at htext
  · have habs := hvalue (List.cons.inj htext).2
    omega
  · exact (hminus htext.symm).elim
  · exact (hminus htext).elim
  · have habs := hvalue htext
    omega

/-- Integers have no point and no exponent. -/
theorem not_marked_toString_int (i : Int) : ¬ Layout.Marked (toString i).toList := by
  have hdigits := Numeral.digits_toDigits i.natAbs
  have hpoint : '.' ∉ Decimal.digits i.natAbs := hdigits.not_mem rfl
  have hexponent : 'e' ∉ Decimal.digits i.natAbs := hdigits.not_mem rfl
  rw [toList_toString_int, Layout.Marked]
  split <;> simp [hpoint, hexponent]

end Schemata
