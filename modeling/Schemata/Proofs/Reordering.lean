/-
**Values up to the order of keys.**

Equality of values does not look at the order of the entries of objects, at any depth.  It is defined
from one side: each entry of the first object is looked up in the second.  On well-formed values,
whose objects have distinct keys, it is symmetric, and two objects are equal exactly when each key
finds equal values in both of them or nothing in either.  In this form equality survives taking keys
out, whatever this does to the order of what is left.

Most of what is read off a value when it is parsed cannot tell equal values apart: whether it is a
scalar or a literal, and whether it carries a tag.

Main definitions:

* `Schemata.Value.Matched` — equality, one level deep;
* `Schemata.Value.Reordered` — **well-formed values that are equal**;
* `Schemata.Entries.Reordered` — entries of which each key finds the same in both.

Main results:

* `Schemata.Value.equal_trans`, `Schemata.Value.equal_symm` — equality is transitive, and symmetric
  on well-formed values;
* `Schemata.Value.Reordered.of_object`, `Schemata.Entries.Reordered.remove` — objects by their keys;
* `Schemata.Value.equal_object` — objects with equal values under the same keys;
* `Schemata.Scalar.read?_reordered`, `Schemata.Literal.accepts_reordered`,
  `Schemata.admitted_reordered` — what cannot tell values apart.
-/

import Schemata.Proofs.AlikeResults
import Schemata.Proofs.Guardedness
import Schemata.Proofs.Literals

set_option relaxedAutoImplicit false
set_option autoImplicit false

namespace Schemata

/-! ### Numbers -/

namespace Binary64

variable {x y : Binary64}

/-- Equal numbers are the same number, or both are zero. -/
theorem eq_or_zero_of_numEq (h : x.numEq y = true) :
    x = y ∨ ∃ a b, x = .finite a 0 ∧ y = .finite b 0 := by
  refine eq_or_zero_of_same ?_
  cases x <;> cases y <;> first | exact h | rfl

/-- Both zeros are the integer zero. -/
theorem int32?_of_numEq (h : x.numEq y = true) : x.int32? = y.int32? := by
  obtain rfl | ⟨a, b, rfl, rfl⟩ := eq_or_zero_of_numEq h
  · rfl
  · simp only [int32?, isIntegral, truncate, Nat.zero_mod, Nat.zero_div]
    cases a <;> cases b <;> rfl

theorem same_of_numEq (h : x.numEq y = true) (z : Binary64) : x.same z = y.same z := by
  obtain rfl | ⟨a, b, rfl, rfl⟩ := eq_or_zero_of_numEq h
  · rfl
  · exact zero_same a b z

theorem same_of_numEq_right (h : x.numEq y = true) (z : Binary64) : z.same x = z.same y := by
  obtain rfl | ⟨a, b, rfl, rfl⟩ := eq_or_zero_of_numEq h
  · rfl
  · exact same_zero a b z

theorem le_of_numEq (h : x.numEq y = true) (z : Binary64) : x.le z = y.le z := by
  obtain rfl | ⟨a, b, rfl, rfl⟩ := eq_or_zero_of_numEq h
  · rfl
  · cases z <;> simp [le, lt, numEq]

theorem le_of_numEq_right (h : x.numEq y = true) (z : Binary64) : z.le x = z.le y := by
  obtain rfl | ⟨a, b, rfl, rfl⟩ := eq_or_zero_of_numEq h
  · rfl
  · cases z with
    | finite c k =>
        -- a number that is not zero equals neither of the zeros
        cases k <;> simp [le, lt, numEq]
    | _ => rfl

theorem numEq_symm (h : x.numEq y = true) : y.numEq x = true := by
  obtain rfl | ⟨a, b, rfl, rfl⟩ := eq_or_zero_of_numEq h
  · exact h
  · simp [numEq]

theorem numEq_trans {z : Binary64} (h : x.numEq y = true) (h' : y.numEq z = true) :
    x.numEq z = true := by
  obtain rfl | ⟨a, b, rfl, rfl⟩ := eq_or_zero_of_numEq h
  · exact h'
  · cases z <;> simp_all [numEq]

end Binary64

/-- Equal numbers are one integer, or equal floating-point numbers. -/
theorem Number.equal_cases {n n' : Number} (h : n.equal n' = true) :
    n = n' ∨ ∃ x y, n = .float x ∧ n' = .float y ∧ x.numEq y = true := by
  cases n with
  | int i =>
      cases n' with
      | int j => exact .inl (congrArg _ (eq_of_beq h))
      | float => cases h
  | float x =>
      cases n' with
      | int => cases h
      | float y => exact .inr ⟨x, y, rfl, rfl, h⟩

/-! ### Equality, one level deep -/

namespace Value

variable {u v w : Value} {items items' : List Value} {entries entries' : List (String × Value)}

/-- Values that are equal. -/
abbrev Same (a b : Value) : Prop := a.equal b = true

/-- Values of one form, whose parts are equal. -/
inductive Matched : Value → Value → Prop
  | null : Matched .null .null
  | bool (b : Bool) : Matched (.bool b) (.bool b)
  | number {n n' : Number} : n.equal n' = true → Matched (.number n) (.number n')
  | string (text : String) : Matched (.string text) (.string text)
  | array {items items' : List Value} : List.Forall₂ Same items items' →
      Matched (.array items) (.array items')
  | object {entries entries' : List (String × Value)} : entries.length = entries'.length →
      (∀ e ∈ entries, ∃ b, Entries.find? e.1 entries' = some b ∧ e.2.equal b = true) →
      Matched (.object entries) (.object entries')

theorem equalItems_iff :
    equalItems items items' = true ↔ List.Forall₂ Same items items' := by
  induction items generalizing items' with
  | nil => cases items' <;> simp [equalItems]
  | cons a rest ih => cases items' <;> simp [equalItems, ih]

theorem entriesIn_iff : entriesIn entries entries' = true ↔
    ∀ e ∈ entries, ∃ b, Entries.find? e.1 entries' = some b ∧ e.2.equal b = true := by
  induction entries with
  | nil => simp [entriesIn]
  | cons e rest ih =>
      rw [entriesIn, Bool.and_eq_true, ih, List.forall_mem_cons]
      refine and_congr_left' ?_
      cases Entries.find? e.1 entries' <;> simp

theorem Matched.of_equal (h : v.equal w = true) : Matched v w := by
  cases v with
  | null => cases w <;> first | exact .null | cases h
  | bool b => cases w <;> first | exact eq_of_beq h ▸ .bool b | cases h
  | number n => cases w <;> first | exact .number h | cases h
  | string text => cases w <;> first | exact eq_of_beq h ▸ .string text | cases h
  | array items => cases w <;> first | exact .array (equalItems_iff.1 h) | cases h
  | object entries =>
      cases w with
      | object entries' =>
          obtain ⟨hlength, hin⟩ := Bool.and_eq_true_iff.1 h
          exact .object (eq_of_beq hlength) (entriesIn_iff.1 hin)
      | _ => cases h

theorem Matched.equal (h : Matched v w) : v.equal w = true := by
  cases h with
  | null => rfl
  | bool b => exact beq_self_eq_true b
  | number h => exact h
  | string text => exact beq_self_eq_true text
  | array h => exact equalItems_iff.2 h
  | object hlength h =>
      exact Bool.and_eq_true_iff.2 ⟨beq_iff_eq.2 hlength, entriesIn_iff.2 h⟩

/-- Induction along the parts of a value. -/
theorem induction_contains {P : Value → Prop} (step : ∀ v, (∀ a, v.Contains a → P a) → P v)
    (v : Value) : P v := by
  induction hn : sizeOf v using Nat.strongRecOn generalizing v with
  | ind n ih => exact step v fun a ha => ih _ (hn ▸ ha.sizeOf_lt) a rfl

/-- **Equality is transitive.** -/
theorem equal_trans (h : u.equal v = true) (h' : v.equal w = true) : u.equal w = true := by
  induction u using induction_contains generalizing v w with
  | step u ih =>
      have hv := Matched.of_equal h
      have hw := Matched.of_equal h'
      refine Matched.equal ?_
      cases hv with
      | null => exact hw
      | bool b => exact hw
      | string text => exact hw
      | number hn =>
          cases hw with
          | number hn' =>
              refine .number ?_
              obtain rfl | ⟨x, y, rfl, rfl, hxy⟩ := Number.equal_cases hn
              · exact hn'
              · obtain rfl | ⟨y, z, hy, rfl, hyz⟩ := Number.equal_cases hn'
                · exact hn
                · cases hy
                  exact Binary64.numEq_trans hxy hyz
      | @array items items' hitems =>
          cases hw with
          | @array _ items'' hitems' =>
              refine .array (List.forall₂_iff_get.2 ⟨hitems.length_eq.trans hitems'.length_eq,
                fun i hi hi'' => ?_⟩)
              have hi' : i < items'.length := hitems.length_eq ▸ hi
              exact ih _ (.item (List.get_mem ..)) (hitems.get hi hi') (hitems'.get hi' hi'')
      | object hlength hentries =>
          cases hw with
          | object hlength' hentries' =>
              refine .object (hlength.trans hlength') fun e he => ?_
              obtain ⟨b, hb, hab⟩ := hentries e he
              obtain ⟨c, hc, hbc⟩ := hentries' _ (Entries.mem_of_find? hb)
              exact ⟨c, hc, ih e.2 (.entry he) hab hbc⟩

end Value

/-- Among as many distinct keys all are found when the others are. -/
theorem Entries.mem_keys_of_length {α β : Type} {entries : List (String × α)}
    {entries' : List (String × β)} (h : (keys entries).Nodup)
    (hlength : entries.length = entries'.length)
    (hsub : ∀ k ∈ keys entries, k ∈ keys entries') {k : String} (hk : k ∈ keys entries') :
    k ∈ keys entries := by
  have hperm : (keys entries).Perm (keys entries') :=
    (List.subperm_of_subset h hsub).perm_of_length_le (by simp [keys, hlength])
  exact hperm.mem_iff.2 hk

namespace Value

variable {u v w : Value} {items items' : List Value} {entries entries' : List (String × Value)}

/-- **Equality is symmetric on well-formed values.** -/
theorem equal_symm (hv : v.WellFormed) (hw : w.WellFormed) (h : v.equal w = true) :
    w.equal v = true := by
  induction v using induction_contains generalizing w with
  | step v ih =>
      have hmatched := Matched.of_equal h
      refine Matched.equal ?_
      cases hmatched with
      | null => exact .null
      | bool b => exact .bool b
      | string text => exact .string text
      | number hn =>
          obtain rfl | ⟨x, y, rfl, rfl, hxy⟩ := Number.equal_cases hn
          · exact .number hn
          · exact .number (Binary64.numEq_symm hxy)
      | @array items items' hitems =>
          have hv := wellFormedItems_iff.1 hv
          have hw := wellFormedItems_iff.1 hw
          refine .array (List.forall₂_iff_get.2 ⟨hitems.length_eq.symm, fun i hi' hi => ?_⟩)
          exact ih _ (.item (List.get_mem items ⟨i, hi⟩)) (hv _ (List.get_mem ..))
            (hw _ (List.get_mem ..)) (hitems.get hi hi')
      | @object entries entries' hlength hentries =>
          have hsub : ∀ k ∈ Entries.keys entries, k ∈ Entries.keys entries' := by
            intro k hk
            obtain ⟨e, he, rfl⟩ := List.mem_map.1 hk
            obtain ⟨b, hb, -⟩ := hentries e he
            exact Entries.mem_keys_of_mem (Entries.mem_of_find? hb)
          refine .object hlength.symm fun e' he' => ?_
          have hk := Entries.mem_keys_of_length hv.1 hlength hsub (Entries.mem_keys_of_mem he')
          obtain ⟨e, he, hkey⟩ := List.mem_map.1 hk
          obtain ⟨b, hb, hab⟩ := hentries e he
          -- the entry that was found for the other direction is this one
          obtain rfl : e'.2 = b := by
            rw [hkey, (Entries.find?_eq_some_iff hw.1).2 he'] at hb
            exact Option.some.inj hb
          exact ⟨e.2, hkey ▸ (Entries.find?_eq_some_iff hv.1).2 he,
            ih e.2 (.entry he) (wellFormedEntries_iff.1 hv.2 _ he)
              (wellFormedEntries_iff.1 hw.2 _ he') hab⟩

end Value

/-! ### Equal up to the order of keys -/

/-- **Well-formed values that are equal**, that is, up to the order of the keys of objects. -/
structure Value.Reordered (v v' : Value) : Prop where
  left : v.WellFormed
  right : v'.WellFormed
  equal : v.equal v' = true

theorem Value.Reordered.refl {v : Value} (h : v.WellFormed) : v.Reordered v :=
  ⟨h, h, equal_self h⟩

theorem Value.Reordered.symm {v v' : Value} (h : v.Reordered v') : v'.Reordered v :=
  ⟨h.right, h.left, equal_symm h.left h.right h.equal⟩

/-- **Entries of which each key finds the same in both**, or nothing in either. -/
structure Entries.Reordered (entries entries' : List (String × Value)) : Prop where
  left : (keys entries).Nodup
  right : (keys entries').Nodup
  find : ∀ k, Option.Rel Value.Reordered (find? k entries) (find? k entries')

namespace Entries.Reordered

variable {entries entries' : List (String × Value)} {a a' : Value} {k : String}

theorem symm (h : Reordered entries entries') : Reordered entries' entries where
  left := h.right
  right := h.left
  find k := by
    have hfind := h.find k
    generalize find? k entries = o at hfind
    generalize find? k entries' = o' at hfind
    cases hfind with
    | none => exact .none
    | some haa' => exact .some haa'.symm

theorem mem_keys_iff (h : Reordered entries entries') : k ∈ keys entries ↔ k ∈ keys entries' := by
  have hnone : find? k entries = none ↔ find? k entries' = none := by
    have hfind := h.find k
    generalize find? k entries = o at hfind
    generalize find? k entries' = o' at hfind
    cases hfind <;> simp
  rw [find?_eq_none_iff, find?_eq_none_iff] at hnone
  exact not_iff_not.1 hnone

theorem length_eq (h : Reordered entries entries') : entries.length = entries'.length := by
  have hperm : (keys entries).Perm (keys entries') :=
    (List.perm_ext_iff_of_nodup h.left h.right).2 fun _ => h.mem_keys_iff
  simpa [keys] using hperm.length_eq

theorem exists_mem (h : Reordered entries entries') (ha : (k, a) ∈ entries) :
    ∃ a', (k, a') ∈ entries' := by
  obtain ⟨e', he', rfl⟩ := List.mem_map.1 (h.mem_keys_iff.1 (mem_keys_of_mem ha))
  exact ⟨e'.2, he'⟩

/-- Under one key there are equal values. -/
theorem of_mem (h : Reordered entries entries') (ha : (k, a) ∈ entries) (ha' : (k, a') ∈ entries') :
    a.Reordered a' := by
  have hfind := h.find k
  rw [(find?_eq_some_iff h.left).2 ha, (find?_eq_some_iff h.right).2 ha'] at hfind
  cases hfind with
  | some haa' => exact haa'

/-- The value of a field, null when it is missing. -/
theorem getD (h : Reordered entries entries') (k : String) :
    ((find? k entries).getD .null).Reordered ((find? k entries').getD .null) := by
  have hfind := h.find k
  generalize find? k entries = o at hfind
  generalize find? k entries' = o' at hfind
  cases hfind with
  | none => exact ⟨trivial, trivial, rfl⟩
  | some haa' => exact haa'

/-- **Taking a key out.**  The orders of what is left need have nothing to do with each other. -/
theorem remove (h : Reordered entries entries') (name : String) :
    Reordered (Entries.remove name entries) (Entries.remove name entries') where
  left := remove_nodup h.left
  right := remove_nodup h.right
  find k := by
    by_cases hk : k = name
    · have hgone : ∀ {es : List (String × Value)}, (keys es).Nodup →
          find? k (Entries.remove name es) = none := by
        intro es hes
        rw [find?_eq_none_iff]
        intro hmem
        obtain ⟨e, he, rfl⟩ := List.mem_map.1 hmem
        exact ((mem_remove_iff hes).1 he).2 hk
      rw [hgone h.left, hgone h.right]
      exact .none
    · rw [find?_remove h.left hk, find?_remove h.right hk]
      exact h.find k

end Entries.Reordered

namespace Value

variable {v v' : Value} {items items' : List Value} {entries entries' : List (String × Value)}

/-- Objects with equal values under the same keys. -/
theorem equal_object (hnodup : (Entries.keys entries').Nodup)
    (hlength : entries.length = entries'.length)
    (h : ∀ e ∈ entries, ∃ b, (e.1, b) ∈ entries' ∧ e.2.equal b = true) :
    (Value.object entries).equal (.object entries') = true := by
  refine Matched.equal (.object hlength fun e he => ?_)
  obtain ⟨b, hb, hab⟩ := h e he
  exact ⟨b, (Entries.find?_eq_some_iff hnodup).2 hb, hab⟩

namespace Reordered

/-- Arrays are compared item by item. -/
theorem of_array (h : (Value.array items).Reordered (.array items')) :
    List.Forall₂ Value.Reordered items items' := by
  obtain ⟨hlength, hzip⟩ := List.forall₂_iff_zip.1 (equalItems_iff.1 h.equal)
  refine List.forall₂_iff_zip.2 ⟨hlength, fun {a b} hab => ⟨?_, ?_, hzip hab⟩⟩
  · exact wellFormedItems_iff.1 h.left a (List.of_mem_zip hab).1
  · exact wellFormedItems_iff.1 h.right b (List.of_mem_zip hab).2

/-- Objects are compared key by key. -/
theorem of_object (h : (Value.object entries).Reordered (.object entries')) :
    Entries.Reordered entries entries' where
  left := h.left.1
  right := h.right.1
  find k := by
    have found : ∀ {es es' : List (String × Value)}, (Value.object es).Reordered (.object es') →
        ∀ a, Entries.find? k es = some a →
          ∃ a', Entries.find? k es' = some a' ∧ a.Reordered a' := by
      intro es es' hes a ha
      have hmem := Entries.mem_of_find? ha
      obtain ⟨a', ha', haa'⟩ := entriesIn_iff.1 (Bool.and_eq_true_iff.1 hes.equal).2 _ hmem
      exact ⟨a', ha', wellFormedEntries_iff.1 hes.left.2 _ hmem,
        wellFormedEntries_iff.1 hes.right.2 _ (Entries.mem_of_find? ha'), haa'⟩
    cases hfind : Entries.find? k entries with
    | some a =>
        obtain ⟨a', ha', haa'⟩ := found h a hfind
        rw [ha']
        exact .some haa'
    | none =>
        cases hfind' : Entries.find? k entries' with
        | none => exact .none
        | some a' =>
            obtain ⟨a, ha, -⟩ := found h.symm a' hfind'
            rw [hfind] at ha
            cases ha

end Reordered

end Value

/-! ### What cannot tell values apart -/

section

variable {v v' : Value}

theorem Value.isNull_of_equal (h : v.equal v' = true) : v.isNull = v'.isNull := by
  cases Value.Matched.of_equal h <;> rfl

theorem Value.string?_of_equal (h : v.equal v' = true) : v.string? = v'.string? := by
  cases Value.Matched.of_equal h <;> rfl

/-- As many items, when both are arrays. -/
theorem Value.length_items?_of_equal (h : v.equal v' = true) :
    v.items?.map List.length = v'.items?.map List.length := by
  cases Value.Matched.of_equal h with
  | array hitems => exact congrArg some hitems.length_eq
  | _ => rfl

theorem Value.unsigned64?_of_equal (h : v.equal v' = true) : v.unsigned64? = v'.unsigned64? := by
  cases Value.Matched.of_equal h with
  | number hn => obtain rfl | ⟨x, y, rfl, rfl, -⟩ := Number.equal_cases hn <;> rfl
  | _ => rfl

/-- The same number, or two zeros, or no numbers. -/
theorem Value.binary64?_of_equal (h : v.equal v' = true) :
    v.binary64? = v'.binary64? ∨
      ∃ x y, v.binary64? = some x ∧ v'.binary64? = some y ∧ x.numEq y = true := by
  cases Value.Matched.of_equal h with
  | number hn =>
      obtain rfl | ⟨x, y, rfl, rfl, hxy⟩ := Number.equal_cases hn
      · exact .inl rfl
      · exact .inr ⟨x, y, rfl, rfl, hxy⟩
  | _ => exact .inl rfl

/-- Whatever the sign of a zero, the integer is the same. -/
theorem Value.int32?_of_equal (h : v.equal v' = true) : v.int32? = v'.int32? := by
  cases Value.Matched.of_equal h with
  | number hn =>
      obtain rfl | ⟨x, y, rfl, rfl, hxy⟩ := Number.equal_cases hn
      · rfl
      · exact Binary64.int32?_of_numEq hxy
  | _ => rfl

/-- **A scalar is read from both or from neither**, and as equal values. -/
theorem Scalar.read?_reordered (kind : Scalar) (h : v.equal v' = true) :
    Option.Rel Value.Same (kind.read? v) (kind.read? v') := by
  cases kind with
  | int =>
      rw [read?, read?, Value.int32?_of_equal h]
      cases v'.int32? with
      | none => exact .none
      | some i => exact .some (beq_self_eq_true i)
  | _ => cases Value.Matched.of_equal h <;> first | exact .some h | exact .none

/-- **A literal accepts both or neither.** -/
theorem Literal.accepts_reordered (l : Literal) (h : v.Reordered v') :
    l.accepts v = l.accepts v' := by
  cases l with
  | composite a =>
      exact Bool.eq_iff_iff.2
        ⟨fun ha => Value.equal_trans ha h.equal, fun ha => Value.equal_trans ha h.symm.equal⟩
  | number x =>
      cases Value.Matched.of_equal h.equal with
      | number hn =>
          obtain rfl | ⟨y, z, rfl, rfl, hyz⟩ := Number.equal_cases hn
          · rfl
          · exact Binary64.same_of_numEq hyz x
      | _ => rfl
  | _ => cases Value.Matched.of_equal h.equal <;> rfl

/-- A literal equals the literals of both or of neither. -/
theorem Literal.equal_ofValue_reordered (l : Literal) (h : v.Reordered v') :
    l.equal (.ofValue v) = l.equal (.ofValue v') := by
  have hcomposite : ∀ a : Value, a.equal v = a.equal v' := fun a => Bool.eq_iff_iff.2
    ⟨fun ha => Value.equal_trans ha h.equal, fun ha => Value.equal_trans ha h.symm.equal⟩
  cases Value.Matched.of_equal h.equal with
  | number hn =>
      obtain rfl | ⟨y, z, rfl, rfl, hyz⟩ := Number.equal_cases hn
      · rfl
      · cases l with
        | number x => exact Binary64.same_of_numEq_right hyz x
        | _ => rfl
  | array | object =>
      cases l with
      | composite a => exact hcomposite a
      | _ => rfl
  | _ => rfl

/-- **Both values carry a tag or neither does.** -/
theorem Tag.admits_reordered (t : Tag) (h : v.Reordered v') : t.admits v = t.admits v' := by
  obtain ⟨field, l⟩ := t
  cases field with
  | none => exact l.equal_ofValue_reordered h
  | some name =>
      cases Value.Matched.of_equal h.equal with
      | object => exact l.equal_ofValue_reordered (h.of_object.getD name)
      | _ => rfl

theorem admitted_reordered (h : v.Reordered v') : admitted v = admitted v' := by
  funext tag
  cases tag with
  | none => rfl
  | some t => exact t.admits_reordered h

end

end Schemata
