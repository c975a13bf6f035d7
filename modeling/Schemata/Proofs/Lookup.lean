/-
**Looking keys up in entries.**

Taking a key out moves the last entry into its place, so the order of the entries changes.  As long
as the keys are distinct this cannot be seen by looking other keys up.

Main results:

* `Schemata.Entries.find?_eq_some_iff` — with distinct keys, looking up finds the entry;
* `Schemata.Entries.mem_remove_iff`, `Schemata.Entries.remove_nodup` — what is left when a key is
  taken out;
* `Schemata.Entries.find?_remove` — **other keys are found as before**;
* `Schemata.Value.field_wellFormed` — what is found in a well-formed value is well formed.
-/

import Mathlib.Data.List.Nodup
import Mathlib.Data.List.Forall2
import Schemata.Value

set_option relaxedAutoImplicit false
set_option autoImplicit false

namespace Schemata

namespace Entries

variable {α : Type} {key k : String} {v : α} {entries : List (String × α)}

@[simp] theorem keys_nil : keys ([] : List (String × α)) = [] := rfl

@[simp] theorem keys_cons (e : String × α) (rest : List (String × α)) :
    keys (e :: rest) = e.1 :: keys rest := rfl

@[simp] theorem keys_map {β : Type} (f : String × α → β) :
    keys (entries.map fun e => (e.1, f e)) = keys entries := by
  rw [keys, List.map_map]
  rfl

theorem keys_eq_of_forall₂ {β : Type} {R : String × β → String × α → Prop}
    {fields : List (String × β)} (h : List.Forall₂ (fun f e => f.1 = e.1 ∧ R f e) fields entries) :
    keys entries = keys fields := by
  induction h with
  | nil => rfl
  | cons hfe _ ih => rw [keys_cons, keys_cons, ih, hfe.1]

/-- What is related to a field is the entry under its name. -/
theorem exists_mem_of_forall₂ {β : Type} {R : String × β → String × α → Prop} {b : β}
    {fields : List (String × β)} (h : List.Forall₂ (fun f e => f.1 = e.1 ∧ R f e) fields entries)
    (hm : (k, b) ∈ fields) : ∃ v, (k, v) ∈ entries ∧ R (k, b) (k, v) := by
  induction h with
  | nil => cases hm
  | @cons f e _ _ hfe _ ih =>
      obtain ⟨hname, hR⟩ := hfe
      rcases List.mem_cons.1 hm with rfl | hm
      · obtain ⟨k', v⟩ := e
        cases hname
        exact ⟨v, List.mem_cons_self .., hR⟩
      · obtain ⟨v, hv, hR⟩ := ih hm
        exact ⟨v, List.mem_cons_of_mem _ hv, hR⟩

/-- Under the same keys, what stands side by side has the same name. -/
theorem fst_eq_of_mem_zip {β : Type} {fields : List (String × β)} {f : String × β} {e : String × α}
    (h : keys entries = keys fields) (hm : (f, e) ∈ fields.zip entries) : f.1 = e.1 := by
  induction fields generalizing entries with
  | nil => cases hm
  | cons g rest ih =>
      cases entries with
      | nil => cases hm
      | cons e' entries =>
          rw [keys_cons, keys_cons, List.cons.injEq] at h
          rcases List.mem_cons.1 hm with heq | hm
          · cases heq
            exact h.1.symm
          · exact ih h.2 hm

/-- Under the same keys, what relates each field to the entry beside it relates them one by one. -/
theorem forall₂_of_keys {β : Type} {R : String × β → String × α → Prop}
    {fields : List (String × β)} (hkeys : keys entries = keys fields)
    (h : ∀ p ∈ fields.zip entries, R p.1 p.2) :
    List.Forall₂ (fun f e => f.1 = e.1 ∧ R f e) fields entries := by
  have hlength : fields.length = entries.length := by
    simpa [keys] using (congrArg List.length hkeys).symm
  exact List.forall₂_iff_zip.2 ⟨hlength, fun hm => ⟨fst_eq_of_mem_zip hkeys hm, h _ hm⟩⟩

theorem mem_keys_of_mem (h : (k, v) ∈ entries) : k ∈ keys entries :=
  List.mem_map_of_mem (f := Prod.fst) h

/-- What is found is an entry. -/
theorem mem_of_find? (h : find? k entries = some v) : (k, v) ∈ entries := by
  induction entries with
  | nil => cases h
  | cons e rest ih =>
      obtain ⟨k', v'⟩ := e
      by_cases hk : k' = k
      · simp only [find?, hk, if_true, Option.some.injEq] at h
        rw [hk, h]
        exact List.mem_cons_self ..
      · simp only [find?, hk, if_false] at h
        exact List.mem_cons_of_mem _ (ih h)

/-- **With distinct keys, looking up finds the entry.** -/
theorem find?_eq_some_iff (h : (keys entries).Nodup) :
    find? k entries = some v ↔ (k, v) ∈ entries := by
  refine ⟨mem_of_find?, fun hm => ?_⟩
  induction entries with
  | nil => cases hm
  | cons e rest ih =>
      obtain ⟨k', v'⟩ := e
      obtain ⟨hnot, hrest⟩ := List.nodup_cons.1 h
      rcases List.mem_cons.1 hm with he | hm
      · cases he
        simp [find?]
      · have hk : k' ≠ k := by
          rintro rfl
          exact hnot (mem_keys_of_mem hm)
        simp only [find?, hk, if_false]
        exact ih hrest hm

theorem find?_eq_none_iff : find? k entries = none ↔ k ∉ keys entries := by
  induction entries with
  | nil => simp [find?]
  | cons e rest ih =>
      obtain ⟨k', v'⟩ := e
      by_cases hk : k' = k
      · simp [find?, hk]
      · simp [find?, hk, ih, Ne.symm hk]

/-! ### Taking a key out -/

theorem fillFirst_perm (entries : List (String × α)) : (fillFirst entries).Perm entries := by
  rw [fillFirst]
  cases h : entries.getLast? with
  | none => rw [List.getLast?_eq_none_iff] at h; rw [h]
  | some last =>
      obtain ⟨init, rfl⟩ := List.getLast?_eq_some_iff.1 h
      rw [List.dropLast_concat]
      exact (List.perm_append_singleton last init).symm

/-- What is left is all but the first entry under the key. -/
theorem remove_perm : (remove key entries).Perm (entries.eraseP fun e => e.1 = key) := by
  induction entries with
  | nil => exact .refl _
  | cons e rest ih =>
      by_cases hk : e.1 = key
      · simpa [remove, hk] using fillFirst_perm rest
      · simpa [remove, hk] using ih

/-- Taking a key out keeps keys distinct. -/
theorem remove_nodup (h : (keys entries).Nodup) : (keys (remove key entries)).Nodup := by
  rw [keys, (remove_perm.map Prod.fst).nodup_iff]
  exact h.sublist (List.eraseP_sublist.map Prod.fst)

/-- **What is left are the entries under other keys.** -/
theorem mem_remove_iff (h : (keys entries).Nodup) :
    (k, v) ∈ remove key entries ↔ (k, v) ∈ entries ∧ k ≠ key := by
  rw [remove_perm.mem_iff]
  induction entries with
  | nil => simp
  | cons e rest ih =>
      obtain ⟨k', v'⟩ := e
      obtain ⟨hnot, hrest⟩ := List.nodup_cons.1 h
      by_cases hk : k' = key
      · subst hk
        rw [List.eraseP_cons_of_pos (by simp)]
        constructor
        · intro hm
          refine ⟨List.mem_cons_of_mem _ hm, ?_⟩
          rintro rfl
          exact hnot (mem_keys_of_mem hm)
        · rintro ⟨hm, hne⟩
          rcases List.mem_cons.1 hm with he | hm
          · cases he
            exact absurd rfl hne
          · exact hm
      · rw [List.eraseP_cons_of_neg (by simpa using hk), List.mem_cons, List.mem_cons, ih hrest]
        constructor
        · rintro (he | ⟨hm, hne⟩)
          · cases he
            exact ⟨.inl rfl, hk⟩
          · exact ⟨.inr hm, hne⟩
        · rintro ⟨he | hm, hne⟩
          · exact .inl he
          · exact .inr ⟨hm, hne⟩

/-- **Other keys are found as before.** -/
theorem find?_remove (h : (keys entries).Nodup) (hk : k ≠ key) :
    find? k (remove key entries) = find? k entries := by
  ext v
  rw [find?_eq_some_iff (remove_nodup h), find?_eq_some_iff h, mem_remove_iff h]
  exact ⟨fun hm => hm.1, fun hm => ⟨hm, hk⟩⟩

/-- What is left was there before. -/
theorem mem_of_mem_remove {e : String × α} (h : e ∈ remove key entries) : e ∈ entries :=
  List.mem_of_mem_eraseP (remove_perm.subset h)

end Entries

/-! ### Well-formed values -/

theorem Value.wellFormedItems_iff {items : List Value} :
    WellFormedItems items ↔ ∀ v ∈ items, v.WellFormed := by
  induction items with
  | nil => simp [WellFormedItems]
  | cons v rest ih => simp [WellFormedItems, ih]

theorem Value.wellFormedEntries_iff {entries : List (String × Value)} :
    WellFormedEntries entries ↔ ∀ e ∈ entries, e.2.WellFormed := by
  induction entries with
  | nil => simp [WellFormedEntries]
  | cons e rest ih => simp [WellFormedEntries, ih]

/-- The value of a field, null when it is missing, is well formed. -/
theorem Value.field_wellFormed {entries : List (String × Value)}
    (h : ∀ e ∈ entries, e.2.WellFormed) (name : String) :
    ((Entries.find? name entries).getD .null).WellFormed := by
  cases hf : Entries.find? name entries with
  | none => exact trivial
  | some v => exact h _ (Entries.mem_of_find? hf)

end Schemata
