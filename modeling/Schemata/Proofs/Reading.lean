/-
**Documents hold well-formed values.**

A document that can be read gives a value without repeated keys, since a later entry replaces an
earlier one, with integers of 64 bits and with finite floating-point numbers, since every number has
been rounded and larger ones are refused.

Main definitions:

* `Schemata.Json.Reads` — what a reader can end with.

Main results:

* `Schemata.Entries.ofList_nodup` — collected entries have distinct keys;
* `Schemata.Json.readNumber_wellFormed` — numbers;
* `Schemata.readText_wellFormed` — **documents**.
-/

import Schemata.Execution.Direct
import Schemata.Proofs.Literals

set_option relaxedAutoImplicit false
set_option autoImplicit false

namespace Schemata

/-! ### Collected entries -/

namespace Entries

variable {α : Type} {key k : String} {v u : α} {entries : List (String × α)}

theorem mem_of_mem_insert (h : (k, u) ∈ insert key v entries) :
    (k, u) ∈ entries ∨ (k = key ∧ u = v) := by
  induction entries with
  | nil =>
      cases List.mem_singleton.1 h
      exact .inr ⟨rfl, rfl⟩
  | cons e rest ih =>
      obtain ⟨k', v'⟩ := e
      rw [insert] at h
      split at h
      · rename_i hk
        rcases List.mem_cons.1 h with he | h
        · cases he
          exact .inr ⟨hk, rfl⟩
        · exact .inl (List.mem_cons_of_mem _ h)
      · rcases List.mem_cons.1 h with he | h
        · exact .inl (he ▸ List.mem_cons_self ..)
        · exact (ih h).imp_left (List.mem_cons_of_mem _)

theorem insert_nodup (h : (keys entries).Nodup) : (keys (insert key v entries)).Nodup := by
  induction entries with
  | nil => exact List.nodup_singleton _
  | cons e rest ih =>
      obtain ⟨k', v'⟩ := e
      obtain ⟨hnot, hrest⟩ := List.nodup_cons.1 h
      rw [insert]
      split
      · exact h
      · rename_i hk
        refine List.nodup_cons.2 ⟨fun hin => ?_, ih hrest⟩
        obtain ⟨⟨k'', u⟩, hm, rfl⟩ := List.mem_map.1 hin
        rcases mem_of_mem_insert hm with hm | ⟨rfl, -⟩
        · exact hnot (mem_keys_of_mem hm)
        · exact hk rfl

/-- What holds of the entries collected so far and of those to come holds of all. -/
theorem foldl_insert {P : α → Prop} (acc : List (String × α)) (hacc : (keys acc).Nodup)
    (hP : ∀ e ∈ acc, P e.2) (hentries : ∀ e ∈ entries, P e.2) :
    (keys (entries.foldl (fun acc e => insert e.1 e.2 acc) acc)).Nodup ∧
      ∀ e ∈ entries.foldl (fun acc e => insert e.1 e.2 acc) acc, P e.2 := by
  induction entries generalizing acc with
  | nil => exact ⟨hacc, hP⟩
  | cons e rest ih =>
      refine ih _ (insert_nodup hacc) (fun f hf => ?_) fun f hf =>
        hentries f (List.mem_cons_of_mem _ hf)
      rcases mem_of_mem_insert hf with hf | ⟨-, hf⟩
      · exact hP _ hf
      · exact hf ▸ hentries e (List.mem_cons_self ..)

/-- **Collected entries have distinct keys.** -/
theorem ofList_nodup (entries : List (String × α)) : (keys (ofList entries)).Nodup :=
  (foldl_insert (P := fun _ => True) [] List.nodup_nil (fun _ _ => trivial)
    fun _ _ => trivial).1

theorem forall_mem_ofList {P : α → Prop} (h : ∀ e ∈ entries, P e.2) : ∀ e ∈ ofList entries, P e.2 :=
  (foldl_insert [] List.nodup_nil (fun _ he => absurd he List.not_mem_nil) h).2

end Entries

/-! ### Numbers -/

theorem Binary64.zero_finite (negative : Bool) : (Binary64.finite negative 0).Finite :=
  ⟨negative, 0, rfl, Nat.dvd_zero _, Nat.two_pow_pos _⟩

theorem Binary64.ofQuotient_finite {negative : Bool} {num den : Nat}
    (h : (Binary64.ofQuotient negative num den).isFinite = true) :
    (Binary64.ofQuotient negative num den).Finite := by
  rw [ofQuotient, ofUnits] at h ⊢
  split at h
  · cases h
  · rename_i hlt
    rw [if_neg hlt]
    exact ⟨_, _, rfl, spacing_dvd_roundQuotient _ _, Nat.not_le.1 hlt⟩

/-- A decimal that becomes finite is rounded. -/
theorem Binary64.ofDecimal_finite {negative : Bool} {digits : Nat} {exponent : Int}
    (h : (Binary64.ofDecimal negative digits exponent).isFinite = true) :
    (Binary64.ofDecimal negative digits exponent).Finite := by
  rw [ofDecimal] at h ⊢
  split
  · exact zero_finite negative
  · rename_i h₁
    rw [if_neg h₁] at h
    split
    · rename_i h₂
      rw [if_pos h₂] at h
      cases h
    · rename_i h₂
      rw [if_neg h₂] at h
      split
      · exact zero_finite negative
      · rename_i h₃
        rw [if_neg h₃] at h
        split
        · rename_i h₄
          rw [if_pos h₄] at h
          exact ofQuotient_finite h
        · rename_i h₄
          rw [if_neg h₄] at h
          exact ofQuotient_finite h

/-! ### Readers -/

namespace Json

/-- Whatever the reader ends with satisfies `P`. -/
def Reads {α : Type} (r : Reader α) (P : α → Prop) : Prop :=
  ∀ c a c', r c = .ok (a, c') → P a

section

variable {α β : Type} {P : α → Prop} {Q : β → Prop}

theorem Reads.pure {a : α} (h : P a) : Reads (pure a : Reader α) P := by
  intro c b c' hread
  cases hread
  exact h

theorem Reads.bind {r : Reader α} {f : α → Reader β} (hr : Reads r P)
    (hf : ∀ a, P a → Reads (f a) Q) : Reads (r >>= f) Q := by
  intro c b c'' hread
  cases hfirst : r c with
  | error e =>
      simp [Bind.bind, StateT.bind, Except.bind, hfirst] at hread
  | ok p =>
      simp only [Bind.bind, StateT.bind, Except.bind, hfirst] at hread
      exact hf p.1 (hr c p.1 p.2 hfirst) p.2 b c'' hread

theorem Reads.any (r : Reader α) : Reads r fun _ => True := fun _ _ _ _ => trivial

/-- What comes after something that may be anything. -/
theorem Reads.after {r : Reader α} {f : α → Reader β} (hf : ∀ a, Reads (f a) Q) :
    Reads (r >>= f) Q := (Reads.any r).bind fun a _ => hf a

theorem Reads.failHere (fault : Fault) : Reads (failHere fault : Reader α) P := by
  intro c a c' hread
  cases hread

theorem Reads.failNext (fault : Fault) : Reads (failNext fault : Reader α) P := by
  intro c a c' hread
  cases hread

theorem Reads.failAfterByte (fault : Fault) : Reads (failAfterByte fault : Reader α) P :=
  .failNext fault

end

/-! ### Numbers in documents -/

theorem finishFloat_wellFormed (negative : Bool) (digits : Nat) (exponent : Int) :
    Reads (finishFloat negative digits exponent) Number.WellFormed := by
  rw [finishFloat]
  split
  · rename_i hfinite
    exact .pure (Binary64.ofDecimal_finite hfinite)
  · exact .failHere _

theorem readExponent_wellFormed (limit : Nat) (negative : Bool) (digits shift : Nat) :
    Reads (readExponent limit negative digits shift) Number.WellFormed := by
  refine .after fun _ => .after fun down => .after fun next => ?_
  split
  · exact .failHere _
  · split
    · refine .after fun exponent => ?_
      split
      · exact .pure (Binary64.zero_finite negative)
      · exact finishFloat_wellFormed _ _ _
    · exact .failAfterByte _

theorem readFraction_wellFormed (limit : Nat) (negative : Bool) (whole : Nat) :
    Reads (readFraction limit negative whole) Number.WellFormed := by
  refine .after fun next => ?_
  split
  · refine .after fun _ => .after fun p => ?_
    dsimp only
    split
    · refine .after fun next => ?_
      split
      · exact .failNext _
      · exact .failNext _
    · refine .after fun next => ?_
      split
      · exact readExponent_wellFormed _ _ _ _
      · exact readExponent_wellFormed _ _ _ _
      · exact finishFloat_wellFormed _ _ _
  · exact readExponent_wellFormed _ _ _ _
  · exact readExponent_wellFormed _ _ _ _
  · split
    · split
      · exact finishFloat_wellFormed _ _ _
      · refine .pure ?_
        simp only [Number.WellFormed]
        omega
    · split
      · refine .pure ?_
        simp only [Number.WellFormed]
        omega
      · exact finishFloat_wellFormed _ _ _

/-- **Numbers that are read are well formed.** -/
theorem readNumber_wellFormed (limit : Nat) (negative : Bool) :
    Reads (readNumber limit negative) Number.WellFormed := by
  refine .after fun next => ?_
  split
  · exact .failHere _
  · refine .after fun _ => .after fun next => ?_
    split
    · split
      · exact .failNext _
      · exact readFraction_wellFormed _ _ _
    · exact readFraction_wellFormed _ _ _
  · split
    · exact .after fun p => readFraction_wellFormed _ _ _
    · exact .failAfterByte _

/-! ### Values in documents -/

mutual

/-- **Values that are read are well formed.** -/
theorem readValue_wellFormed (limit : Nat) : ∀ fuel depth,
    Reads (readValue limit fuel depth) Value.WellFormed
  | 0, _ => .failHere _
  | fuel + 1, depth => by
      rw [readValue]
      refine .after fun next => ?_
      split
      · exact .failNext _
      · exact .after fun _ => .after fun _ => .pure trivial
      · exact .after fun _ => .after fun _ => .pure trivial
      · exact .after fun _ => .after fun _ => .pure trivial
      · exact .after fun _ => .pure trivial
      · exact .after fun _ => (readNumber_wellFormed limit true).bind fun n hn => .pure hn
      · refine .after fun inner => ?_
        exact (readItems_wellFormed limit fuel inner [] (by simp)).bind fun items hitems =>
          .pure (Value.wellFormedItems_iff.2 hitems)
      · split
        · refine .after fun inner => ?_
          refine (readEntries_wellFormed limit fuel inner true [] (by simp)).bind
            fun entries hentries => .pure ⟨Entries.ofList_nodup entries, ?_⟩
          exact Value.wellFormedEntries_iff.2 (Entries.forall_mem_ofList hentries)
        · split
          · exact (readNumber_wellFormed limit false).bind fun n hn => .pure hn
          · exact .failNext _

theorem readItems_wellFormed (limit : Nat) : ∀ fuel depth acc,
    (∀ v ∈ acc, v.WellFormed) →
      Reads (readItems limit fuel depth acc) fun items => ∀ v ∈ items, v.WellFormed
  | 0, _, _, _ => .failHere _
  | fuel + 1, depth, acc, hacc => by
      rw [readItems]
      refine .after fun more => ?_
      split
      · refine (readValue_wellFormed limit fuel depth).bind fun v hv => ?_
        refine readItems_wellFormed limit fuel depth (v :: acc) fun u hu => ?_
        rcases List.mem_cons.1 hu with rfl | hu
        · exact hv
        · exact hacc u hu
      · exact .after fun _ => .pure fun v hv => hacc v (List.mem_reverse.1 hv)

theorem readEntries_wellFormed (limit : Nat) : ∀ fuel depth first acc,
    (∀ e ∈ acc, Value.WellFormed (Prod.snd e)) →
      Reads (readEntries limit fuel depth first acc) fun entries =>
        ∀ e ∈ entries, Value.WellFormed (Prod.snd e)
  | 0, _, _, _, _ => .failHere _
  | fuel + 1, depth, first, acc, hacc => by
      rw [readEntries]
      refine .after fun more => ?_
      split
      · refine .after fun key => .after fun _ => ?_
        refine (readValue_wellFormed limit fuel depth).bind fun v hv => ?_
        refine readEntries_wellFormed limit fuel depth false ((key, v) :: acc) fun e he => ?_
        rcases List.mem_cons.1 he with rfl | he
        · exact hv
        · exact hacc e he
      · exact .after fun _ => .pure fun e he => hacc e (List.mem_reverse.1 he)

end

end Json

/-- **The value of a document is well formed.** -/
theorem readText_wellFormed {text : String} {v : Value} (h : readText text = .ok v) :
    v.WellFormed := by
  rw [readText] at h
  split at h
  · rename_i u hread
    cases h
    rw [Json.readDocument, Json.readFront] at hread
    cases hfront : (Json.readValue (text.length + 1) (2 * text.length + 2)
        Json.documentDepth).run (Json.Cursor.start text) with
    | error e =>
        rw [hfront] at hread
        cases hread
    | ok p =>
        rw [hfront] at hread
        simp only [Bind.bind, Except.bind] at hread
        split at hread
        · cases hread
        · cases hread
          exact Json.readValue_wellFormed _ _ _ _ _ _ hfront
  · cases h

end Schemata
