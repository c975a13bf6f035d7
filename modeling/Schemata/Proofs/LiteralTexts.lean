/-
**What the texts of literals and metadata tell.**

Below the constructors a source text is made of literals, documents, names and calls.  Numbers are
written as integers where they are integral and small, else in a layout that keeps the point, so
the two ways have no text in common, nor has either with the names of what is not finite.  A literal
is told by how its text begins and then by the text of its form.  The calls at the end each begin
with the name of a method, and what follows a call does not begin with that name again, but for free
entries, which are as many as there are calls.

Main definitions:

* `Schemata.Binary64.Exact`, `Schemata.Literal.Exact` — the number, or the document, exists;
* `Schemata.Unnamed` — what does not begin with a call of a method.

Main results:

* `Schemata.Binary64.same_of_source`, `Schemata.Literal.source_tells` — the text of a literal;
* `Schemata.optionalCall_tells` — a call with one quoted argument, if there is one;
* `Schemata.Metadata.source_tells` — **the calls that attach metadata tell the metadata**.
-/

import Schemata.Proofs.Delimited
import Schemata.Proofs.EqualSchemas
import Schemata.Schema.Source

set_option relaxedAutoImplicit false
set_option autoImplicit false

namespace Schemata

/-! ### Numbers -/

/-- The number is one that 53 bits can hold, if it is finite. -/
def Binary64.Exact (x : Binary64) : Prop := x.isFinite = true → x.Finite

namespace Binary64

variable {x y : Binary64}

/-- A finite number is written as an integer or in the layout of source texts. -/
theorem source_of_finite (h : x.Finite) :
    (x.isIntegral = true ∧ x.source = toString x.truncate) ∨
      x.source = Layout.source.write x := by
  obtain ⟨negative, units, rfl, -, -⟩ := h
  rw [source]
  split
  · rename_i hintegral
    exact .inl ⟨(Bool.and_eq_true_iff.1 hintegral).1, rfl⟩
  · exact .inr rfl

theorem numeric_source (h : x.Finite) : ∀ c ∈ x.source.toList, Layout.Numeric c := by
  rcases source_of_finite h with ⟨-, htext⟩ | htext <;> rw [htext]
  · exact numeric_toString_int _
  · exact Layout.numeric_write h

theorem signed_source (h : x.Finite) : Layout.Signed x.source.toList := by
  rcases source_of_finite h with ⟨-, htext⟩ | htext <;> rw [htext]
  · exact signed_toString_int _
  · exact Layout.signed_write h

/-- Integral numbers with the same integer are the same number, zeros being one. -/
theorem same_of_truncate (hx : x.isIntegral = true) (hy : y.isIntegral = true)
    (h : x.truncate = y.truncate) : x.same y = true := by
  cases x with
  | finite a m =>
      cases y with
      | finite b n =>
          have hm : m / one * one = m :=
            Nat.div_mul_cancel (Nat.dvd_of_mod_eq_zero (beq_iff_eq.1 hx))
          have hn : n / one * one = n :=
            Nat.div_mul_cancel (Nat.dvd_of_mod_eq_zero (beq_iff_eq.1 hy))
          have hwhole : m / one = n / one ∧ (a = b ∨ m / one = 0) := by
            simp only [truncate] at h
            generalize m / one = j at *
            generalize n / one = k at *
            cases a <;> cases b <;> simp at h ⊢ <;> omega
          obtain ⟨hquotient, hsign⟩ := hwhole
          have hmn : m = n := by rw [← hm, ← hn, hquotient]
          subst hmn
          rcases hsign with rfl | hzero
          · simp [same, numEq]
          · rw [hzero, Nat.zero_mul] at hm
            simp [same, numEq, ← hm]
      | nan => cases hy
      | infinity b => cases hy
  | nan => cases hx
  | infinity a => cases hx

/-- **The source text of a number tells the number.** -/
theorem same_of_source (hx : x.Exact) (hy : y.Exact) (h : x.source = y.source) :
    x.same y = true := by
  have hword : ∀ {z : Binary64}, z.Finite → 'f' ∉ z.source.toList := by
    intro z hz hmem
    rcases numeric_source hz 'f' hmem with hdigit | hmark
    · cases hdigit
    · simp at hmark
  have hfinite : ∀ {z u : Binary64}, z.Finite → z.source = u.source → 'f' ∈ u.source.toList →
      False := fun hz heq hmem => hword hz (heq ▸ hmem)
  have hnames : 'f' ∈ nan.source.toList ∧ ∀ b, 'f' ∈ (infinity b).source.toList := by
    refine ⟨by simp [source], fun b => ?_⟩
    cases b <;> simp [source]
  cases x with
  | nan =>
      cases y with
      | nan => rfl
      | infinity b => cases b <;> simp [source] at h
      | finite b n => exact (hfinite (hy rfl) h.symm hnames.1).elim
  | infinity a =>
      cases y with
      | nan => cases a <;> simp [source] at h
      | infinity b =>
          cases a <;> cases b
          · rfl
          · simp [source] at h
          · simp [source] at h
          · rfl
      | finite b n => exact (hfinite (hy rfl) h.symm (hnames.2 a)).elim
  | finite a m =>
      cases y with
      | nan => exact (hfinite (hx rfl) h hnames.1).elim
      | infinity b => exact (hfinite (hx rfl) h (hnames.2 b)).elim
      | finite b n =>
          have hx := hx rfl
          have hy := hy rfl
          have hmarked : ∀ {z : Binary64} {i : Int}, z.Finite →
              toString i ≠ Layout.source.write z := fun hz heq =>
            not_marked_toString_int _ (heq ▸ Layout.marked_write rfl hz)
          rcases source_of_finite hx with ⟨hix, htext⟩ | htext <;>
            rcases source_of_finite hy with ⟨hiy, htext'⟩ | htext' <;> rw [htext, htext'] at h
          · exact same_of_truncate hix hiy (toString_int_injective h)
          · exact (hmarked hy h).elim
          · exact (hmarked hx h.symm).elim
          · rw [Layout.write_injective hx hy h]
            exact same_refl _

end Binary64

/-! ### Literals -/

/-- The literal holds a number that exists, or a document. -/
def Literal.Exact : Literal → Prop
  | .number x => x.Exact
  | .composite v => v.WellFormed
  | _ => True

theorem toList_enclosed (opening s : String) :
    (opening ++ s ++ ")").toList = opening.toList ++ (s.toList ++ [')']) := by
  simp [String.toList_append]

theorem Value.toList_source (v : Value) :
    v.source.toList = "serde_json::json!(".toList ++ (v.text.toList ++ [')']) :=
  toList_enclosed ..

/-- **The text of an embedded value tells the value.** -/
theorem Value.source_tells {v w : Value} {r r' : List Char} (hv : v.WellFormed)
    (hw : w.WellFormed) (h : v.source.toList ++ r = w.source.toList ++ r') : v = w ∧ r = r' := by
  rw [toList_source, toList_source] at h
  generalize "serde_json::json!(".toList = opening at h
  simp only [List.append_assoc, List.append_cancel_left_eq, List.singleton_append] at h
  have hends : ∀ r, Ends (')' :: r) := fun _ => rfl
  obtain ⟨hvalue, hr⟩ := v.text_tells w _ _ hv hw (hends r) (hends r') h
  exact ⟨hvalue, (List.cons.inj hr).2⟩

namespace Literal

variable {l l' : Literal} {r r' : List Char}

/-- A number for each form of literal. -/
def form : Literal → Nat
  | .null => 0
  | .bool _ => 1
  | .number _ => 2
  | .string _ => 3
  | .composite _ => 4

/-- The form of a literal whose text begins like this. -/
def formOf : List Char → Nat
  | '(' :: _ => 0
  | 't' :: _ => 1
  | 'f' :: 'a' :: _ => 1
  | '"' :: _ => 3
  | 's' :: _ => 4
  | _ => 2

theorem formOf_signed {c : Char} (h : c.isDigit = true ∨ c = '-') (rest : List Char) :
    formOf (c :: rest) = 2 := by
  unfold formOf
  split <;> simp_all

/-- **The text of a literal begins with its form.** -/
theorem formOf_source (h : l.Exact) (r : List Char) : formOf (l.source.toList ++ r) = l.form := by
  cases l with
  | null => rfl
  | bool b => cases b <;> rfl
  | number x =>
      cases x with
      | nan => rfl
      | infinity b => cases b <;> rfl
      | finite negative units =>
          obtain ⟨c, rest, htext, hc⟩ := Binary64.signed_source (h rfl)
          rw [source, htext]
          exact formOf_signed hc _
  | string s =>
      obtain ⟨rest, htext⟩ := Text.quoted_starts s
      rw [source, htext]
      rfl
  | composite v =>
      rw [source, Value.toList_source]
      simp [formOf, form]

theorem source_number_closed {x : Binary64} (h : x.Exact) :
    ∀ c ∈ x.source.toList, closes c = false := by
  have hword {p : List Char} (h : p.any closes = false) : ∀ c ∈ p, closes c = false :=
    fun c hc => Bool.eq_false_of_not_eq_true (List.any_eq_false.1 h c hc)
  cases x with
  | nan => exact hword rfl
  | infinity b => cases b <;> exact hword rfl
  | finite negative units =>
      exact fun c hc => numeric_not_closes (Binary64.numeric_source (h rfl) c hc)

/-- **The text of a literal tells the literal.** -/
theorem source_tells (hl : l.Exact) (hl' : l'.Exact) (hr : Ends r) (hr' : Ends r')
    (h : l.source.toList ++ r = l'.source.toList ++ r') : l.equal l' = true ∧ r = r' := by
  have hform : l.form = l'.form := by
    rw [← formOf_source hl r, ← formOf_source hl' r', h]
  cases l <;> cases l' <;> try cases hform
  case null => exact ⟨rfl, List.append_cancel_left h⟩
  case bool b b' =>
      cases b <;> cases b'
      · exact ⟨rfl, List.append_cancel_left h⟩
      · cases (List.cons.inj h).1
      · cases (List.cons.inj h).1
      · exact ⟨rfl, List.append_cancel_left h⟩
  case number x y =>
      obtain ⟨htext, hr⟩ := token_tells (source_number_closed hl) (source_number_closed hl')
        hr hr' h
      exact ⟨Binary64.same_of_source hl hl' (String.toList_inj.1 htext), hr⟩
  case string s t =>
      obtain ⟨rfl, hr⟩ := Text.quoted_tells h
      exact ⟨equal_refl trivial, hr⟩
  case composite v w =>
      obtain ⟨rfl, hr⟩ := Value.source_tells hl hl' h
      exact ⟨equal_refl hl, hr⟩

end Literal

/-! ### Calls at the end -/

/-- The text does not begin with a call of the method. -/
def Unnamed (method : String) (r : List Char) : Prop :=
  r.takeWhile (· != '(') ≠ '.' :: method.toList

section

variable {method other : String} {r r' : List Char}

theorem unnamed_of_ends (hr : Ends r) : Unnamed method r := by
  intro h
  cases r with
  | nil => cases h
  | cons c r =>
      rw [List.takeWhile_cons] at h
      split at h
      · rw [(List.cons.inj h).1] at hr
        cases hr
      · cases h

theorem takeWhile_call (h : '(' ∉ method.toList) (rest : List Char) :
    ('.' :: (method.toList ++ '(' :: rest)).takeWhile (· != '(') = '.' :: method.toList := by
  have hnot : '(' ∉ '.' :: method.toList := by simpa using h
  exact congrArg Prod.fst (Numeral.cut_append hnot rest)

theorem unnamed_call (hother : '(' ∉ other.toList) (hne : method ≠ other) (rest : List Char) :
    Unnamed method ('.' :: (other.toList ++ '(' :: rest)) := by
  rw [Unnamed, takeWhile_call hother]
  exact fun h => hne (String.toList_inj.1 (List.cons.inj h).2).symm

theorem toList_optionalCall (method text : String) : (optionalCall method (some text)).toList =
    '.' :: (method.toList ++ '(' :: ((Text.quoted text).toList ++ [')'])) := by
  simp [optionalCall, String.toList_append]

theorem unnamed_optionalCall (hother : '(' ∉ other.toList) (hne : method ≠ other)
    (hr : Unnamed method r) (argument : Option String) :
    Unnamed method ((optionalCall other argument).toList ++ r) := by
  cases argument with
  | none => exact hr
  | some text =>
      rw [toList_optionalCall, List.cons_append, List.append_assoc, List.cons_append]
      exact unnamed_call hother hne _

/-- **A call with one quoted argument**, if there is one. -/
theorem optionalCall_tells (hmethod : '(' ∉ method.toList) {x y : Option String}
    (hr : Unnamed method r) (hr' : Unnamed method r')
    (h : (optionalCall method x).toList ++ r = (optionalCall method y).toList ++ r') :
    x = y ∧ r = r' := by
  have hcall : ∀ {text : String} {r r' : List Char}, Unnamed method r' →
      (optionalCall method (some text)).toList ++ r ≠ r' := by
    rintro text r _ hr rfl
    rw [toList_optionalCall, List.cons_append, List.append_assoc, List.cons_append] at hr
    exact hr (takeWhile_call hmethod _)
  cases x with
  | none =>
      cases y with
      | none => exact ⟨rfl, h⟩
      | some text => exact (hcall hr h.symm).elim
  | some text =>
      cases y with
      | none => exact (hcall hr' h).elim
      | some text' =>
          rw [toList_optionalCall, toList_optionalCall] at h
          simp only [List.cons_append, List.append_assoc, List.nil_append, List.cons.injEq,
            true_and, List.append_cancel_left_eq] at h
          obtain ⟨rfl, hr⟩ := Text.quoted_tells h
          exact ⟨rfl, (List.cons.inj hr).2⟩

end

/-! ### Metadata -/

namespace Metadata

variable {m n : Metadata} {method : String} {r r' : List Char}

/-- The call that sets a free entry. -/
def entryCall (e : String × Value) : List Char :=
  '.' :: ("set_metadata".toList ++ '(' ::
    ((Text.quoted e.1).toList ++ ',' :: ' ' :: (e.2.source.toList ++ [')'])))

theorem toList_entryCall (key value : String) :
    (".set_metadata(" ++ key ++ ", " ++ value ++ ")").toList =
      '.' :: ("set_metadata".toList ++ '(' :: (key.toList ++ ',' :: ' ' ::
        (value.toList ++ [')']))) := by
  simp [String.toList_append]

theorem toList_source (m : Metadata) : m.source.toList =
    (optionalCall "set_name" m.name).toList ++ ((optionalCall "describe" m.description).toList ++
      ((optionalCall "deprecate" m.deprecation).toList ++ m.custom.flatMap entryCall)) := by
  have hjoin : ∀ entries : List (String × Value), (String.join (entries.map fun e =>
      ".set_metadata(" ++ Text.quoted e.1 ++ ", " ++ e.2.source ++ ")")).toList =
        entries.flatMap entryCall := by
    intro entries
    induction entries with
    | nil => rfl
    | cons e rest ih =>
        rw [List.map_cons, String.join_cons, String.toList_append, ih, List.flatMap_cons,
          toList_entryCall, entryCall]
  rw [source, String.toList_append, String.toList_append, String.toList_append, hjoin]
  simp only [List.append_assoc]

theorem unnamed_entries (hne : method ≠ "set_metadata") (hr : Ends r)
    (entries : List (String × Value)) : Unnamed method (entries.flatMap entryCall ++ r) := by
  cases entries with
  | nil => exact unnamed_of_ends hr
  | cons e rest =>
      rw [List.flatMap_cons, entryCall]
      simp only [List.cons_append, List.append_assoc]
      exact unnamed_call (by decide) hne _

theorem entries_tell {entries entries' : List (String × Value)}
    (h : ∀ e ∈ entries, e.2.WellFormed) (h' : ∀ e ∈ entries', e.2.WellFormed) (hr : Ends r)
    (hr' : Ends r') (heq : entries.flatMap entryCall ++ r = entries'.flatMap entryCall ++ r') :
    entries = entries' ∧ r = r' := by
  have hcall : ∀ {e : String × Value} {rest r : List Char}, Ends r → entryCall e ++ rest ≠ r := by
    rintro e rest _ hr rfl
    cases hr
  induction entries generalizing entries' with
  | nil =>
      cases entries' with
      | nil => exact ⟨rfl, heq⟩
      | cons e' rest' =>
          rw [List.flatMap_cons, List.append_assoc] at heq
          exact (hcall hr heq.symm).elim
  | cons e rest ih =>
      cases entries' with
      | nil =>
          rw [List.flatMap_cons, List.append_assoc] at heq
          exact (hcall hr' heq).elim
      | cons e' rest' =>
          simp only [List.flatMap_cons, entryCall, List.cons_append, List.append_assoc,
            List.nil_append, List.cons.injEq, true_and, List.append_cancel_left_eq] at heq
          obtain ⟨hkey, hvalue⟩ := Text.quoted_tells heq
          simp only [List.cons.injEq, true_and] at hvalue
          obtain ⟨hsnd, hmore⟩ := Value.source_tells (h e List.mem_cons_self)
            (h' e' List.mem_cons_self) hvalue
          obtain ⟨rfl, hr⟩ := ih (fun e he => h e (List.mem_cons_of_mem _ he))
            (fun e he => h' e (List.mem_cons_of_mem _ he)) (List.cons.inj hmore).2
          exact ⟨by rw [Prod.ext hkey hsnd], hr⟩

/-- What follows a kind does not set its policy. -/
theorem unnamed_source (hname : method ≠ "set_name") (hdescribe : method ≠ "describe")
    (hdeprecate : method ≠ "deprecate") (hcustom : method ≠ "set_metadata") (hr : Ends r)
    (m : Metadata) : Unnamed method (m.source.toList ++ r) := by
  rw [toList_source]
  simp only [List.append_assoc]
  exact unnamed_optionalCall (by decide) hname (unnamed_optionalCall (by decide) hdescribe
    (unnamed_optionalCall (by decide) hdeprecate (unnamed_entries hcustom hr _) _) _) _

/-- **The calls that attach metadata tell the metadata.** -/
theorem source_tells (hm : m.Proper) (hn : n.Proper) (hr : Ends r) (hr' : Ends r')
    (h : m.source.toList ++ r = n.source.toList ++ r') : m = n ∧ r = r' := by
  rw [toList_source, toList_source] at h
  simp only [List.append_assoc] at h
  have hentries : ∀ {method : String} {r : List Char} (m : Metadata), Ends r →
      method ≠ "set_metadata" → Unnamed method (m.custom.flatMap entryCall ++ r) :=
    fun m hr hne => unnamed_entries hne hr m.custom
  have hlast : ∀ {method : String} {r : List Char} (m : Metadata), Ends r →
      method ≠ "set_metadata" → method ≠ "deprecate" →
      Unnamed method ((optionalCall "deprecate" m.deprecation).toList ++
        (m.custom.flatMap entryCall ++ r)) :=
    fun m hr hne hne' => unnamed_optionalCall (by decide) hne' (hentries m hr hne) _
  obtain ⟨hname, h⟩ := optionalCall_tells (by decide)
    (unnamed_optionalCall (by decide) (by decide) (hlast m hr (by decide) (by decide)) _)
    (unnamed_optionalCall (by decide) (by decide) (hlast n hr' (by decide) (by decide)) _) h
  obtain ⟨hdescription, h⟩ := optionalCall_tells (by decide)
    (hlast m hr (by decide) (by decide)) (hlast n hr' (by decide) (by decide)) h
  obtain ⟨hdeprecation, h⟩ := optionalCall_tells (by decide)
    (hentries m hr (by decide)) (hentries n hr' (by decide)) h
  obtain ⟨hcustom, hrest⟩ := entries_tell (Value.wellFormedEntries_iff.1 hm.2)
    (Value.wellFormedEntries_iff.1 hn.2) hr hr' h
  cases m
  cases n
  simp only at hname hdescription hdeprecation hcustom
  exact ⟨by rw [hname, hdescription, hdeprecation, hcustom], hrest⟩

end Metadata

end Schemata
