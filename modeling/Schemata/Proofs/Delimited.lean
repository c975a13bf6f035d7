/-
**Texts that tell where they end.**

In a text that is put together from parts, a part can be found again if nothing that begins like it
is another part.  Words and numbers end where a comma or a closing bracket begins, strings at the
quote that is not escaped, and lists at their bracket.  So the compact text of a value, whatever
follows it, tells the value and what follows.

Main definitions:

* `Schemata.Ends` — what can follow a part;
* `Schemata.Text.unquote`, `Schemata.Json.unescape` — one character of a string, read back.

Main results:

* `Schemata.token_tells`, `Schemata.flatMap_tells`, `Schemata.bracketed_tells` — words, strings and
  lists;
* `Schemata.Text.quoted_tells`, `Schemata.Json.stringText_tells` — both ways to write a string;
* `Schemata.Value.text_tells` — **the compact text of a value tells the value**.
-/

import Schemata.Json.Printer
import Schemata.Proofs.NumberTexts
import Schemata.Text.Quoted

set_option relaxedAutoImplicit false
set_option autoImplicit false

namespace Schemata

/-! ### Parts of a text -/

/-- The characters that end words and numbers. -/
def closes (c : Char) : Bool := c == ',' || c == ')' || c == ']' || c == '\x7d'

/-- **What can follow a part**: nothing, or a character that ends words. -/
def Ends : List Char → Prop
  | [] => True
  | c :: _ => closes c = true

/-- The text begins with a character that does not end words. -/
def Starts (p : List Char) : Prop := ∃ c rest, p = c :: rest ∧ closes c = false

section

variable {p q r r' : List Char}

/-- **Words** end where something ends them. -/
theorem token_tells (hp : ∀ c ∈ p, closes c = false) (hq : ∀ c ∈ q, closes c = false)
    (hr : Ends r) (hr' : Ends r') (h : p ++ r = q ++ r') : p = q ∧ r = r' := by
  induction p generalizing q with
  | nil =>
      cases q with
      | nil => exact ⟨rfl, h⟩
      | cons c q =>
          subst h
          exact absurd hr (by simp [Ends, hq c List.mem_cons_self])
  | cons c p ih =>
      cases q with
      | nil =>
          subst h
          exact absurd hr' (by simp [Ends, hp c List.mem_cons_self])
      | cons d q =>
          obtain ⟨rfl, hrest⟩ := List.cons.inj h
          obtain ⟨rfl, hr⟩ := ih (fun c hc => hp c (List.mem_cons_of_mem _ hc))
            (fun c hc => hq c (List.mem_cons_of_mem _ hc)) hrest
          exact ⟨rfl, hr⟩

/-- **Strings** end at the first quote that is not part of a character's code. -/
theorem flatMap_tells {code : Char → List Char} {read : List Char → Option (Char × List Char)}
    (hread : ∀ c r, read (code c ++ r) = some (c, r)) (hquote : ∀ r, read ('"' :: r) = none)
    {s t : List Char} (h : s.flatMap code ++ '"' :: r = t.flatMap code ++ '"' :: r') :
    s = t ∧ r = r' := by
  induction s generalizing t with
  | nil =>
      cases t with
      | nil => exact ⟨rfl, (List.cons.inj h).2⟩
      | cons d t =>
          have hd := hread d (t.flatMap code ++ '"' :: r')
          rw [← List.append_assoc, ← List.flatMap_cons, ← h] at hd
          exact absurd hd (by simp [hquote])
  | cons c s ih =>
      have hc := hread c (s.flatMap code ++ '"' :: r)
      rw [← List.append_assoc, ← List.flatMap_cons, h] at hc
      cases t with
      | nil => exact absurd hc (by simp [hquote])
      | cons d t =>
          rw [List.flatMap_cons, List.append_assoc, hread] at hc
          obtain ⟨rfl, hrest⟩ := Prod.mk.inj (Option.some.inj hc)
          obtain ⟨rfl, hr⟩ := ih hrest.symm
          exact ⟨rfl, hr⟩

end

/-! ### Lists -/

section

variable {α β : Type} {P : α → List Char → Prop} {Q : β → List Char → Prop} {R : α → β → Prop}
  {as : List α} {bs : List β} {ps qs : List (List Char)} {sep r r' : List Char} {close : Char}

/-- What the parts of a list tell, one by one and whatever follows. -/
def TellsParts (P : α → List Char → Prop) (Q : β → List Char → Prop) (R : α → β → Prop)
    (as : List α) (bs : List β) : Prop :=
  ∀ a ∈ as, ∀ b ∈ bs, ∀ p q, P a p → Q b q → ∀ r r', Ends r → Ends r' →
    p ++ r = q ++ r' → R a b ∧ r = r'

theorem ends_tail (hclose : closes close = true) (ps : List (List Char)) (r : List Char) :
    Ends (ps.flatMap (fun p => ',' :: (sep ++ p)) ++ close :: r) := by
  cases ps with
  | nil => exact hclose
  | cons p ps => rfl

/-- Parts that follow others, each after a comma. -/
theorem tail_tells (hclose : closes close = true) (hcomma : close ≠ ',')
    (has : List.Forall₂ P as ps) (hbs : List.Forall₂ Q bs qs) (htells : TellsParts P Q R as bs)
    (h : ps.flatMap (fun p => ',' :: (sep ++ p)) ++ close :: r =
      qs.flatMap (fun q => ',' :: (sep ++ q)) ++ close :: r') :
    List.Forall₂ R as bs ∧ r = r' := by
  induction has generalizing bs qs with
  | nil =>
      cases hbs with
      | nil => exact ⟨.nil, (List.cons.inj h).2⟩
      | cons hb hbs => exact absurd (List.cons.inj h).1 hcomma
  | @cons a p as ps ha has ih =>
      cases hbs with
      | nil => exact absurd (List.cons.inj h).1.symm hcomma
      | @cons b q bs qs hb hbs =>
          simp only [List.flatMap_cons, List.cons_append, List.append_assoc, List.cons.injEq,
            true_and, List.append_cancel_left_eq] at h
          obtain ⟨hab, hrest⟩ := htells a List.mem_cons_self b List.mem_cons_self p q ha hb _ _
            (ends_tail hclose ps r) (ends_tail hclose qs r') h
          obtain ⟨hall, hr⟩ := ih hbs (fun a ha b hb => htells a (List.mem_cons_of_mem _ ha) b
            (List.mem_cons_of_mem _ hb)) hrest
          exact ⟨.cons hab hall, hr⟩

theorem intercalate_cons (sep p : List Char) (ps : List (List Char)) :
    (',' :: sep).intercalate (p :: ps) = p ++ ps.flatMap fun p => ',' :: (sep ++ p) := by
  induction ps generalizing p with
  | nil => simp [List.intercalate]
  | cons q ps ih =>
      have hstep : (',' :: sep).intercalate (p :: q :: ps) =
          p ++ ',' :: (sep ++ (',' :: sep).intercalate (q :: ps)) := by
        simp [List.intercalate]
      rw [hstep, ih, List.flatMap_cons, List.cons_append, List.append_assoc]

/-- **Lists** end at their bracket. -/
theorem bracketed_tells (hclose : closes close = true) (hcomma : close ≠ ',')
    (has : List.Forall₂ P as ps) (hbs : List.Forall₂ Q bs qs)
    (hstarts : ∀ p ∈ ps, Starts p) (hstarts' : ∀ q ∈ qs, Starts q)
    (htells : TellsParts P Q R as bs)
    (h : (',' :: sep).intercalate ps ++ close :: r = (',' :: sep).intercalate qs ++ close :: r') :
    List.Forall₂ R as bs ∧ r = r' := by
  have hfirst : ∀ {p : List Char} (more r r' : List Char), Starts p →
      p ++ more ++ close :: r ≠ close :: r' := by
    intro p more r r' hp heq
    obtain ⟨c, rest, rfl, hc⟩ := hp
    rw [(List.cons.inj heq).1, hclose] at hc
    cases hc
  cases has with
  | nil =>
      cases hbs with
      | nil => exact ⟨.nil, (List.cons.inj h).2⟩
      | cons hb hbs =>
          rw [intercalate_cons] at h
          exact absurd h.symm (hfirst _ _ _ (hstarts' _ List.mem_cons_self))
  | @cons a p as ps ha has =>
      cases hbs with
      | nil =>
          rw [intercalate_cons] at h
          exact absurd h (hfirst _ _ _ (hstarts _ List.mem_cons_self))
      | @cons b q bs qs hb hbs =>
          rw [intercalate_cons, intercalate_cons, List.append_assoc, List.append_assoc] at h
          obtain ⟨hab, hrest⟩ := htells a List.mem_cons_self b List.mem_cons_self p q ha hb _ _
            (ends_tail hclose ps r) (ends_tail hclose qs r') h
          obtain ⟨hall, hr⟩ := tail_tells hclose hcomma has hbs (fun a ha b hb =>
            htells a (List.mem_cons_of_mem _ ha) b (List.mem_cons_of_mem _ hb)) hrest
          exact ⟨.cons hab hall, hr⟩

end

/-! ### Hexadecimal digits -/

/-- The value of a hexadecimal digit. -/
def hexDigitValue (c : Char) : Nat := if c.isDigit then c.toNat - 48 else c.toNat - 87

/-- The value of hexadecimal digits. -/
def hexValue (ds : List Char) : Nat := ds.foldl (fun n c => 16 * n + hexDigitValue c) 0

theorem hexDigitValue_digitChar : ∀ n < 16, hexDigitValue n.digitChar = n := by decide

theorem digitChar_ne_brace : ∀ n < 16, n.digitChar ≠ '\x7d' := by decide

/-- **Hexadecimal digits tell their number**, and have no brace among them. -/
theorem hexDigits_tell (n : Nat) :
    hexValue (Text.hexDigits n) = n ∧ '\x7d' ∉ Text.hexDigits n := by
  induction n using Nat.strongRecOn with
  | ind n ih =>
      rw [Text.hexDigits, Nat.toDigits_eq_if (by omega)]
      split
      · rename_i hlt
        refine ⟨?_, fun hmem => digitChar_ne_brace n hlt (List.mem_singleton.1 hmem).symm⟩
        simp [hexValue, hexDigitValue_digitChar n hlt]
      · obtain ⟨hvalue, hbrace⟩ := ih (n / 16) (by omega)
        have hlt : n % 16 < 16 := Nat.mod_lt n (by omega)
        constructor
        · rw [hexValue, List.foldl_append]
          rw [hexValue, Text.hexDigits] at hvalue
          rw [hvalue]
          simp only [List.foldl_cons, List.foldl_nil, hexDigitValue_digitChar _ hlt]
          omega
        · intro hmem
          rcases List.mem_append.1 hmem with hmem | hmem
          · exact hbrace hmem
          · exact digitChar_ne_brace _ hlt (List.mem_singleton.1 hmem).symm

/-! ### Quoted strings -/

namespace Text

/-- **One character of a quoted string**, read back. -/
def unquote : List Char → Option (Char × List Char)
  | '\\' :: 'u' :: '\x7b' :: rest =>
      some (Char.ofNat (hexValue (Numeral.cut '\x7d' rest).1), (Numeral.cut '\x7d' rest).2)
  | '\\' :: 't' :: rest => some ('\t', rest)
  | '\\' :: 'n' :: rest => some ('\n', rest)
  | '\\' :: 'r' :: rest => some ('\r', rest)
  | '\\' :: '0' :: rest => some (Char.ofNat 0, rest)
  | '\\' :: c :: rest => some (c, rest)
  | '"' :: _ => none
  | c :: rest => some (c, rest)
  | [] => none

theorem unquote_quotedChar (c : Char) (r : List Char) :
    unquote (quotedChar c ++ r) = some (c, r) := by
  rw [quotedChar]
  split
  · subst_vars; rfl
  split
  · subst_vars; rfl
  split
  · subst_vars; rfl
  split
  · subst_vars; rfl
  split
  · subst_vars; rfl
  split
  · rename_i hnull
    rw [← Char.ofNat_toNat c, hnull]
    rfl
  split
  · obtain ⟨hvalue, hbrace⟩ := hexDigits_tell c.toNat
    have hcut : Numeral.cut '\x7d' (hexDigits c.toNat ++ '\x7d' :: r) = (hexDigits c.toNat, r) :=
      Numeral.cut_append hbrace r
    simp only [List.cons_append, List.append_assoc, List.nil_append, unquote, hcut, hvalue,
      Char.ofNat_toNat]
  · rename_i hquote hslash _ _ _ _ _
    rw [List.singleton_append, unquote.eq_def]
    split <;> simp_all

/-- **A quoted string tells the string.** -/
theorem quoted_tells {s t : String} {r r' : List Char}
    (h : (quoted s).toList ++ r = (quoted t).toList ++ r') : s = t ∧ r = r' := by
  simp only [quoted, String.toList_ofList, List.cons_append, List.append_assoc, List.nil_append,
    List.cons.injEq, true_and] at h
  obtain ⟨hst, hr⟩ := flatMap_tells unquote_quotedChar (fun _ => rfl) h
  exact ⟨String.toList_inj.1 hst, hr⟩

theorem quoted_starts (s : String) : ∃ rest, (quoted s).toList = '"' :: rest :=
  ⟨_, String.toList_ofList⟩

end Text

/-! ### JSON strings -/

namespace Json

/-- **One character of a JSON string**, read back. -/
def unescape : List Char → Option (Char × List Char)
  | '\\' :: 'u' :: '0' :: '0' :: a :: b :: rest =>
      some (Char.ofNat (16 * hexDigitValue a + hexDigitValue b), rest)
  | '\\' :: 'b' :: rest => some (Char.ofNat 8, rest)
  | '\\' :: 't' :: rest => some (Char.ofNat 9, rest)
  | '\\' :: 'n' :: rest => some (Char.ofNat 10, rest)
  | '\\' :: 'f' :: rest => some (Char.ofNat 12, rest)
  | '\\' :: 'r' :: rest => some (Char.ofNat 13, rest)
  | '\\' :: c :: rest => some (c, rest)
  | '"' :: _ => none
  | c :: rest => some (c, rest)
  | [] => none

theorem unescape_escapedChar (c : Char) (r : List Char) :
    unescape (escapedChar c ++ r) = some (c, r) := by
  have hcode : ∀ {n : Nat}, c.toNat = n → c = Char.ofNat n := fun h => h ▸ (Char.ofNat_toNat c).symm
  rw [escapedChar]
  split
  · subst_vars; rfl
  split
  · subst_vars; rfl
  split
  · rename_i h; rw [hcode h]; rfl
  split
  · rename_i h; rw [hcode h]; rfl
  split
  · rename_i h; rw [hcode h]; rfl
  split
  · rename_i h; rw [hcode h]; rfl
  split
  · rename_i h; rw [hcode h]; rfl
  split
  · have hhigh := hexDigitValue_digitChar (c.toNat / 16) (by omega)
    have hlow := hexDigitValue_digitChar (c.toNat % 16) (by omega)
    have hsum : 16 * (c.toNat / 16) + c.toNat % 16 = c.toNat := by omega
    simp only [List.cons_append, List.nil_append, unescape, hexDigit, hhigh, hlow, hsum,
      Char.ofNat_toNat]
  · rename_i hquote hslash _ _ _ _ _ _
    rw [List.singleton_append, unescape.eq_def]
    split <;> simp_all

/-- **A JSON string tells the string.** -/
theorem stringText_tells {s t : String} {r r' : List Char}
    (h : (stringText s).toList ++ r = (stringText t).toList ++ r') : s = t ∧ r = r' := by
  simp only [stringText, String.toList_ofList, List.cons_append, List.append_assoc,
    List.nil_append, List.cons.injEq, true_and] at h
  obtain ⟨hst, hr⟩ := flatMap_tells unescape_escapedChar (fun _ => rfl) h
  exact ⟨String.toList_inj.1 hst, hr⟩

theorem stringText_starts (s : String) : ∃ rest, (stringText s).toList = '"' :: rest :=
  ⟨_, String.toList_ofList⟩

end Json

/-! ### Numbers -/

theorem digit_not_closes {c : Char} (h : c.isDigit = true) : closes c = false := by
  cases hc : closes c with
  | false => rfl
  | true =>
      simp only [closes, Bool.or_eq_true, beq_iff_eq] at hc
      rcases hc with ((rfl | rfl) | rfl) | rfl <;> cases h

theorem numeric_not_closes {c : Char} (h : Layout.Numeric c) : closes c = false := by
  rcases h with h | h
  · exact digit_not_closes h
  · simp only [List.mem_cons, List.not_mem_nil, or_false] at h
    rcases h with rfl | rfl | rfl | rfl <;> rfl

namespace Number

theorem text_float {x : Binary64} (h : x.Finite) : (float x).text = Layout.json.write x := by
  obtain ⟨negative, units, rfl, -, -⟩ := h
  rfl

theorem numeric_text {n : Number} (h : n.WellFormed) : ∀ c ∈ n.text.toList, Layout.Numeric c := by
  cases n with
  | int i => exact numeric_toString_int i
  | float x =>
      rw [text_float h]
      exact Layout.numeric_write h

theorem signed_text {n : Number} (h : n.WellFormed) : Layout.Signed n.text.toList := by
  cases n with
  | int i => exact signed_toString_int i
  | float x =>
      rw [text_float h]
      exact Layout.signed_write h

/-- **The text of a number tells the number**, integers and floating-point numbers apart. -/
theorem text_injective {m n : Number} (hm : m.WellFormed) (hn : n.WellFormed)
    (h : m.text = n.text) : m = n := by
  cases m with
  | int i =>
      cases n with
      | int j => exact congrArg int (toString_int_injective h)
      | float y =>
          have hmarked := Layout.marked_write (l := .json) rfl hn
          rw [← text_float hn, ← h] at hmarked
          exact absurd hmarked (not_marked_toString_int i)
  | float x =>
      cases n with
      | int j =>
          have hmarked := Layout.marked_write (l := .json) rfl hm
          rw [← text_float hm, h] at hmarked
          exact absurd hmarked (not_marked_toString_int j)
      | float y =>
          rw [text_float hm, text_float hn] at h
          exact congrArg float (Layout.write_injective hm hn h)

end Number

/-! ### Values -/

namespace Value

/-- A number for each form of value. -/
def form : Value → Nat
  | .null => 0
  | .bool _ => 1
  | .number _ => 2
  | .string _ => 3
  | .array _ => 4
  | .object _ => 5

/-- The form of a value whose text begins with the character. -/
def formOf : Char → Nat
  | 'n' => 0
  | 't' => 1
  | 'f' => 1
  | '"' => 3
  | '[' => 4
  | '\x7b' => 5
  | _ => 2

theorem formOf_numeric {c : Char} (h : c.isDigit = true ∨ c = '-') : formOf c = 2 := by
  unfold formOf
  split <;> simp_all

/-- **The first character tells the form.** -/
theorem text_starts {v : Value} (h : v.WellFormed) :
    ∃ c rest, v.text.toList = c :: rest ∧ formOf c = v.form ∧ closes c = false := by
  cases v with
  | null => exact ⟨'n', _, rfl, rfl, rfl⟩
  | bool b => cases b <;> exact ⟨_, _, rfl, rfl, rfl⟩
  | number n =>
      obtain ⟨c, rest, htext, hc⟩ := Number.signed_text h
      have hclosed := numeric_not_closes (Number.numeric_text h c (htext ▸ List.mem_cons_self))
      exact ⟨c, rest, htext, formOf_numeric hc, hclosed⟩
  | string s =>
      obtain ⟨rest, htext⟩ := Json.stringText_starts s
      exact ⟨'"', rest, htext, rfl, rfl⟩
  | array items =>
      exact ⟨'[', _, by rw [text, String.toList_append, String.toList_append]; rfl, rfl, rfl⟩
  | object entries =>
      exact ⟨'\x7b', _, by rw [text, String.toList_append, String.toList_append]; rfl, rfl, rfl⟩

theorem starts_text {v : Value} (h : v.WellFormed) : Starts v.text.toList := by
  obtain ⟨c, rest, htext, -, hc⟩ := text_starts h
  exact ⟨c, rest, htext, hc⟩

theorem form_eq {v w : Value} {r r' : List Char} (hv : v.WellFormed) (hw : w.WellFormed)
    (h : v.text.toList ++ r = w.text.toList ++ r') : v.form = w.form := by
  obtain ⟨c, rest, htext, hform, -⟩ := text_starts hv
  obtain ⟨d, more, htext', hform', -⟩ := text_starts hw
  rw [htext, htext'] at h
  rw [← hform, ← hform', (List.cons.inj h).1]

theorem itemTexts_eq_map (items : List Value) : itemTexts items = items.map text := by
  induction items with
  | nil => rfl
  | cons v rest ih => rw [itemTexts, ih, List.map_cons]

/-- The text of an entry. -/
def entryText (e : String × Value) : List Char :=
  (Json.stringText e.1).toList ++ ':' :: e.2.text.toList

theorem toList_entryText (key text : String) :
    (key ++ ":" ++ text).toList = key.toList ++ ':' :: text.toList := by
  simp [String.toList_append]

theorem entryTexts_eq_map (entries : List (String × Value)) :
    (entryTexts entries).map String.toList = entries.map entryText := by
  induction entries with
  | nil => rfl
  | cons e rest ih =>
      rw [entryTexts, List.map_cons, ih, List.map_cons, entryText, toList_entryText]

theorem toList_text_array (items : List Value) : (Value.array items).text.toList =
    '[' :: ([','].intercalate (items.map fun v => v.text.toList) ++ [']']) := by
  rw [text, itemTexts_eq_map]
  simp [String.toList_append, String.toList_intercalate, Function.comp_def]

theorem toList_text_object (entries : List (String × Value)) :
    (Value.object entries).text.toList =
      '\x7b' :: ([','].intercalate (entries.map entryText) ++ ['\x7d']) := by
  rw [text, ← entryTexts_eq_map]
  simp [String.toList_append, String.toList_intercalate]

theorem starts_entryText (e : String × Value) : Starts (entryText e) := by
  obtain ⟨rest, htext⟩ := Json.stringText_starts e.1
  rw [entryText, htext]
  exact ⟨_, _, rfl, rfl⟩

/-- Lists of parts with their texts. -/
theorem forall₂_texts {α : Type} (text : α → List Char) (as : List α) :
    List.Forall₂ (fun a p => text a = p) as (as.map text) :=
  List.forall₂_map_right_iff.2 (List.forall₂_same.2 fun _ _ => rfl)

/-- What the text of a value tells, whatever follows it. -/
def Tells (v : Value) : Prop :=
  ∀ (w : Value) (r r' : List Char), v.WellFormed → w.WellFormed → Ends r → Ends r' →
    v.text.toList ++ r = w.text.toList ++ r' → v = w ∧ r = r'

section

variable {r r' : List Char}

/-- Arrays, if the texts of their items tell the items. -/
theorem array_tells {items items' : List Value} (htells : ∀ v ∈ items, v.Tells)
    (hv : ∀ v ∈ items, v.WellFormed) (hw : ∀ v ∈ items', v.WellFormed)
    (h : (array items).text.toList ++ r = (array items').text.toList ++ r') :
    items = items' ∧ r = r' := by
  rw [toList_text_array, toList_text_array] at h
  simp only [List.cons_append, List.append_assoc, List.nil_append, List.cons.injEq,
    true_and] at h
  have hparts : TellsParts (fun v p => v.text.toList = p) (fun v p => v.text.toList = p) Eq
      items items' := by
    rintro v hmem w hmem' _ _ rfl rfl r r' hr hr' heq
    exact htells v hmem w r r' (hv v hmem) (hw w hmem') hr hr' heq
  have hstarts : ∀ {items : List Value}, (∀ v ∈ items, v.WellFormed) →
      ∀ p ∈ items.map fun v => v.text.toList, Starts p := fun hitems =>
    List.forall_mem_map.2 fun v hmem => starts_text (hitems v hmem)
  obtain ⟨hall, hr⟩ := bracketed_tells rfl (by decide) (forall₂_texts _ items)
    (forall₂_texts _ items') (hstarts hv) (hstarts hw) hparts h
  exact ⟨List.forall₂_eq_eq_eq ▸ hall, hr⟩

/-- Objects, if the texts of their values tell the values. -/
theorem object_tells {entries entries' : List (String × Value)}
    (htells : ∀ e ∈ entries, e.2.Tells) (hv : ∀ e ∈ entries, e.2.WellFormed)
    (hw : ∀ e ∈ entries', e.2.WellFormed)
    (h : (object entries).text.toList ++ r = (object entries').text.toList ++ r') :
    entries = entries' ∧ r = r' := by
  rw [toList_text_object, toList_text_object] at h
  simp only [List.cons_append, List.append_assoc, List.nil_append, List.cons.injEq,
    true_and] at h
  have hparts : TellsParts (fun e p => entryText e = p) (fun e p => entryText e = p) Eq
      entries entries' := by
    rintro e hmem e' hmem' _ _ rfl rfl r r' hr hr' heq
    rw [entryText, entryText, List.append_assoc, List.append_assoc] at heq
    obtain ⟨hkey, hvalue⟩ := Json.stringText_tells heq
    obtain ⟨hsnd, hr⟩ := htells e hmem e'.2 r r' (hv e hmem) (hw e' hmem') hr hr'
      (List.cons.inj hvalue).2
    exact ⟨Prod.ext hkey hsnd, hr⟩
  have hstarts : ∀ entries : List (String × Value),
      ∀ p ∈ entries.map entryText, Starts p := fun _ =>
    List.forall_mem_map.2 fun e _ => starts_entryText e
  obtain ⟨hall, hr⟩ := bracketed_tells rfl (by decide) (forall₂_texts _ entries)
    (forall₂_texts _ entries') (hstarts entries) (hstarts entries') hparts h
  exact ⟨List.forall₂_eq_eq_eq ▸ hall, hr⟩

end

mutual

/-- **The compact text of a value tells the value**, and what follows it. -/
theorem text_tells : ∀ v : Value, v.Tells
  | .null => by
      intro w r r' hv hw hr hr' h
      have hform := form_eq hv hw h
      cases w with
      | null => exact ⟨rfl, List.append_cancel_left h⟩
      | _ => cases hform
  | .bool b => by
      intro w r r' hv hw hr hr' h
      have hform := form_eq hv hw h
      cases w with
      | bool b' =>
          cases b <;> cases b'
          · exact ⟨rfl, List.append_cancel_left h⟩
          · cases (List.cons.inj h).1
          · cases (List.cons.inj h).1
          · exact ⟨rfl, List.append_cancel_left h⟩
      | _ => cases hform
  | .number n => by
      intro w r r' hv hw hr hr' h
      have hform := form_eq hv hw h
      cases w with
      | number m =>
          obtain ⟨htext, hr⟩ := token_tells
            (fun c hc => numeric_not_closes (Number.numeric_text hv c hc))
            (fun c hc => numeric_not_closes (Number.numeric_text hw c hc)) hr hr' h
          exact ⟨congrArg _ (Number.text_injective hv hw (String.toList_inj.1 htext)), hr⟩
      | _ => cases hform
  | .string s => by
      intro w r r' hv hw hr hr' h
      have hform := form_eq hv hw h
      cases w with
      | string t =>
          obtain ⟨rfl, hr⟩ := Json.stringText_tells h
          exact ⟨rfl, hr⟩
      | _ => cases hform
  | .array items => by
      intro w r r' hv hw hr hr' h
      have hform := form_eq hv hw h
      cases w with
      | array items' =>
          obtain ⟨rfl, hr⟩ := array_tells (itemTexts_tell items) (wellFormedItems_iff.1 hv)
            (wellFormedItems_iff.1 hw) h
          exact ⟨rfl, hr⟩
      | _ => cases hform
  | .object entries => by
      intro w r r' hv hw hr hr' h
      have hform := form_eq hv hw h
      cases w with
      | object entries' =>
          obtain ⟨rfl, hr⟩ := object_tells (entryTexts_tell entries)
            (wellFormedEntries_iff.1 hv.2) (wellFormedEntries_iff.1 hw.2) h
          exact ⟨rfl, hr⟩
      | _ => cases hform

theorem itemTexts_tell : ∀ items : List Value, ∀ v ∈ items, v.Tells
  | [] => fun _ hv => absurd hv List.not_mem_nil
  | v :: rest => by
      intro u hu
      rcases List.mem_cons.1 hu with heq | hu
      · exact heq ▸ text_tells v
      · exact itemTexts_tell rest u hu

theorem entryTexts_tell : ∀ entries : List (String × Value), ∀ e ∈ entries, e.2.Tells
  | [] => fun _ he => absurd he List.not_mem_nil
  | (_, v) :: rest => by
      intro e he
      rcases List.mem_cons.1 he with heq | he
      · exact heq ▸ text_tells v
      · exact entryTexts_tell rest e he

end

end Value

end Schemata
