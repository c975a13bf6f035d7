/-
**JSON pointers: from a pointer back to the texts of the segments.**

A pointer puts a `/` in front of every token and escapes `~` and `/` within it, by two replacements
one after the other.  A reader goes the other way: it splits at `/`, drops the empty piece in front,
and takes the two replacements back in the opposite order.  The order matters: a key `~1` is written
`~01`, and a reader that undid `~0` first would read `/`.

Main definitions:

* `Schemata.Text.replaceChar` — a text with each occurrence of a character replaced;
* `Schemata.Text.replacePair` — a text with each occurrence of a pair of characters replaced;
* `Schemata.Path.unescaped` — a piece of a pointer with both escapes taken back.

Main results:

* `Schemata.Path.flatMap_pointerChar`, `Schemata.Path.pointerChars_eq_flatMap` — escaping character
  by character is the two replacements, and does nothing to an index;
* `Schemata.Path.unescaped_escaped` — **taking the escapes back gives the token**;
* `Schemata.Path.splitOn_pointerChars` — the pieces of a pointer are its escaped tokens;
* `Schemata.Path.pointer_decodes` — **a pointer determines the texts of its segments**.
-/

import Mathlib.Data.List.Basic
import Schemata.Path

set_option relaxedAutoImplicit false
set_option autoImplicit false

namespace Schemata

/-! ### Replacements in a text -/

namespace Text

/-- **Every occurrence of `c` replaced** by `t`. -/
def replaceChar (c : Char) (t : List Char) (s : List Char) : List Char :=
  s.flatMap fun d => if d = c then t else [d]

/-- **Every occurrence of `a` followed by `b` replaced** by `c`, left to right and without overlaps:
what has been put in is not looked at again. -/
def replacePair (a b c : Char) : List Char → List Char
  | [] => []
  | [x] => [x]
  | x :: y :: rest =>
      if x = a ∧ y = b then c :: replacePair a b c rest
      else x :: replacePair a b c (y :: rest)

section

variable {a b c x : Char}

@[simp] theorem replaceChar_nil (t : List Char) : replaceChar c t [] = [] := rfl

theorem replaceChar_cons (t s : List Char) :
    replaceChar c t (x :: s) = (if x = c then t else [x]) ++ replaceChar c t s := rfl

theorem replaceChar_append (t s s' : List Char) :
    replaceChar c t (s ++ s') = replaceChar c t s ++ replaceChar c t s' :=
  List.flatMap_append

/-- A replaced character is gone, unless the replacement brings it back. -/
theorem not_mem_replaceChar {t : List Char} (ht : c ∉ t) (s : List Char) :
    c ∉ replaceChar c t s := by
  intro hc
  obtain ⟨d, _, hd⟩ := List.mem_flatMap.1 hc
  by_cases h : d = c
  · rw [if_pos h] at hd
    exact ht hd
  · rw [if_neg h] at hd
    exact h (List.mem_singleton.1 hd).symm

@[simp] theorem replacePair_hit (rest : List Char) :
    replacePair a b c (a :: b :: rest) = c :: replacePair a b c rest := by
  simp [replacePair]

/-- A character that does not open the pair stays. -/
theorem replacePair_cons_of_ne (hx : x ≠ a) (rest : List Char) :
    replacePair a b c (x :: rest) = x :: replacePair a b c rest := by
  cases rest with
  | nil => rfl
  | cons y rest => simp [replacePair, hx]

/-- The opening character stays too when something else follows. -/
theorem replacePair_cons_of_next {y : Char} (hy : y ≠ b) (rest : List Char) :
    replacePair a b c (x :: y :: rest) = x :: replacePair a b c (y :: rest) := by
  simp [replacePair, hy]

end

end Text

/-! ### Escaping and its reverse -/

namespace Path

/-- A piece of a pointer with the escapes taken back: first that of `/`, then that of `~`. -/
def unescaped (piece : List Char) : List Char :=
  Text.replacePair '~' '0' '~' (Text.replacePair '~' '1' '/' piece)

@[simp] theorem pointerChar_tilde : pointerChar '~' = ['~', '0'] := rfl

@[simp] theorem pointerChar_slash : pointerChar '/' = ['~', '1'] := rfl

theorem pointerChar_of_ne {c : Char} (htilde : c ≠ '~') (hslash : c ≠ '/') :
    pointerChar c = [c] := by
  simp [pointerChar, htilde, hslash]

/-- **Escaping character by character is the two replacements** in turn, that of `~` first: it is
the only one that can put in a `~`, and the second leaves what the first put in alone. -/
theorem flatMap_pointerChar (token : List Char) :
    token.flatMap pointerChar =
      Text.replaceChar '/' ['~', '1'] (Text.replaceChar '~' ['~', '0'] token) := by
  induction token with
  | nil => rfl
  | cons c rest ih =>
      rw [List.flatMap_cons, ih, Text.replaceChar_cons, Text.replaceChar_append]
      congr 1
      by_cases htilde : c = '~'
      · subst htilde
        rfl
      · by_cases hslash : c = '/'
        · subst hslash
          rfl
        · simp [pointerChar_of_ne htilde hslash, Text.replaceChar, htilde, hslash]

/-- Digits need no escape. -/
theorem flatMap_pointerChar_decimal (i : Nat) :
    (toString i).toList.flatMap pointerChar = (toString i).toList := by
  have hdigits : ∀ c ∈ (toString i).toList, pointerChar c = [c] := by
    intro c hc
    have hc : c.isDigit = true := Nat.isDigit_of_mem_toDigits (b := 10) (by decide) (by decide)
      (by simpa [toString, Nat.repr] using hc)
    refine pointerChar_of_ne ?_ ?_ <;> (rintro rfl; revert hc; decide)
  rw [List.flatMap_congr hdigits, List.flatMap_singleton']

/-- A pointer as it is put together: a key goes through the two replacements, an index is written in
decimal as it is. -/
theorem pointerChars_eq_flatMap (p : Path) :
    p.pointerChars = p.segments.flatMap fun
      | .key name =>
          '/' :: Text.replaceChar '/' ['~', '1'] (Text.replaceChar '~' ['~', '0'] name.toList)
      | .index i => '/' :: (toString i).toList := by
  refine List.flatMap_congr ?_
  intro s _
  cases s with
  | key name => simp only [Segment.token, flatMap_pointerChar]
  | index i => simp only [Segment.token, flatMap_pointerChar_decimal]

/-- An escaped token has no `/`, so splitting at `/` does not cut it. -/
theorem slash_not_mem_escaped (token : List Char) : '/' ∉ token.flatMap pointerChar := by
  rw [flatMap_pointerChar]
  exact Text.not_mem_replaceChar (by decide) _

/-- The first replacement of the reader takes back the second of the writer.  A `~` that the writer
put in is followed by `0` or `1`; what is left of an escaped `~` never looks like an escaped `/`,
because the `0` stands between it and the next character of the key. -/
theorem replacePair_escaped (token : List Char) :
    Text.replacePair '~' '1' '/' (token.flatMap pointerChar) =
      Text.replaceChar '~' ['~', '0'] token := by
  induction token with
  | nil => rfl
  | cons c rest ih =>
      rw [List.flatMap_cons, Text.replaceChar_cons, ← ih]
      by_cases htilde : c = '~'
      · subst htilde
        simp only [pointerChar_tilde, if_true, List.cons_append, List.nil_append]
        rw [Text.replacePair_cons_of_next (by decide), Text.replacePair_cons_of_ne (by decide)]
      · by_cases hslash : c = '/'
        · subst hslash
          simp only [pointerChar_slash, if_neg htilde, List.cons_append, List.nil_append]
          rw [Text.replacePair_hit]
        · rw [pointerChar_of_ne htilde hslash, if_neg htilde, List.singleton_append,
            List.singleton_append]
          exact Text.replacePair_cons_of_ne htilde _

/-- The second replacement of the reader takes back the first of the writer. -/
theorem replacePair_replaceChar (token : List Char) :
    Text.replacePair '~' '0' '~' (Text.replaceChar '~' ['~', '0'] token) = token := by
  induction token with
  | nil => rfl
  | cons c rest ih =>
      rw [Text.replaceChar_cons]
      by_cases htilde : c = '~'
      · subst htilde
        simp only [if_true, List.cons_append, List.nil_append]
        rw [Text.replacePair_hit, ih]
      · rw [if_neg htilde, List.singleton_append, Text.replacePair_cons_of_ne htilde, ih]

/-- **Taking the escapes back gives the token.** -/
theorem unescaped_escaped (token : List Char) : unescaped (token.flatMap pointerChar) = token := by
  rw [unescaped, replacePair_escaped, replacePair_replaceChar]

/-! ### Splitting a pointer -/

/-- A pointer is its escaped tokens with a `/` between them, after an empty piece. -/
theorem pointerChars_eq_intercalate (p : Path) :
    p.pointerChars =
      ['/'].intercalate ([] :: p.segments.map fun s => s.token.toList.flatMap pointerChar) := by
  obtain ⟨segments⟩ := p
  induction segments with
  | nil => rfl
  | cons s rest ih =>
      have hrest : (Path.mk (s :: rest)).pointerChars =
          '/' :: s.token.toList.flatMap pointerChar ++ (Path.mk rest).pointerChars := rfl
      rw [hrest, ih]
      cases rest <;> simp [List.intercalate]

/-- **The pieces of a pointer**: an empty one, and then the escaped tokens. -/
theorem splitOn_pointerChars (p : Path) :
    p.pointerChars.splitOn '/' =
      [] :: p.segments.map fun s => s.token.toList.flatMap pointerChar := by
  rw [pointerChars_eq_intercalate]
  refine List.splitOn_intercalate '/' ?_ (by simp)
  intro piece hpiece
  rcases List.mem_cons.1 hpiece with rfl | hpiece
  · simp
  · obtain ⟨s, _, rfl⟩ := List.mem_map.1 hpiece
    exact slash_not_mem_escaped _

/-- The texts of the segments are read off the pieces. -/
theorem map_unescaped_tokens (p : Path) :
    ((p.segments.map fun s => s.token.toList.flatMap pointerChar).map fun piece =>
      String.ofList (unescaped piece)) = p.segments.map Segment.token := by
  simp [Function.comp_def, unescaped_escaped]

theorem pointer_congr {p q : Path}
    (h : p.segments.map Segment.token = q.segments.map Segment.token) : p.pointer = q.pointer := by
  have hchars : ∀ r : Path, r.pointerChars =
      (r.segments.map Segment.token).flatMap fun t => '/' :: t.toList.flatMap pointerChar := by
    intro r
    rw [List.flatMap_map]
    rfl
  rw [pointer, pointer, hchars p, hchars q, h]

/-- Only the root has the empty pointer: every segment puts in a `/`. -/
theorem pointer_eq_empty_iff {p : Path} : p.pointer = "" ↔ p = root := by
  obtain ⟨segments⟩ := p
  cases segments with
  | nil => simp [pointer, pointerChars, root]
  | cons s rest => simp [pointer, pointerChars, root]

/-- **A pointer determines the texts of its segments.**  Splitting the pointer at `/` gives an
empty piece first; every piece after it, with `~1` replaced by `/` and then `~0` by `~`, is the text
of the segment in its place.  So two paths have the same pointer exactly when their segments have
the same texts, and only the root has the empty one. -/
theorem pointer_decodes (p : Path) :
    (∃ pieces, p.pointer.toList.splitOn '/' = [] :: pieces ∧
      (pieces.map fun piece => String.ofList (unescaped piece)) =
        p.segments.map Segment.token) ∧
    (∀ q : Path, p.pointer = q.pointer ↔
      p.segments.map Segment.token = q.segments.map Segment.token) ∧
    (p.pointer = "" ↔ p = root) := by
  have hsplit : ∀ r : Path, r.pointer.toList.splitOn '/' =
      [] :: r.segments.map fun s => s.token.toList.flatMap pointerChar := by
    intro r
    rw [pointer, String.toList_ofList, splitOn_pointerChars]
  refine ⟨⟨_, hsplit p, map_unescaped_tokens p⟩, ?_, pointer_eq_empty_iff⟩
  intro q
  refine ⟨fun h => ?_, pointer_congr⟩
  -- equal pointers split into equal pieces, and the pieces hold the texts
  have hpieces := (hsplit p).symm.trans ((congrArg (·.toList.splitOn '/') h).trans (hsplit q))
  rw [← map_unescaped_tokens p, ← map_unescaped_tokens q, (List.cons.inj hpieces).2]

/-- The order of the reader's replacements matters: `~1` is written `~01`. -/
example : unescaped ['~', '0', '1'] = ['~', '1'] ∧
    Text.replacePair '~' '1' '/' (Text.replacePair '~' '0' '~' ['~', '0', '1']) = ['/'] := by
  decide

end Path

end Schemata
