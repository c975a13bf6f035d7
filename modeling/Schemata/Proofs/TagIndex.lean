/-
**The index of tags, and the three views of a literal that it rests on.**

A literal is matched with a value, compared with another literal, and hashed.  The three agree: a
literal matches the values whose literals equal it, equality is an equivalence, and equal literals
feed the same data to a hash.  So tags can be the keys of a hash map.

A union looks the tags of a value up in such a map, instead of comparing every member's tag: the
positions of members are kept under their tags as the members come, those without a tag apart, and
the fields in which tags are to be found.  What is found for a value, sorted and without repeats,
are the members that the value admits, which are those that the union tries first.

Main definitions:

* `Schemata.TagKey` — tags as keys of a hash map;
* `Schemata.TagIndex`, `Schemata.TagIndex.build?` — the index of a union's members;
* `Schemata.TagIndex.candidates` — the members that it finds for a value.

Main results:

* `Schemata.Literal.ofNative_accepts`, `Schemata.Literal.equal_equivalence`,
  `Schemata.Literal.hashed_eq_of_equal` — matching, equality and hashing of literals;
* `Schemata.TagKey.lawfulHashable` — equal keys have equal hashes;
* `Schemata.TagIndex.ofKeys_indexes` — what an index holds, kept by every member that is added;
* `Schemata.TagIndex.candidates_eq_selected` — **the index finds what the union tries first**;
* `Schemata.Hashing.Lawful.literal_views_agree` — **the views of a literal agree**, and the index
  finds a member for a value when the member's literal matches it.
-/

import Mathlib.Data.List.Destutter
import Mathlib.Data.List.Sort
import Schemata.Execution.Machine
import Schemata.Literal.Hashing
import Schemata.Proofs.EqualSchemas

set_option relaxedAutoImplicit false
set_option autoImplicit false

namespace Schemata

/-! ### Three views of a literal -/

namespace Literal

variable {l l' : Literal}

theorem proper_of_isPrimitive (h : l.isPrimitive = true) : l.Proper := by
  cases l with
  | composite v => cases h
  | _ => trivial

theorem ofValue_proper {v : Value} (h : v.WellFormed) : (ofValue v).Proper := by
  cases v with
  | array items => exact h
  | object entries => exact h
  | _ => trivial

/-- An array or an object is matched as it is compared. -/
theorem composite_accepts {a : Value} (ha : ofValue a = .composite a) (v : Value) :
    (composite a).accepts v = (composite a).equal (ofValue v) := by
  cases a with
  | array items => cases v <;> rfl
  | object entries => cases v <;> rfl
  | _ => cases ha

/-- **A literal matches the values whose literals equal it**, whatever it was made from. -/
theorem ofNative_accepts (n : Native) (v : Value) :
    (ofNative n).accepts v = (ofNative n).equal (ofValue v) := by
  cases n with
  | value a =>
      cases a with
      | array items => exact composite_accepts rfl v
      | object entries => exact composite_accepts rfl v
      | _ => exact accepts_iff_equal rfl v
  | _ => exact accepts_iff_equal rfl v

/-- **Equality of literals is an equivalence**, on all that hold what can stand in a document. -/
theorem equal_equivalence :
    Equivalence fun l l' : {l : Literal // l.Proper} => l.1.equal l'.1 = true where
  refl l := equal_refl l.2
  symm {l l'} h := equal_symm l.2 l'.2 h
  trans h h' := equal_trans h h'

/-- **Equal literals feed the same data to a hash.** -/
theorem hashed_eq_of_equal {H : Hashing} (hH : H.Lawful) (h : l.equal l' = true) :
    l.hashed H = l'.hashed H := by
  cases l <;> cases l' <;> try cases h
  case number x y => rw [hashed, hashed, hH x y h]
  all_goals simp_all [equal, hashed]

end Literal

/-! ### Tags as keys -/

/-- Equality of tags. -/
def Tag.equal (t t' : Tag) : Bool := t.field == t'.field && t.literal.equal t'.literal

/-- A tag on the value itself is carried by the values whose literals equal its own. -/
theorem Tag.admits_value {t : Tag} (h : t.field = none) (v : Value) :
    t.admits v = t.literal.equal (Literal.ofValue v) := by
  cases t
  cases h
  rfl

/-- A tag in a field is carried by the objects with such a field. -/
theorem Tag.admits_field {t : Tag} {name : String} (h : t.field = some name)
    (entries : List (String × Value)) : t.admits (.object entries) =
      t.literal.equal (Literal.ofValue ((Entries.find? name entries).getD .null)) := by
  cases t
  cases h
  rfl

/-- What a tag feeds to a hash. -/
def Tag.hashed (H : Hashing) (t : Tag) : List Datum :=
  (match t.field with
  | none => [.form 0]
  | some name => [.form 1, .text name]) ++ t.literal.hashed H

/-- **A tag as the key of a hash map.**  Its literal holds what can stand in a document, so that it
equals itself. -/
structure TagKey (H : Hashing) where
  tag : Tag
  proper : tag.literal.Proper

namespace TagKey

variable {H : Hashing} {k k' : TagKey H}

instance : BEq (TagKey H) := ⟨fun k k' => k.tag.equal k'.tag⟩

instance : Hashable (TagKey H) := ⟨fun k => H.digest (k.tag.hashed H)⟩

theorem beq_iff : (k == k') = true ↔
    k.tag.field = k'.tag.field ∧ k.tag.literal.equal k'.tag.literal = true := by
  change Tag.equal k.tag k'.tag = true ↔ _
  rw [Tag.equal, Bool.and_eq_true, beq_iff_eq]

instance : EquivBEq (TagKey H) where
  rfl {k} := beq_iff.2 ⟨rfl, Literal.equal_refl k.proper⟩
  symm {k k'} h := by
    obtain ⟨hfield, hliteral⟩ := beq_iff.1 h
    exact beq_iff.2 ⟨hfield.symm, Literal.equal_symm k.proper k'.proper hliteral⟩
  trans {k k' k''} h h' := by
    obtain ⟨hfield, hliteral⟩ := beq_iff.1 h
    obtain ⟨hfield', hliteral'⟩ := beq_iff.1 h'
    exact beq_iff.2 ⟨hfield.trans hfield', Literal.equal_trans hliteral hliteral'⟩

/-- **Equal keys have equal hashes.** -/
theorem lawfulHashable (hH : H.Lawful) : LawfulHashable (TagKey H) where
  hash_eq k k' h := by
    obtain ⟨hfield, hliteral⟩ := beq_iff.1 h
    change H.digest (k.tag.hashed H) = H.digest (k'.tag.hashed H)
    rw [Tag.hashed, Tag.hashed, hfield, Literal.hashed_eq_of_equal hH hliteral]

/-- The key under which a value is looked up, as it is or as that of a field. -/
def ofValue (field : Option String) {v : Value} (hv : v.WellFormed) : TagKey H :=
  ⟨⟨field, .ofValue v⟩, Literal.ofValue_proper hv⟩

/-- The key under which a field of an object is looked up.  A missing field counts as null. -/
def inField {entries : List (String × Value)} (hv : (Value.object entries).WellFormed)
    (name : String) : TagKey H :=
  .ofValue (some name) (Value.field_wellFormed (Value.wellFormedEntries_iff.1 hv.2) name)

end TagKey

/-- The key of a member: its tag. -/
def Schema.tagKey? (H : Hashing) (side : Side) (s : Schema) : Option (TagKey H) :=
  (s.tag? side).pmap (fun t ht => ⟨t, Literal.proper_of_isPrimitive ht⟩)
    fun _ ht => Schema.tag?_isPrimitive ht

theorem Schema.tagKey?_tag {H : Hashing} {side : Side} (s : Schema) :
    (s.tagKey? H side).map TagKey.tag = s.tag? side := by
  cases hs : s.tag? side <;> simp [tagKey?, hs]

/-! ### The index -/

/-- **The index of a union's members**: positions under tags, positions without one, and the fields
in which tags stand. -/
structure TagIndex (H : Hashing) where
  fields : List String
  byTag : Std.HashMap (TagKey H) (List Nat)
  untagged : List Nat

namespace TagIndex

variable {H : Hashing}

/-- The index of no members. -/
def empty : TagIndex H := ⟨[], ∅, []⟩

/-- The fields with that of another tag. -/
def noteField (fields : List String) : Option String → List String
  | none => fields
  | some name => if name ∈ fields then fields else fields ++ [name]

/-- Add the member at a position, with its key if it has one. -/
def add (index : TagIndex H) (position : Nat) : Option (TagKey H) → TagIndex H
  | none => { index with untagged := index.untagged ++ [position] }
  | some key =>
      { index with
        fields := noteField index.fields key.tag.field
        byTag := index.byTag.alter key fun old => some (old.getD [] ++ [position]) }

/-- The index of members with the given keys, in their order. -/
def ofKeys (keys : List (Option (TagKey H))) : TagIndex H :=
  keys.zipIdx.foldl (fun index k => index.add k.2 k.1) empty

/-- **The index of a union's members**, if one of them has a tag. -/
def build? (H : Hashing) (side : Side) (members : List Schema) : Option (TagIndex H) :=
  let index : TagIndex H := ofKeys (members.map (Schema.tagKey? H side))
  if index.byTag.isEmpty then none else some index

/-- The positions under a key. -/
def hits (index : TagIndex H) (key : TagKey H) : List Nat := index.byTag.getD key []

/-- The positions under the fields of an object. -/
def fieldHits (index : TagIndex H) : (v : Value) → v.WellFormed → List Nat
  | .object _, hv => index.fields.flatMap fun name => index.hits (.inField hv name)
  | _, _ => []

/-- **The members that the index finds for a value**, in their order and each once. -/
def candidates (index : TagIndex H) (v : Value) (hv : v.WellFormed) : List Nat :=
  ((index.untagged ++ index.hits (.ofValue none hv) ++ index.fieldHits v hv).mergeSort).destutter
    (· ≠ ·)

/-! ### What the index holds -/

/-- **What an index holds**: every position under the key of its member, and the field of every
key. -/
structure Indexes (index : TagIndex H) (keys : List (Option (TagKey H))) : Prop where
  untagged : ∀ i, i ∈ index.untagged ↔ keys[i]? = some none
  hits : ∀ key i, i ∈ index.hits key ↔ ∃ k, keys[i]? = some (some k) ∧ (k == key) = true
  fields : ∀ k name, some k ∈ keys → k.tag.field = some name → name ∈ index.fields

theorem getElem?_snoc {α : Type} {xs : List α} {x y : α} {i : Nat} :
    (xs ++ [x])[i]? = some y ↔ xs[i]? = some y ∨ i = xs.length ∧ x = y := by
  rcases Nat.lt_trichotomy i xs.length with h | rfl | h
  · rw [List.getElem?_append_left h]
    simp [Nat.ne_of_lt h]
  · simp
  · rw [List.getElem?_append_right (Nat.le_of_lt h), List.getElem?_eq_none (by simp; omega),
      List.getElem?_eq_none (Nat.le_of_lt h)]
    simp [Nat.ne_of_gt h]

theorem mem_noteField {fields : List String} {field : Option String} {name : String} :
    name ∈ noteField fields field ↔ name ∈ fields ∨ field = some name := by
  cases field with
  | none => simp [noteField]
  | some other =>
      rw [noteField]
      split
      · rename_i hmem
        constructor
        · exact .inl
        · rintro (hname | hname)
          · exact hname
          · cases hname
            exact hmem
      · simp [eq_comm]

theorem empty_indexes [LawfulHashable (TagKey H)] : (empty : TagIndex H).Indexes [] where
  untagged i := by simp [empty]
  hits key i := by simp [TagIndex.hits, empty]
  fields k name hk := by cases hk

/-- A position that is added stands under the keys that equal its own. -/
theorem mem_hits_add [LawfulHashable (TagKey H)] {index : TagIndex H} {position i : Nat}
    {new key : TagKey H} : i ∈ (index.add position (some new)).hits key ↔
      i ∈ index.hits key ∨ i = position ∧ (new == key) = true := by
  have hadded : (index.add position (some new)).hits key =
      if (new == key) = true then index.hits new ++ [position] else index.hits key := by
    simp only [TagIndex.hits, TagIndex.add]
    rw [Std.HashMap.getD_alter, Option.getD_some]
    simp only [Std.HashMap.getD_eq_getD_getElem?]
  rw [hadded]
  by_cases heq : (new == key) = true
  · have hsame : index.hits new = index.hits key := Std.HashMap.getD_congr heq
    rw [if_pos heq, hsame, List.mem_append, List.mem_singleton, and_iff_left heq]
  · rw [if_neg heq, or_iff_left fun h => heq h.2]

/-- **One more member** goes under its key, behind those that are there. -/
theorem Indexes.add [LawfulHashable (TagKey H)] {index : TagIndex H}
    {keys : List (Option (TagKey H))} (h : index.Indexes keys) (k : Option (TagKey H)) :
    (index.add keys.length k).Indexes (keys ++ [k]) := by
  cases k with
  | none =>
      refine ⟨fun i => ?_, fun key i => ?_, fun k name hk hname => ?_⟩
      · rw [getElem?_snoc, ← h.untagged]
        simp [TagIndex.add]
      · change i ∈ index.hits key ↔ _
        simp [h.hits, getElem?_snoc]
      · exact h.fields k name (by simpa using hk) hname
  | some new =>
      refine ⟨fun i => ?_, fun key i => ?_, fun k name hk hname => ?_⟩
      · rw [getElem?_snoc, ← h.untagged]
        simp [TagIndex.add]
      · simp only [mem_hits_add, h.hits, getElem?_snoc, Option.some.injEq]
        constructor
        · rintro (⟨k, hk, hkey⟩ | ⟨rfl, hkey⟩)
          · exact ⟨k, .inl hk, hkey⟩
          · exact ⟨new, .inr ⟨rfl, rfl⟩, hkey⟩
        · rintro ⟨k, hk | ⟨rfl, rfl⟩, hkey⟩
          · exact .inl ⟨k, hk, hkey⟩
          · exact .inr ⟨rfl, hkey⟩
      · change name ∈ noteField index.fields new.tag.field
        rw [mem_noteField]
        rcases List.mem_append.1 hk with hk | hk
        · exact .inl (h.fields k name hk hname)
        · cases List.mem_singleton.1 hk
          exact .inr hname

/-- **What the index of a list of keys holds.** -/
theorem ofKeys_indexes [LawfulHashable (TagKey H)] (keys : List (Option (TagKey H))) :
    (ofKeys keys).Indexes keys := by
  induction keys using List.reverseRecOn with
  | nil => exact empty_indexes
  | append_singleton keys k ih =>
      have hadd : ofKeys (keys ++ [k]) = (ofKeys keys).add keys.length k := by
        simp [ofKeys, List.zipIdx_append]
      rw [hadd]
      exact ih.add k

/-! ### What the index finds -/

section

variable {index : TagIndex H} {keys : List (Option (TagKey H))} {v : Value} {i : Nat}

/-- Under the value itself stand the members whose tag is on the value and that it carries. -/
theorem Indexes.mem_hits_iff (h : index.Indexes keys) (hv : v.WellFormed) :
    i ∈ index.hits (.ofValue none hv) ↔
      ∃ k, keys[i]? = some (some k) ∧ k.tag.field = none ∧ k.tag.admits v = true := by
  rw [h.hits]
  refine exists_congr fun k => and_congr_right fun _ => ?_
  rw [TagKey.beq_iff]
  refine and_congr_right fun (hfield : k.tag.field = none) => ?_
  rw [Tag.admits_value hfield]
  rfl

/-- Under its fields stand the members whose tag is in a field and that it carries. -/
theorem Indexes.mem_fieldHits_iff (h : index.Indexes keys) (hv : v.WellFormed) :
    i ∈ index.fieldHits v hv ↔
      ∃ k, keys[i]? = some (some k) ∧ k.tag.field ≠ none ∧ k.tag.admits v = true := by
  cases v with
  | object entries =>
      -- a tag in a field is looked up under this field, which the index has noted
      have hadmits : ∀ (k : TagKey H) name, k.tag.field = some name →
          (k.tag.admits (.object entries) = true ↔ (k == .inField hv name) = true) := by
        intro k name hfield
        rw [TagKey.beq_iff, Tag.admits_field hfield, hfield]
        exact ⟨fun hliteral => ⟨rfl, hliteral⟩, And.right⟩
      simp only [fieldHits, List.mem_flatMap, h.hits]
      constructor
      · rintro ⟨name, -, k, hk, hkey⟩
        have hfield : k.tag.field = some name := (TagKey.beq_iff.1 hkey).1
        exact ⟨k, hk, by simp [hfield], (hadmits k name hfield).2 hkey⟩
      · rintro ⟨k, hk, hfield, hcarries⟩
        obtain ⟨name, hname⟩ := Option.ne_none_iff_exists'.1 hfield
        exact ⟨name, h.fields k name (List.mem_of_getElem? hk) hname, k, hk,
          (hadmits k name hname).1 hcarries⟩
  | _ =>
      constructor
      · intro hi
        cases hi
      · -- only objects have fields
        rintro ⟨⟨⟨_ | name, l⟩, hl⟩, -, hfield, hcarries⟩
        · exact absurd rfl hfield
        · cases hcarries

theorem mem_destutter_ne {xs : List Nat} : i ∈ xs.destutter (· ≠ ·) ↔ i ∈ xs := by
  cases xs with
  | nil => rfl
  | cons a rest =>
      rw [List.destutter_cons']
      induction rest generalizing a with
      | nil => rfl
      | cons b rest ih =>
          rw [List.destutter'_cons]
          split
          · simp only [List.mem_cons, ih b]
          · rename_i heq
            rw [not_ne_iff.1 heq, ih b]
            simp

/-- **What is found**: the members that the value admits. -/
theorem Indexes.mem_candidates_iff (h : index.Indexes keys) (hv : v.WellFormed) :
    i ∈ index.candidates v hv ↔
      ∃ k, keys[i]? = some k ∧ admitted v (k.map TagKey.tag) = true := by
  rw [candidates, mem_destutter_ne, List.mem_mergeSort, List.mem_append, List.mem_append,
    h.untagged, h.mem_hits_iff, h.mem_fieldHits_iff]
  constructor
  · rintro ((hi | ⟨k, hk, -, hcarries⟩) | ⟨k, hk, -, hcarries⟩)
    · exact ⟨none, hi, rfl⟩
    · exact ⟨some k, hk, hcarries⟩
    · exact ⟨some k, hk, hcarries⟩
  · rintro ⟨_ | k, hk, hcarries⟩
    · exact .inl (.inl hk)
    · by_cases hfield : k.tag.field = none
      · exact .inl (.inr ⟨k, hk, hfield, hcarries⟩)
      · exact .inr ⟨k, hk, hfield, hcarries⟩

end

/-- **What is found is in order, and nothing twice.** -/
theorem candidates_sorted (index : TagIndex H) {v : Value} (hv : v.WellFormed) :
    (index.candidates v hv).Pairwise (· < ·) := by
  let found := index.untagged ++ index.hits (.ofValue none hv) ++ index.fieldHits v hv
  have hle : (index.candidates v hv).Pairwise (· ≤ ·) :=
    (List.pairwise_mergeSort' (· ≤ ·) found).sublist (List.destutter_sublist _ _)
  have hne : (index.candidates v hv).IsChain (· ≠ ·) := List.isChain_destutter _ _
  rw [← List.isChain_iff_pairwise] at hle ⊢
  rw [List.isChain_iff_getElem] at hle hne ⊢
  exact fun i hi => Nat.lt_of_le_of_ne (hle i hi) (hne i hi)

/-- The index of a union finds the members that the value admits, whatever the hash. -/
theorem mem_candidates_iff (hH : H.Lawful) {side : Side} {members : List Schema}
    {index : TagIndex H} (hindex : build? H side members = some index) {v : Value}
    (hv : v.WellFormed) {i : Nat} : i ∈ index.candidates v hv ↔
      ∃ s, members[i]? = some s ∧ admitted v (s.tag? side) = true := by
  have := TagKey.lawfulHashable hH
  obtain rfl : ofKeys (members.map (Schema.tagKey? H side)) = index := by
    rw [build?] at hindex
    split at hindex
    · cases hindex
    · exact Option.some.inj hindex
  rw [(ofKeys_indexes _).mem_candidates_iff hv]
  simp only [List.getElem?_map, Option.map_eq_some_iff]
  constructor
  · rintro ⟨_, ⟨s, hs, rfl⟩, hadmitted⟩
    exact ⟨s, hs, s.tagKey?_tag ▸ hadmitted⟩
  · rintro ⟨s, hs, hadmitted⟩
    exact ⟨_, ⟨s, hs, rfl⟩, s.tagKey?_tag.symm ▸ hadmitted⟩

/-- There is an index as soon as a member has a tag. -/
theorem exists_build? (hH : H.Lawful) {side : Side} {members : List Schema} {s : Schema} {t : Tag}
    (hs : s ∈ members) (ht : s.tag? side = some t) :
    ∃ index, build? H side members = some index := by
  have := TagKey.lawfulHashable hH
  obtain ⟨i, hi⟩ := List.mem_iff_getElem?.1 hs
  obtain ⟨k, hk, -⟩ := Option.map_eq_some_iff.1 (s.tagKey?_tag.trans ht)
  have hkeys : (members.map (Schema.tagKey? H side))[i]? = some (some k) := by
    rw [List.getElem?_map, hi, Option.map_some, hk]
  have hhit := ((ofKeys_indexes _).hits k i).2 ⟨k, hkeys, BEq.rfl⟩
  rw [build?, if_neg]
  · exact ⟨_, rfl⟩
  · intro hempty
    rw [TagIndex.hits, Std.HashMap.getD_of_isEmpty hempty] at hhit
    cases hhit

section

variable {tags : List (Option Tag)} {runners : List Runner} {v : Value}

theorem selected_positions : (selected true (marked tags v runners)).map Prod.fst =
    ((runners.zipIdx.zip tags).filter fun m => admitted v m.2).map fun m => m.1.2 := by
  simp [selected, marked, List.filter_map, Function.comp_def]

/-- The members that a value admits, by position. -/
theorem mem_selected_iff (hlength : runners.length = tags.length) {i : Nat} :
    i ∈ (selected true (marked tags v runners)).map Prod.fst ↔
      ∃ t, tags[i]? = some t ∧ admitted v t = true := by
  rw [selected_positions, List.mem_map]
  simp only [List.mem_filter]
  constructor
  · rintro ⟨⟨⟨r, i⟩, t⟩, ⟨hmem, hadmitted⟩, rfl⟩
    obtain ⟨j, hj⟩ := List.mem_iff_getElem?.1 hmem
    obtain ⟨hr, ht⟩ := List.getElem?_zip_eq_some.1 hj
    rw [List.getElem?_zipIdx, Nat.zero_add, Option.map_eq_some_iff] at hr
    obtain ⟨_, -, hpair⟩ := hr
    cases hpair
    exact ⟨t, ht, hadmitted⟩
  · rintro ⟨t, ht, hadmitted⟩
    obtain ⟨hi, -⟩ := List.getElem?_eq_some_iff.1 ht
    rw [← hlength] at hi
    have hrunner : runners.zipIdx[i]? = some (runners[i], i) := by
      rw [List.getElem?_zipIdx, List.getElem?_eq_getElem hi, Option.map_some, Nat.zero_add]
    have hzip : (runners.zipIdx.zip tags)[i]? = some ((runners[i], i), t) :=
      List.getElem?_zip_eq_some.2 ⟨hrunner, ht⟩
    exact ⟨_, ⟨List.mem_of_getElem? hzip, hadmitted⟩, rfl⟩

theorem selected_sorted (hlength : runners.length = tags.length) :
    ((selected true (marked tags v runners)).map Prod.fst).Pairwise (· < ·) := by
  have hpositions : (runners.zipIdx.zip tags).map (fun m => m.1.2) =
      List.range' 0 runners.length :=
    calc (runners.zipIdx.zip tags).map (fun m => m.1.2)
        = ((runners.zipIdx.zip tags).map Prod.fst).map Prod.snd := (List.map_map ..).symm
      _ = runners.zipIdx.map Prod.snd := by rw [List.map_fst_zip (by simp [hlength])]
      _ = List.range' 0 runners.length := List.zipIdx_map_snd ..
  rw [selected_positions]
  exact (hpositions ▸ List.pairwise_lt_range').sublist (List.filter_sublist.map _)

end

/-- **The index finds what the union tries first**, in the same order. -/
theorem candidates_eq_selected (hH : H.Lawful) {side : Side} {members : List Schema}
    {index : TagIndex H} (hindex : build? H side members = some index) {v : Value}
    (hv : v.WellFormed) {runners : List Runner} (hlength : runners.length = members.length) :
    index.candidates v hv =
      (selected true (marked (members.map (Schema.tag? side)) v runners)).map Prod.fst := by
  have htags : runners.length = (members.map (Schema.tag? side)).length :=
    hlength.trans (List.length_map _).symm
  refine (index.candidates_sorted hv).eq_of_mem_iff (selected_sorted htags) fun i => ?_
  rw [mem_candidates_iff hH hindex, mem_selected_iff htags]
  simp only [List.getElem?_map, Option.map_eq_some_iff]
  constructor
  · rintro ⟨s, hs, hadmitted⟩
    exact ⟨_, ⟨s, hs, rfl⟩, hadmitted⟩
  · rintro ⟨_, ⟨s, hs, rfl⟩, hadmitted⟩
    exact ⟨s, hs, hadmitted⟩

end TagIndex

/-! ### The views agree -/

namespace Hashing

/-- **Matching, equality and hashing of literals agree.**  A literal matches the values whose
literals equal it, whatever it was made from; equality is an equivalence; and equal literals feed
the same data to a hash.  So when a member of a union shows a literal on the value itself, the union
has an index of tags, which finds the member for a value exactly when the literal matches the value;
and what it finds is what the union tries first. -/
theorem Lawful.literal_views_agree {H : Hashing} (hH : H.Lawful) :
    (∀ n v, (Literal.ofNative n).accepts v = (Literal.ofNative n).equal (.ofValue v)) ∧
    (Equivalence fun l l' : {l : Literal // l.Proper} => l.1.equal l'.1 = true) ∧
    (∀ l l' : Literal, l.equal l' = true → l.hashed H = l'.hashed H) ∧
    ∀ side members i s l, members[i]? = some s → s.tag? side = some ⟨none, l⟩ →
      ∃ index, TagIndex.build? H side members = some index ∧ ∀ v (hv : v.WellFormed),
        (i ∈ index.candidates v hv ↔ l.accepts v = true) ∧
        ∀ runners : List Runner, runners.length = members.length → index.candidates v hv =
          (selected true (marked (members.map (Schema.tag? side)) v runners)).map Prod.fst := by
  refine ⟨Literal.ofNative_accepts, Literal.equal_equivalence,
    fun l l' => Literal.hashed_eq_of_equal hH, fun side members i s l hs htag => ?_⟩
  obtain ⟨index, hindex⟩ := TagIndex.exists_build? hH (List.mem_of_getElem? hs) htag
  refine ⟨index, hindex, fun v hv => ⟨?_, fun runners hlength =>
    TagIndex.candidates_eq_selected hH hindex hv hlength⟩⟩
  rw [TagIndex.mem_candidates_iff hH hindex, Literal.accepts_iff_equal
    (Schema.tag?_isPrimitive htag)]
  constructor
  · rintro ⟨s', hs', hadmitted⟩
    obtain rfl := Option.some.inj (hs.symm.trans hs')
    rwa [htag] at hadmitted
  · intro hequal
    refine ⟨s, hs, ?_⟩
    rw [htag]
    exact hequal

/-- The number one, with a fraction. -/
def one : Value := .number (.float (Binary64.ofInt 1))

/-- The integer one, or a truth value. -/
def oneOrFlag : List Schema :=
  [.node 0 (.literal (.ofNative (.integer 1))) Metadata.empty none,
    .node 1 .bool Metadata.empty none]

/-- The literal of the integer is found for the number with a fraction, and not for a text. -/
theorem literal_views_agree_one : plain.Lawful ∧
    oneOrFlag[0]? = some (.node 0 (.literal (.ofNative (.integer 1))) Metadata.empty none) ∧
    ∃ (hone : one.WellFormed) (htext : (Value.string "1").WellFormed) (index : TagIndex plain),
      TagIndex.build? plain .input oneOrFlag = some index ∧
      0 ∈ index.candidates one hone ∧ 0 ∉ index.candidates (.string "1") htext := by
  obtain ⟨-, -, -, hindex⟩ := plain_lawful.literal_views_agree
  obtain ⟨index, hbuild, hfinds⟩ := hindex .input oneOrFlag 0 _ _ rfl rfl
  have hone : one.WellFormed := Binary64.ofInt_finite (by decide)
  have hsame : (Binary64.ofInt 1).same (Binary64.ofInt (1 : Int64).toInt) = true := by
    rw [show (1 : Int64).toInt = 1 from rfl]
    exact Binary64.same_refl _
  refine ⟨plain_lawful, rfl, hone, trivial, index, hbuild, (hfinds one hone).1.2 hsame, ?_⟩
  intro hfound
  exact Bool.false_ne_true ((hfinds (.string "1") trivial).1.1 hfound)

end Hashing

end Schemata
