/-
**Which key a strict object has in excess.**

A field takes its value out of the entries by moving the last entry into the place that becomes
free, so what is left for the check of excess is not in the order of the object that was given.  The
key that is reported is the first one left, and this need not be the first one that the object does
not declare.

It is when the object begins with such a key, which then keeps its place, or has no second one.
When the object begins with a declared key, another key has moved to the front, and it comes from
behind all that have kept their places: at least as many entries stand before it as there are
undeclared keys.

Main definitions:

* `Schemata.Entries.InFront` — the key in front once names have been taken out, and where it stood;
* `Schemata.Scene.Takes`, `Schemata.Scene.Refuses` — what a field does with its value, and what a
  strict object does with its entries.

Main results:

* `Schemata.Entries.getElem?_removeAll` — an entry keeps its place if as many entries are left;
* `Schemata.Entries.exists_inFront` — the key in front, from where it comes;
* `Schemata.object_yields_excess` — the operation of an object, whether it waits or not;
* `Schemata.Scene.Arises.strict_object_reports_excess` — **the key that is reported**.
-/

import Schemata.Proofs.ObjectFields
import Schemata.Proofs.UndiscriminatedUnion
import Schemata.Proofs.StagedUnion

set_option relaxedAutoImplicit false
set_option autoImplicit false

namespace Schemata

/-! ### Taking names out, and what keeps its place -/

namespace Entries

variable {α : Type} {key : String} {names : List String} {entries : List (String × α)}

/-- The keys that are none of the names, in the order of the entries. -/
def others (names : List String) (entries : List (String × α)) : List String :=
  (keys entries).filter (· ∉ names)

/-- **The key in front once the names have been taken out**, one after the other. -/
structure InFront (names : List String) (entries : List (String × α)) (key : String) : Prop where
  /-- It is the first one that is left. -/
  left : (keys (removeAll names entries)).head? = some key
  /-- It is a key of the entries and none of the names. -/
  other : key ∈ others names entries
  /-- It is the first such key of the entries, if they begin with one or have no second one. -/
  first : (∀ k, (keys entries).head? = some k → k ∉ names) ∨ (others names entries).length = 1 →
    (others names entries).head? = some key
  /-- When the entries begin with a name, as many entries stand before it as there are such keys. -/
  behind : (∀ k, (keys entries).head? = some k → k ∈ names) →
    (others names entries).length ≤ (keys entries).idxOf key

theorem length_remove_le : (remove key entries).length ≤ entries.length := by
  rw [remove_perm.length_eq]
  exact List.length_eraseP_le

theorem length_removeAll_le (names : List String) (entries : List (String × α)) :
    (removeAll names entries).length ≤ entries.length := by
  induction names generalizing entries with
  | nil => exact Nat.le_refl _
  | cons name rest ih => exact Nat.le_trans (ih _) length_remove_le

/-- **An entry stays in its place when another key is taken out**, unless it is the last one, which
moves. -/
theorem getElem?_remove {i : Nat} {e : String × α} (hi : i < (remove key entries).length)
    (he : entries[i]? = some e) (hkey : e.1 ≠ key) : (remove key entries)[i]? = some e := by
  induction entries generalizing i with
  | nil => cases he
  | cons x rest ih =>
      by_cases hx : x.1 = key
      · simp only [remove, hx, if_true] at hi ⊢
        cases i with
        | zero =>
            cases he
            exact absurd hx hkey
        | succ j =>
            -- the last entry is in front now, and the others have kept their places
            rw [fillFirst] at hi ⊢
            cases hlast : rest.getLast? with
            | none => simp [hlast] at hi
            | some last =>
                simp only [hlast, List.length_cons, List.getElem?_cons_succ] at hi he ⊢
                rw [List.getElem?_dropLast, if_pos (by simpa using hi)]
                exact he
      · simp only [remove, hx, if_false] at hi ⊢
        cases i with
        | zero => exact he
        | succ j => exact ih (Nat.lt_of_succ_lt_succ hi) he

/-- An entry stays in its place when other keys are taken out, if as many entries are left. -/
theorem getElem?_removeAll {i : Nat} {e : String × α} (hi : i < (removeAll names entries).length)
    (he : entries[i]? = some e) (hnames : e.1 ∉ names) :
    (removeAll names entries)[i]? = some e := by
  induction names generalizing entries with
  | nil => exact he
  | cons name rest ih =>
      rw [List.mem_cons, not_or] at hnames
      have hstep : i < (remove name entries).length :=
        Nat.lt_of_lt_of_le hi (length_removeAll_le rest _)
      exact ih hi (getElem?_remove hstep he hnames.1) hnames.2

theorem removeAll_nodup (h : (keys entries).Nodup) : (keys (removeAll names entries)).Nodup := by
  induction names generalizing entries with
  | nil => exact h
  | cons name rest ih => exact ih (remove_nodup h)

/-- What is left when the names are taken out are the other keys, in some order. -/
theorem keys_removeAll_perm (h : (keys entries).Nodup) :
    (keys (removeAll names entries)).Perm (others names entries) := by
  refine (List.perm_ext_iff_of_nodup (removeAll_nodup h) (h.filter _)).2 fun k => ?_
  simp only [List.mem_filter, decide_eq_true_eq]
  constructor
  · intro hk
    obtain ⟨⟨_, v⟩, he, rfl⟩ := List.mem_map.1 hk
    obtain ⟨hmem, hnot⟩ := (mem_removeAll_iff h).1 he
    exact ⟨mem_keys_of_mem hmem, hnot⟩
  · rintro ⟨hk, hnot⟩
    obtain ⟨⟨_, v⟩, he, rfl⟩ := List.mem_map.1 hk
    exact mem_keys_of_mem ((mem_removeAll_iff h).2 ⟨he, hnot⟩)

theorem length_removeAll (h : (keys entries).Nodup) :
    (removeAll names entries).length = (others names entries).length := by
  rw [← (keys_removeAll_perm h).length_eq, keys, List.length_map]

/-- The entry under a key stands where the key does. -/
theorem exists_getElem?_idxOf (hkey : key ∈ keys entries) :
    ∃ v, entries[(keys entries).idxOf key]? = some (key, v) := by
  have hplace := List.getElem?_idxOf hkey
  generalize (keys entries).idxOf key = i at hplace ⊢
  rw [keys, List.getElem?_map, Option.map_eq_some_iff] at hplace
  obtain ⟨⟨_, v⟩, he, rfl⟩ := hplace
  exact ⟨v, he⟩

/-- With distinct keys, the first key stands in the first place only. -/
theorem eq_zero_of_getElem? {x : String × α} {rest : List (String × α)} {i : Nat} {v : α}
    (h : (keys (x :: rest)).Nodup) (he : (x :: rest)[i]? = some (x.1, v)) : i = 0 := by
  cases i with
  | zero => rfl
  | succ j =>
      rw [List.getElem?_cons_succ] at he
      exact absurd (mem_keys_of_mem (List.mem_of_getElem? he)) (List.nodup_cons.1 h).1

/-- **The key in front.**  There is one as soon as a key is none of the names. -/
theorem exists_inFront (h : (keys entries).Nodup) (hother : ∃ k ∈ keys entries, k ∉ names) :
    ∃ key, InFront names entries key := by
  cases hleft : removeAll names entries with
  | nil =>
      obtain ⟨k, hk, hnot⟩ := hother
      exact absurd ((removeAll_eq_nil_iff h).1 hleft k hk) hnot
  | cons x rest =>
      have hfront : (keys (removeAll names entries)).head? = some x.1 := by rw [hleft]; rfl
      have hmem : x.1 ∈ others names entries :=
        (keys_removeAll_perm h).subset (List.mem_of_mem_head? hfront)
      obtain ⟨hkey, hnot⟩ := List.mem_filter.1 hmem
      rw [decide_eq_true_eq] at hnot
      refine ⟨x.1, hfront, hmem, ?_, fun hname => ?_⟩
      · rintro (hfirst | hone)
        · cases entries with
          | nil => cases hmem
          | cons e others =>
              have he : e.1 ∉ names := hfirst e.1 rfl
              -- the entry in front is none of the names, so it stays there
              have hzero : (removeAll names (e :: others))[0]? = some e :=
                getElem?_removeAll (by rw [hleft]; exact Nat.succ_pos _) rfl he
              rw [hleft] at hzero
              cases hzero
              rw [Entries.others, keys_cons, List.filter_cons_of_pos (by simpa using he),
                List.head?_cons]
        · obtain ⟨k, hk⟩ := List.length_eq_one_iff.1 hone
          rw [hk, List.mem_singleton] at hmem
          rw [hk, hmem, List.head?_cons]
      · by_contra hlt
        rw [Nat.not_le, ← length_removeAll h] at hlt
        obtain ⟨v, hplace⟩ := exists_getElem?_idxOf hkey
        -- further in front it would have kept its place, which would then be the first one
        have hkept := getElem?_removeAll hlt hplace hnot
        have hnodup : (keys (removeAll names entries)).Nodup := removeAll_nodup h
        rw [hleft] at hkept hnodup
        rw [eq_zero_of_getElem? hnodup hkept] at hplace
        refine hnot (hname x.1 ?_)
        rw [keys, List.head?_map, List.head?_eq_getElem?, hplace, Option.map_some]

end Entries

/-! ### Objects with a key in excess -/

section

variable {W : World → Prop} {w : World} {fields : List (String × Schema)}
  {entries : List (String × Value)} {own : Option UnknownKeys} {key : String}

/-- The error for a key in excess, all children having started. -/
theorem yields_excess (hw : W w) {starts : Place → Nat → Run (Except Error Staged)}
    (hrise : ∀ p, Rising W (starts p)) {places : List Place}
    (hstart : ∀ p ∈ places, ∃ a, Yields W (starts p) (.ok a)) (e : Error) (assembly : Assembly) :
    Yields W (fun n => stagePlaces (places.map fun p => (p.segment, starts p n)) (some e) assembly)
      (.error e) := by
  obtain ⟨as, has⟩ := exists_forall₂ hstart
  have hok := (yields_stageEach_iff hw hrise places _).2 (startsEach_ok_iff.2 ⟨as, has, rfl⟩)
  exact Yields.bind hok (.pure _) (stageEach_rising hrise places) (.pure _) hw

/-- The error for a key in excess, each field having started on the value under its name. -/
theorem yields_fields_excess (hw : W w) {start : Schema → Nat → Stager}
    (hrise : ∀ t v, Rising W fun n => start t n v) (hnames : (Entries.keys fields).Nodup)
    (hentries : (Entries.keys entries).Nodup)
    (hfields : ∀ f ∈ fields, ∃ a,
      Yields W (fun n => start f.2 n (Entries.valueAt f.1 entries)) (.ok a))
    (e : Error) (assembly : Assembly) :
    Yields W (fun n => stagePlaces ((fieldPlaces fields entries).map fun p =>
      (p.segment, start p.schema n p.input)) (some e) assembly) (.error e) := by
  have hrising : ∀ p : Place, Rising W fun n => start p.schema n p.input := fun p => hrise _ _
  refine yields_excess hw hrising (fun p hp => ?_) e assembly
  rw [fieldPlaces_eq_map hnames hentries] at hp
  obtain ⟨f, hf, rfl⟩ := List.mem_map.1 hp
  exact hfields f hf

/-- The key that a strict object has in excess is the one in front when its fields have been taken
out. -/
theorem Kind.excess?_of_left (hstrict : policyOf w own = .strict)
    (hleft : (Entries.keys (Entries.removeAll (Entries.keys fields) entries)).head? = some key) :
    (Kind.object fields own).excess? w (.object entries) =
      some (Error.atRoot (.excessField key) .parsing) := by
  change excessError? (policyOf w own) (Entries.removeAll (Entries.keys fields) entries) = _
  cases hall : Entries.removeAll (Entries.keys fields) entries with
  | nil =>
      rw [hall] at hleft
      cases hleft
  | cons x rest =>
      rw [hall] at hleft
      cases hleft
      rw [hstrict]
      rfl

/-- How an operation starts below an object: as it is when the object waits, and otherwise with
what it gives at once. -/
def ParseOperation.startedBelow (waits : Bool) (op : ParseOperation) : ParseOperation :=
  if waits then op else .direct op.atOnce

/-- **A strict object with a key in excess**, whose fields all start. -/
theorem object_yields_excess (hw : W w)
    (hrise : ∀ (op : ParseOperation) v, Rising W fun n => op.stage (machine n) v)
    (hnames : (Entries.keys fields).Nodup) (hentries : (Entries.keys entries).Nodup)
    {w₁ : World} (hstrict : policyOf w₁ own = .strict)
    (hleft : (Entries.keys (Entries.removeAll (Entries.keys fields) entries)).head? = some key)
    {waits : Bool} {operation : Schema → ParseOperation}
    (hfields : ∀ f ∈ fields, ∃ o, Yields W (fun n =>
      ((operation f.2).startedBelow waits).stage (machine n) (Entries.valueAt f.1 entries)) (.ok o))
    (id : NodeId) :
    Yields W (fun n => ((Kind.object fields own).parser w₁ id waits operation).stage (machine n)
      (.object entries)) (.error (Error.atRoot (.excessField key) .parsing)) := by
  have hstarts : ∀ n, ((Kind.object fields own).parser w₁ id waits operation).stage (machine n)
      (.object entries) = stagePlaces ((fieldPlaces fields entries).map fun p =>
          (p.segment, ((operation p.schema).startedBelow waits).stage (machine n) p.input))
        ((Kind.object fields own).excess? w₁ (.object entries))
        (.object (Entries.keys fields)) := by
    intro n
    have hplaces : (Kind.object fields own).places? (.object entries) =
        some (fieldPlaces fields entries) := rfl
    cases waits with
    | true =>
        change ((Kind.object fields own).stagedParser w₁ id operation).stage (machine n) _ = _
        exact Kind.stagedParser_places operation hplaces
    | false =>
        change (ParseOperation.direct ((Kind.object fields own).directParser w₁ id fun t =>
          (operation t).startedBelow false)).stage (machine n) _ = _
        exact Kind.directParser_places _ (fun _ _ => rfl) hplaces
  simp only [hstarts, Kind.excess?_of_left hstrict hleft]
  have hrising : ∀ (t : Schema) v, Rising W fun n =>
      ((operation t).startedBelow waits).stage (machine n) v := fun t v => hrise _ v
  exact yields_fields_excess hw hrising hnames hentries hfields _ _

end

namespace Scene

variable {σ : Scene} {s t : Schema} {fields : List (String × Schema)} {own : Option UnknownKeys}
  {entries : List (String × Value)} {c : Compiled ParseOperation} {w₁ : World} {v : Value}
  {e : Error} {waits : Bool}

/-- **A field takes a value**: it parses it, or starts to when its object waits. -/
def Takes (σ : Scene) (waits : Bool) (t : Schema) (v : Value) : Prop :=
  if waits then ∃ o, σ.Starts t v (.ok o) else ∃ a, σ.Comes (fun fuel => t.parse fuel v) (.ok a)

/-- **A schema refuses a value at once**: nothing is left to wait for. -/
structure Refuses (σ : Scene) (waits : Bool) (s : Schema) (v : Value) (e : Error) : Prop where
  starts : σ.Starts s v (.error e)
  parseAsync : σ.Comes (fun fuel => s.parseAsync fuel v) (.error e)
  parse : waits = false → σ.Comes (fun fuel => s.parse fuel v) (.error e)

/-- What comes to a value in the end has started. -/
theorem takes_of_comes {a : Value} (h : σ.Comes (fun fuel => t.parseAsync fuel v) (.ok a)) :
    σ.Takes true t v := by
  obtain ⟨fuel, w, hrun⟩ := h
  obtain ⟨o, w', hstage, hrest⟩ := of_bind_ok hrun
  cases o with
  | error e => cases hrest
  | ok o => exact ⟨o, fuel, w', hstage⟩

/-- What fails to start fails in the end. -/
theorem Starts.parseAsync (h : σ.Starts s v (.error e)) :
    σ.Comes (fun fuel => s.parseAsync fuel v) (.error e) := by
  obtain ⟨fuel, w, hstage⟩ := h
  exact ⟨fuel, w, bind_ok hstage⟩

/-- What an operation fails to start with, its schema refuses. -/
theorem refuses_of_yields (hsound : σ.world.Sound σ.nodes) (hs : s ∈ σ.nodes)
    (h : Yields (σ.world.Later σ.nodes) (fun n => (σ.world.planned s).stage (machine n) v)
      (.error e)) : σ.Refuses (σ.world.planned s).isAsync s v e := by
  have hstarts : σ.Starts s v (.error e) := (starts_iff hsound hs _ _).2 h
  refine ⟨hstarts, hstarts.parseAsync, fun hwaits => (comes_parse_iff hsound hs _ _).2 ?_⟩
  obtain ⟨n, hn⟩ := h
  cases hplan : σ.world.planned s with
  | direct op =>
      rw [hplan] at hn
      exact ⟨n, Gives.of_toStaged hn⟩
  | _ =>
      rw [hplan] at hwaits
      cases hwaits

/-- A field that takes a value starts on it below its object. -/
theorem Takes.yields (h : σ.Takes waits t v) (hsound : σ.world.Sound σ.nodes) (ht : t ∈ σ.nodes) :
    ∃ o, Yields (σ.world.Later σ.nodes)
      (fun n => ((σ.world.planned t).startedBelow waits).stage (machine n) v) (.ok o) := by
  cases waits with
  | true =>
      obtain ⟨o, ho⟩ := h
      exact ⟨o, (starts_iff hsound ht _ _).1 ho⟩
  | false =>
      obtain ⟨a, ha⟩ := h
      obtain ⟨n, hn⟩ := (comes_parse_iff hsound ht _ _).1 ha
      exact ⟨.ready a, n, hn.bind (.pure _)⟩

/-- The fields of an object have distinct names, and their schemas stand in the scene. -/
theorem fields_formed (hsound : σ.world.Sound σ.nodes) (hs : s ∈ σ.nodes)
    (hkind : s.kind = .object fields own) :
    (Entries.keys fields).Nodup ∧ ∀ f ∈ fields, f.2 ∈ σ.nodes := by
  constructor
  · have hformed := hsound.hosts.formed s hs
    rwa [hkind] at hformed
  · intro f hf
    have hchild : f.2 ∈ s.children := by
      rw [Schema.children, hkind]
      exact List.mem_map_of_mem hf
    exact (hsound.hosts.below s hs f.2 hchild).1

/-- **The key in excess.**  In any scene, let a strict object, strict by itself or by the
configuration under which it was compiled, be given entries whose fields all parse, or start to when
it waits, and at least one key that it does not declare.  Then it refuses them at once with an
undeclared key at the root, and that is the first key left when the declared ones have been taken
out one by one, the last entry moving into each place that becomes free. -/
theorem Arises.strict_object_reports_excess (hσ : σ.Arises) (hs : s ∈ σ.nodes)
    (hkind : s.kind = .object fields own) (hcompile : s.parseOperation σ.world = .ok (c, w₁))
    (hstrict : own = some .strict ∨ c.operation.policy? = some .strict)
    (hentries : (Entries.keys entries).Nodup)
    (hfields : ∀ f ∈ fields, σ.Takes c.operation.isAsync f.2 (Entries.valueAt f.1 entries))
    (hexcess : ∃ key ∈ Entries.keys entries, key ∉ Entries.keys fields) :
    ∃ key, Entries.InFront (Entries.keys fields) entries key ∧
      σ.Refuses c.operation.isAsync s (.object entries)
        (Error.atRoot (.excessField key) .parsing) := by
  obtain ⟨hsound, hshape⟩ := hσ.invariants
  obtain ⟨hnames, hmem⟩ := fields_formed hsound hs hkind
  obtain ⟨key, hkey⟩ := Entries.exists_inFront hentries hexcess
  -- what the schema compiles to is what the invariants speak of
  obtain ⟨_, hrun, -⟩ := Schema.parseOperation_done hsound hs hsound.later
  obtain rfl : c = σ.world.parsePlan s := by
    rw [hcompile] at hrun
    cases hrun
    rfl
  change own = some .strict ∨ (σ.world.planned s).policy? = some .strict at hstrict
  change ∀ f ∈ fields, σ.Takes (σ.world.planned s).isAsync f.2 _ at hfields
  refine ⟨key, hkey, refuses_of_yields hsound hs ?_⟩
  obtain ⟨w', id, -, -, hplan⟩ := hsound.planned_eq_parser hshape hs
  rw [hkind] at hplan
  have hpolicy : policyOf w' own = .strict := by
    rcases hstrict with rfl | hstrict
    · rfl
    · rw [hplan] at hstrict
      cases hwaits : (σ.world.planned s).isAsync <;> rw [hwaits] at hstrict <;>
        exact Option.some.inj hstrict
  rw [hplan]
  exact object_yields_excess hsound.later (fuelHelps hsound).stage_rising hnames hentries hpolicy
    hkey.left (fun f hf => (hfields f hf).yields hsound (hmem f hf)) id

/-! ### Two keys in excess behind the field -/

/-- Any value, asked for elsewhere. -/
def lateTitle : Schema :=
  .node 2 (.custom "title" ⟨some (.async ⟨.compute fun v => .ok v, 1, none⟩), none⟩) Metadata.empty
    none

/-- A strict object that waits for its field. -/
def latePage : Schema := .node 3 (.object [("title", lateTitle)] (some .strict)) Metadata.empty none

/-- The scene of both objects. -/
def latePages : Scene := ⟨made 4 0, [latePage, lateTitle, page, title]⟩

/-- The field, then two keys that are not declared. -/
def crowded : List (String × Value) := [("title", .string "a"), ("x", .null), ("y", .null)]

theorem latePages_arises : latePages.Arises := by
  have h₁ : Step .building pages ⟨made 3 0, [lateTitle, page, title]⟩ :=
    .made (fun t ht => by cases ht) trivial
  have h₂ : Step .building ⟨made 3 0, [lateTitle, page, title]⟩ latePages :=
    .made (fun t ht => by simp_all [Kind.children]) (by simp [Kind.Formed, Entries.keys])
  exact (pages_arises.tail (.inl ⟨_, h₁⟩)).tail (.inl ⟨_, h₂⟩)

/-- **The key that is reported need not be the first one**, whether the object waits or not: taking
the field out moves the last entry to the front. -/
theorem excess_key_not_first :
    latePages.Arises ∧ (Entries.keys crowded).Nodup ∧
    (Entries.others ["title"] crowded).head? = some "x" ∧
    (page ∈ latePages.nodes ∧ page.kind = .object [("title", title)] (some .strict) ∧
      latePages.Comes (fun fuel => title.parse fuel (Entries.valueAt "title" crowded))
        (.ok (.string "a")) ∧
      ¬ latePages.Comes (fun fuel => page.parse fuel (.object crowded))
        (.error (Error.atRoot (.excessField "x") .parsing)) ∧
      latePages.Comes (fun fuel => page.parse fuel (.object crowded))
        (.error (Error.atRoot (.excessField "y") .parsing))) ∧
    latePage ∈ latePages.nodes ∧ latePage.kind = .object [("title", lateTitle)] (some .strict) ∧
      latePages.Comes (fun fuel => lateTitle.parseAsync fuel (Entries.valueAt "title" crowded))
        (.ok (.string "a")) ∧
      ¬ latePages.Comes (fun fuel => latePage.parseAsync fuel (.object crowded))
        (.error (Error.atRoot (.excessField "x") .parsing)) ∧
      latePages.Comes (fun fuel => latePage.parseAsync fuel (.object crowded))
        (.error (Error.atRoot (.excessField "y") .parsing)) := by
  have hsound := latePages_arises.invariants.1
  have hpage : page ∈ latePages.nodes := .tail _ (.tail _ (.head _))
  have hlate : latePage ∈ latePages.nodes := .head _
  have hcomes : latePages.Comes (fun fuel => page.parse fuel (.object crowded))
      (.error (Error.atRoot (.excessField "y") .parsing)) := ⟨2, _, rfl⟩
  have hcomesLate : latePages.Comes (fun fuel => latePage.parseAsync fuel (.object crowded))
      (.error (Error.atRoot (.excessField "y") .parsing)) := ⟨2, _, rfl⟩
  refine ⟨latePages_arises, by decide, by decide, ⟨hpage, rfl, ⟨2, _, rfl⟩, fun hx => ?_, hcomes⟩,
    hlate, rfl, ⟨2, _, rfl⟩, fun hx => ?_, hcomesLate⟩
  · exact absurd (parse_unique hsound hpage hx hcomes) (by simp [Error.atRoot])
  · exact absurd (parseAsync_unique hsound hlate hx hcomesLate) (by simp [Error.atRoot])

/-- The object that waits reports the last key, which has come to the front. -/
theorem strict_object_reports_excess_latePage : ∃ (c : Compiled ParseOperation) (w₁ : World),
    latePage.parseOperation latePages.world = .ok (c, w₁) ∧ c.operation.isAsync = true ∧
    latePages.Arises ∧ latePage ∈ latePages.nodes ∧ (Entries.keys crowded).Nodup ∧
    (∀ f ∈ [("title", lateTitle)], latePages.Takes true f.2 (Entries.valueAt f.1 crowded)) ∧
    (∃ key ∈ Entries.keys crowded, key ∉ ["title"]) ∧
    latePages.Refuses true latePage (.object crowded)
      (Error.atRoot (.excessField "y") .parsing) := by
  have hlate : latePage ∈ latePages.nodes := .head _
  have hfields : ∀ f ∈ [("title", lateTitle)],
      latePages.Takes true f.2 (Entries.valueAt f.1 crowded) := by
    intro f hf
    obtain rfl := List.mem_singleton.1 hf
    exact takes_of_comes ⟨2, _, rfl⟩
  have hexcess : ∃ key ∈ Entries.keys crowded, key ∉ ["title"] := ⟨"x", by decide, by decide⟩
  obtain ⟨key, hfront, hrefuses⟩ := latePages_arises.strict_object_reports_excess hlate rfl rfl
    (.inl rfl) (by decide) hfields hexcess
  have hleft := hfront.left
  obtain rfl : "y" = key := Option.some.inj hleft
  exact ⟨_, _, rfl, rfl, latePages_arises, hlate, by decide, hfields, hexcess, hrefuses⟩

end Scene

end Schemata
