/-
**Errors of operations that give their result at once.**

Every composite moves the errors of its children one level further out, by the segment under which
the child stands in the value.  What wraps a schema, chooses among schemas or looks one up hands
errors on as they are.  So the errors of an operation blame what there is to blame in the value, if
those of the operations below do.  Parsing and serializing share what they do with items and
entries; where they differ, in fields and in members, each has a lemma of its own.

Main definitions:

* `Schemata.RunBlames` — an operation whose errors blame what there is to blame;
* `Schemata.Value.Holds` — the values that a value holds directly;
* `Schemata.Kind.ReadsInPlace`, `Schemata.Kind.WritesInPlace` — kinds that hand the value on to the
  schemas below as it is.

Main results:

* `Schemata.runEach_onError`, `Schemata.runFields_onError`, `Schemata.tryEach_onError` — children,
  fields and members;
* `Schemata.Kind.directParser_blames`, `Schemata.Kind.serializer_blames` — **the operation of a kind
  blames what its children blame, one level further out**.
-/

import Schemata.Proofs.ErrorPlaces
import Schemata.Proofs.RoundTrip

set_option relaxedAutoImplicit false
set_option autoImplicit false

namespace Schemata

variable {W : World → Prop} {m : Machine} {Q R : Error → Prop}

/-! ### Children, fields and members -/

/-- What stands under an index. -/
theorem mem_indexed {α : Type} {children : List α} {c : Segment × α} (h : c ∈ indexed children) :
    ∃ i a, children[i]? = some a ∧ c = (.index i, a) := by
  obtain ⟨⟨a, i⟩, ha, rfl⟩ := List.mem_map.1 h
  exact ⟨i, a, List.mk_mem_zipIdx_iff_getElem?.1 ha, rfl⟩

/-- A child made of an item. -/
theorem mem_indexed_map {α β : Type} {f : α → β} {items : List α} {c : Segment × β}
    (h : c ∈ indexed (items.map f)) : ∃ i a, items[i]? = some a ∧ c = (.index i, f a) := by
  obtain ⟨i, b, hb, rfl⟩ := mem_indexed h
  rw [List.getElem?_map, Option.map_eq_some_iff] at hb
  obtain ⟨a, ha, rfl⟩ := hb
  exact ⟨i, a, ha, rfl⟩

/-- A child made of an item and what stands in its place. -/
theorem mem_indexed_zipWith {α β γ : Type} {f : α → β → γ} {as : List α} {bs : List β}
    {c : Segment × γ} (h : c ∈ indexed (as.zipWith f bs)) :
    ∃ i a b, as[i]? = some a ∧ bs[i]? = some b ∧ c = (.index i, f a b) := by
  obtain ⟨i, x, hx, rfl⟩ := mem_indexed h
  rw [List.getElem?_zipWith_eq_some] at hx
  obtain ⟨a, b, ha, hb, rfl⟩ := hx
  exact ⟨i, a, b, ha, hb, rfl⟩

/-- A child made of an entry. -/
theorem mem_keyed_map {α β : Type} {f : α → β} {entries : List (String × α)} {c : Segment × β}
    (h : c ∈ keyed (entries.map fun e => (e.1, f e.2))) :
    ∃ key a, (key, a) ∈ entries ∧ c = (.key key, f a) := by
  simp only [keyed, List.map_map, List.mem_map, Function.comp_apply] at h
  obtain ⟨⟨key, a⟩, ha, rfl⟩ := h
  exact ⟨key, a, ha, rfl⟩

/-- An error of children is that of a child, moved into it. -/
theorem runEach_onError : ∀ {children : List (Segment × Run Result)},
    (∀ c ∈ children, Ensures W c.2 (OnError fun e => Q (e.prepend c.1))) →
      Ensures W (runEach children) (OnError Q)
  | [], _ => .pure trivial
  | (s, child) :: rest, h => by
      have ih := runEach_onError fun c hc => h c (List.mem_cons_of_mem _ hc)
      refine OnError.bind (h _ (List.mem_cons_self ..)) (fun e he => .pure he) fun v => ?_
      exact OnError.bind ih (fun e he => .pure he) fun vs => .pure trivial

/-- What fields come to: an error as required, or entries that are left, none of them declared. -/
def Taken {α : Type} (Q : Error → Prop) (names : List String) (entries : List (String × Value)) :
    Except Error (α × List (String × Value)) → Prop
  | .error e => Q e
  | .ok (_, left) => ∀ key ∈ Entries.keys left, key ∈ Entries.keys entries ∧ key ∉ names

theorem Taken.cons {α β : Type} {name : String} {names : List String} {a : α} {b : β}
    {entries left : List (String × Value)} (hentries : (Entries.keys entries).Nodup)
    (h : Taken Q names (Entries.remove name entries) (.ok (a, left))) :
    Taken Q (name :: names) entries (.ok (b, left)) := by
  intro key hkey
  obtain ⟨hin, hnot⟩ := h key hkey
  obtain ⟨⟨k, v⟩, hmem, rfl⟩ := List.mem_map.1 hin
  obtain ⟨hmem, hne⟩ := (Entries.mem_remove_iff hentries).1 hmem
  exact ⟨Entries.mem_keys_of_mem hmem, by simp [hne, hnot]⟩

/-- The value of a field is there until the field takes it. -/
theorem Entries.find?_remove_other {β : Type} {name : String} {fields : List (String × β)}
    {entries : List (String × Value)} (hentries : (keys entries).Nodup) (hnew : name ∉ keys fields)
    {f : String × β} (hf : f ∈ fields) : find? f.1 (remove name entries) = find? f.1 entries :=
  find?_remove hentries fun heq => hnew (heq ▸ mem_keys_of_mem hf)

/-- An error of fields is that of a field, moved into it. -/
theorem runFields_onError : ∀ {fields : List (String × Runner)} {entries : List (String × Value)},
    (Entries.keys fields).Nodup → (Entries.keys entries).Nodup →
    (∀ f ∈ fields, Ensures W (f.2 ((Entries.find? f.1 entries).getD .null))
      (OnError fun e => Q (e.prepend (.key f.1)))) →
    Ensures W (runFields fields entries) (Taken Q (Entries.keys fields) entries)
  | [], _, _, _, _ => .pure fun key hkey => ⟨hkey, List.not_mem_nil⟩
  | (name, field) :: rest, entries, hfields, hentries, h => by
      obtain ⟨hnew, hrest⟩ := List.nodup_cons.1 hfields
      -- the fields that follow find what they would have found at first
      have ih : Ensures W (runFields rest (Entries.remove name entries)) _ :=
        runFields_onError hrest (Entries.remove_nodup hentries) fun f hf => by
          rw [Entries.find?_remove_other hentries hnew hf]
          exact h f (List.mem_cons_of_mem _ hf)
      refine (h _ (List.mem_cons_self ..)).bind fun r hr => ?_
      cases r with
      | error e => exact .pure hr
      | ok v =>
          refine ih.bind fun others hothers => ?_
          rcases others with e | ⟨vs, left⟩
          · exact .pure hothers
          · exact .pure (hothers.cons hentries)

/-- An error of fields that are there is that of a field, moved into it. -/
theorem runPresentFields_onError (omitted : List String) (entries : List (String × Value)) :
    ∀ {fields : List (String × Runner)},
      (∀ f ∈ fields, Ensures W (f.2 ((Entries.find? f.1 entries).getD .null))
        (OnError fun e => Q (e.prepend (.key f.1)))) →
      Ensures W (runPresentFields omitted fields entries) (OnError Q)
  | [], _ => .pure trivial
  | (name, field) :: rest, h => by
      have ih := runPresentFields_onError omitted entries fun f hf =>
        h f (List.mem_cons_of_mem _ hf)
      simp only [runPresentFields]
      split
      · exact ih
      · refine OnError.bind (h _ (List.mem_cons_self ..)) (fun e he => .pure he) fun v => ?_
        exact OnError.bind ih (fun e he => .pure he) fun vs => .pure trivial

/-- What is not a value is nothing but errors as required. -/
def OnErrors {α : Type} (Q : Error → Prop) : Except (List (Nat × Error)) α → Prop
  | .error errors => ∀ x ∈ errors, Q x.2
  | .ok _ => True

/-- The errors of members that are tried are those of the members. -/
theorem tryEach_onError {v : Value} : ∀ {members : List (Nat × Runner)},
    (∀ x ∈ members, Ensures W (x.2 v) (OnError Q)) → Ensures W (tryEach v members) (OnErrors Q)
  | [], _ => .pure (List.forall_mem_nil _)
  | (i, member) :: rest, h => by
      have ih := tryEach_onError fun x hx => h x (List.mem_cons_of_mem _ hx)
      refine (h _ (List.mem_cons_self ..)).bind fun r hr => ?_
      cases r with
      | ok a => exact .pure trivial
      | error e =>
          refine ih.bind fun others hothers => ?_
          cases others with
          | ok a => exact .pure trivial
          | error errors => exact .pure (List.forall_mem_cons.2 ⟨hr, hothers⟩)

/-- The errors of members that are selected are those of the members. -/
theorem selected_onError {members : List Runner} {v : Value}
    (h : ∀ member ∈ members, Ensures W (member v) (OnError Q)) (tags : List (Option Tag))
    (wanted : Bool) :
    Ensures W (tryEach v (selected wanted (marked tags v members))) (OnErrors Q) :=
  tryEach_onError fun x hx => h x.2 (mem_of_mem_selected hx)

/-- **Parsing as one of the members** fails with their errors put together. -/
theorem parseMembers_onError {tags : List (Option Tag)} {members : List Runner} {v : Value}
    (h : ∀ member ∈ members, Ensures W (member v) (OnError R))
    (hunion : ∀ errors, (∀ e ∈ errors, R e) →
      Q (Error.atRoot (.invalidUnion errors) .parsing)) :
    Ensures W (parseMembers tags members v) (OnError Q) := by
  refine (selected_onError h tags true).bind fun first hfirst => ?_
  cases first with
  | ok a => exact .pure trivial
  | error first =>
      refine (selected_onError h tags false).bind fun rest hrest => ?_
      cases rest with
      | ok a => exact .pure trivial
      | error rest =>
          refine .pure (hunion _ fun e he => ?_)
          obtain ⟨x, hx, rfl⟩ := List.mem_map.1 he
          exact (List.mem_merge.1 hx).elim (hfirst x) (hrest x)

/-- **Serializing as one of the members** fails with their errors put together, with the error of
the only candidate, or because there is none. -/
theorem serializeMembers_onError {tags : List (Option Tag)} {members : List Runner} {v : Value}
    (h : ∀ member ∈ members, Ensures W (member v) (OnError Q))
    (hnone : ∀ text, Q (Error.atRoot (.operationFailed text) .serializing))
    (hunion : ∀ errors, (∀ e ∈ errors, Q e) →
      Q (Error.atRoot (.invalidUnion errors) .serializing)) :
    Ensures W (serializeMembers tags members v) (OnError Q) := by
  rw [serializeMembers]
  split
  · exact .pure (hnone _)
  · refine (selected_onError h tags true).bind fun r hr => ?_
    -- a value, the error of the only candidate, or the errors of several
    split
    · exact .pure trivial
    · exact .pure (hr _ (List.mem_singleton_self _))
    · refine .pure (hunion _ fun e he => ?_)
      obtain ⟨x, hx, rfl⟩ := List.mem_map.1 he
      exact hr x hx

/-! ### Operations -/

/-- The values that a value holds directly, and itself. -/
inductive Value.Holds : Value → Value → Prop
  | self (v : Value) : Holds v v
  | item {items : List Value} {a : Value} : a ∈ items → Holds (.array items) a
  | entry {entries : List (String × Value)} {key : String} {a : Value} : (key, a) ∈ entries →
      Holds (.object entries) a
  /-- Null stands for what is missing. -/
  | missing (v : Value) : Holds v .null

theorem Value.Holds.wellFormed {v a : Value} (h : v.Holds a) (hv : v.WellFormed) :
    a.WellFormed := by
  cases h with
  | self => exact hv
  | item ha => exact Value.wellFormedItems_iff.1 hv _ ha
  | entry ha => exact Value.wellFormedEntries_iff.1 hv.2 _ ha
  | missing => trivial

theorem Value.Holds.field (entries : List (String × Value)) (name : String) :
    (Value.object entries).Holds ((Entries.find? name entries).getD .null) := by
  cases hfind : Entries.find? name entries with
  | none => exact .missing _
  | some a => exact .entry (Entries.mem_of_find? hfind)

section

variable {w : World} {d : Direction} {s t : Schema} {v : Value}

/-- **Every error of the operation blames what there is to blame**, in the value that is held
against the schema. -/
abbrev RunBlames (W : World → Prop) (m : Machine) (w : World) (d : Direction) (op : Operation)
    (s : Schema) (v : Value) : Prop :=
  Ensures W (op.run m v) (OnError fun e => e.Blames w d s v)

theorem RunBlames.alongside {op : Operation} (ht : t ∈ s.kind.alongside w)
    (h : RunBlames W m w d op t v) : RunBlames W m w d op s v :=
  h.onError_mono fun _ he => he.alongside ht

theorem RunBlames.fail {reason : Reason} (h : reason.Explains w d s v) :
    RunBlames W m w d (.fail (Error.atRoot reason d)) s v := .pure (.atRoot h)

theorem RunBlames.scalar (kind : Scalar) (expected : Thunk String) :
    RunBlames W m w d (.scalar kind d expected) s v := by
  rw [RunBlames, Operation.run]
  split
  · exact .pure trivial
  · exact .pure .invalidType

theorem RunBlames.literal (l : Literal) : RunBlames W m w d (.literal d l) s v := by
  rw [RunBlames, Operation.run]
  split
  · exact .pure trivial
  · exact .pure (.atRoot rfl)

theorem RunBlames.array {item : Operation} (hs : s.kind = .array t)
    (h : ∀ a, v.Holds a → RunBlames W m w d item t a) (expected : Thunk String) :
    RunBlames W m w d (.array d expected item) s v := by
  cases v with
  | array items =>
      rw [RunBlames, Operation.run]
      refine OnError.bind (runEach_onError fun c hc => ?_) (fun e he => .pure he)
        fun vs => .pure trivial
      obtain ⟨i, a, ha, rfl⟩ := mem_indexed_map hc
      exact (h a (.item (List.mem_of_getElem? ha))).onError_mono fun e he => he.item hs ha
  | _ => exact .pure .invalidType

theorem RunBlames.dict {value : Operation} (hs : s.kind = .dict t)
    (h : ∀ a, v.Holds a → RunBlames W m w d value t a) (expected : Thunk String) :
    RunBlames W m w d (.dict d expected value) s v := by
  cases v with
  | object entries =>
      rw [RunBlames, Operation.run]
      refine OnError.bind (runEach_onError fun c hc => ?_) (fun e he => .pure he)
        fun vs => .pure trivial
      obtain ⟨key, a, ha, rfl⟩ := mem_keyed_map hc
      exact (h a (.entry ha)).onError_mono fun e he => he.entry hs ha
  | _ => exact .pure .invalidType

/-- The error of an array of the wrong length. -/
theorem sizeError?_blames {expected : Nat} {items : List Value} {e : Error}
    (h : sizeError? d expected items.length = some e) : e.Blames w d s (.array items) := by
  rw [sizeError?] at h
  split at h
  · cases h
  · cases h
    exact .atRoot ⟨items, rfl, rfl⟩

theorem RunBlames.tuple {schemas : List Schema} (op : Schema → Operation)
    (hs : s.kind = .tuple schemas)
    (h : ∀ t ∈ schemas, ∀ a, v.Holds a → RunBlames W m w d (op t) t a) (expected : Thunk String) :
    RunBlames W m w d (.tuple d expected (schemas.map op)) s v := by
  cases v with
  | array items =>
      rw [RunBlames, Operation.run, List.length_map]
      split
      · rename_i e hsize
        exact .pure (sizeError?_blames hsize)
      · refine OnError.bind (runEach_onError fun c hc => ?_) (fun e he => .pure he)
          fun vs => .pure trivial
        rw [runners_eq_map, List.map_map, List.zipWith_map_left] at hc
        obtain ⟨i, t, a, ht, ha, rfl⟩ := mem_indexed_zipWith hc
        exact (h t (List.mem_of_getElem? ht) a (.item (List.mem_of_getElem? ha))).onError_mono
          fun e he => he.place hs ht ha
  | _ => exact .pure .invalidType

/-- The error for a key that is left over. -/
theorem excessError?_blames {α : Type} {fields : List (String × Schema)} {own : Option UnknownKeys}
    {entries left : List (String × Value)} {a : α} {policy : UnknownKeys} {e : Error}
    (hs : s.kind = .object fields own)
    (hleft : Taken Q (Entries.keys fields) entries (.ok (a, left)))
    (h : excessError? policy left = some e) : e.Blames w .parsing s (.object entries) := by
  rw [excessError?.eq_def] at h
  split at h
  · rename_i key x rest
    cases h
    obtain ⟨hin, hnot⟩ := hleft key (List.mem_cons_self ..)
    exact .atRoot ⟨fields, own, entries, hs, rfl, hin, hnot⟩
  · cases h

theorem RunBlames.parseObject {fields : List (String × Schema)} {own : Option UnknownKeys}
    (op : Schema → Operation) (hs : s.kind = .object fields own)
    (hnames : (Entries.keys fields).Nodup) (hv : v.WellFormed)
    (h : ∀ t ∈ fields.map Prod.snd, ∀ a, v.Holds a → RunBlames W m w .parsing (op t) t a)
    (expected : Thunk String) (policy : UnknownKeys) :
    RunBlames W m w .parsing (.parseObject expected (fields.map fun f => (f.1, op f.2)) policy)
      s v := by
  cases v with
  | object entries =>
      rw [RunBlames, Operation.run, fieldRunners_map]
      have hfields : Ensures W (runFields (fields.map fun f => (f.1, (op f.2).run m)) entries)
          (Taken (fun e => e.Blames w .parsing s (.object entries)) (Entries.keys fields)
            entries) := by
        rw [← Entries.keys_map fun f : String × Schema => (op f.2).run m]
        refine runFields_onError (by rwa [Entries.keys_map]) hv.1 fun f hf => ?_
        obtain ⟨g, hg, rfl⟩ := List.mem_map.1 hf
        exact (h g.2 (List.mem_map_of_mem hg) _ (.field entries g.1)).onError_mono
          fun e he => he.field hs hg
      refine hfields.bind fun r hr => ?_
      rcases r with e | ⟨values, left⟩
      · exact .pure hr
      · dsimp only
        split
        · rename_i e hexcess
          exact .pure (excessError?_blames hs hr hexcess)
        · exact .pure trivial
  | _ => exact .pure .invalidType

theorem RunBlames.serializeObject {fields : List (String × Schema)} {own : Option UnknownKeys}
    (op : Schema → Operation) (hs : s.kind = .object fields own)
    (h : ∀ t ∈ fields.map Prod.snd, ∀ a, v.Holds a → RunBlames W m w .serializing (op t) t a)
    (expected : Thunk String) (omitted : List String) :
    RunBlames W m w .serializing
      (.serializeObject expected (fields.map fun f => (f.1, op f.2)) omitted) s v := by
  cases v with
  | object entries =>
      rw [RunBlames, Operation.run, fieldRunners_map]
      refine OnError.bind (runPresentFields_onError omitted entries fun f hf => ?_)
        (fun e he => .pure he) fun vs => .pure trivial
      obtain ⟨g, hg, rfl⟩ := List.mem_map.1 hf
      exact (h g.2 (List.mem_map_of_mem hg) _ (.field entries g.1)).onError_mono
        fun e he => he.field hs hg
  | _ => exact .pure .invalidType

theorem RunBlames.unlessNull {inner : Operation} (h : RunBlames W m w d inner s v) :
    RunBlames W m w d (.unlessNull inner) s v := by
  cases v with
  | null => exact .pure trivial
  | _ => exact h

theorem RunBlames.unlessAllNoop {op : Operation} (h : RunBlames W m w d op s v)
    (ops : List Operation) : RunBlames W m w d (unlessAllNoop ops op) s v := by
  rw [Schemata.unlessAllNoop]
  split
  · exact .pure trivial
  · exact h

theorem RunBlames.parseUnion {members : List Schema} {op : Schema → Operation}
    (h : ∀ t ∈ members, RunBlames W m w .parsing (op t) s v) (tags : List (Option Tag)) :
    RunBlames W m w .parsing (.parseUnion (members.map op) tags) s v := by
  rw [RunBlames, Operation.run, runners_eq_map, List.map_map]
  exact parseMembers_onError (List.forall_mem_map.2 h) fun errors => .invalidUnion

theorem RunBlames.serializeUnion {members : List Schema} {op : Schema → Operation}
    (h : ∀ t ∈ members, RunBlames W m w .serializing (op t) s v) (tags : List (Option Tag)) :
    RunBlames W m w .serializing (.serializeUnion (members.map op) tags) s v := by
  rw [RunBlames, Operation.run, runners_eq_map, List.map_map]
  exact serializeMembers_onError (List.forall_mem_map.2 h) (fun text => .atRoot trivial)
    fun errors => .invalidUnion

/-- A function in its own words. -/
theorem Machine.Reports.runAs_blames (hm : m.Reports W w) {f : Action} (hf : f.FailsPlainly w)
    (a : Value) : Ensures W (f.runAs m d a) (OnError fun e => e.Blames w d s v) :=
  (hm.plain f hf d a).onError_mono fun _ he => he.blames

theorem checked_onError (hW : LeavesLogsOpen W) {message : String}
    (h : Q (Error.atRoot (.refinement message) d)) (test : Test) (a : Value) :
    Ensures W (checked d message test a) (OnError Q) := by
  refine (checked_gives hW d message test a).ensures ?_
  rw [Test.result]
  split
  · trivial
  · exact h

/-! ### Kinds -/

/-- A kind that reads the value itself: what is behind it is not another document, and no function
comes before it. -/
def Kind.ReadsInPlace : Kind → Prop
  | .jsonString _ | .transformed _ (.preprocess _) => False
  | _ => True

/-- A kind that writes the value itself: no function comes before it. -/
def Kind.WritesInPlace : Kind → Prop
  | .transformed _ (.transform _) => False
  | _ => True

/-- Effects around a base that blames what is to be blamed. -/
theorem Effect.parseAround_blames (hm : m.Reports W w) {effect : Effect} {base : Operation}
    (hplain : (Kind.transformed t effect).FailsPlainly w)
    (hplace : (Kind.transformed t effect).ReadsInPlace) (h : RunBlames W m w .parsing base s v) :
    RunBlames W m w .parsing (effect.parseAround base) s v := by
  cases effect with
  | transform handlers =>
      simp only [parseAround]
      split
      · rename_i f hf
        exact OnError.bind h (fun e he => .pure he) (hm.runAs_blames (hplain.direct f hf))
      · exact .fail trivial
      · exact .fail trivial
  | preprocess handlers => exact hplace.elim
  | refine message check =>
      cases check with
      | direct test =>
          exact OnError.bind h (fun e he => .pure he)
            (checked_onError hm.logs (.atRoot trivial) test)
      | async test => exact .fail trivial
  | recover fallback =>
      refine (base.runs hm.logs hm.deterministic v).ensures.bind fun r _ => ?_
      cases r <;> exact .pure trivial
  | variant external internal =>
      exact OnError.bind h (fun e he => .pure he) fun a => .pure trivial
  | getOr supply =>
      refine OnError.bind h (fun e he => .pure he) fun a => ?_
      exact (supply.orElse_steady hm.logs a).ensures.bind fun x _ => .pure trivial

/-- A leaf with functions of its own. -/
theorem RunBlames.custom (hm : m.Reports W w) {name : String} {handlers : Handlers}
    (hplain : handlers.FailPlainly w) :
    RunBlames W m w .parsing (customOperation name handlers) s v := by
  rw [customOperation]
  split
  · rename_i f hf
    exact hm.runAs_blames (hplain.direct f hf) v
  · exact .fail trivial
  · exact .fail trivial

/-- **The parse operation of a kind blames what its children blame**, one level further out. -/
theorem Kind.directParser_blames (hm : m.Reports W w) (hformed : s.kind.Formed)
    (hplain : s.kind.FailsPlainly w) (hplace : s.kind.ReadsInPlace) (hv : v.WellFormed)
    {w₁ : World} {id : NodeId} {P : Schema → ParseOperation}
    (hbelow : ∀ t ∈ s.children, ∀ a, v.Holds a → RunBlames W m w .parsing (P t).atOnce t a)
    (href : ∀ r, s.kind = .recursive r →
      Ensures W (m.parse r v) (OnError fun e => e.Blames w .parsing s v)) :
    RunBlames W m w .parsing (s.kind.directParser w₁ id P) s v := by
  have hself : ∀ t ∈ s.children, t ∈ s.kind.alongside w →
      RunBlames W m w .parsing (P t).atOnce s v := fun t ht halong =>
    (hbelow t ht v (.self v)).alongside halong
  rw [Schema.children] at hbelow hself
  cases hs : s.kind with
  | unknown | json => exact .pure trivial
  | never | unit | string | bool | int | float => exact .scalar _ _
  | literal l => exact .literal l
  | array t =>
      rw [hs] at hbelow
      exact .array hs (hbelow t (List.mem_singleton_self t)) _
  | dict t =>
      rw [hs] at hbelow
      exact .dict hs (hbelow t (List.mem_singleton_self t)) _
  | object fields own =>
      rw [hs] at hbelow hformed
      exact .parseObject (fun t => (P t).atOnce) hs hformed hv hbelow _ _
  | tuple schemas =>
      rw [hs] at hbelow
      exact .tuple (fun t => (P t).atOnce) hs hbelow _
  | option t | null t | nullable t =>
      rw [hs] at hself
      exact .unlessAllNoop
        (.unlessNull (hself t (List.mem_singleton_self t) (List.mem_singleton_self t))) _
  | union members =>
      rw [hs] at hself
      refine .parseUnion (fun t ht => ?_) _
      rw [memberParser]
      split
      · exact .fail trivial
      · exact hself t ht ht
  | jsonString t =>
      rw [hs] at hplace
      exact hplace.elim
  | custom name handlers =>
      rw [hs] at hplain
      exact .custom hm hplain
  | transformed base effect =>
      rw [hs] at hself hplain hplace
      exact Effect.parseAround_blames hm hplain hplace
        (hself base (List.mem_singleton_self base) (List.mem_singleton_self base))
  | recursive r =>
      rw [directParser, followOperation]
      split
      · exact .fail trivial
      · exact href r hs

/-- Effects around a base that blames what is to be blamed.  The literal that is put in the place of
another is accepted by the literal schema around which it stands. -/
theorem Effect.serializeAround_blames (hm : m.Reports W w) {effect : Effect} {id : NodeId}
    {base : Compiled Operation} (hformed : (Kind.transformed t effect).Formed)
    (hplain : (Kind.transformed t effect).FailsPlainly w)
    (hplace : (Kind.transformed t effect).WritesInPlace)
    (hread : (Kind.transformed t effect).LiteralsRead)
    (hliteral : ∀ l, t.kind = .literal l → base.operation = .literal .serializing l)
    (h : RunBlames W m w .serializing base.operation s v) :
    RunBlames W m w .serializing (effect.serializeAround id base).operation s v := by
  cases effect with
  | transform handlers => exact hplace.elim
  | preprocess handlers =>
      simp only [serializeAround]
      split
      · rename_i f hf
        exact OnError.bind h (fun e he => .pure he) (hm.runAs_blames (hplain.serializer f hf))
      · exact .fail trivial
  | refine message check =>
      cases check with
      | direct test =>
          -- what passes the test is the value itself
          have hchecked : Ensures W (checked .serializing message test v) fun r =>
              r = test.result .serializing message v :=
            (checked_gives hm.logs .serializing message test v).ensures rfl
          refine hchecked.bind fun r hr => ?_
          rw [hr, Test.result]
          cases test.outcome v with
          | true => exact h
          | false => exact .pure (.atRoot trivial)
      | async test => exact h
  | recover fallback => exact h
  | getOr supply => exact h
  | variant external internal =>
      -- the literal outside is not refused, so only the one inside can be blamed
      simp only [serializeAround, hliteral external hformed]
      rw [RunBlames, Operation.run, Operation.run, if_pos hread.1.accepts]
      split
      · exact .pure trivial
      · exact .pure (.atRoot rfl)

/-- **The serialize operation of a kind blames what its children blame**, one level further out. -/
theorem Kind.serializer_blames (hm : m.Reports W w) (hformed : s.kind.Formed)
    (hplain : s.kind.FailsPlainly w) (hplace : s.kind.WritesInPlace)
    (hread : s.kind.LiteralsRead) {w₁ : World} {id : NodeId} {P : Schema → Compiled Operation}
    (hbelow : ∀ t ∈ s.children, ∀ a, RunBlames W m w .serializing (P t).operation t a)
    (hliteral : ∀ t ∈ s.children, ∀ l, t.kind = .literal l →
      (P t).operation = .literal .serializing l)
    (href : ∀ r, s.kind = .recursive r →
      Ensures W (m.serialize r v) (OnError fun e => e.Blames w .serializing s v)) :
    RunBlames W m w .serializing (s.kind.serializer w₁ id P).operation s v := by
  have hself : ∀ t ∈ s.children, t ∈ s.kind.alongside w →
      RunBlames W m w .serializing (P t).operation s v := fun t ht halong =>
    (hbelow t ht v).alongside halong
  rw [Schema.children] at hbelow hself hliteral
  cases hs : s.kind with
  | unknown | json | unit | string | bool | int | float => exact .pure trivial
  | never => exact .scalar _ _
  | literal l => exact .literal l
  | array t =>
      rw [hs] at hbelow
      exact .unlessAllNoop
        (.array hs (fun a _ => hbelow t (List.mem_singleton_self t) a) _) _
  | dict t =>
      rw [hs] at hbelow
      exact .unlessAllNoop
        (.dict hs (fun a _ => hbelow t (List.mem_singleton_self t) a) _) _
  | object fields own =>
      rw [hs] at hbelow
      simp only [serializer, objectSerializer]
      split
      · exact .pure trivial
      · exact .serializeObject (fun t => (P t).operation) hs
          (fun t ht a _ => hbelow t ht a) _ _
  | tuple schemas =>
      rw [hs] at hbelow
      exact .unlessAllNoop
        (.tuple (fun t => (P t).operation) hs (fun t ht a _ => hbelow t ht a) _) _
  | option t | null t | nullable t =>
      rw [hs] at hself
      exact .unlessAllNoop
        (.unlessNull (hself t (List.mem_singleton_self t) (List.mem_singleton_self t))) _
  | union members =>
      rw [hs] at hself
      refine .serializeUnion (fun t ht => ?_) _
      rw [memberSerializer]
      split
      · exact .fail trivial
      · exact hself t ht ht
  | jsonString t =>
      rw [hs] at hself
      exact OnError.bind (hself t (List.mem_singleton_self t) (List.mem_singleton_self t))
        (fun e he => .pure he) fun a => .pure trivial
  | custom name handlers =>
      rw [hs] at hplain
      simp only [serializer]
      split
      · rename_i f hf
        exact hm.runAs_blames (hplain.serializer f hf) v
      · exact .fail trivial
  | transformed base effect =>
      rw [hs] at hself hformed hplain hplace hread hliteral
      exact Effect.serializeAround_blames hm hformed hplain hplace hread
        (hliteral base (List.mem_singleton_self base))
        (hself base (List.mem_singleton_self base) (List.mem_singleton_self base))
  | recursive r =>
      simp only [serializer, followOperation]
      split
      · exact .fail trivial
      · exact href r hs

end

end Schemata
