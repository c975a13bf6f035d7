/-
**Parsed values inhabit their schema.**

What it is for a value to be of a schema can be said without parsing anything: an inductive
relation with a rule for each kind.  When all that a schema runs besides reading is tests of what it
has read, parsing is sound for this relation, whatever the input.  This covers the shortcuts that
hand the input on unchecked, integers that are written as floating-point numbers, and references,
behind which a schema is found only when the operation runs.

When each value is moreover a way to write itself, parsing is complete too: it gives back the very
same value, provided that there is fuel enough for the references on the way.

Main definitions:

* `Schemata.World.Inhabits` — **a value inhabits a kind**;
* `Schemata.Kind.Made` — what a kind makes of the values below, one level of it;
* `Schemata.Kind.Descriptive`, `Schemata.Kind.Verbatim` — kinds that run nothing but tests, and
  kinds whose values are ways to write themselves;
* `Schemata.World.Synchronous` — schemas from which nothing that waits can be reached.

Main results:

* `Schemata.Kind.directParser_made` — what the parse operation of a kind gives;
* `Schemata.World.Region.target_of_gives` — a reference parses with the schema it stands for;
* `Schemata.World.Region.planned_inhabits` — what is parsed inhabits the schema;
* `Schemata.World.Region.fixes_of_inhabits` — what inhabits the schema is parsed as itself;
* `Schemata.Scene.Reachable.parse_inhabits_and_fixes` — **soundness and completeness of parsing**.
-/

import Schemata.Proofs.AsyncFlag
import Schemata.Proofs.Determinism
import Schemata.Proofs.Meaning
import Schemata.Proofs.RoundTrip

set_option relaxedAutoImplicit false
set_option autoImplicit false

namespace Schemata

/-! ### The relation -/

/-- The schema of a kind that also has null. -/
def Kind.optional? : Kind → Option Schema
  | .option s | .null s | .nullable s => some s
  | _ => none

/-- **A value inhabits a kind.** -/
inductive World.Inhabits (w : World) : Kind → Value → Prop
  | unknown (v : Value) : Inhabits w .unknown v
  | json (v : Value) : Inhabits w .json v
  | unit : Inhabits w .unit .null
  | string (text : String) : Inhabits w .string (.string text)
  | bool (b : Bool) : Inhabits w .bool (.bool b)
  | int {i : Int} : -0x80000000 ≤ i → i < 0x80000000 → Inhabits w .int (.number (.int i))
  | float (n : Number) : Inhabits w .float (.number n)
  | literal {l : Literal} {v : Value} : l.accepts v = true → Inhabits w (.literal l) v
  | array {s : Schema} {items : List Value} : (∀ v ∈ items, Inhabits w s.kind v) →
      Inhabits w (.array s) (.array items)
  | dict {s : Schema} {entries : List (String × Value)} :
      (∀ e ∈ entries, Inhabits w s.kind e.2) → Inhabits w (.dict s) (.object entries)
  /-- Exactly the declared fields, in the order of their declaration. -/
  | object {fields : List (String × Schema)} {own : Option UnknownKeys}
      {entries : List (String × Value)} : Entries.keys entries = Entries.keys fields →
      (∀ p ∈ fields.zip entries, Inhabits w p.1.2.kind p.2.2) →
      Inhabits w (.object fields own) (.object entries)
  | tuple {schemas : List Schema} {items : List Value} : schemas.length = items.length →
      (∀ p ∈ schemas.zip items, Inhabits w p.1.kind p.2) →
      Inhabits w (.tuple schemas) (.array items)
  | absent {kind : Kind} {s : Schema} : kind.optional? = some s → Inhabits w kind .null
  | present {kind : Kind} {s : Schema} {v : Value} : kind.optional? = some s →
      Inhabits w s.kind v → Inhabits w kind v
  | union {members : List Schema} {s : Schema} {v : Value} : s ∈ members →
      Inhabits w s.kind v → Inhabits w (.union members) v
  /-- What the document describes, not the text. -/
  | jsonString {s : Schema} {v : Value} : Inhabits w s.kind v → Inhabits w (.jsonString s) v
  | refine {base : Schema} {message : String} {check : Check} {v : Value} :
      Inhabits w base.kind v → check.outcome v = true →
      Inhabits w (.transformed base (.refine message check)) v
  | variant (base : Schema) (external internal : Literal) :
      Inhabits w (.transformed base (.variant external internal)) internal.toValue
  | recursive {r : Reference} {t : Schema} {v : Value} : w.target? r = some t →
      Inhabits w t.kind v → Inhabits w (.recursive r) v

/-- What the effect runs is a test, or nothing. -/
def Effect.Descriptive : Effect → Prop
  | .refine _ _ | .variant _ _ => True
  | _ => False

/-- **Nothing runs besides reading but tests.** -/
def Kind.Descriptive : Kind → Prop
  | .custom _ _ => False
  | .transformed _ effect => effect.Descriptive
  | _ => True

/-- A value that inhabits the kind is also a way to write it: no member of a union can be in the way
of another, nothing is a document inside a string, and no literal stands for another. -/
def Kind.Verbatim : Kind → Prop
  | .union _ | .jsonString _ | .transformed _ (.variant _ _) => False
  | _ => True

/-- **Nothing that waits can be reached**, and nothing that is reached has been told to wait. -/
def World.Synchronous (w : World) (s : Schema) : Prop :=
  ∀ t, w.Reaches s t → t.kind.isAsync = false ∧ ∃ w', t.isAsync w = .ok (false, w')

/-- In a settled scene it is enough to ask the schema itself. -/
theorem Scene.Settled.synchronous_of_isAsync {σ : Scene} (h : σ.Settled) {s : Schema}
    (hs : s ∈ σ.nodes) {w : World} (hasked : s.isAsync σ.world = .ok (false, w)) :
    σ.world.Synchronous s := by
  have inv := h.invariants
  have hanswer : ∀ t ∈ σ.nodes, ∃ w', t.isAsync σ.world = .ok (σ.world.answer t, w') := by
    intro t ht
    obtain ⟨w', hrun, -⟩ := Schema.isAsync_done inv.sound ht inv.sound.later
    exact ⟨w', hrun⟩
  have hnone : ¬σ.world.ReachesAsync s := by
    obtain ⟨w', hrun⟩ := hanswer s hs
    rw [hasked, Except.ok.injEq, Prod.mk.injEq] at hrun
    rw [← inv.exact.answer_iff inv.sound.hosts hs, ← hrun.1]
    exact Bool.false_ne_true
  intro t ht
  have htn := inv.sound.hosts.reaches hs ht
  have htnone : ¬σ.world.ReachesAsync t := by
    rintro ⟨u, hu, hasync⟩
    exact hnone ⟨u, ht.trans hu, hasync⟩
  constructor
  · by_contra hasync
    exact htnone (World.reachesAsync_of_own (by simpa using hasync))
  · obtain ⟨w', hrun⟩ := hanswer t htn
    rw [← inv.exact.answer_iff inv.sound.hosts htn, Bool.not_eq_true] at htnone
    exact ⟨w', htnone ▸ hrun⟩

section

variable {W : World → Prop} {m : Machine} {w w₀ w₁ : World} {kind : Kind}

/-! ### What is parsed -/

/-- What stands on the right of a relation item by item has something on its left. -/
theorem exists_left_of_mem {α β : Type} {R : α → β → Prop} {as : List α} {bs : List β} {b : β}
    (h : List.Forall₂ R as bs) (hb : b ∈ bs) : ∃ a, R a b := by
  induction h with
  | nil => cases hb
  | @cons a b' as bs hab _ ih =>
      rcases List.mem_cons.1 hb with rfl | hb
      · exact ⟨a, hab⟩
      · exact ih hb

/-- An integer that is read has the form of an integer and fits. -/
theorem Scalar.int_read? {v t : Value} (h : Scalar.int.read? v = some t) :
    ∃ i : Int, -0x80000000 ≤ i ∧ i < 0x80000000 ∧ t = .number (.int i) := by
  have hread := Scalar.read?_read? h
  rcases t with _ | _ | (i | x) | _ | _ | _
  all_goals try cases hread
  · rw [Scalar.read?, Value.int32?] at hread
    split at hread
    · rename_i hfits
      have hbounds := of_decide_eq_true hfits
      exact ⟨i, hbounds.1, hbounds.2, rfl⟩
    · cases hread
  · rw [Scalar.read?] at hread
    obtain ⟨i, -, hi⟩ := Option.map_eq_some_iff.1 hread
    cases hi

/-- **What a kind makes of the values that the nodes below give.**  What a reference stands for is
not below it. -/
def Kind.Made (G : Schema → Value → Prop) : Kind → Value → Prop
  | .never, _ => False
  | .unit, v => v = .null
  | .string, v => ∃ text, v = .string text
  | .bool, v => ∃ b, v = .bool b
  | .int, v => ∃ i : Int, -0x80000000 ≤ i ∧ i < 0x80000000 ∧ v = .number (.int i)
  | .float, v => ∃ n, v = .number n
  | .literal l, v => l.accepts v = true
  | .array s, v => ∃ items, v = .array items ∧ ∀ a ∈ items, G s a
  | .dict s, v => ∃ entries, v = .object entries ∧ ∀ e ∈ entries, G s e.2
  | .object fields _, v =>
      ∃ es, v = .object es ∧ List.Forall₂ (fun f e => f.1 = e.1 ∧ G f.2 e.2) fields es
  | .tuple schemas, v => ∃ items, v = .array items ∧ List.Forall₂ G schemas items
  | .option s, v | .null s, v | .nullable s, v => v = .null ∨ G s v
  | .union members, v => ∃ s ∈ members, G s v
  | .jsonString s, v => G s v
  | .transformed base (.refine _ check), v => G base v ∧ check.outcome v = true
  | .transformed _ (.variant _ internal), v => v = internal.toValue
  | .unknown, _ | .json, _ | .custom _ _, _ | .transformed _ _, _ | .recursive _, _ => True

/-- **The parse operation of a kind makes its values of what the operations below give**, if it runs
nothing besides but tests. -/
theorem Kind.directParser_made (hW : LeavesLogsOpen W) (hw : W w) (hruns : ∀ op, Runs W m op)
    (hkind : kind.Descriptive) {id : NodeId} {P : Schema → ParseOperation} {v t : Value}
    (h : Gives W ((kind.directParser w₁ id P).run m v) (.ok t)) :
    kind.Made (fun s a => ∃ x, Gives W ((P s).atOnce.run m x) (.ok a)) t := by
  cases kind with
  | unknown | json | recursive r => trivial
  | custom name handlers => exact hkind.elim
  | never =>
      have hread := RoundTrips.scalar_gives h hw
      rw [Scalar.never_read?] at hread
      cases hread
  | unit =>
      have hread := RoundTrips.scalar_gives h hw
      cases v <;> cases hread
      rfl
  | string | bool | float =>
      have hread := RoundTrips.scalar_gives h hw
      cases v <;> cases hread
      exact ⟨_, rfl⟩
  | int => exact Scalar.int_read? (RoundTrips.scalar_gives h hw)
  | literal l =>
      obtain ⟨rfl, haccepts⟩ := RoundTrips.literal_gives h hw
      exact haccepts
  | array s =>
      obtain ⟨vs, ts, -, rfl, hts⟩ := (RoundTrips.array_gives_iff hw (hruns _)).1 h
      rw [List.forall₂_map_left_iff] at hts
      refine ⟨ts, rfl, fun a ha => ?_⟩
      obtain ⟨x, hx⟩ := exists_left_of_mem hts ha
      exact ⟨x, hx⟩
  | dict s =>
      obtain ⟨entries, ts, -, rfl, hts⟩ := (RoundTrips.dict_gives_iff hw (hruns _)).1 h
      rw [List.forall₂_map_left_iff] at hts
      refine ⟨_, rfl, fun e he => ?_⟩
      obtain ⟨x, hx⟩ := exists_left_of_mem hts (List.of_mem_zip he).2
      exact ⟨x, hx⟩
  | object fields own =>
      exact RoundTrips.parseObject_taken (P := fun s => (P s).atOnce) hw (fun f _ => hruns _) h
  | tuple schemas =>
      obtain ⟨vs, ts, -, rfl, hsize, hts⟩ :=
        (RoundTrips.tuple_gives_iff hw fun op _ => hruns op).1 h
      rw [List.length_map] at hsize
      have hlength : schemas.length = ts.length := by
        simpa [hsize] using hts.length_eq
      refine ⟨ts, rfl, List.forall₂_iff_get.2 ⟨hlength, fun i hi hi' => ?_⟩⟩
      have hx := (List.forall₂_iff_get.1 hts).2 i (by simp [hi, ← hsize]) hi'
      simp only [List.get_eq_getElem, List.getElem_zipWith, List.getElem_map] at hx
      exact ⟨_, hx⟩
  | option s | null s | nullable s =>
      rw [show (Kind.directParser w₁ id P _).run m v = _ from absentOr_run _ _] at h
      by_cases hnull : v = .null
      · subst hnull
        cases h.of_pure hw
        exact .inl rfl
      · -- whatever is there is handed on
        rw [unlessNull_run hnull] at h
        exact .inr ⟨v, h⟩
  | union members =>
      rw [Kind.directParser, Operation.run, runners_eq_map] at h
      obtain ⟨run, hrun, h⟩ := parseMembers_gives hw (fun run hrun => by
        obtain ⟨op, -, rfl⟩ := List.mem_map.1 hrun
        exact hruns op v) h
      obtain ⟨op, hop, rfl⟩ := List.mem_map.1 hrun
      obtain ⟨s, hs, rfl⟩ := List.mem_map.1 hop
      -- a member that is the union itself gives nothing
      rw [memberParser] at h
      split at h
      · cases h.of_pure hw
      · exact ⟨s, hs, v, h⟩
  | jsonString s =>
      simp only [Kind.directParser, Operation.run] at h
      split at h
      · cases h.of_pure hw
      · exact ⟨_, h⟩
  | transformed base effect =>
      cases effect with
      | refine message check =>
          cases check with
          | direct test =>
              obtain ⟨a, ha, h⟩ := Gives.of_attempt h hw (hruns _ v)
                (checked_steady hW .parsing message test) fun e => ⟨_, rfl⟩
              obtain ⟨rfl, hholds⟩ := checked_passes hW hw h
              exact ⟨⟨v, ha⟩, hholds⟩
          | async test => cases h.of_pure hw
      | variant external internal =>
          obtain ⟨a, -, h⟩ := Gives.of_attempt h hw (hruns _ v) (fun a => .pure _) fun e => ⟨_, rfl⟩
          cases h.of_pure hw
          rfl
      | _ => exact hkind.elim

/-- What more is known of the values below. -/
theorem Kind.Made.mono {G G' : Schema → Value → Prop} {t : Value} (h : kind.Made G t)
    (hG : ∀ s ∈ kind.children, ∀ a, G s a → G' s a) : kind.Made G' t := by
  cases kind with
  | array s =>
      obtain ⟨items, rfl, hitems⟩ := h
      exact ⟨items, rfl, fun a ha => hG s (List.mem_singleton_self s) a (hitems a ha)⟩
  | dict s =>
      obtain ⟨entries, rfl, hentries⟩ := h
      exact ⟨entries, rfl, fun e he => hG s (List.mem_singleton_self s) e.2 (hentries e he)⟩
  | object fields own =>
      obtain ⟨es, rfl, hes⟩ := h
      refine ⟨es, rfl, ((List.forall₂_and_left _ _).2
        ⟨fun f hf => hG f.2 (List.mem_map_of_mem hf), hes⟩).imp ?_⟩
      rintro f e ⟨hf, hname, he⟩
      exact ⟨hname, hf e.2 he⟩
  | tuple schemas =>
      obtain ⟨items, rfl, hitems⟩ := h
      refine ⟨items, rfl, ((List.forall₂_and_left _ _).2 ⟨hG, hitems⟩).imp ?_⟩
      rintro s a ⟨hs, ha⟩
      exact hs a ha
  | option s | null s | nullable s => exact h.imp_right (hG s (List.mem_singleton_self s) t)
  | union members =>
      obtain ⟨s, hs, ha⟩ := h
      exact ⟨s, hs, hG s hs t ha⟩
  | jsonString s => exact hG s (List.mem_singleton_self s) t h
  | transformed base effect =>
      cases effect with
      | refine message check => exact h.imp_left (hG base (List.mem_singleton_self base) t)
      | _ => exact h
  | _ => exact h

/-- **What a kind makes of inhabitants inhabits it.** -/
theorem Kind.Made.inhabits {t : Value} (hkind : kind.Descriptive)
    (hreference : ∀ r, kind ≠ .recursive r)
    (h : kind.Made (fun s a => w₀.Inhabits s.kind a) t) : w₀.Inhabits kind t := by
  cases kind with
  | unknown => exact .unknown t
  | json => exact .json t
  | never => exact h.elim
  | unit => exact h ▸ .unit
  | string => obtain ⟨text, rfl⟩ := h; exact .string text
  | bool => obtain ⟨b, rfl⟩ := h; exact .bool b
  | float => obtain ⟨n, rfl⟩ := h; exact .float n
  | int => obtain ⟨i, hlow, hhigh, rfl⟩ := h; exact .int hlow hhigh
  | literal l => exact .literal h
  | array s => obtain ⟨items, rfl, hitems⟩ := h; exact .array hitems
  | dict s => obtain ⟨entries, rfl, hentries⟩ := h; exact .dict hentries
  | object fields own =>
      obtain ⟨es, rfl, hes⟩ := h
      exact .object (Entries.keys_eq_of_forall₂ hes) fun p hp => (List.forall₂_zip hes hp).2
  | tuple schemas =>
      obtain ⟨items, rfl, hitems⟩ := h
      exact .tuple hitems.length_eq fun p hp => List.forall₂_zip hitems hp
  | option s | null s | nullable s =>
      rcases h with rfl | h
      · exact .absent rfl
      · exact .present rfl h
  | union members => obtain ⟨s, hs, h⟩ := h; exact .union hs h
  | jsonString s => exact .jsonString h
  | custom name handlers => exact hkind.elim
  | transformed base effect =>
      cases effect with
      | refine message check => exact .refine h.1 h.2
      | variant external internal => exact h ▸ .variant base external internal
      | _ => exact hkind.elim
  | recursive r => exact absurd rfl (hreference r)

end

section

variable {w₀ : World} {nodes : List Schema} {N : Schema → Prop} {m : Machine}

/-- **A reference that parses a value** is bound, and its schema parses the value with less fuel. -/
theorem World.Region.target_of_gives (h : w₀.Region nodes N) {s : Schema} (hs : N s)
    {r : Reference} (hkind : s.kind = .recursive r) {k : Nat} {v t : Value}
    (hgives : Gives (w₀.Later nodes) ((w₀.planned s).atOnce.run (machine k) v) (.ok t)) :
    ∃ j u, k = j + 1 ∧ w₀.target? r = some u ∧ N u ∧
      Gives (w₀.Later nodes) ((w₀.planned u).atOnce.run (machine j) v) (.ok t) := by
  have hc := h.compiles
  have hnow : w₀.Later nodes w₀ := h.sound.later
  obtain ⟨w₁, o, -, -, -, hplan⟩ := h.sound.planned_of_gives h.shaped (h.member s hs) hnow hgives
  rw [hplan, hkind, Kind.directParser, followOperation] at hgives
  split at hgives
  · cases hgives.of_pure hnow
  · obtain ⟨w', -, hrun⟩ := hgives w₀ hnow
    cases k with
    | zero => cases hrun
    | succ j =>
        cases htarget : w₀.target? r with
        | none =>
            simp only [Operation.run, machine, get_bind, htarget] at hrun
            cases hrun
        | some u =>
            have hu := h.leads s u hs (World.leads_of_target hkind htarget)
            rw [Operation.run, hc.parse_target hnow htarget] at hrun
            exact ⟨j, u, rfl, rfl, hu,
              Schema.gives_of_parseOn hc hu (h.sound.runs j _) hnow hrun⟩

/-- **What is parsed is made of what the nodes below give.** -/
theorem World.Region.made_of_gives (h : w₀.Region nodes N) {s : Schema}
    (hkind : s.kind.Descriptive) (hs : N s) {fuel : Nat} {v t : Value}
    (hgives : Gives (w₀.Later nodes) ((w₀.planned s).atOnce.run (machine fuel) v) (.ok t)) :
    s.kind.Made (fun u a => ∃ x,
      Gives (w₀.Later nodes) ((w₀.planned u).atOnce.run (machine fuel) x) (.ok a)) t := by
  have hnow : w₀.Later nodes w₀ := h.sound.later
  obtain ⟨w₁, o, -, -, -, hplan⟩ := h.sound.planned_of_gives h.shaped (h.member s hs) hnow hgives
  rw [hplan] at hgives
  exact Kind.directParser_made (w₀.later_leavesLogsOpen nodes) hnow (h.sound.runs fuel) hkind hgives

/-- **What is parsed inhabits the schema**, with any fuel. -/
theorem World.Region.planned_inhabits (h : w₀.Region nodes N)
    (hkind : ∀ s, N s → s.kind.Descriptive) (fuel : Nat) :
    ∀ s, N s → ∀ v t,
      Gives (w₀.Later nodes) ((w₀.planned s).atOnce.run (machine fuel) v) (.ok t) →
      w₀.Inhabits s.kind t := by
  -- a reference uses fuel up, and anything else is made of what the nodes below give
  induction fuel using Nat.strongRecOn with
  | ind fuel ih =>
      refine h.induction fun s hs below => ?_
      intro v t hgives
      by_cases hreference : ∃ r, s.kind = .recursive r
      · obtain ⟨r, hr⟩ := hreference
        obtain ⟨j, u, rfl, htarget, hu, hx⟩ := h.target_of_gives hs hr hgives
        rw [hr]
        exact .recursive htarget (ih j (Nat.lt_succ_self j) u hu v t hx)
      · refine Kind.Made.inhabits (hkind s hs) (fun r hr => hreference ⟨r, hr⟩)
          ((h.made_of_gives (hkind s hs) hs hgives).mono ?_)
        rintro u hu a ⟨x, hx⟩
        exact below u hu x a hx

/-! ### Operations that give values back -/

section

variable {W : World → Prop} {op : Operation} {direction : Direction} {expected : Thunk String}

theorem scalar_gives_back {kind : Scalar} {v : Value} (h : kind.read? v = some v) :
    Gives W ((Operation.scalar kind direction expected).run m v) (.ok v) := by
  simp only [Operation.run, h]
  exact .pure _

theorem array_gives_back {w : World} {items : List Value} (hw : W w) (hop : Runs W m op)
    (h : ∀ a ∈ items, Gives W (op.run m a) (.ok a)) :
    Gives W ((Operation.array direction expected op).run m (.array items))
      (.ok (.array items)) := by
  refine (RoundTrips.array_gives_iff hw hop).2 ⟨items, items, rfl, rfl, ?_⟩
  rw [List.forall₂_map_left_iff, List.forall₂_same]
  exact h

theorem dict_gives_back {w : World} {entries : List (String × Value)} (hw : W w)
    (hop : Runs W m op) (h : ∀ e ∈ entries, Gives W (op.run m e.2) (.ok e.2)) :
    Gives W ((Operation.dict direction expected op).run m (.object entries))
      (.ok (.object entries)) := by
  refine (RoundTrips.dict_gives_iff hw hop).2 ⟨entries, entries.map Prod.snd, rfl, ?_, ?_⟩
  · rw [Entries.keys, ← List.zip_of_prod rfl rfl]
  · rw [List.forall₂_map_left_iff, List.forall₂_same]
    exact List.forall_mem_map.2 h

theorem tuple_gives_back {w : World} {schemas : List Schema} {P : Schema → Operation}
    {items : List Value} (hw : W w) (hP : ∀ s, Runs W m (P s))
    (hsize : schemas.length = items.length)
    (h : ∀ p ∈ schemas.zip items, Gives W ((P p.1).run m p.2) (.ok p.2)) :
    Gives W ((Operation.tuple direction expected (schemas.map P)).run m (.array items))
      (.ok (.array items)) := by
  refine (RoundTrips.tuple_gives_iff hw (List.forall_mem_map.2 fun s _ => hP s)).2
    ⟨items, items, rfl, rfl, by rwa [List.length_map], ?_⟩
  clear hw
  induction schemas generalizing items with
  | nil => rw [List.eq_nil_of_length_eq_zero hsize.symm]; exact .nil
  | cons s rest ih =>
      cases items with
      | nil => cases hsize
      | cons a items =>
          refine .cons (h (s, a) (List.mem_cons_self ..)) (ih (Nat.succ.inj hsize) fun p hp => ?_)
          exact h p (List.mem_cons_of_mem _ hp)

theorem parseObject_gives_back {fields : List (String × Schema)} {P : Schema → Operation}
    {entries : List (String × Value)} {policy : UnknownKeys} (hnames : (Entries.keys fields).Nodup)
    (hkeys : Entries.keys entries = Entries.keys fields)
    (h : ∀ p ∈ fields.zip entries, Gives W ((P p.1.2).run m p.2.2) (.ok p.2.2)) :
    Gives W ((Operation.parseObject expected (fields.map fun f => (f.1, P f.2)) policy).run m
      (.object entries)) (.ok (.object entries)) := by
  refine RoundTrips.parseObject_restored hnames (Restores.of_same (p := fun s => (P s).run m) ?_)
  exact Entries.forall₂_of_keys hkeys h

theorem absentOr_gives_back {v : Value} (h : v ≠ .null → Gives W (op.run m v) (.ok v)) :
    Gives W ((absentOr op).run m v) (.ok v) := by
  rw [absentOr_run]
  by_cases hnull : v = .null
  · subst hnull
    exact .pure _
  · rw [unlessNull_run hnull]
    exact h hnull

theorem thenCheck_gives_back (hW : LeavesLogsOpen W) {message : String} {test : Test} {v : Value}
    (h : Gives W (op.run m v) (.ok v)) (hholds : test.outcome v = true) :
    Gives W ((Operation.thenCheck message test op).run m v) (.ok v) := by
  have hchecked := checked_gives hW .parsing message test v
  rw [Test.result, if_pos hholds] at hchecked
  exact h.bind hchecked

end

/-! ### What inhabits a schema -/

/-- A reference that stands for itself has no inhabitants. -/
theorem World.Inhabits.not_loop {w : World} {r : Reference} {t : Schema} {v : Value}
    (htarget : w.target? r = some t) (ht : t.kind = .recursive r) :
    ¬w.Inhabits (.recursive r) v := by
  intro h
  generalize hkind : Kind.recursive r = kind at h
  induction h with
  | recursive htarget' _ ih =>
      cases hkind
      rw [htarget] at htarget'
      cases htarget'
      exact ih ht.symm
  | absent hoptional | present hoptional _ _ =>
      subst hkind
      cases hoptional
  | _ => cases hkind

/-- What each needs some fuel for, all have with enough fuel. -/
theorem enough_for_all {α : Type} {P : α → Nat → Prop} {l : List α}
    (h : ∀ x ∈ l, ∃ n, ∀ fuel, n ≤ fuel → P x fuel) :
    ∃ n, ∀ fuel, n ≤ fuel → ∀ x ∈ l, P x fuel := by
  induction l with
  | nil => exact ⟨0, fun fuel _ x hx => absurd hx List.not_mem_nil⟩
  | cons x rest ih =>
      obtain ⟨n, hn⟩ := h x (List.mem_cons_self ..)
      obtain ⟨k, hk⟩ := ih fun y hy => h y (List.mem_cons_of_mem _ hy)
      refine ⟨max n k, fun fuel hfuel => List.forall_mem_cons.2 ⟨?_, ?_⟩⟩
      · exact hn fuel (by omega)
      · exact hk fuel (by omega)

/-- The operation of a schema that does not wait has the shape of its kind. -/
theorem World.Sound.planned_of_isAsync {s : Schema} (h : w₀.Sound nodes)
    (hshape : w₀.Shaped World.Before nodes) (hs : s ∈ nodes)
    (hasked : ∃ w', s.isAsync w₀ = .ok (false, w')) :
    ∃ w₁ o, w₁.Before w₀ ∧ o ∈ nodes ∧ o.kind = s.kind ∧
      (w₀.planned s).atOnce = s.kind.directParser w₁ o.id w₀.planned := by
  obtain ⟨w₁, o, waits, hbefore, ho, hkind, hplan⟩ := h.parsePlan_shape hshape (.refl w₀) hs
  refine ⟨w₁, o, hbefore, ho, hkind, ?_⟩
  have hwaits : waits = false := by
    obtain ⟨w', hasked⟩ := hasked
    obtain ⟨w'', hrun, -⟩ := Schema.isAsync_done h hs h.later
    rw [hasked, Except.ok.injEq, Prod.mk.injEq] at hrun
    rw [hrun.1, ← h.planned_isAsync hs, World.planned, hplan]
    exact (Kind.parser_isAsync w₁ o.id waits w₀.planned s.kind).symm
  rw [World.planned, hplan, hwaits]
  rfl

/-- With enough fuel, parsing gives the value back as it is. -/
def World.Fixes (w₀ : World) (nodes : List Schema) (s : Schema) (v : Value) : Prop :=
  ∃ n, ∀ fuel, n ≤ fuel →
    Gives (w₀.Later nodes) ((w₀.planned s).atOnce.run (machine fuel) v) (.ok v)

/-- It is enough that the operation that the kind has gives the value back. -/
theorem World.Sound.fixes_of_directParser {s : Schema} {v : Value} (h : w₀.Sound nodes)
    (hshape : w₀.Shaped World.Before nodes) (hs : s ∈ nodes)
    (hasked : ∃ w', s.isAsync w₀ = .ok (false, w')) (n : Nat)
    (hgives : ∀ fuel, n ≤ fuel → ∀ w₁ o, w₁.Before w₀ → o ∈ nodes → o.kind = s.kind →
      Gives (w₀.Later nodes)
        ((s.kind.directParser w₁ o.id w₀.planned).run (machine fuel) v) (.ok v)) :
    w₀.Fixes nodes s v := by
  obtain ⟨w₁, o, hbefore, ho, hkind, hplan⟩ := h.planned_of_isAsync hshape hs hasked
  refine ⟨n, fun fuel hfuel => ?_⟩
  rw [hplan]
  exact hgives fuel hfuel w₁ o hbefore ho hkind

/-- A reference was not refused when it was compiled, if it stands for another schema than itself
now. -/
theorem followOperation_of_target {w₁ : World} {o t : Schema} {r : Reference}
    {direction : Direction} (h : w₀.Hosts nodes) (hbefore : w₁.Before w₀) (ho : o ∈ nodes)
    (hkind : o.kind = .recursive r) (htarget : w₀.target? r = some t)
    (hother : t.kind ≠ .recursive r) :
    followOperation w₁ direction o.id r = .follow direction r := by
  have hid : t.id ≠ o.id := by
    intro hsame
    have heq := h.identity t (h.targets r t htarget) o ho hsame
    exact hother (heq ▸ hkind)
  rw [followOperation]
  rcases hbefore.live r t htarget with hunset | hbound
  · simp [World.isSet, hunset]
  · simp [usableTarget, hbound, hid]

/-- **What inhabits the schema is parsed as itself**, with enough fuel. -/
theorem World.Region.fixes_of_inhabits (h : w₀.Region nodes N)
    (hkind : ∀ s, N s → s.kind.Verbatim)
    (hsync : ∀ s, N s → s.kind.isAsync = false ∧ ∃ w', s.isAsync w₀ = .ok (false, w'))
    {kind : Kind} {v : Value} (hv : w₀.Inhabits kind v) :
    ∀ s, N s → s.kind = kind → w₀.Fixes nodes s v := by
  have hnow : w₀.Later nodes w₀ := h.sound.later
  have hc := h.compiles
  have hchild : ∀ s u, N s → u ∈ s.kind.children → N u := fun s u hs hu =>
    h.leads s u hs (World.leads_of_child hu)
  have hplanned := fun s (hs : N s) v =>
    h.sound.fixes_of_directParser (v := v) h.shaped (h.member s hs) (hsync s hs).2
  induction hv with
  | unknown | json =>
      intro s hs hk
      refine hplanned s hs _ 0 fun fuel _ w₁ o _ _ _ => ?_
      rw [hk]
      exact .pure _
  | unit | string | bool | float =>
      intro s hs hk
      refine hplanned s hs _ 0 fun fuel _ w₁ o _ _ _ => ?_
      rw [hk]
      exact scalar_gives_back rfl
  | int hlow hhigh =>
      intro s hs hk
      refine hplanned s hs _ 0 fun fuel _ w₁ o _ _ _ => ?_
      rw [hk]
      refine scalar_gives_back ?_
      simp [Scalar.read?, Value.int32?, fits32, hlow, hhigh, Value.ofInt]
  | literal haccepts =>
      intro s hs hk
      refine hplanned s hs _ 0 fun fuel _ w₁ o _ _ _ => ?_
      rw [hk]
      exact RoundTrips.literal_accepted haccepts .parsing
  | @array u items _ ih =>
      intro s hs hk
      have hu : N u := hchild s u hs (by rw [hk]; exact List.mem_singleton_self u)
      obtain ⟨n, hn⟩ := enough_for_all fun a ha => ih a ha u hu rfl
      refine hplanned s hs _ n fun fuel hfuel w₁ o _ _ _ => ?_
      rw [hk]
      exact array_gives_back hnow (h.sound.runs fuel _) (hn fuel hfuel)
  | @dict u entries _ ih =>
      intro s hs hk
      have hu : N u := hchild s u hs (by rw [hk]; exact List.mem_singleton_self u)
      obtain ⟨n, hn⟩ := enough_for_all fun e he => ih e he u hu rfl
      refine hplanned s hs _ n fun fuel hfuel w₁ o _ _ _ => ?_
      rw [hk]
      exact dict_gives_back hnow (h.sound.runs fuel _) (hn fuel hfuel)
  | @object fields own entries hkeys _ ih =>
      intro s hs hk
      have hfields : ∀ f ∈ fields, N f.2 := fun f hf =>
        hchild s f.2 hs (by rw [hk]; exact List.mem_map_of_mem hf)
      obtain ⟨n, hn⟩ := enough_for_all fun p hp =>
        ih p hp p.1.2 (hfields p.1 (List.of_mem_zip hp).1) rfl
      refine hplanned s hs _ n fun fuel hfuel w₁ o _ _ _ => ?_
      have hnames := h.sound.hosts.formed s (h.member s hs)
      rw [hk] at hnames ⊢
      exact parseObject_gives_back (P := fun u => (w₀.planned u).atOnce) hnames hkeys
        (hn fuel hfuel)
  | @tuple schemas items hsize _ ih =>
      intro s hs hk
      have hschemas : ∀ u ∈ schemas, N u := fun u hu => hchild s u hs (by rw [hk]; exact hu)
      obtain ⟨n, hn⟩ := enough_for_all fun p hp =>
        ih p hp p.1 (hschemas p.1 (List.of_mem_zip hp).1) rfl
      refine hplanned s hs _ n fun fuel hfuel w₁ o _ _ _ => ?_
      rw [hk]
      exact tuple_gives_back (P := fun u => (w₀.planned u).atOnce) hnow
        (fun u => h.sound.runs fuel _) hsize (hn fuel hfuel)
  | @absent kind u hoptional =>
      intro s hs hk
      refine hplanned s hs _ 0 fun fuel _ w₁ o _ _ _ => ?_
      rw [hk]
      cases kind <;> cases hoptional
      all_goals exact absentOr_gives_back fun hnull => absurd rfl hnull
  | @present kind u v hoptional _ ih =>
      intro s hs hk
      have hu : N u := hchild s u hs (by
        rw [hk]
        cases kind <;> cases hoptional
        all_goals exact List.mem_singleton_self u)
      obtain ⟨n, hn⟩ := ih u hu rfl
      refine hplanned s hs _ n fun fuel hfuel w₁ o _ _ _ => ?_
      rw [hk]
      cases kind <;> cases hoptional
      all_goals exact absentOr_gives_back fun _ => hn fuel hfuel
  | union | jsonString | variant =>
      intro s hs hk
      have hverbatim := hkind s hs
      rw [hk] at hverbatim
      exact hverbatim.elim
  | @refine base message check v _ hholds ih =>
      intro s hs hk
      have hbase : N base := hchild s base hs (by rw [hk]; exact List.mem_singleton_self base)
      obtain ⟨n, hn⟩ := ih base hbase rfl
      refine hplanned s hs _ n fun fuel hfuel w₁ o _ _ _ => ?_
      have hasync := (hsync s hs).1
      rw [hk] at hasync ⊢
      cases check with
      | direct test =>
          exact thenCheck_gives_back (w₀.later_leavesLogsOpen nodes) (hn fuel hfuel) hholds
      | async test => cases hasync
  | @recursive r u v htarget hv ih =>
      intro s hs hk
      have hu := h.leads s u hs (World.leads_of_target hk htarget)
      obtain ⟨n, hn⟩ := ih u hu rfl
      refine hplanned s hs _ (n + 1) fun fuel hfuel w₁ o hbefore ho hkindo => ?_
      -- one more unit of fuel than for the target, which is not the reference itself
      have hloop : u.kind ≠ .recursive r := fun hself => World.Inhabits.not_loop htarget hself
        (.recursive htarget hv)
      obtain ⟨fuel, rfl⟩ := Nat.exists_eq_succ_of_ne_zero (n := fuel) (by omega)
      rw [hk] at hkindo ⊢
      rw [Kind.directParser,
        followOperation_of_target h.sound.hosts hbefore ho hkindo htarget hloop]
      exact Gives.congr (fun w hw => hc.parse_target hw htarget fuel v)
        (Schema.parseOn_gives hc hu (hn fuel (by omega)))

end

namespace Scene

/-- **Parsing is sound and complete for the values of a schema.**  In every scene that a history
leads to: below a schema that runs nothing but tests, what any value is parsed as inhabits the
schema; and if nothing waits and values are ways to write themselves, every inhabitant is parsed as
itself, however deep the references go. -/
theorem Reachable.parse_inhabits_and_fixes {σ : Scene} (h : σ.Reachable) {s : Schema}
    (hs : s ∈ σ.nodes) (hdescriptive : ∀ t, σ.world.Reaches s t → t.kind.Descriptive) :
    (∀ fuel v t w, s.parse fuel v σ.world = .ok (.ok t, w) → σ.world.Inhabits s.kind t) ∧
    (σ.world.Synchronous s → (∀ t, σ.world.Reaches s t → t.kind.Verbatim) →
      ∀ t, σ.world.Inhabits s.kind t →
        ∃ n, ∀ fuel, n ≤ fuel → ∃ w, s.parse fuel t σ.world = .ok (.ok t, w)) := by
  have hregion := h.region hs
  have hc := hregion.compiles
  have hnow : σ.world.Later σ.nodes σ.world := h.sound.later
  constructor
  · intro fuel v t w hparse
    exact hregion.planned_inhabits hdescriptive fuel s .refl v t
      (Schema.gives_of_parseOn hc .refl (h.sound.runs fuel _) hnow hparse)
  · intro hsync hverbatim t ht
    obtain ⟨n, hn⟩ := hregion.fixes_of_inhabits hverbatim hsync ht s .refl rfl
    refine ⟨n, fun fuel hfuel => ?_⟩
    obtain ⟨w, -, hrun⟩ := Schema.parseOn_gives hc .refl (hn fuel hfuel) σ.world hnow
    exact ⟨w, hrun⟩

/-! ### A list of counts -/

/-- A reference to the list itself. -/
def further : Schema := .node 0 (.recursive 0) Metadata.empty none

/-- An integer. -/
def whole : Schema := .node 1 .int Metadata.empty none

/-- An integer other than zero. -/
def nonzero : Schema :=
  .node 2 (.transformed whole (.refine "a count" (.direct (.not (.holds (·.equal (.ofInt 0)))))))
    Metadata.empty none

/-- What is left of the list, if anything is. -/
def optionalFurther : Schema := .node 3 (.option further) Metadata.empty none

/-- A list of counts. -/
def counts : Schema :=
  .node 4 (.object [("first", nonzero), ("rest", optionalFurther)] none) Metadata.empty none

/-- The scene of the list. -/
def counted : Scene where
  world := { made 5 1 with bindings := updateAt (made 5 1).bindings 0 (.live counts) }
  nodes := [counts, optionalFurther, nonzero, whole, further]

theorem counted_settled : counted.Settled := by
  have h₁ : Step .building initial ⟨made 0 1, []⟩ := .reference rfl
  have h₂ : Step .building ⟨made 0 1, []⟩ ⟨made 1 1, [further]⟩ :=
    .made (fun t ht => by cases ht) (by trivial)
  have h₃ : Step .building ⟨made 1 1, [further]⟩ ⟨made 2 1, [whole, further]⟩ :=
    .made (fun t ht => by cases ht) (by trivial)
  have h₄ : Step .building ⟨made 2 1, [whole, further]⟩ ⟨made 3 1, [nonzero, whole, further]⟩ :=
    .made (fun t ht => by simp_all [Kind.children]) (by trivial)
  have h₅ : Step .building ⟨made 3 1, [nonzero, whole, further]⟩
      ⟨made 4 1, [optionalFurther, nonzero, whole, further]⟩ :=
    .made (fun t ht => by simp_all [Kind.children]) (by trivial)
  have h₆ : Step .building ⟨made 4 1, [optionalFurther, nonzero, whole, further]⟩
      ⟨made 5 1, [counts, optionalFurther, nonzero, whole, further]⟩ := by
    refine .made (fun t ht => ?_) (by simp [Kind.Formed, Entries.keys])
    simp only [Kind.children, List.map_cons, List.map_nil, List.mem_cons, List.not_mem_nil,
      or_false] at ht
    rcases ht with rfl | rfl <;> simp
  have h₇ : Step .building ⟨made 5 1, [counts, optionalFurther, nonzero, whole, further]⟩ counted :=
    .bind Nat.zero_lt_one rfl (List.mem_cons_self ..) rfl
  refine ⟨counted, .tail (.tail (.tail (.tail (.tail (.tail (.single h₁) h₂) h₃) h₄) h₅) h₆) h₇,
    fun s hs r hr => ?_, .refl⟩
  simp only [counted, List.mem_cons, List.not_mem_nil, or_false] at hs
  rcases hs with rfl | rfl | rfl | rfl | rfl <;> cases hr
  exact ⟨counts, rfl⟩

theorem counted_kinds (t : Schema) (h : counted.world.Reaches counts t) :
    t.kind.Descriptive ∧ t.kind.Verbatim := by
  have hm : counts ∈ counted.nodes := List.mem_cons_self ..
  have ht : t ∈ [counts, optionalFurther, nonzero, whole, further] :=
    counted_settled.invariants.sound.hosts.reaches hm h
  simp only [List.mem_cons, List.not_mem_nil, or_false] at ht
  rcases ht with rfl | rfl | rfl | rfl | rfl <;> exact ⟨trivial, trivial⟩

/-- Two counts, the second one without a further. -/
def twoCounts : Value :=
  .object [("first", .ofInt 2), ("rest", .object [("first", .ofInt 1)])]

/-- Whether the two counts are parsed. -/
def twoCountsParsed : Bool :=
  match counts.parse 3 twoCounts counted.world with
  | .ok (.ok _, _) => true
  | _ => false

theorem twoCounts_parsed :
    ∃ t w, counts.parse 3 twoCounts counted.world = .ok (.ok t, w) := by
  have hparsed : twoCountsParsed = true := by decide +kernel
  rw [twoCountsParsed] at hparsed
  split at hparsed
  · rename_i t w hparse
    exact ⟨t, w, hparse⟩
  · cases hparsed

/-- The two counts are parsed, and what they are parsed as is parsed as it is. -/
theorem parse_inhabits_and_fixes_counts : ∃ t w,
    counts.parse 3 twoCounts counted.world = .ok (.ok t, w) ∧
    counted.world.Inhabits counts.kind t ∧
    ∃ n, ∀ fuel, n ≤ fuel → ∃ w, counts.parse fuel t counted.world = .ok (.ok t, w) := by
  have hm : counts ∈ counted.nodes := List.mem_cons_self ..
  have hboth := counted_settled.reachable.parse_inhabits_and_fixes hm
    fun t ht => (counted_kinds t ht).1
  obtain ⟨t, w, hparse⟩ := twoCounts_parsed
  have hinhabits := hboth.1 3 twoCounts t w hparse
  exact ⟨t, w, hparse, hinhabits, hboth.2 (counted_settled.synchronous_of_isAsync hm rfl)
    (fun t ht => (counted_kinds t ht).2) t hinhabits⟩

end Scene

end Schemata
