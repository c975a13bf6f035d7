/-
**What errors say, and where.**

An error names a place and a reason, and many reasons name what was received.  For this to be of use
the place has to exist: its path must lead into the value that was given, step by step along the
schema, and what was received must be what is found there.  The errors inside the error of a union
are held to the same, from the place of the union on.  All of them are marked with one direction.

Nothing is asked of what user functions say in their own words, but they must not hand on errors of
other schemas: such errors speak of other values.

Main definitions:

* `Schemata.World.Locates` — **where a path leads**, in a value and in the schema that the value is
  held against;
* `Schemata.Error.Blames`, `Schemata.Reason.Explains` — **what an error has to say of a value**;
* `Schemata.Action.FailsPlainly`, `Schemata.Kind.FailsPlainly` — functions that fail in their own
  words;
* `Schemata.OnError`, `Schemata.Machine.Reports` — results with errors as required, and machines on
  which functions fail in their own words.

Main results:

* `Schemata.Error.Blames.alongside`, `Schemata.Error.Blames.item`, `Schemata.Error.Blames.place`,
  `Schemata.Error.Blames.entry`, `Schemata.Error.Blames.field` — errors that move one level further
  out;
* `Schemata.World.Sound.machine_reports` — functions keep to their own words in all worlds ahead.
-/

import Schemata.Proofs.Determinism

set_option relaxedAutoImplicit false
set_option autoImplicit false

namespace Schemata

/-! ### Places -/

/-- The schemas that a kind holds against the very value that it is given. -/
def Kind.alongside (w : World) : Kind → List Schema
  | .option s | .null s | .nullable s | .jsonString s | .transformed s _ => [s]
  | .union members => members
  | .recursive r => (w.target? r).toList
  | _ => []

/-- **Where a path leads**: to a value inside the given one, and to the schema that this value is
held against. -/
inductive World.Locates (w : World) : Schema → Value → List Segment → Schema → Value → Prop
  | here (s : Schema) (v : Value) : Locates w s v [] s v
  | alongside {s t u : Schema} {v x : Value} {path : List Segment} : t ∈ s.kind.alongside w →
      Locates w t v path u x → Locates w s v path u x
  | item {s t u : Schema} {items : List Value} {i : Nat} {a x : Value} {path : List Segment} :
      s.kind = .array t → items[i]? = some a → Locates w t a path u x →
      Locates w s (.array items) (.index i :: path) u x
  | place {s t u : Schema} {schemas : List Schema} {items : List Value} {i : Nat} {a x : Value}
      {path : List Segment} : s.kind = .tuple schemas → schemas[i]? = some t →
      items[i]? = some a → Locates w t a path u x →
      Locates w s (.array items) (.index i :: path) u x
  | entry {s t u : Schema} {entries : List (String × Value)} {key : String} {a x : Value}
      {path : List Segment} : s.kind = .dict t → (key, a) ∈ entries → Locates w t a path u x →
      Locates w s (.object entries) (.key key :: path) u x
  /-- A declared field that is missing stands for null. -/
  | field {s t u : Schema} {fields : List (String × Schema)} {own : Option UnknownKeys}
      {entries : List (String × Value)} {key : String} {x : Value} {path : List Segment} :
      s.kind = .object fields own → (key, t) ∈ fields →
      Locates w t ((Entries.find? key entries).getD .null) path u x →
      Locates w s (.object entries) (.key key :: path) u x

/-! ### The law of errors -/

mutual

/-- **What a reason has to say of the value** that is held against a schema. -/
def Reason.Explains (w : World) (d : Direction) : Reason → Schema → Value → Prop
  | .invalidType _ received, _, x => received = x
  | .invalidLiteral _ received, _, x => received = x
  | .invalidTupleSize _ received, _, x => ∃ items, x = .array items ∧ received = items.length
  | .excessField key, u, x => ∃ fields own entries, u.kind = .object fields own ∧
      x = .object entries ∧ key ∈ Entries.keys entries ∧ key ∉ Entries.keys fields
  | .invalidUnion errors, u, x => BlameEach w d errors u x
  | .refinement _, _, _ | .custom _, _, _ | .operationFailed _, _, _ | .invalidOperation _, _, _
  | .unexpectedAsync, _, _ => True

/-- **What an error has to say of the value** that is held against a schema: its path leads to a
value that its reason explains. -/
def Error.Blames (w : World) (d : Direction) : Error → Schema → Value → Prop
  | ⟨reason, direction, path⟩, s, v => direction = d ∧
      ∃ u x, w.Locates s v path.segments u x ∧ reason.Explains w d u x

/-- Every one of the errors does. -/
def BlameEach (w : World) (d : Direction) : List Error → Schema → Value → Prop
  | [], _, _ => True
  | e :: rest, u, x => e.Blames w d u x ∧ BlameEach w d rest u x

end

section

variable {w : World} {d : Direction} {s t : Schema} {v a : Value} {e : Error}

theorem blameEach_iff {errors : List Error} :
    BlameEach w d errors s v ↔ ∀ e ∈ errors, e.Blames w d s v := by
  induction errors with
  | nil => simp [BlameEach]
  | cons e rest ih => simp [BlameEach, ih]

/-- What an error has to say, by what it holds. -/
theorem Error.blames_iff : e.Blames w d s v ↔ e.direction = d ∧
    ∃ u x, w.Locates s v e.path.segments u x ∧ e.reason.Explains w d u x := by
  cases e
  rfl

/-- An error that is just made. -/
theorem Error.Blames.atRoot {reason : Reason} (h : reason.Explains w d s v) :
    (Error.atRoot reason d).Blames w d s v := ⟨rfl, s, v, .here s v, h⟩

theorem Error.Blames.invalidType {expected : String} :
    (Error.invalidType d expected v).Blames w d s v := .atRoot rfl

/-- The errors of members put together. -/
theorem Error.Blames.invalidUnion {errors : List Error} (h : ∀ e ∈ errors, e.Blames w d s v) :
    (Error.atRoot (.invalidUnion errors) d).Blames w d s v := .atRoot (blameEach_iff.2 h)

/-- An error of a schema that is held against the same value. -/
theorem Error.Blames.alongside (ht : t ∈ s.kind.alongside w) (h : e.Blames w d t v) :
    e.Blames w d s v := by
  obtain ⟨hd, u, x, hpath, hreason⟩ := Error.blames_iff.1 h
  exact Error.blames_iff.2 ⟨hd, u, x, .alongside ht hpath, hreason⟩

/-- An error of an item. -/
theorem Error.Blames.item {items : List Value} {i : Nat} (hs : s.kind = .array t)
    (hi : items[i]? = some a) (h : e.Blames w d t a) :
    (e.prepend (.index i)).Blames w d s (.array items) := by
  obtain ⟨hd, u, x, hpath, hreason⟩ := Error.blames_iff.1 h
  exact Error.blames_iff.2 ⟨hd, u, x, .item hs hi hpath, hreason⟩

/-- An error of an item of a tuple. -/
theorem Error.Blames.place {schemas : List Schema} {items : List Value} {i : Nat}
    (hs : s.kind = .tuple schemas) (ht : schemas[i]? = some t) (hi : items[i]? = some a)
    (h : e.Blames w d t a) : (e.prepend (.index i)).Blames w d s (.array items) := by
  obtain ⟨hd, u, x, hpath, hreason⟩ := Error.blames_iff.1 h
  exact Error.blames_iff.2 ⟨hd, u, x, .place hs ht hi hpath, hreason⟩

/-- An error of an entry. -/
theorem Error.Blames.entry {entries : List (String × Value)} {key : String} (hs : s.kind = .dict t)
    (hkey : (key, a) ∈ entries) (h : e.Blames w d t a) :
    (e.prepend (.key key)).Blames w d s (.object entries) := by
  obtain ⟨hd, u, x, hpath, hreason⟩ := Error.blames_iff.1 h
  exact Error.blames_iff.2 ⟨hd, u, x, .entry hs hkey hpath, hreason⟩

/-- An error of a field. -/
theorem Error.Blames.field {fields : List (String × Schema)} {own : Option UnknownKeys}
    {entries : List (String × Value)} {key : String} (hs : s.kind = .object fields own)
    (hkey : (key, t) ∈ fields) (h : e.Blames w d t ((Entries.find? key entries).getD .null)) :
    (e.prepend (.key key)).Blames w d s (.object entries) := by
  obtain ⟨hd, u, x, hpath, hreason⟩ := Error.blames_iff.1 h
  exact Error.blames_iff.2 ⟨hd, u, x, .field hs hkey hpath, hreason⟩

end

/-! ### Functions that fail in their own words -/

/-- **The function fails in its own words**, whatever it is given and however far the references
that it follows go. -/
def Action.FailsPlainly (w : World) (f : Action) : Prop :=
  ∀ fuel v e w', f.run (machine fuel) v w = .ok (.error e, w') → ∃ text, e = .message text

/-- A function that only computes. -/
theorem Action.compute_failsPlainly {w : World} {f : Value → Except Failure Value}
    (h : ∀ v e, f v = .error e → ∃ text, e = .message text) : (compute f).FailsPlainly w := by
  intro fuel v e w' hrun
  rw [run, pure_apply, Except.ok.injEq, Prod.mk.injEq] at hrun
  exact h v e hrun.1

/-- The functions of both directions fail in their own words. -/
structure Handlers.FailPlainly (w : World) (h : Handlers) : Prop where
  direct : ∀ f, h.parser = some (.direct f) → f.FailsPlainly w
  async : ∀ f, h.parser = some (.async f) → f.body.FailsPlainly w
  serializer : ∀ f, h.serializer = some f → f.FailsPlainly w

/-- **The functions of the kind fail in their own words.** -/
def Kind.FailsPlainly (w : World) : Kind → Prop
  | .custom _ h | .transformed _ (.transform h) | .transformed _ (.preprocess h) => h.FailPlainly w
  | _ => True

/-! ### Results -/

/-- If there is an error, it is as required. -/
def OnError {α : Type} (Q : Error → Prop) : Except Error α → Prop
  | .error e => Q e
  | .ok _ => True

/-- The error of a function in its own words. -/
def IsPlain (d : Direction) (e : Error) : Prop := ∃ text, e = Error.atRoot (.custom text) d

/-- **Functions that fail in their own words do so on the machine**, and nothing that runs on it
depends on what has been compiled. -/
structure Machine.Reports (m : Machine) (W : World → Prop) (w : World) : Prop where
  logs : LeavesLogsOpen W
  deterministic : m.Deterministic W
  plain : ∀ f : Action, f.FailsPlainly w → ∀ d v, Ensures W (f.runAs m d v) (OnError (IsPlain d))

/-- A steady computation ends with something. -/
theorem Steady.ensures {α : Type} {W : World → Prop} {c : Run α} (h : Steady W c) :
    Ensures W c fun _ => True := fun _ _ _ hw hrun => ⟨h.keeps hw hrun, trivial⟩

theorem OnError.mono {α : Type} {Q R : Error → Prop} {r : Except Error α} (h : OnError Q r)
    (hQR : ∀ e, Q e → R e) : OnError R r := by
  cases r with
  | error e => exact hQR e h
  | ok a => trivial

theorem Ensures.onError_mono {α : Type} {W : World → Prop} {Q R : Error → Prop}
    {c : Run (Except Error α)} (h : Ensures W c (OnError Q)) (hQR : ∀ e, Q e → R e) :
    Ensures W c (OnError R) := h.mono fun _ hr => hr.mono hQR

/-- What follows a computation whose errors are as required. -/
theorem OnError.bind {α β : Type} {W : World → Prop} {Q R : Error → Prop} {c : Run (Except Error α)}
    {f : Except Error α → Run (Except Error β)} (hc : Ensures W c (OnError Q))
    (he : ∀ e, Q e → Ensures W (f (.error e)) (OnError R))
    (ha : ∀ a, Ensures W (f (.ok a)) (OnError R)) : Ensures W (c >>= f) (OnError R) := by
  refine Ensures.bind hc fun r hr => ?_
  cases r with
  | error e => exact he e hr
  | ok a => exact ha a

theorem IsPlain.blames {w : World} {d : Direction} {s : Schema} {v : Value} {e : Error}
    (h : IsPlain d e) : e.Blames w d s v := by
  obtain ⟨text, rfl⟩ := h
  exact .atRoot trivial

/-- **Functions keep to their own words in all worlds ahead**, with any fuel. -/
theorem World.Sound.machine_reports {w₀ : World} {nodes : List Schema} (h : w₀.Sound nodes)
    (fuel : Nat) : (machine fuel).Reports (w₀.Later nodes) w₀ where
  logs := w₀.later_leavesLogsOpen nodes
  deterministic := h.machine_deterministic fuel
  plain := by
    intro f hf d v
    have hsteady := f.run_steady (w₀.later_leavesLogsOpen nodes) (h.machine_deterministic fuel) v
    -- an error in some world ahead is an error now
    have hrun : Ensures (w₀.Later nodes) (f.run (machine fuel) v) fun r =>
        ∀ e, r = .error e → ∃ text, e = .message text := by
      intro w r w' hw hrun
      refine ⟨hsteady.keeps hw hrun, ?_⟩
      rintro e rfl
      obtain ⟨w₁, -, hnow⟩ := hsteady w _ w' hw hrun w₀ h.later
      exact hf fuel v e w₁ hnow
    refine hrun.bind fun r hr => ?_
    cases r with
    | ok a => exact .pure trivial
    | error e =>
        obtain ⟨text, rfl⟩ := hr e rfl
        exact .pure ⟨text, rfl⟩

end Schemata
