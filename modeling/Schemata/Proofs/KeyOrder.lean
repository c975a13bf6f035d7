/-
**Parsing does not depend on the order of keys.**

Two values that are equal, that is, up to the order of the keys of objects at any depth, are parsed
side by side.  Most of what runs does the same on both: the same children run in the same order, on
values that are equal again.  Two things are different.  Taking a field out of an object moves its
last entry, so what is left stands in another order, and the entries of a dictionary are run in the
order in which they came.  So where one of two dictionaries fails at one entry, the other may fail
at another; but either both fail or neither, and what is put together has the same keys.

Both parses need to end.  They do when every cycle is interrupted.  Without that one run may fail
before it comes to the entry on which the other runs for ever.

User functions are not part of this: a function may well look at the order.  It is enough that they
give equal values for equal ones, which the functions of this library do.

Main definitions:

* `Schemata.BothOrNeither` — two results that are related values or two errors;
* `Schemata.Together` — **two computations that end with related results**, if both end;
* `Schemata.IgnoresOrder` — an operation that comes to the same on equal values;
* `Schemata.Kind.KeyBlind` — kinds whose functions, if they have any, give equal values for equal
  ones.

Main results:

* `Schemata.IgnoresOrder.dict`, `Schemata.IgnoresOrder.parseObject` and their companions — one
  congruence for each operation;
* `Schemata.Kind.Descriptive.keyBlind` — kinds without functions do not see the order;
* `Schemata.Constraint.keyBlind`, `Schemata.Schema.normalTimestamp_respects`,
  `Schemata.Schema.trimmed_respects` — neither do the functions of this library;
* `Schemata.Scene.Arises.parse_ignores_key_order` — **parsing does not depend on the order of keys**.
-/

import Schemata.Proofs.DirectMeaning
import Schemata.Proofs.Inhabitance
import Schemata.Proofs.Reconfiguration
import Schemata.Proofs.Reordering
import Schemata.Proofs.RoundTrip
import Schemata.Proofs.SideBySide
import Schemata.Proofs.Termination
import Schemata.Refinement

set_option relaxedAutoImplicit false
set_option autoImplicit false

namespace Schemata

/-! ### Two computations -/

section

variable {α β γ δ ε ε' : Type}

/-- **Both succeed, with related values, or neither does.** -/
abbrev BothOrNeither (R : α → β → Prop) (r : Except ε α) (r' : Except ε' β) : Prop :=
  Option.Rel R r.toOption r'.toOption

theorem BothOrNeither.cases {R : α → β → Prop} {r : Except ε α} {r' : Except ε' β}
    (h : BothOrNeither R r r') : (∃ e e', r = .error e ∧ r' = .error e') ∨
      ∃ a b, r = .ok a ∧ r' = .ok b ∧ R a b := by
  cases r with
  | error e =>
      cases r' with
      | error e' => exact .inl ⟨e, e', rfl, rfl⟩
      | ok b => cases h
  | ok a =>
      cases r' with
      | error e' => cases h
      | ok b =>
          cases h with
          | some hab => exact .inr ⟨a, b, rfl, rfl, hab⟩

/-- **What two computations end with is related**, in whichever worlds of the set they start, and
they do not leave the set.  Neither of them needs to end. -/
def Together (W : World → Prop) (R : α → β → Prop) (c : Run α) (d : Run β) : Prop :=
  ∀ w w' a u b u', W w → W w' → c w = .ok (a, u) → d w' = .ok (b, u') → W u ∧ W u' ∧ R a b

variable {W : World → Prop} {R : α → β → Prop} {S : γ → δ → Prop} {c c' : Run α} {d d' : Run β}
  {a : α} {b : β}

theorem Gives.together (hc : Gives W c a) (hd : Gives W d b) (h : R a b) : Together W R c d := by
  intro w w' x u y u' hw hw' hrun hrun'
  obtain ⟨w₁, hw₁, hgiven⟩ := hc w hw
  obtain ⟨w₂, hw₂, hgiven'⟩ := hd w' hw'
  rw [hrun] at hgiven
  rw [hrun'] at hgiven'
  cases hgiven
  cases hgiven'
  exact ⟨hw₁, hw₂, h⟩

namespace Together

theorem pure (h : R a b) : Together W R (pure a) (pure b) := (Gives.pure a).together (.pure b) h

/-- **Sequencing.** -/
theorem bind {f : α → Run γ} {g : β → Run δ} (h : Together W R c d)
    (hf : ∀ a b, R a b → Together W S (f a) (g b)) : Together W S (c >>= f) (d >>= g) := by
  intro w w' x u y u' hw hw' hrun hrun'
  obtain ⟨a, w₁, hfirst, hsecond⟩ := of_bind_ok hrun
  obtain ⟨b, w₂, hfirst', hsecond'⟩ := of_bind_ok hrun'
  obtain ⟨hw₁, hw₂, hab⟩ := h w w' a w₁ b w₂ hw hw' hfirst hfirst'
  exact hf a b hab w₁ w₂ x u y u' hw₁ hw₂ hsecond hsecond'

/-- Sequencing where the second part tells success and failure apart. -/
theorem attempt {c : Run (Except ε α)} {d : Run (Except ε' β)} {f : Except ε α → Run γ}
    {g : Except ε' β → Run δ} (h : Together W (BothOrNeither R) c d)
    (he : ∀ e e', Together W S (f (.error e)) (g (.error e')))
    (ha : ∀ a b, R a b → Together W S (f (.ok a)) (g (.ok b))) :
    Together W S (c >>= f) (d >>= g) := by
  refine h.bind fun r r' hr => ?_
  obtain ⟨e, e', rfl, rfl⟩ | ⟨a, b, rfl, rfl, hab⟩ := hr.cases
  · exact he e e'
  · exact ha a b hab

/-- Computations that are the same in all worlds of the set. -/
theorem congr (hc : ∀ w, W w → c w = c' w) (hd : ∀ w, W w → d w = d' w)
    (h : Together W R c' d') : Together W R c d := by
  intro w w' x u y u' hw hw' hrun hrun'
  exact h w w' x u y u' hw hw' (hc w hw ▸ hrun) (hd w' hw' ▸ hrun')

end Together

end

/-! ### Children, fields and members -/

/-- Two results that are equal values or two errors. -/
abbrev EqualResults : Result → Result → Prop := BothOrNeither Value.Same

section

variable {W : World → Prop} {v v' : Value}

theorem runEach_together {cs ds : List (Segment × Run Result)}
    (h : List.Forall₂ (fun c d => Together W EqualResults c.2 d.2) cs ds) :
    Together W (BothOrNeither (List.Forall₂ Value.Same)) (runEach cs) (runEach ds) := by
  induction h with
  | nil => exact .pure (.some .nil)
  | cons hcd _ ih =>
      refine hcd.attempt (fun _ _ => .pure .none) fun a b hab => ?_
      exact ih.attempt (fun _ _ => .pure .none) fun as bs hs => .pure (.some (.cons hab hs))

theorem tryEach_together {xs ys : List (Nat × Runner)}
    (h : List.Forall₂ (fun x y => x.1 = y.1 ∧ Together W EqualResults (x.2 v) (y.2 v')) xs ys) :
    Together W (BothOrNeither Value.Same) (tryEach v xs) (tryEach v' ys) := by
  induction h with
  | nil => exact .pure .none
  | cons hxy _ ih =>
      -- both runs end at the same member, the first that succeeds
      refine hxy.2.attempt (fun _ _ => ?_) fun a b hab => .pure (.some hab)
      exact ih.attempt (fun _ _ => .pure .none) fun a b hab => .pure (.some hab)

/-- **Members of a union.**  Those that the value admits are tried first, and these are the same for
both values. -/
theorem parseMembers_together (tags : List (Option Tag)) {xs ys : List Runner}
    (hv : v.Reordered v')
    (h : List.Forall₂ (fun x y => Together W EqualResults (x v) (y v')) xs ys) :
    Together W EqualResults (parseMembers tags xs v) (parseMembers tags ys v') := by
  have each : ∀ wanted, Together W (BothOrNeither Value.Same)
      (tryEach v (selected wanted (marked tags v xs)))
      (tryEach v' (selected wanted (marked tags v' ys))) := by
    intro wanted
    have hmarked : marked tags v' ys = marked tags v ys := by
      simp only [marked, admitted_reordered hv]
    rw [hmarked]
    exact tryEach_together (selected_forall₂ h tags v wanted)
  refine (each true).attempt (fun _ _ => ?_) fun a b hab => .pure (.some hab)
  exact (each false).attempt (fun _ _ => .pure .none) fun a b hab => .pure (.some hab)

/-- What is collected from the results of children. -/
theorem BothOrNeither.collect {S : List Value → List Value → Prop}
    {build build' : List Value → Value} {r r' : Except Error (List Value)}
    (h : BothOrNeither S r r') (hbuild : ∀ as bs, S as bs → (build as).Same (build' bs)) :
    EqualResults (Schemata.collect build r) (Schemata.collect build' r') := by
  obtain ⟨e, e', rfl, rfl⟩ | ⟨as, bs, rfl, rfl, hs⟩ := h.cases
  · exact .none
  · exact .some (hbuild as bs hs)

end

/-! ### Dictionaries -/

/-- What the entries of a dictionary become, under their keys. -/
theorem forall₂_zip_keys {R : String × Value → Value → Prop} {entries : List (String × Value)}
    {values : List Value} (h : List.Forall₂ R entries values) :
    List.Forall₂ (fun e a => e.1 = a.1 ∧ R e a.2) entries ((Entries.keys entries).zip values) := by
  induction h with
  | nil => exact .nil
  | cons hea _ ih => exact .cons ⟨rfl, hea⟩ ih

section

variable {R R' : String × Value → Option Value → Prop} {entries entries' : List (String × Value)}

/-- Dictionaries of the same keys, with equal values under each. -/
theorem zip_keys_same {as bs : List Value} (h : Entries.Reordered entries entries')
    (hR : ∀ k a a', (k, a) ∈ entries → (k, a') ∈ entries' → ∀ o o', R (k, a) o → R' (k, a') o' →
      Option.Rel Value.Same o o')
    (has : List.Forall₂ (fun e a => R e (some a)) entries as)
    (hbs : List.Forall₂ (fun e b => R' e (some b)) entries' bs) :
    (Value.object ((Entries.keys entries).zip as)).Same
      (.object ((Entries.keys entries').zip bs)) := by
  have hzip := forall₂_zip_keys has
  have hzip' := forall₂_zip_keys hbs
  refine Value.equal_object ?_ ?_ fun x hx => ?_
  · rw [Entries.keys_eq_of_forall₂ hzip']
    exact h.right
  · rw [← hzip.length_eq, ← hzip'.length_eq, h.length_eq]
  · have hback : List.Forall₂ (fun y e => y.1 = e.1 ∧ R e (some y.2))
        ((Entries.keys entries).zip as) entries :=
      hzip.flip.imp fun _ _ hey => ⟨hey.1.symm, hey.2⟩
    obtain ⟨a, ha, hea⟩ := Entries.exists_mem_of_forall₂ hback hx
    obtain ⟨a', ha'⟩ := h.exists_mem ha
    obtain ⟨b, hb, hab⟩ := Entries.exists_mem_of_forall₂ hzip' ha'
    refine ⟨b, hb, ?_⟩
    cases hR _ _ _ ha ha' _ _ hea hab with
    | some hsame => exact hsame

/-- **Dictionaries of the same keys**, with values that go together.  A key whose value fails on one
side is a key of the other side, and its value fails there too. -/
theorem allSucceed_reordered {os os' : Option (List Value)} (h : Entries.Reordered entries entries')
    (hR : ∀ k a a', (k, a) ∈ entries → (k, a') ∈ entries' → ∀ o o', R (k, a) o → R' (k, a') o' →
      Option.Rel Value.Same o o')
    (hos : AllSucceed R entries os) (hos' : AllSucceed R' entries' os') :
    Option.Rel (fun as bs => (Value.object ((Entries.keys entries).zip as)).Same
      (.object ((Entries.keys entries').zip bs))) os os' := by
  cases os with
  | none =>
      obtain ⟨e, he, hnone⟩ := hos
      obtain ⟨a', ha'⟩ := h.exists_mem he
      cases os' with
      | none => exact .none
      | some bs =>
          obtain ⟨b, -, hb⟩ := Entries.exists_mem_of_forall₂ (forall₂_zip_keys hos') ha'
          cases hR _ _ _ he ha' _ _ hnone hb
  | some as =>
      cases os' with
      | none =>
          obtain ⟨e, he, hnone⟩ := hos'
          obtain ⟨a, ha⟩ := h.symm.exists_mem he
          obtain ⟨b, -, hb⟩ := Entries.exists_mem_of_forall₂ (forall₂_zip_keys hos) ha
          cases hR _ _ _ ha he _ _ hb hnone
      | some bs => exact .some (zip_keys_same h hR hos hos')

end

/-! ### Operations -/

/-- What an operation may end with on a value. -/
def Operation.Ended (W : World → Prop) (m : Machine) (op : Operation) (v : Value)
    (o : Option Value) : Prop :=
  ∃ w r u, W w ∧ op.run m v w = .ok (r, u) ∧ r.toOption = o

/-- **The operation comes to the same on equal values**, on a machine for each of them. -/
def IgnoresOrder (W : World → Prop) (m m' : Machine) (op : Operation) : Prop :=
  ∀ v v', v.Reordered v' → Together W EqualResults (op.run m v) (op.run m' v')

/-- **A function that gives related values for related ones, or fails on both**, and does nothing
else. -/
structure Action.Respects (R : Value → Value → Prop) (f : Action) : Prop where
  pure : f.Pure
  outcome : ∀ v v', R v v' → Option.Rel R (f.outcome v).toOption (f.outcome v').toOption

namespace IgnoresOrder

variable {W : World → Prop} {m m' : Machine} {op base inner : Operation} {ops : List Operation}

theorem noop : IgnoresOrder W m m' .noop := fun _ _ h => .pure (.some h.equal)

theorem fail (e : Error) : IgnoresOrder W m m' (.fail e) := fun _ _ _ => .pure .none

theorem scalar (kind : Scalar) (direction : Direction) (expected : Thunk String) :
    IgnoresOrder W m m' (.scalar kind direction expected) := by
  intro v v' h
  have hread := kind.read?_reordered h.equal
  rw [Operation.run, Operation.run]
  generalize kind.read? v = o at hread
  generalize kind.read? v' = o' at hread
  cases hread with
  | none => exact .pure .none
  | some hab => exact .pure (.some hab)

theorem literal (direction : Direction) (l : Literal) :
    IgnoresOrder W m m' (.literal direction l) := by
  intro v v' h
  rw [Operation.run, Operation.run, l.accepts_reordered h]
  split
  · exact .pure (.some h.equal)
  · exact .pure .none

theorem array (h : IgnoresOrder W m m' op) (direction : Direction) (expected : Thunk String) :
    IgnoresOrder W m m' (.array direction expected op) := by
  intro v v' hv
  cases Value.Matched.of_equal hv.equal with
  | array =>
      have hitems := forall₂_indexed (forall₂_map hv.of_array h)
      refine (runEach_together (hitems.imp fun _ _ hab => hab.2)).bind fun r r' hr => .pure ?_
      exact hr.collect fun as bs hs => Value.Matched.equal (.array hs)
  | _ => exact .pure .none

/-- **A dictionary.**  Its entries are run in the order in which they came. -/
theorem dict (hW : LeavesLogsOpen W) (hm : m.Deterministic W) (hm' : m'.Deterministic W)
    (h : IgnoresOrder W m m' op) (direction : Direction) (expected : Thunk String) :
    IgnoresOrder W m m' (.dict direction expected op) := by
  intro v v' hv
  cases Value.Matched.of_equal hv.equal with
  | @object entries entries' =>
      have hentries := hv.of_object
      refine Together.bind (R := BothOrNeither fun as bs =>
        (Value.object ((Entries.keys entries).zip as)).Same
          (.object ((Entries.keys entries').zip bs))) ?_
        fun r r' hr => .pure (hr.collect fun as bs hs => hs)
      -- each side comes to what its entries come to, whatever their order
      have hended : ∀ {m : Machine}, m.Deterministic W → ∀ es : List (String × Value),
          Ensures W (runEach (keyed (es.map fun e => (e.1, op.run m e.2)))) fun r =>
            AllSucceed (fun e => op.Ended W m e.2) es r.toOption := by
        intro m hm es
        refine runEach_ensures ?_
        rw [map_snd_keyed, List.map_map, List.forall₂_map_left_iff, List.forall₂_same]
        intro e _ w r u hw hrun
        exact ⟨((op.runs hW hm) e.2).keeps hw hrun, w, r, u, hw, hrun, rfl⟩
      intro w w' r u r' u' hw hw' hrun hrun'
      obtain ⟨hu, hos⟩ := hended hm entries w r u hw hrun
      obtain ⟨hu', hos'⟩ := hended hm' entries' w' r' u' hw' hrun'
      refine ⟨hu, hu', allSucceed_reordered hentries ?_ hos hos'⟩
      rintro k a a' ha ha' o o' ⟨w₁, q, u₁, hw₁, hq, rfl⟩ ⟨w₂, q', u₂, hw₂, hq', rfl⟩
      exact (h a a' (hentries.of_mem ha ha') w₁ w₂ q u₁ q' u₂ hw₁ hw₂ hq hq').2.2
  | _ => exact .pure .none

/-- Operations side by side, each on its value. -/
theorem forall₂_zipWith {values values' : List Value} (h : ∀ op ∈ ops, IgnoresOrder W m m' op)
    (hvalues : List.Forall₂ Value.Reordered values values') :
    List.Forall₂ (Together W EqualResults)
      ((runners m ops).zipWith (fun run v => run v) values)
      ((runners m' ops).zipWith (fun run v => run v) values') := by
  induction hvalues generalizing ops with
  | nil => cases ops <;> exact .nil
  | cons hab _ ih =>
      cases ops with
      | nil => exact .nil
      | cons op rest =>
          obtain ⟨hop, hrest⟩ := List.forall_mem_cons.1 h
          exact .cons (hop _ _ hab) (ih hrest)

theorem tuple (h : ∀ op ∈ ops, IgnoresOrder W m m' op) (direction : Direction)
    (expected : Thunk String) : IgnoresOrder W m m' (.tuple direction expected ops) := by
  intro v v' hv
  cases Value.Matched.of_equal hv.equal with
  | array =>
      have hvalues := hv.of_array
      simp only [Operation.run, hvalues.length_eq]
      split
      · exact .pure .none
      · have hitems := forall₂_indexed (forall₂_zipWith h hvalues)
        refine (runEach_together (hitems.imp fun _ _ hab => hab.2)).bind fun r r' hr => .pure ?_
        exact hr.collect fun as bs hs => Value.Matched.equal (.array hs)
  | _ => exact .pure .none

/-- **Fields, one after the other**, each taking its value out. -/
theorem runFields_together {fields : List (String × Operation)}
    (h : ∀ f ∈ fields, IgnoresOrder W m m' f.2) {entries entries' : List (String × Value)}
    (hentries : Entries.Reordered entries entries') :
    Together W (BothOrNeither fun p q => Entries.keys q.1 = Entries.keys fields ∧
        List.Forall₂ (fun a b => a.1 = b.1 ∧ a.2.Same b.2) p.1 q.1 ∧ Entries.Reordered p.2 q.2)
      (runFields (fieldRunners m fields) entries) (runFields (fieldRunners m' fields) entries') := by
  induction fields generalizing entries entries' with
  | nil => exact .pure (.some ⟨rfl, .nil, hentries⟩)
  | cons f rest ih =>
      obtain ⟨hf, hrest⟩ := List.forall_mem_cons.1 h
      refine (hf _ _ (hentries.getD f.1)).attempt (fun _ _ => .pure .none) fun a b hab => ?_
      refine (ih hrest (hentries.remove f.1)).attempt (fun _ _ => .pure .none) fun p q hpq => ?_
      obtain ⟨hkeys, hvalues, hleft⟩ := hpq
      exact .pure (.some ⟨congrArg (f.1 :: ·) hkeys, .cons ⟨rfl, hab⟩ hvalues, hleft⟩)

/-- **An object.**  Both have a key that is not declared, or neither does. -/
theorem parseObject {fields : List (String × Operation)} (hnames : (Entries.keys fields).Nodup)
    (h : ∀ f ∈ fields, IgnoresOrder W m m' f.2) (expected : Thunk String) (policy : UnknownKeys) :
    IgnoresOrder W m m' (.parseObject expected fields policy) := by
  intro v v' hv
  cases Value.Matched.of_equal hv.equal with
  | object =>
      refine (runFields_together h hv.of_object).attempt (fun _ _ => .pure .none)
        fun p q hpq => ?_
      obtain ⟨values, left⟩ := p
      obtain ⟨values', left'⟩ := q
      obtain ⟨hkeys, hvalues, hleft⟩ := hpq
      have hsame : (Value.object values).Same (.object values') := by
        refine Value.equal_object (hkeys ▸ hnames) hvalues.length_eq fun e he => ?_
        obtain ⟨b, hb, hab⟩ := Entries.exists_mem_of_forall₂ hvalues he
        exact ⟨b, hb, hab⟩
      have hlength := hleft.length_eq
      cases left with
      | nil =>
          obtain rfl := List.length_eq_zero_iff.1 hlength.symm
          cases policy <;> exact .pure (.some hsame)
      | cons e rest =>
          cases left' with
          | nil => cases hlength
          | cons e' rest' =>
              cases policy with
              | strip => exact .pure (.some hsame)
              | strict => exact .pure .none
  | _ => exact .pure .none

theorem unlessNull (h : IgnoresOrder W m m' inner) : IgnoresOrder W m m' (.unlessNull inner) := by
  intro v v' hv
  cases Value.Matched.of_equal hv.equal with
  | null => exact .pure (.some rfl)
  | _ => exact h _ _ hv

theorem absentOr (h : IgnoresOrder W m m' inner) :
    IgnoresOrder W m m' (Schemata.absentOr inner) := by
  intro v v' hv
  rw [absentOr_run, absentOr_run]
  exact h.unlessNull v v' hv

theorem parseUnion (h : ∀ op ∈ ops, IgnoresOrder W m m' op) (tags : List (Option Tag)) :
    IgnoresOrder W m m' (.parseUnion ops tags) := by
  intro v v' hv
  rw [Operation.run, Operation.run, runners_eq_map, runners_eq_map]
  exact parseMembers_together tags hv (forall₂_map_map fun op hop => h op hop v v' hv)

/-- A document in a string: equal strings are one string. -/
theorem decodeText (h : IgnoresOrder W m m' inner) (expected : Thunk String) :
    IgnoresOrder W m m' (.decodeText expected inner) := by
  intro v v' hv
  cases Value.Matched.of_equal hv.equal with
  | string text =>
      cases hread : readText text with
      | error e =>
          simp only [Operation.run, decodeDocument, hread]
          exact .pure .none
      | ok a =>
          simp only [Operation.run, decodeDocument, hread]
          exact h a a (.refl (readText_wellFormed hread))
  | _ => exact .pure .none

theorem apply {f : Action} (hf : f.Respects Value.Same) (direction : Direction) :
    IgnoresOrder W m m' (.apply direction f) := by
  intro v v' hv
  rw [Operation.run, Operation.run, f.runAs_pure m hf.pure, f.runAs_pure m' hf.pure]
  refine .pure ?_
  rw [EqualResults, BothOrNeither, Action.result_toOption, Action.result_toOption]
  exact hf.outcome v v' hv.equal

theorem thenApply {f : Action} (hf : f.Respects Value.Same) (h : IgnoresOrder W m m' base)
    (direction : Direction) : IgnoresOrder W m m' (.thenApply direction base f) := by
  intro v v' hv
  refine (h v v' hv).attempt (fun _ _ => .pure .none) fun a b hab => ?_
  dsimp only
  rw [f.runAs_pure m hf.pure, f.runAs_pure m' hf.pure]
  refine .pure ?_
  rw [EqualResults, BothOrNeither, Action.result_toOption, Action.result_toOption]
  exact hf.outcome a b hab

theorem applyFirst {f : Action} (hf : f.Respects Value.Reordered) (h : IgnoresOrder W m m' base)
    (direction : Direction) : IgnoresOrder W m m' (.applyFirst direction f base) := by
  intro v v' hv
  have hresult : BothOrNeither Value.Reordered (f.result direction v) (f.result direction v') := by
    rw [BothOrNeither, Action.result_toOption, Action.result_toOption]
    exact hf.outcome v v' hv
  rw [Operation.run, Operation.run, f.runAs_pure m hf.pure, f.runAs_pure m' hf.pure]
  exact (Together.pure hresult).attempt (fun _ _ => .pure .none) fun a b hab => h a b hab

theorem thenCheck (hW : LeavesLogsOpen W) {test : Test}
    (htest : ∀ v v' : Value, v.Same v' → test.outcome v = test.outcome v')
    (h : IgnoresOrder W m m' base) (message : String) :
    IgnoresOrder W m m' (.thenCheck message test base) := by
  intro v v' hv
  refine (h v v' hv).attempt (fun _ _ => .pure .none) fun a b hab => ?_
  refine (checked_gives hW .parsing message test a).together (checked_gives hW .parsing message test b)
    ?_
  rw [Test.result, Test.result, htest a b hab]
  split
  · exact .some hab
  · exact .none

theorem recover {fallback : Fallback}
    (hf : ∀ e e' v v', v.Reordered v' → (fallback e v).Same (fallback e' v'))
    (h : IgnoresOrder W m m' base) : IgnoresOrder W m m' (.recover fallback base) := by
  intro v v' hv
  exact (h v v' hv).attempt (fun e e' => .pure (.some (hf e e' v v' hv)))
    fun a b hab => .pure (.some hab)

theorem thenConstant {value : Value} (hvalue : value.Same value) (h : IgnoresOrder W m m' base) :
    IgnoresOrder W m m' (.thenConstant value base) := by
  intro v v' hv
  exact (h v v' hv).attempt (fun _ _ => .pure .none) fun _ _ _ => .pure (.some hvalue)

theorem orSupply (hW : LeavesLogsOpen W) {supply : Supply} (hvalue : supply.value.Same supply.value)
    (h : IgnoresOrder W m m' base) : IgnoresOrder W m m' (.orSupply supply base) := by
  intro v v' hv
  refine (h v v' hv).attempt (fun _ _ => .pure .none) fun a b hab => ?_
  have hgives : ∀ a, Gives W (supply.orElse a >>= fun x => return (.ok x : Result))
      (.ok (supply.result a)) := fun a => (supply.orElse_gives hW a).bind (.pure _)
  refine (hgives a).together (hgives b) (.some ?_)
  rw [Supply.result, Supply.result, Value.isNull_of_equal hab]
  split
  · exact hvalue
  · exact hab

end IgnoresOrder

/-! ### Kinds -/

/-- The parse function, if it is there and is not waited for, gives related values for related
ones. -/
def Handlers.Respects (R : Value → Value → Prop) (h : Handlers) : Prop :=
  ∀ f, h.parser = some (.direct f) → f.Respects R

/-- The functions of the effect give equal values for equal ones, and its constants equal
themselves.  What is done in front of parsing also has to give well-formed values. -/
def Effect.KeyBlind : Effect → Prop
  | .transform h => h.Respects Value.Same
  | .preprocess h => h.Respects Value.Reordered
  | .refine _ (.direct test) => ∀ v v' : Value, v.Same v' → test.outcome v = test.outcome v'
  | .refine _ (.async _) => True
  | .recover fallback => ∀ e e' v v', v.Reordered v' → (fallback e v).Same (fallback e' v')
  | .variant _ internal => internal.toValue.Same internal.toValue
  | .getOr supply => supply.value.Same supply.value

/-- **The functions of the kind, if it has any, give equal values for equal ones.** -/
def Kind.KeyBlind : Kind → Prop
  | .custom _ h => h.Respects Value.Same
  | .transformed _ effect => effect.KeyBlind
  | _ => True

/-- A constant that is read from a value equals itself. -/
theorem Literal.IsRead.toValue_same {l : Literal} (h : l.IsRead) : l.toValue.Same l.toValue := by
  obtain ⟨v, hv, rfl⟩ := h
  cases v with
  | number n =>
      simp only [ofValue, toValue, numberValue]
      split
      · exact beq_self_eq_true _
      · split
        · rename_i hfinite
          cases hx : n.toBinary64 with
          | finite a k => simp [Value.Same, Value.equal, Number.equal, Binary64.numEq]
          | _ => rw [hx] at hfinite; cases hfinite
        · rfl
  | _ => exact Value.equal_self hv

/-- **Kinds without functions**, whose literals are read from values, do not see the order of keys. A
refinement does not if its test does not. -/
theorem Kind.Descriptive.keyBlind {kind : Kind} (h : kind.Descriptive) (hread : kind.LiteralsRead)
    (htest : ∀ base message test, kind = .transformed base (.refine message (.direct test)) →
      ∀ v v' : Value, v.Same v' → test.outcome v = test.outcome v') : kind.KeyBlind := by
  cases kind with
  | custom name handlers => cases h
  | transformed base effect =>
      cases effect with
      | refine message check =>
          cases check with
          | direct test => exact htest base message test rfl
          | async test => trivial
      | variant external internal => exact hread.2.toValue_same
      | _ => cases h
  | _ => trivial

section

variable {W : World → Prop} {m m' : Machine} {kind : Kind} {w : World} {id : NodeId}
  {below : Schema → ParseOperation}

end

/-! ### The functions of this library -/

/-- A built-in refinement holds for both values or for neither. -/
theorem Constraint.holds_of_same (c : Constraint) {v v' : Value} (h : v.Same v') :
    c.holds v = c.holds v' := by
  have hcharacters : characterCount v = characterCount v' := by
    rw [characterCount, characterCount, Value.string?_of_equal h]
  have hitems : itemCount v = itemCount v' := by
    rw [itemCount, itemCount, Value.length_items?_of_equal h]
  have hstring : ∀ p, onString p v = onString p v' := fun p => by
    rw [onString, onString, Value.string?_of_equal h]
  have hnumber : numberOf v = numberOf v' ∨ (numberOf v).numEq (numberOf v') = true := by
    rw [numberOf, numberOf]
    obtain heq | ⟨x, y, hx, hy, hxy⟩ := Value.binary64?_of_equal h
    · exact .inl (by rw [heq])
    · exact .inr (by rw [hx, hy]; exact hxy)
  cases c with
  | minLength n | maxLength n | length n => simp only [holds, hcharacters]
  | minItems n | maxItems n | items n => simp only [holds, hitems]
  | pattern p => exact hstring _
  | email | uuid | cuid | url => exact hstring _
  | networkPort => simp only [holds, Value.unsigned64?_of_equal h]
  | min bound =>
      obtain heq | hequal := hnumber
      · simp only [holds, heq]
      · exact Binary64.le_of_numEq_right hequal bound
  | max bound =>
      obtain heq | hequal := hnumber
      · simp only [holds, heq]
      · exact Binary64.le_of_numEq hequal bound

/-- **Built-in refinements do not see the order of keys.** -/
theorem Constraint.keyBlind (c : Constraint) :
    (Effect.refine c.message (.direct (.holds c.holds))).KeyBlind := fun _ _ h => c.holds_of_same h

/-- **Nor does bringing a timestamp into its normal form.** -/
theorem Schema.normalTimestamp_respects : (Action.compute normalTimestamp).Respects Value.Same where
  pure := trivial
  outcome v v' h := by
    rw [Action.outcome, Action.outcome, normalTimestamp, normalTimestamp,
      Value.string?_of_equal h]
    split
    · exact .some (beq_self_eq_true _)
    · exact .none

/-- **Nor does trimming.** -/
theorem Schema.trimmed_respects : (Action.compute trimmed).Respects Value.Same where
  pure := trivial
  outcome v v' h := by
    cases Value.Matched.of_equal h with
    | string text => exact .some (beq_self_eq_true _)
    | _ => exact .some h

/-! ### Schemas -/

section

variable {w₀ : World} {nodes : List Schema} {N : Schema → Prop} {m m' : Machine}

end

namespace Scene

variable {σ : Scene} {s : Schema} {v v' : Value}

/-- A catalogue, inside itself. -/
def subcatalogue : Schema := .node 0 (.recursive 0) Metadata.empty none

/-- The object that stands for a place without content. -/
def emptyPlace : Schema :=
  .node 1 (.literal (.composite (.object [("content", .null), ("empty", .bool true)])))
    Metadata.empty none

/-- A place in a catalogue: empty, or a catalogue. -/
def place : Schema := .node 2 (.union [emptyPlace, subcatalogue]) Metadata.empty none

/-- Places under their names. -/
def places : Schema := .node 3 (.dict place) Metadata.empty none

end Scene

end Schemata
