/-
**Computations side by side.**

What a shortcut changes is seen by running the operation that takes it next to one that does not, on
the same value.  Two computations match when both end, with related results, or neither of them
ends.  Results of operations are related in two ways: both are the same value, or they are the same
value or both errors, whatever the errors say.  The first is what the parts of a typed value need,
since a composite goes on only after a success.  The second is enough for the members of a union
that are tried before its own.

Main definitions:

* `Schemata.ending` — what a computation ends with;
* `Schemata.Matches` — **two computations that end together**;
* `Schemata.Succeed`, `Schemata.Agree` — the same value, and the same value or two errors.

Main results:

* `Schemata.Matches.bind` — matching computations in sequence;
* `Schemata.Matches.array` and its companions — composites match where their parts do;
* `Schemata.serializeMembers_matches` — so does a union, if the members before its own agree.
-/

import Schemata.Proofs.Children
import Schemata.Proofs.Determinism

set_option relaxedAutoImplicit false
set_option autoImplicit false

namespace Schemata

/-! ### Two computations -/

/-- What the computation ends with, if it ends. -/
def ending {α : Type} (c : Run α) (w : World) : Option α :=
  match c w with
  | .ok (a, _) => some a
  | .error _ => none

/-- **The two computations end together**, in worlds of the set, and with related results; or
neither of them ends. -/
def Matches {α β : Type} (W : World → Prop) (R : α → β → Prop) (c : Run α) (d : Run β) : Prop :=
  ∀ w w', W w → W w' →
    (∃ a u b u', c w = .ok (a, u) ∧ d w' = .ok (b, u') ∧ W u ∧ W u' ∧ R a b) ∨
      (ending c w = none ∧ ending d w' = none)

section

variable {α β γ δ : Type} {W : World → Prop} {R : α → β → Prop} {S : γ → δ → Prop}
  {c c' : Run α} {d d' : Run β} {a : α} {b : β} {w w' u : World}

theorem ending_of_ok (h : c w = .ok (a, u)) : ending c w = some a := by
  rw [ending, h]

theorem exists_of_ending (h : ending c w = some a) : ∃ u, c w = .ok (a, u) := by
  rw [ending] at h
  split at h
  · rename_i x u hrun
    cases h
    exact ⟨u, hrun⟩
  · cases h

/-- What does not end at first does not end as a whole. -/
theorem ending_bind_none {f : α → Run γ} (h : ending c w = none) : ending (c >>= f) w = none := by
  cases hrun : c w with
  | ok p => rw [ending_of_ok hrun] at h; cases h
  | error e => rw [ending, bind_apply, hrun]

/-- What a first part that ends leaves to end. -/
theorem ending_bind {f : α → Run γ} (h : c w = .ok (a, u)) :
    ending (c >>= f) w = ending (f a) u := by
  rw [ending, bind_ok h, ending]

/-- A steady computation ends with the same in all worlds of the set, if it ends. -/
theorem Steady.ending_eq (hc : Steady W c) (hw : W w) (hw' : W w') : ending c w = ending c w' := by
  have hforth : ∀ v v' a, W v → W v' → ending c v = some a → ending c v' = some a := by
    intro v v' a hv hv' ha
    obtain ⟨u, hrun⟩ := exists_of_ending ha
    obtain ⟨u', -, hrun'⟩ := hc v a u hv hrun v' hv'
    exact ending_of_ok hrun'
  exact Option.ext fun a => ⟨hforth w w' a hw hw', hforth w' w a hw' hw⟩

theorem Gives.matches (hc : Gives W c a) (hd : Gives W d b) (h : R a b) : Matches W R c d := by
  intro w w' hw hw'
  obtain ⟨u, hu, hcrun⟩ := hc w hw
  obtain ⟨u', hu', hdrun⟩ := hd w' hw'
  exact .inl ⟨a, u, b, u', hcrun, hdrun, hu, hu', h⟩

namespace Matches

theorem pure (h : R a b) : Matches W R (pure a) (pure b) := (Gives.pure a).matches (.pure b) h

/-- Two computations that halt. -/
theorem halt (e e' : Halt) : Matches W R (Schemata.halt e) (Schemata.halt e') :=
  fun _ _ _ _ => .inr ⟨rfl, rfl⟩

/-- **Sequencing.** -/
theorem bind {f : α → Run γ} {g : β → Run δ} (h : Matches W R c d)
    (hf : ∀ a b, R a b → Matches W S (f a) (g b)) : Matches W S (c >>= f) (d >>= g) := by
  intro w w' hw hw'
  rcases h w w' hw hw' with ⟨a, u, b, u', hc, hd, hu, hu', hR⟩ | ⟨hc, hd⟩
  · rw [ending, ending, bind_ok hc, bind_ok hd]
    exact hf a b hR u u' hu hu'
  · exact .inr ⟨ending_bind_none hc, ending_bind_none hd⟩

/-- Related results are related in a weaker way, too. -/
theorem mono {R' : α → β → Prop} (h : Matches W R c d) (hR : ∀ a b, R a b → R' a b) :
    Matches W R' c d := by
  intro w w' hw hw'
  rcases h w w' hw hw' with ⟨a, u, b, u', hc, hd, hu, hu', hab⟩ | hnone
  · exact .inl ⟨a, u, b, u', hc, hd, hu, hu', hR a b hab⟩
  · exact .inr hnone

/-- Computations that are the same in all worlds of the set. -/
theorem congr (hc : ∀ w, W w → c w = c' w) (hd : ∀ w, W w → d w = d' w) (h : Matches W R c' d') :
    Matches W R c d := by
  intro w w' hw hw'
  rw [ending, ending, hc w hw, hd w' hw']
  exact h w w' hw hw'

/-- What gives a value may be replaced by what gives the same one. -/
theorem of_gives (h : Matches W R c d) (hc : Gives W c a) (hc' : Gives W c' a) :
    Matches W R c' d := by
  intro w w' hw hw'
  obtain ⟨u, -, hrun⟩ := hc w hw
  obtain ⟨v, hv, hrun'⟩ := hc' w hw
  rcases h w w' hw hw' with ⟨x, u₁, b, u', hx, hd, -, hu', hR⟩ | ⟨hnone, -⟩
  · rw [hrun] at hx
    cases hx
    exact .inl ⟨a, v, b, u', hrun', hd, hv, hu', hR⟩
  · rw [ending_of_ok hrun] at hnone
    cases hnone

/-- What a first part that gives its value leaves to match. -/
theorem bind_left {f : γ → Run α} {x : γ} {e : Run γ} (he : Gives W e x) (h : Matches W R (f x) d) :
    Matches W R (e >>= f) d := by
  intro w w' hw hw'
  obtain ⟨u, hu, hrun⟩ := he w hw
  rw [ending, bind_ok hrun]
  exact h u w' hu hw'

/-- What matches ends with related results in any two worlds of the set. -/
theorem rel (h : Matches W R c d) (hw : W w) (hw' : W w') :
    Option.Rel R (ending c w) (ending d w') := by
  rcases h w w' hw hw' with ⟨a, u, b, u', hc, hd, -, -, hR⟩ | ⟨hc, hd⟩
  · rw [ending_of_ok hc, ending_of_ok hd]
    exact .some hR
  · rw [hc, hd]
    exact .none

/-- **Steady computations match as soon as they do in one world.** -/
theorem of_rel (hc : Steady W c) (hd : Steady W d) (hw : W w)
    (h : Option.Rel R (ending c w) (ending d w)) : Matches W R c d := by
  intro v v' hv hv'
  rw [hc.ending_eq hw hv, hd.ending_eq hw hv'] at h
  rcases hcv : ending c v with _ | a <;> rcases hdv : ending d v' with _ | b <;> rw [hcv, hdv] at h
  · exact .inr ⟨rfl, rfl⟩
  · cases h
  · cases h
  · obtain ⟨u, hrun⟩ := exists_of_ending hcv
    obtain ⟨u', hrun'⟩ := exists_of_ending hdv
    cases h with
    | some hR => exact .inl ⟨a, u, b, u', hrun, hrun', hc.keeps hv hrun, hd.keeps hv' hrun', hR⟩

end Matches

end

/-! ### Results -/

/-- Both results are the same value. -/
def Succeed {ε ε' α : Type} (r : Except ε α) (r' : Except ε' α) : Prop :=
  ∃ a, r = .ok a ∧ r' = .ok a

/-- The results are the same value or two errors. -/
def Agree {ε ε' α : Type} (r : Except ε α) (r' : Except ε' α) : Prop := r.toOption = r'.toOption

theorem Succeed.agree {ε ε' α : Type} {r : Except ε α} {r' : Except ε' α} (h : Succeed r r') :
    Agree r r' := by
  obtain ⟨a, rfl, rfl⟩ := h
  rfl

section

variable {α β γ δ ε : Type} {W : World → Prop} {S : γ → δ → Prop} {w w' : World}

/-- Sequencing after a success. -/
theorem Matches.attempt {c d : Run (Except ε α)} {f : Except ε α → Run γ} {g : Except ε α → Run δ}
    (h : Matches W Succeed c d) (hf : ∀ a, Matches W S (f (.ok a)) (g (.ok a))) :
    Matches W S (c >>= f) (d >>= g) := by
  refine h.bind fun r r' hr => ?_
  obtain ⟨a, rfl, rfl⟩ := hr
  exact hf a

/-- What succeeds side by side ends with the same result, and with no error. -/
theorem Matches.ending_eq {c d : Run (Except ε α)} (h : Matches W Succeed c d) (hw : W w)
    (hw' : W w') : ending c w = ending d w' ∧ ∀ e, ending c w ≠ some (.error e) := by
  have hrel := h.rel hw hw'
  generalize ending c w = r at hrel
  generalize ending d w' = r' at hrel
  cases hrel with
  | none => exact ⟨rfl, fun e he => nomatch he⟩
  | some hr =>
      obtain ⟨a, rfl, rfl⟩ := hr
      exact ⟨rfl, fun e he => nomatch he⟩

/-! ### Children -/

variable {ι : Type}

theorem runEach_matches {segment : ι → Segment} {p q : ι → Run Result} : ∀ {items : List ι},
    (∀ i ∈ items, Matches W Succeed (p i) (q i)) →
      Matches W Succeed (runEach (items.map fun i => (segment i, p i)))
        (runEach (items.map fun i => (segment i, q i)))
  | [], _ => .pure ⟨[], rfl, rfl⟩
  | i :: rest, h => by
      have ih : Matches W Succeed (runEach (rest.map fun i => (segment i, p i)))
          (runEach (rest.map fun i => (segment i, q i))) :=
        runEach_matches fun j hj => h j (List.mem_cons_of_mem _ hj)
      refine (h i (List.mem_cons_self ..)).attempt fun a => ?_
      exact ih.attempt fun vs => .pure ⟨a :: vs, rfl, rfl⟩

theorem runPresentFields_matches {p q : ι → Runner} {entries : List (String × Value)}
    (omitted : List String) : ∀ {fields : List (String × ι)},
      (∀ f ∈ fields, Matches W Succeed (p f.2 ((Entries.find? f.1 entries).getD .null))
        (q f.2 ((Entries.find? f.1 entries).getD .null))) →
      Matches W Succeed
        (runPresentFields omitted (fields.map fun f => (f.1, p f.2)) entries)
        (runPresentFields omitted (fields.map fun f => (f.1, q f.2)) entries)
  | [], _ => .pure ⟨[], rfl, rfl⟩
  | (name, i) :: rest, h => by
      have ih := runPresentFields_matches omitted fun f hf => h f (List.mem_cons_of_mem _ hf)
      simp only [List.map_cons, runPresentFields]
      split
      · exact ih
      · refine (h _ (List.mem_cons_self ..)).attempt fun a => ?_
        exact ih.attempt fun vs => .pure ⟨(name, a) :: vs, rfl, rfl⟩

/-! ### Members of unions -/

/-- Trying members in order comes to the same value, if one succeeds side by side and those before
it agree. -/
theorem tryEach_matches {p q : ι → Runner} {v : Value} {own : Nat × ι} (after : List (Nat × ι))
    (hown : Matches W Succeed (p own.2 v) (q own.2 v)) : ∀ {before : List (Nat × ι)},
      (∀ x ∈ before, Matches W Agree (p x.2 v) (q x.2 v)) →
      Matches W Succeed (tryEach v ((before ++ own :: after).map fun x => (x.1, p x.2)))
        (tryEach v ((before ++ own :: after).map fun x => (x.1, q x.2)))
  | [], _ => hown.attempt fun a => .pure ⟨a, rfl, rfl⟩
  | x :: rest, h => by
      have ih := tryEach_matches after hown fun y hy => h y (List.mem_cons_of_mem _ hy)
      refine (h x (List.mem_cons_self ..)).bind fun r r' hr => ?_
      cases r with
      | ok a =>
          cases r' with
          | ok a' => cases hr; exact .pure ⟨a, rfl, rfl⟩
          | error e => cases hr
      | error e =>
          cases r' with
          | ok a' => cases hr
          | error e' => exact ih.attempt fun a => .pure ⟨a, rfl, rfl⟩

/-- **A union serializes to the same value**, if one of its candidates succeeds side by side and
those before it agree. -/
theorem serializeMembers_matches {p q : ι → Runner} {tag : ι → Option Tag} {v : Value} {own : ι}
    {before after : List ι} (hown : Matches W Succeed (p own v) (q own v))
    (hadmitted : admitted v (tag own) = true)
    (hbefore : ∀ x ∈ before, admitted v (tag x) = true → Matches W Agree (p x v) (q x v)) :
    Matches W Succeed
      (serializeMembers ((before ++ own :: after).map tag) ((before ++ own :: after).map p) v)
      (serializeMembers ((before ++ own :: after).map tag) ((before ++ own :: after).map q) v) := by
  obtain ⟨l, hl, hfilter⟩ := selected_marked true tag (before ++ own :: after) v
  rw [List.filter_append, List.filter_cons_of_pos (by simp [hadmitted])] at hfilter
  obtain ⟨first, rest, rfl, hfirst, hrest⟩ := List.map_eq_append_iff.1 hfilter
  obtain ⟨x, others, rfl, rfl, -⟩ := List.map_eq_cons_iff.1 hrest
  have hagree : ∀ y ∈ first, Matches W Agree (p y.2 v) (q y.2 v) := by
    intro y hy
    have hmem : y.2 ∈ first.map Prod.snd := List.mem_map_of_mem hy
    rw [hfirst] at hmem
    obtain ⟨hmem, hselected⟩ := List.mem_filter.1 hmem
    exact hbefore y.2 hmem (beq_iff_eq.1 hselected)
  have htry := tryEach_matches others hown hagree
  simp only [serializeMembers, hl]
  cases hcandidates : first ++ x :: others with
  | nil => exact absurd hcandidates (by simp)
  | cons y candidates =>
      rw [hcandidates] at htry
      exact htry.attempt fun a => .pure ⟨a, rfl, rfl⟩

end

/-! ### Operations -/

namespace Matches

variable {W : World → Prop} {m m' : Machine} {op op' : Operation} {direction : Direction}
  {expected : Thunk String}

theorem array {items : List Value}
    (h : ∀ a ∈ items, Matches W Succeed (op.run m a) (op'.run m' a)) :
    Matches W Succeed ((Operation.array direction expected op).run m (.array items))
      ((Operation.array direction expected op').run m' (.array items)) := by
  simp only [Operation.run, indexed_map]
  refine (runEach_matches fun c hc => ?_).attempt fun vs => .pure ⟨_, rfl, rfl⟩
  have hmem := List.mem_map_of_mem (f := Prod.snd) hc
  rw [map_snd_indexed] at hmem
  exact h c.2 hmem

theorem dict {entries : List (String × Value)}
    (h : ∀ e ∈ entries, Matches W Succeed (op.run m e.2) (op'.run m' e.2)) :
    Matches W Succeed ((Operation.dict direction expected op).run m (.object entries))
      ((Operation.dict direction expected op').run m' (.object entries)) := by
  simp only [Operation.run, keyed_map (op.run m) entries, keyed_map (op'.run m') entries]
  refine (runEach_matches fun c hc => ?_).attempt fun vs => .pure ⟨_, rfl, rfl⟩
  obtain ⟨e, he, rfl⟩ := List.mem_map.1 hc
  exact h e he

section

variable {schemas : List Schema} {P Q : Schema → Operation}

theorem tuple {items : List Value} (hsize : schemas.length = items.length)
    (h : ∀ x ∈ schemas.zip items, Matches W Succeed ((P x.1).run m x.2) ((Q x.1).run m' x.2)) :
    Matches W Succeed ((Operation.tuple direction expected (schemas.map P)).run m (.array items))
      ((Operation.tuple direction expected (schemas.map Q)).run m' (.array items)) := by
  have hfits : ∀ R : Schema → Operation,
      sizeError? direction (schemas.map R).length items.length = none := by
    intro R
    rw [List.length_map, sizeError?, if_pos hsize]
  have hchildren : ∀ (m : Machine) (R : Schema → Operation),
      ((schemas.map R).zip items).map (fun x => x.1.run m x.2) =
        (schemas.zip items).map fun x => (R x.1).run m x.2 := by
    intro m R
    rw [List.zip_map_left, List.map_map]
    rfl
  simp only [Operation.run, hfits, zipWith_runners, hchildren, indexed_map]
  refine (runEach_matches fun c hc => ?_).attempt fun vs => .pure ⟨_, rfl, rfl⟩
  have hmem := List.mem_map_of_mem (f := Prod.snd) hc
  rw [map_snd_indexed] at hmem
  exact h c.2 hmem

theorem serializeObject {fields : List (String × Schema)} {entries : List (String × Value)}
    {omitted : List String}
    (h : ∀ f ∈ fields, Matches W Succeed
      ((P f.2).run m ((Entries.find? f.1 entries).getD .null))
      ((Q f.2).run m' ((Entries.find? f.1 entries).getD .null))) :
    Matches W Succeed
      ((Operation.serializeObject expected (fields.map fun f => (f.1, P f.2)) omitted).run m
        (.object entries))
      ((Operation.serializeObject expected (fields.map fun f => (f.1, Q f.2)) omitted).run m'
        (.object entries)) := by
  simp only [Operation.run, fieldRunners_map]
  exact (runPresentFields_matches (p := fun s => (P s).run m) (q := fun s => (Q s).run m') omitted
    h).attempt fun vs => .pure ⟨_, rfl, rfl⟩

end

theorem unlessNull {v : Value} (h : v ≠ .null → Matches W Succeed (op.run m v) (op'.run m' v)) :
    Matches W Succeed ((Operation.unlessNull op).run m v)
      ((Operation.unlessNull op').run m' v) := by
  by_cases hnull : v = .null
  · subst hnull
    exact .pure ⟨.null, rfl, rfl⟩
  · rw [unlessNull_run hnull, unlessNull_run hnull]
    exact h hnull

theorem encodeText {v : Value} (h : Matches W Succeed (op.run m v) (op'.run m' v)) :
    Matches W Succeed ((Operation.encodeText op).run m v)
      ((Operation.encodeText op').run m' v) :=
  h.attempt fun a => .pure ⟨.string a.text, rfl, rfl⟩

theorem checkFirst (hW : LeavesLogsOpen W) {v : Value} {message : String} {test : Test}
    (hholds : test.outcome v = true) (h : Matches W Succeed (op.run m v) (op'.run m' v)) :
    Matches W Succeed ((Operation.checkFirst message test op).run m v)
      ((Operation.checkFirst message test op').run m' v) := by
  have hchecked := checked_gives hW .serializing message test v
  rw [Test.result, if_pos hholds] at hchecked
  refine (hchecked.matches hchecked (R := fun r r' => r = .ok v ∧ r' = .ok v) ⟨rfl, rfl⟩).bind ?_
  rintro r r' ⟨rfl, rfl⟩
  exact h

theorem exchange {v external : Value} {internal : Literal} (haccepts : internal.accepts v = true)
    (h : Matches W Succeed (op.run m external) (op'.run m' external)) :
    Matches W Succeed ((Operation.exchange internal external op).run m v)
      ((Operation.exchange internal external op').run m' v) := by
  simp only [Operation.run, if_pos haccepts]
  exact h

end Matches

end Schemata
