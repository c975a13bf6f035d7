/-
**One computation comes to what another one comes to.**

Two graphs that differ in something that should not matter are compared computation by computation.
A computation in the worlds of one graph is *mimicked* by one in the worlds of the other when the
second ends wherever the first does, with a related result.  This is one half of an equivalence; the
other half is the same statement with the sides exchanged.

Operations are compared constructor by constructor.  Those that are put together of operations that
are mimicked are mimicked, with the very same results, errors included.

Main definitions:

* `Schemata.Mimics` — **the second computation comes to what the first one comes to**;
* `Schemata.MachinesAlike` — machines that are compared on the references that may be used;
* `Schemata.RunsLike` — operations that come to the same result on every value.

Main results:

* `Schemata.Mimics.bind` — sequencing;
* `Schemata.parseMembers_mimics`, `Schemata.runFields_mimics` and their companions — children,
  fields and members;
* `Schemata.RunsLike.array` and its companions — one congruence for each operation.
-/

import Mathlib.Data.List.Forall2
import Schemata.Proofs.Determinism

set_option relaxedAutoImplicit false
set_option autoImplicit false

namespace Schemata

/-! ### Computations -/

/-- **The second computation comes to what the first one comes to**, up to a relation.  Neither of
them leaves its set of worlds. -/
def Mimics {α β : Type} (W W' : World → Prop) (R : α → β → Prop) (c : Run α) (d : Run β) : Prop :=
  ∀ w w' a u, W w → W' w' → c w = .ok (a, u) →
    ∃ b u', d w' = .ok (b, u') ∧ W u ∧ W' u' ∧ R a b

section

variable {α β γ δ : Type} {W W' : World → Prop} {R : α → β → Prop} {S : γ → δ → Prop}
  {c c' : Run α} {d d' : Run β} {a : α} {b : β}

theorem Gives.mimics (hc : Gives W c a) (hd : Gives W' d b) (h : R a b) : Mimics W W' R c d := by
  intro w w' x u hw hw' hrun
  obtain ⟨u₁, hu₁, hcrun⟩ := hc w hw
  obtain ⟨u', hu', hdrun⟩ := hd w' hw'
  rw [hcrun] at hrun
  cases hrun
  exact ⟨b, u', hdrun, hu₁, hu', h⟩

namespace Mimics

theorem pure (h : R a b) : Mimics W W' R (pure a) (pure b) := (Gives.pure a).mimics (.pure b) h

/-- What halts need not be mimicked. -/
theorem halt (e : Halt) : Mimics W W' R (Schemata.halt e) d := fun _ _ _ _ _ _ hrun => nomatch hrun

/-- **Sequencing.** -/
theorem bind {f : α → Run γ} {g : β → Run δ} (h : Mimics W W' R c d)
    (hf : ∀ a b, R a b → Mimics W W' S (f a) (g b)) : Mimics W W' S (c >>= f) (d >>= g) := by
  intro w w' x u hw hw' hrun
  obtain ⟨a, w₁, hfirst, hsecond⟩ := of_bind_ok hrun
  obtain ⟨b, w₁', hd, hw₁, hw₁', hR⟩ := h w w' a w₁ hw hw' hfirst
  obtain ⟨y, u', hg, hu, hu', hS⟩ := hf a b hR w₁ w₁' x u hw₁ hw₁' hsecond
  exact ⟨y, u', by rw [bind_ok hd, hg], hu, hu', hS⟩

/-- Sequencing after equal results. -/
theorem andThen {c d : Run α} {f : α → Run γ} {g : α → Run δ} (h : Mimics W W' Eq c d)
    (hf : ∀ a, Mimics W W' S (f a) (g a)) : Mimics W W' S (c >>= f) (d >>= g) :=
  h.bind fun a _ hab => hab ▸ hf a

theorem mono {R' : α → β → Prop} (h : Mimics W W' R c d) (hR : ∀ a b, R a b → R' a b) :
    Mimics W W' R' c d := by
  intro w w' a u hw hw' hrun
  obtain ⟨b, u', hd, hu, hu', hab⟩ := h w w' a u hw hw' hrun
  exact ⟨b, u', hd, hu, hu', hR a b hab⟩

/-- Computations that are the same in all worlds of the sets. -/
theorem congr (hc : ∀ w, W w → c w = c' w) (hd : ∀ w, W' w → d w = d' w)
    (h : Mimics W W' R c' d') : Mimics W W' R c d := by
  intro w w' a u hw hw' hrun
  rw [hd w' hw']
  exact h w w' a u hw hw' (hc w hw ▸ hrun)

/-- What is given is given by what mimics it, as far as one can tell from a relation. -/
theorem gives (h : Mimics W W' R c d) (hc : Gives W c a) (hd : Steady W' d) {w w' : World}
    (hw : W w) (hw' : W' w') : ∃ b, R a b ∧ Gives W' d b := by
  obtain ⟨u, -, hrun⟩ := hc w hw
  obtain ⟨b, u', hdrun, -, -, hab⟩ := h w w' a u hw hw' hrun
  exact ⟨b, hab, hd w' b u' hw' hdrun⟩

end Mimics

end

/-! ### Lists side by side -/

section

variable {α β : Type} {Q : α → β → Prop}

/-- Lists made of the same one. -/
theorem forall₂_map_map {ι : Type} {f : ι → α} {g : ι → β} {l : List ι}
    (h : ∀ i ∈ l, Q (f i) (g i)) : List.Forall₂ Q (l.map f) (l.map g) := by
  rw [List.forall₂_map_left_iff, List.forall₂_map_right_iff, List.forall₂_same]
  exact h

/-- Lists made of lists side by side. -/
theorem forall₂_map {ι κ : Type} {P : ι → κ → Prop} {f : ι → α} {g : κ → β} {l : List ι}
    {k : List κ} (h : List.Forall₂ P l k) (hf : ∀ i j, P i j → Q (f i) (g j)) :
    List.Forall₂ Q (l.map f) (k.map g) := by
  rw [List.forall₂_map_left_iff, List.forall₂_map_right_iff]
  exact h.imp hf

theorem forall₂_zipIdx {l : List α} {k : List β} (h : List.Forall₂ Q l k) (n : Nat) :
    List.Forall₂ (fun x y => x.2 = y.2 ∧ Q x.1 y.1) (l.zipIdx n) (k.zipIdx n) := by
  induction h generalizing n with
  | nil => exact .nil
  | cons hab _ ih => exact .cons ⟨rfl, hab⟩ (ih (n + 1))

theorem forall₂_indexed {l : List α} {k : List β} (h : List.Forall₂ Q l k) :
    List.Forall₂ (fun x y => x.1 = y.1 ∧ Q x.2 y.2) (indexed l) (indexed k) :=
  forall₂_map (forall₂_zipIdx h 0) fun _ _ hxy => ⟨congrArg Segment.index hxy.1, hxy.2⟩

theorem forall₂_keyed {l : List (String × α)} {k : List (String × β)}
    (h : List.Forall₂ (fun x y => x.1 = y.1 ∧ Q x.2 y.2) l k) :
    List.Forall₂ (fun x y => x.1 = y.1 ∧ Q x.2 y.2) (keyed l) (keyed k) :=
  forall₂_map h fun _ _ hxy => ⟨congrArg Segment.key hxy.1, hxy.2⟩

/-- A test that does not tell lists apart one by one does not tell them apart. -/
theorem all_eq_of_forall₂ {p : α → Bool} {q : β → Bool} {l : List α} {k : List β}
    (h : List.Forall₂ (fun a b => p a = q b) l k) : l.all p = k.all q := by
  induction h with
  | nil => rfl
  | cons hab _ ih => rw [List.all_cons, List.all_cons, hab, ih]

/-- Functions side by side, each on its value. -/
theorem forall₂_zipWith_apply {ρ : Type} {values : List ρ} {fs : List (ρ → α)} {gs : List (ρ → β)}
    (h : List.Forall₂ (fun f g => ∀ v, Q (f v) (g v)) fs gs) :
    List.Forall₂ Q (fs.zipWith (fun run v => run v) values)
      (gs.zipWith (fun run v => run v) values) := by
  induction h generalizing values with
  | nil => exact .nil
  | cons hfg _ ih =>
      cases values with
      | nil => exact .nil
      | cons v rest => exact .cons (hfg v) ih

end

/-! ### Children, fields and members -/

section

variable {W W' : World → Prop}

theorem runEach_mimics {cs ds : List (Segment × Run Result)}
    (h : List.Forall₂ (fun c d => c.1 = d.1 ∧ Mimics W W' Eq c.2 d.2) cs ds) :
    Mimics W W' Eq (runEach cs) (runEach ds) := by
  induction h with
  | nil => exact .pure rfl
  | @cons c d _ _ hcd _ ih =>
      obtain ⟨s, child⟩ := c
      obtain ⟨s', child'⟩ := d
      obtain ⟨rfl, hcd⟩ := hcd
      refine hcd.andThen fun r => ?_
      cases r with
      | error e => exact .pure rfl
      | ok v => exact ih.andThen fun vs => by cases vs <;> exact .pure rfl

theorem runFields_mimics {fs gs : List (String × Runner)}
    (h : List.Forall₂ (fun f g => f.1 = g.1 ∧ ∀ v, Mimics W W' Eq (f.2 v) (g.2 v)) fs gs) :
    ∀ entries, Mimics W W' Eq (runFields fs entries) (runFields gs entries) := by
  induction h with
  | nil => exact fun _ => .pure rfl
  | @cons f g _ _ hfg _ ih =>
      intro entries
      obtain ⟨name, field⟩ := f
      obtain ⟨name', field'⟩ := g
      obtain ⟨rfl, hfg⟩ := hfg
      refine (hfg _).andThen fun r => ?_
      cases r with
      | error e => exact .pure rfl
      | ok v => exact (ih _).andThen fun vs => by cases vs <;> exact .pure rfl

theorem runPresentFields_mimics (omitted : List String) {fs gs : List (String × Runner)}
    (h : List.Forall₂ (fun f g => f.1 = g.1 ∧ ∀ v, Mimics W W' Eq (f.2 v) (g.2 v)) fs gs)
    (entries : List (String × Value)) :
    Mimics W W' Eq (runPresentFields omitted fs entries) (runPresentFields omitted gs entries) := by
  induction h with
  | nil => exact .pure rfl
  | @cons f g _ _ hfg _ ih =>
      obtain ⟨name, field⟩ := f
      obtain ⟨name', field'⟩ := g
      obtain ⟨rfl, hfg⟩ := hfg
      simp only [runPresentFields]
      split
      · exact ih
      · refine (hfg _).andThen fun r => ?_
        cases r with
        | error e => exact .pure rfl
        | ok v => exact ih.andThen fun vs => by cases vs <;> exact .pure rfl

theorem tryEach_mimics {v : Value} {xs ys : List (Nat × Runner)}
    (h : List.Forall₂ (fun x y => x.1 = y.1 ∧ Mimics W W' Eq (x.2 v) (y.2 v)) xs ys) :
    Mimics W W' Eq (tryEach v xs) (tryEach v ys) := by
  induction h with
  | nil => exact .pure rfl
  | @cons x y _ _ hxy _ ih =>
      obtain ⟨i, member⟩ := x
      obtain ⟨j, member'⟩ := y
      obtain ⟨rfl, hxy⟩ := hxy
      -- both runs end at the same member, the first that succeeds
      refine hxy.andThen fun r => ?_
      cases r with
      | ok a => exact .pure rfl
      | error e => exact ih.andThen fun others => by cases others <;> exact .pure rfl

/-- Members at the same places are selected. -/
theorem selected_forall₂ {Q : Runner → Runner → Prop} {xs ys : List Runner}
    (h : List.Forall₂ Q xs ys) (tags : List (Option Tag)) (v : Value) (wanted : Bool) :
    List.Forall₂ (fun x y => x.1 = y.1 ∧ Q x.2 y.2) (selected wanted (marked tags v xs))
      (selected wanted (marked tags v ys)) := by
  have hplaces := forall₂_zipIdx h 0
  simp only [selected, marked]
  generalize xs.zipIdx 0 = xs at hplaces
  generalize ys.zipIdx 0 = ys at hplaces
  -- places and tags run out together; which tags are left varies in the induction
  induction hplaces generalizing tags with
  | nil => exact .nil
  | @cons x y _ _ hxy _ ih =>
      cases tags with
      | nil => exact .nil
      | cons tag rest =>
          simp only [List.zip_cons_cons, List.map_cons, List.filter_cons]
          split
          · exact .cons hxy (ih rest)
          · exact ih rest

theorem parseMembers_mimics (tags : List (Option Tag)) {xs ys : List Runner} {v : Value}
    (h : List.Forall₂ (fun x y => Mimics W W' Eq (x v) (y v)) xs ys) :
    Mimics W W' Eq (parseMembers tags xs v) (parseMembers tags ys v) := by
  have each : ∀ wanted, Mimics W W' Eq (tryEach v (selected wanted (marked tags v xs)))
      (tryEach v (selected wanted (marked tags v ys))) := fun wanted =>
    tryEach_mimics (selected_forall₂ h tags v wanted)
  refine (each true).andThen fun first => ?_
  cases first with
  | ok a => exact .pure rfl
  | error first => exact (each false).andThen fun rest => by cases rest <;> exact .pure rfl

theorem serializeMembers_mimics (tags : List (Option Tag)) {xs ys : List Runner} {v : Value}
    (h : List.Forall₂ (fun x y => Mimics W W' Eq (x v) (y v)) xs ys) :
    Mimics W W' Eq (serializeMembers tags xs v) (serializeMembers tags ys v) := by
  have hselected := selected_forall₂ h tags v true
  simp only [serializeMembers]
  generalize selected true (marked tags v xs) = candidates at hselected
  generalize selected true (marked tags v ys) = candidates' at hselected
  -- without a candidate the error is another one, and then there is none on either side
  cases hselected with
  | nil => exact .pure rfl
  | cons hxy hrest =>
      refine (tryEach_mimics (.cons hxy hrest)).andThen fun r => ?_
      rcases r with (_ | ⟨_, _ | _⟩) | a <;> exact .pure rfl

end

/-! ### Machines -/

/-- The outcomes of starting a parse, compared: the same error, the same value, or tasks that are
related. -/
inductive Staging (T : Task → Task → Prop) : Except Error Staged → Except Error Staged → Prop
  | error (e : Error) : Staging T (.error e) (.error e)
  | ready (v : Value) : Staging T (.ok (.ready v)) (.ok (.ready v))
  | pending {t t' : Task} : T t t' → Staging T (.ok (.pending t)) (.ok (.pending t'))

/-- **Machines that come to the same on the references that may be used.** -/
structure MachinesAlike (W W' : World → Prop) (P : Reference → Prop) (T : Task → Task → Prop)
    (m m' : Machine) : Prop where
  logs : LeavesLogsOpen W
  logs' : LeavesLogsOpen W'
  parse : ∀ r, P r → ∀ v, Mimics W W' Eq (m.parse r v) (m'.parse r v)
  serialize : ∀ r, P r → ∀ v, Mimics W W' Eq (m.serialize r v) (m'.serialize r v)
  stage : ∀ r, P r → ∀ v, Mimics W W' (Staging T) (m.stage r v) (m'.stage r v)

section

variable {W W' : World → Prop} {P : Reference → Prop} {T : Task → Task → Prop} {m m' : Machine}

/-! ### User functions -/

theorem noteIf_mimics (hW : LeavesLogsOpen W) (hW' : LeavesLogsOpen W') (tag : Option String)
    (v : Value) : Mimics W W' Eq (noteIf tag v) (noteIf tag v) :=
  (noteIf_gives hW tag v).mimics (noteIf_gives hW' tag v) rfl

namespace MachinesAlike

theorem run (hm : MachinesAlike W W' P T m m') {f : Action} (hf : ∀ r ∈ f.references, P r) :
    ∀ v, Mimics W W' Eq (f.run m v) (f.run m' v) := by
  induction f with
  | compute f => exact fun v => .pure rfl
  | log tag =>
      exact fun v => ((note_gives hm.logs tag v).mimics (note_gives hm.logs' tag v) rfl).andThen
        fun _ => .pure rfl
  | andThen first second ihFirst ihSecond =>
      have hfirst := ihFirst fun r hr => hf r (List.mem_append_left _ hr)
      have hsecond := ihSecond fun r hr => hf r (List.mem_append_right _ hr)
      intro v
      refine (hfirst v).andThen fun r => ?_
      cases r with
      | error e => exact .pure rfl
      | ok a => exact hsecond a
  | choose test yes no ihYes ihNo =>
      have hyes := ihYes fun r hr => hf r (List.mem_append_left _ hr)
      have hno := ihNo fun r hr => hf r (List.mem_append_right _ hr)
      intro v
      refine ((test.run_gives hm.logs v).mimics (test.run_gives hm.logs' v) rfl).andThen
        fun holds => ?_
      cases holds with
      | true => exact hyes v
      | false => exact hno v
  | parseWith r =>
      exact fun v => (hm.parse r (hf r (List.mem_singleton_self r)) v).andThen fun _ => .pure rfl
  | serializeWith r =>
      exact fun v => (hm.serialize r (hf r (List.mem_singleton_self r)) v).andThen
        fun _ => .pure rfl

theorem runAs (hm : MachinesAlike W W' P T m m') {f : Action} (hf : ∀ r ∈ f.references, P r)
    (direction : Direction) (v : Value) :
    Mimics W W' Eq (f.runAs m direction v) (f.runAs m' direction v) :=
  (hm.run hf v).andThen fun r => by cases r <;> exact .pure rfl

theorem checked (hm : MachinesAlike W W' P T m m') (direction : Direction) (message : String)
    (test : Test) (v : Value) :
    Mimics W W' Eq (Schemata.checked direction message test v)
      (Schemata.checked direction message test v) :=
  (checked_gives hm.logs direction message test v).mimics
    (checked_gives hm.logs' direction message test v) rfl

theorem orElse (hm : MachinesAlike W W' P T m m') (supply : Supply) (v : Value) :
    Mimics W W' Eq (supply.orElse v) (supply.orElse v) := by
  rw [Supply.orElse]
  split
  · exact (noteIf_mimics hm.logs hm.logs' supply.tag supply.value).andThen fun _ => .pure rfl
  · exact .pure rfl

end MachinesAlike

/-! ### Operations -/

/-- **Operations that come to the same result on every value.** -/
def RunsLike (W W' : World → Prop) (m m' : Machine) (op op' : Operation) : Prop :=
  ∀ v, Mimics W W' Eq (op.run m v) (op'.run m' v)

namespace RunsLike

variable {item item' base base' inner inner' : Operation} {items items' : List Operation}
  {fields fields' : List (String × Operation)}

/-- Whatever is done without looking further. -/
theorem of_pure {op : Operation} {result : Value → Result}
    (h : ∀ (m : Machine) v, op.run m v = pure (result v)) : RunsLike W W' m m' op op := by
  intro v
  rw [h, h]
  exact .pure rfl

theorem noop : RunsLike W W' m m' .noop .noop := .of_pure fun _ _ => rfl

theorem fail (e : Error) : RunsLike W W' m m' (.fail e) (.fail e) := .of_pure fun _ _ => rfl

theorem scalar (kind : Scalar) (direction : Direction) (expected : Thunk String) :
    RunsLike W W' m m' (.scalar kind direction expected) (.scalar kind direction expected) := by
  intro v
  simp only [Operation.run]
  split <;> exact .pure rfl

theorem literal (direction : Direction) (l : Literal) :
    RunsLike W W' m m' (.literal direction l) (.literal direction l) := by
  intro v
  simp only [Operation.run]
  split <;> exact .pure rfl

theorem array (h : RunsLike W W' m m' item item') (direction : Direction)
    (expected : Thunk String) :
    RunsLike W W' m m' (.array direction expected item) (.array direction expected item') := by
  intro v
  cases v with
  | array values =>
      simp only [Operation.run]
      exact (runEach_mimics (forall₂_indexed (forall₂_map_map fun a _ => h a))).andThen
        fun _ => .pure rfl
  | _ => exact .pure rfl

theorem dict (h : RunsLike W W' m m' item item') (direction : Direction)
    (expected : Thunk String) :
    RunsLike W W' m m' (.dict direction expected item) (.dict direction expected item') := by
  intro v
  cases v with
  | object entries =>
      simp only [Operation.run]
      refine (runEach_mimics (forall₂_keyed (forall₂_map_map fun e _ => ?_))).andThen
        fun _ => .pure rfl
      exact ⟨rfl, h e.2⟩
  | _ => exact .pure rfl

theorem runners (h : List.Forall₂ (RunsLike W W' m m') items items') :
    List.Forall₂ (fun x y => ∀ v, Mimics W W' Eq (x v) (y v)) (runners m items)
      (runners m' items') := by
  rw [runners_eq_map, runners_eq_map]
  exact forall₂_map h fun _ _ hop => hop

theorem fieldRunners
    (h : List.Forall₂ (fun f g => f.1 = g.1 ∧ RunsLike W W' m m' f.2 g.2) fields fields') :
    List.Forall₂ (fun x y => x.1 = y.1 ∧ ∀ v, Mimics W W' Eq (x.2 v) (y.2 v))
      (fieldRunners m fields) (fieldRunners m' fields') := by
  rw [fieldRunners_eq_map, fieldRunners_eq_map]
  exact forall₂_map h fun _ _ hop => hop

theorem tuple (h : List.Forall₂ (RunsLike W W' m m') items items') (direction : Direction)
    (expected : Thunk String) :
    RunsLike W W' m m' (.tuple direction expected items) (.tuple direction expected items') := by
  intro v
  cases v with
  | array values =>
      simp only [Operation.run, h.length_eq]
      split
      · exact .pure rfl
      · exact (runEach_mimics (forall₂_indexed (forall₂_zipWith_apply (runners h)))).andThen
          fun _ => .pure rfl
  | _ => exact .pure rfl

theorem parseObject
    (h : List.Forall₂ (fun f g => f.1 = g.1 ∧ RunsLike W W' m m' f.2 g.2) fields fields')
    (expected : Thunk String) (policy : UnknownKeys) :
    RunsLike W W' m m' (.parseObject expected fields policy)
      (.parseObject expected fields' policy) := by
  intro v
  cases v with
  | object entries =>
      simp only [Operation.run]
      refine (runFields_mimics (fieldRunners h) entries).andThen fun r => ?_
      rcases r with e | ⟨values, left⟩
      · exact .pure rfl
      · dsimp only
        split <;> exact .pure rfl
  | _ => exact .pure rfl

theorem serializeObject
    (h : List.Forall₂ (fun f g => f.1 = g.1 ∧ RunsLike W W' m m' f.2 g.2) fields fields')
    (expected : Thunk String) (omitted : List String) :
    RunsLike W W' m m' (.serializeObject expected fields omitted)
      (.serializeObject expected fields' omitted) := by
  intro v
  cases v with
  | object entries =>
      simp only [Operation.run]
      exact (runPresentFields_mimics omitted (fieldRunners h) entries).andThen fun r => by
        cases r <;> exact .pure rfl
  | _ => exact .pure rfl

theorem unlessNull (h : RunsLike W W' m m' inner inner') :
    RunsLike W W' m m' (.unlessNull inner) (.unlessNull inner') := by
  intro v
  cases v with
  | null => exact .pure rfl
  | _ => exact h _

theorem parseUnion (h : List.Forall₂ (RunsLike W W' m m') items items')
    (tags : List (Option Tag)) :
    RunsLike W W' m m' (.parseUnion items tags) (.parseUnion items' tags) := by
  intro v
  simp only [Operation.run]
  exact parseMembers_mimics tags ((runners h).imp fun _ _ hxy => hxy v)

theorem serializeUnion (h : List.Forall₂ (RunsLike W W' m m') items items')
    (tags : List (Option Tag)) :
    RunsLike W W' m m' (.serializeUnion items tags) (.serializeUnion items' tags) := by
  intro v
  simp only [Operation.run]
  exact serializeMembers_mimics tags ((runners h).imp fun _ _ hxy => hxy v)

theorem decodeText (h : RunsLike W W' m m' inner inner') (expected : Thunk String) :
    RunsLike W W' m m' (.decodeText expected inner) (.decodeText expected inner') := by
  intro v
  simp only [Operation.run]
  split
  · exact .pure rfl
  · exact h _

/-- What is done with the result of a base. -/
theorem after {f g : Result → Run Result} {c d : Run Result} (h : Mimics W W' Eq c d)
    (he : ∀ e, Mimics W W' Eq (f (.error e)) (g (.error e)))
    (ha : ∀ a, Mimics W W' Eq (f (.ok a)) (g (.ok a))) : Mimics W W' Eq (c >>= f) (d >>= g) :=
  h.andThen fun r => match r with
    | .error e => he e
    | .ok a => ha a

theorem encodeText (h : RunsLike W W' m m' inner inner') :
    RunsLike W W' m m' (.encodeText inner) (.encodeText inner') := fun v =>
  after (h v) (fun _ => .pure rfl) fun _ => .pure rfl

theorem recover (h : RunsLike W W' m m' base base') (fallback : Fallback) :
    RunsLike W W' m m' (.recover fallback base) (.recover fallback base') := fun v =>
  after (h v) (fun _ => .pure rfl) fun _ => .pure rfl

theorem thenConstant (h : RunsLike W W' m m' base base') (value : Value) :
    RunsLike W W' m m' (.thenConstant value base) (.thenConstant value base') := fun v =>
  after (h v) (fun _ => .pure rfl) fun _ => .pure rfl

theorem exchange (h : RunsLike W W' m m' base base') (internal : Literal) (external : Value) :
    RunsLike W W' m m' (.exchange internal external base) (.exchange internal external base') := by
  intro v
  simp only [Operation.run]
  split
  · exact h external
  · exact .pure rfl

section

variable (hm : MachinesAlike W W' P T m m')

include hm

theorem apply {f : Action} (hf : ∀ r ∈ f.references, P r) (direction : Direction) :
    RunsLike W W' m m' (.apply direction f) (.apply direction f) := hm.runAs hf direction

theorem thenApply {f : Action} (hf : ∀ r ∈ f.references, P r) (h : RunsLike W W' m m' base base')
    (direction : Direction) :
    RunsLike W W' m m' (.thenApply direction base f) (.thenApply direction base' f) := fun v =>
  after (h v) (fun _ => .pure rfl) (hm.runAs hf direction)

theorem applyFirst {f : Action} (hf : ∀ r ∈ f.references, P r)
    (h : RunsLike W W' m m' base base') (direction : Direction) :
    RunsLike W W' m m' (.applyFirst direction f base) (.applyFirst direction f base') := fun v =>
  after (hm.runAs hf direction v) (fun _ => .pure rfl) h

theorem thenCheck (h : RunsLike W W' m m' base base') (message : String) (test : Test) :
    RunsLike W W' m m' (.thenCheck message test base) (.thenCheck message test base') := fun v =>
  after (h v) (fun _ => .pure rfl) (hm.checked .parsing message test)

theorem checkFirst (h : RunsLike W W' m m' base base') (message : String) (test : Test) :
    RunsLike W W' m m' (.checkFirst message test base) (.checkFirst message test base') := fun v =>
  after (hm.checked .serializing message test v) (fun _ => .pure rfl) h

theorem orSupply (h : RunsLike W W' m m' base base') (supply : Supply) :
    RunsLike W W' m m' (.orSupply supply base) (.orSupply supply base') := fun v =>
  after (h v) (fun _ => .pure rfl) fun a => (hm.orElse supply a).andThen fun _ => .pure rfl

theorem follow {r : Reference} (hr : P r) (direction : Direction) :
    RunsLike W W' m m' (.follow direction r) (.follow direction r) := by
  intro v
  cases direction with
  | parsing => exact hm.parse r hr v
  | serializing => exact hm.serialize r hr v

end

end RunsLike

end

/-! ### Schemas -/

section

variable {W W' : World → Prop} {w₀ w₀' : World} {N N' : Schema → Prop} {m m' : Machine}
  {s s' : Schema}

/-- **Following a reference is mimicked** where the schemas behind it are. -/
theorem World.Compiles.target_mimics {α β : Type} {S : α → β → Prop} {Q : Schema → Schema → Prop}
    (hc : w₀.Compiles N W) (hc' : w₀'.Compiles N' W') {r : Reference} {F : Schema → Run α}
    {F' : Schema → Run β} {a : α} {b : β} (hrel : Option.Rel Q (w₀.target? r) (w₀'.target? r))
    (hF : ∀ t t', Q t t' → Mimics W W' S (F t) (F' t')) (hab : S a b) :
    Mimics W W' S
      (do
        match (← get).target? r with
        | some t => F t
        | none => return a)
      (do
        match (← get).target? r with
        | some t => F' t
        | none => return b) := by
  generalize ht : w₀.target? r = target at hrel
  generalize ht' : w₀'.target? r = target' at hrel
  cases hrel with
  | none =>
      refine Mimics.congr (fun w hw => ?_) (fun w hw => ?_) (.pure hab)
      · simp only [get_bind, hc.target hw r, ht]
      · simp only [get_bind, hc'.target hw r, ht']
  | @some t t' hQ =>
      refine Mimics.congr (fun w hw => ?_) (fun w hw => ?_) (hF t t' hQ)
      · simp only [get_bind, hc.target hw r, ht]
      · simp only [get_bind, hc'.target hw r, ht']

/-- **Parsing is mimicked** where the planned operation is. -/
theorem Schema.parseOn_mimics (hc : w₀.Compiles N W) (hc' : w₀'.Compiles N' W') (hs : N s)
    (hs' : N' s') (h : RunsLike W W' m m' (w₀.planned s).atOnce (w₀'.planned s').atOnce)
    (v : Value) : Mimics W W' Eq (s.parseOn m v) (s'.parseOn m' v) := by
  intro w w' r u hw hw' hrun
  obtain ⟨w₁, hw₁, happly⟩ := Schema.parseOn_apply hc hs hw v (m := m)
  obtain ⟨w₁', hw₁', happly'⟩ := Schema.parseOn_apply hc' hs' hw' v (m := m')
  rw [happly']
  exact h v w₁ w₁' r u hw₁ hw₁' (happly ▸ hrun)

/-- **Serializing is mimicked** where the planned operation is. -/
theorem Schema.serializeOn_mimics (hc : w₀.Compiles N W) (hc' : w₀'.Compiles N' W') (hs : N s)
    (hs' : N' s')
    (h : RunsLike W W' m m' (w₀.serializePlan s).operation (w₀'.serializePlan s').operation)
    (v : Value) : Mimics W W' Eq (s.serializeOn m v) (s'.serializeOn m' v) := by
  refine ((hc.serialize s hs).mimics (hc'.serialize s' hs')
    (R := fun c d => c = w₀.serializePlan s ∧ d = w₀'.serializePlan s') ⟨rfl, rfl⟩).bind ?_
  rintro _ _ ⟨rfl, rfl⟩
  exact h v

end

end Schemata
