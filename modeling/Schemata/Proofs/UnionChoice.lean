/-
**A union serializes like trying its members one after the other.**

Serializing makes one pass only: the members whose tag the typed value carries, and those without a
tag, are tried in order, and the others never.  Nothing is lost by that, because a member that is
not a candidate is certain to fail; the first success of plain trial is a candidate's, and it is the
first among them.  When there is none, the error says what the candidates said: that there are none,
the error of the only one, or the errors of all in order.

Main definitions:

* `Schemata.candidatesError`, `Schemata.firstWritten` — the result of plain trial, with the errors
  of the candidates;
* `Schemata.Operation.labelled` — a union whose members note a label before they are run.

Main results:

* `Schemata.serializeMembers_noting` — the pass over the candidates against plain trial;
* `Schemata.Scene.Reachable.serialize_union_eq_firstWritten` — **a compiled union against its
  members' own serialize operations**.
-/

import Schemata.Proofs.Refusal
import Schemata.Proofs.UnionTrial

set_option relaxedAutoImplicit false
set_option autoImplicit false

namespace Schemata

/-! ### The result -/

/-- The error of a union, from the errors of its candidates. -/
def candidatesError : List Error → Error
  | [] => Error.atRoot
      (.operationFailed "Can't serialize value: it doesn't match any union member") .serializing
  | [e] => e
  | errors => Error.atRoot (.invalidUnion errors) .serializing

/-- The errors among results, in order. -/
def errorsOf (results : List Result) : List Error :=
  results.filterMap fun r =>
    match r with
    | .ok _ => none
    | .error e => some e

/-- The results of the members that are candidates for a typed value. -/
def candidateResults (v : Value) (members : List Schema) (results : List Result) : List Result :=
  ((members.zip results).filter fun x => admitted v (x.1.tag? .output)).map Prod.snd

/-- **The result of plain trial**: the first success among all members, or an error made of the
candidates' errors. -/
def firstWritten (v : Value) (members : List Schema) (results : List Result) : Result :=
  match trial results with
  | .ok a => .ok a
  | .error _ => .error (candidatesError (errorsOf (candidateResults v members results)))

/-- Plain trial gives the first success: every result before it is an error. -/
theorem trial_eq_ok_iff {results : List Result} {a : Value} :
    trial results = .ok a ↔ ∃ before after, results = before ++ .ok a :: after ∧
      ∀ r ∈ before, ∃ e, r = .error e := by
  induction results with
  | nil => simp [trial]
  | cons r rest ih =>
      cases r with
      | ok u =>
          rw [trial]
          constructor
          · rintro ⟨⟩
            exact ⟨[], rest, rfl, by simp⟩
          · rintro ⟨before, after, heq, hbefore⟩
            cases before with
            | nil =>
                cases heq
                rfl
            | cons x before =>
                cases heq
                obtain ⟨e, he⟩ := hbefore _ (List.mem_cons_self ..)
                cases he
      | error e =>
          have hstep : trial (.error e :: rest) = .ok a ↔ trial rest = .ok a := by
            rw [trial]
            cases trial rest <;> simp
          rw [hstep, ih]
          constructor
          · rintro ⟨before, after, rfl, hbefore⟩
            refine ⟨.error e :: before, after, rfl, ?_⟩
            exact List.forall_mem_cons.2 ⟨⟨e, rfl⟩, hbefore⟩
          · rintro ⟨before, after, heq, hbefore⟩
            cases before with
            | nil => cases heq
            | cons x before =>
                cases heq
                exact ⟨before, after, rfl, fun r hr => hbefore r (List.mem_cons_of_mem _ hr)⟩

/-! ### The pass over the candidates -/

namespace Attempt

theorem map_snd_errors (attempts : List Attempt) :
    (errors attempts).map Prod.snd = errorsOf (attempts.map Attempt.result) := by
  induction attempts with
  | nil => rfl
  | cons a rest ih =>
      cases hr : a.result with
      | ok v =>
          rw [errors_cons_ok hr, ih, List.map_cons, hr]
          rfl
      | error e =>
          rw [errors_cons_error hr, List.map_cons, ih, List.map_cons, hr]
          rfl

/-- The results of the admitted attempts, of attempts that come from a list. -/
theorem map_result_only {α : Type} {admits : α → Bool} {result : α → Result} :
    ∀ {l : List α} {f : Nat → α → Attempt}, (∀ i x, (f i x).admitted = admits x) →
      (∀ i x, (f i x).result = result x) →
      (only true (l.mapIdx f)).map Attempt.result = (l.filter admits).map result
  | [], _, _, _ => rfl
  | x :: rest, f, hadmitted, hresult => by
      have ih := map_result_only (l := rest) (f := fun i => f (i + 1))
        (fun i y => hadmitted (i + 1) y) fun i y => hresult (i + 1) y
      rw [List.mapIdx_cons]
      cases hx : admits x with
      | true =>
          rw [only_cons_eq ((hadmitted 0 x).trans hx), List.map_cons, ih, hresult,
            List.filter_cons_of_pos hx, List.map_cons]
      | false =>
          rw [only_cons_ne (by rw [hadmitted, hx]; simp), ih,
            List.filter_cons_of_neg (by simp [hx])]

end Attempt

/-- Serializing as one of the members tries those that the value admits, and gives what plain trial
gives. -/
theorem serializeMembers_noting {W : List String → World → Prop} {v : Value}
    {lines : Nat → List String} {tags : List (Option Tag)} {members : List Runner}
    {attempts : List Attempt}
    (hmembers : marked tags v members = attempts.map fun a => (a.admitted, a.position, a.run))
    (hfail : ∀ a ∈ attempts, a.admitted = false → ∃ e, a.result = .error e)
    (hrun : ∀ a ∈ attempts, Noting W (a.run v) a.result (lines a.position)) :
    Noting W (serializeMembers tags members v)
      (match trial (attempts.map Attempt.result) with
        | .ok a => .ok a
        | .error _ => .error (candidatesError
            ((Attempt.errors (Attempt.only true attempts)).map Prod.snd)))
      (Attempt.noted lines (Attempt.tried (Attempt.only true attempts))) := by
  have hselected : selected true (marked tags v members) =
      (Attempt.only true attempts).map fun a => (a.position, a.run) := by
    rw [hmembers, selected, List.filter_map, List.map_map]
    rfl
  have hpass : Noting W
      (tryEach v ((Attempt.only true attempts).map fun a => (a.position, a.run)))
      (Attempt.outcome (Attempt.only true attempts))
      (Attempt.noted lines (Attempt.tried (Attempt.only true attempts))) :=
    Attempt.tryEach_noting fun a ha => hrun a (List.mem_filter.1 ha).1
  rw [serializeMembers, hselected]
  cases ht : trial (attempts.map Attempt.result) with
  | ok u =>
      -- the first success is a candidate's, so there is a candidate
      have hok := Attempt.outcome_only_of_ok hfail ht
      rw [hok] at hpass
      cases hcandidates : Attempt.only true attempts with
      | nil => rw [hcandidates] at hok; cases hok
      | cons a rest =>
          rw [hcandidates] at hpass
          exact hpass.bind_pure rfl
  | error es =>
      have hall := (Attempt.errors_of_error ht).1
      have hcandidate : ∀ a ∈ Attempt.only true attempts, ∃ e, a.result = .error e := fun a ha =>
        hall a (List.mem_filter.1 ha).1
      rw [Attempt.outcome_of_errors hcandidate] at hpass
      cases hcandidates : Attempt.only true attempts with
      | nil => exact .pure _
      | cons a rest =>
          rw [hcandidates] at hpass hcandidate
          obtain ⟨e, he⟩ := hcandidate a (List.mem_cons_self ..)
          rw [Attempt.errors_cons_error he] at hpass ⊢
          -- one candidate hands its error on, several are put together
          cases herrors : Attempt.errors rest with
          | nil =>
              rw [herrors] at hpass
              exact hpass.bind_pure rfl
          | cons x others =>
              rw [herrors] at hpass
              exact hpass.bind_pure rfl

/-- Members under their positions, each with its own result: only candidates are tried, in the order
of their declaration. -/
theorem candidates_noting {W : List String → World → Prop} {v : Value} {members : List Schema}
    {results : List Result} (runner : Nat → Schema → Runner) (lines : Nat → List String)
    (hlen : members.length = results.length)
    (hfail : ∀ (i : Nat) (t : Schema) (r : Result), members[i]? = some t → results[i]? = some r →
      admitted v (t.tag? .output) = false → ∃ e, r = .error e)
    (hrun : ∀ (i : Nat) (t : Schema) (r : Result), members[i]? = some t → results[i]? = some r →
      Noting W (runner i t v) r (lines i)) :
    ∃ order : List Nat, order.Pairwise (· < ·) ∧
      (∀ i ∈ order, ∃ t, members[i]? = some t ∧ admitted v (t.tag? .output) = true) ∧
      Noting W (serializeMembers (members.map (Schema.tag? .output)) (members.mapIdx runner) v)
        (firstWritten v members results) (Attempt.noted lines order) := by
  let attempts : List Attempt := (members.zip results).mapIdx fun i x =>
    ⟨admitted v (x.1.tag? .output), i, runner i x.1, x.2⟩
  have hresults : attempts.map Attempt.result = results :=
    List.ext_getElem (by simp [attempts, hlen]) (by simp [attempts])
  have hsorted : (attempts.map Attempt.position).Pairwise (· < ·) := by
    rw [List.pairwise_map, List.pairwise_iff_getElem]
    simp [attempts]
  have hmember : ∀ a ∈ attempts, ∃ t r, members[a.position]? = some t ∧
      results[a.position]? = some r ∧
      a = ⟨admitted v (t.tag? .output), a.position, runner a.position t, r⟩ := by
    intro a ha
    obtain ⟨i, hi, rfl⟩ := List.mem_mapIdx.1 ha
    have hzip := List.getElem?_eq_getElem hi
    rw [List.getElem?_zip_eq_some] at hzip
    exact ⟨_, _, hzip.1, hzip.2, rfl⟩
  have hcandidates : (Attempt.only true attempts).map Attempt.result =
      candidateResults v members results :=
    Attempt.map_result_only (fun _ _ => rfl) fun _ _ => rfl
  refine ⟨Attempt.tried (Attempt.only true attempts), ?_, ?_, ?_⟩
  · exact hsorted.sublist ((Attempt.tried_sublist _).trans (List.filter_sublist.map _))
  · intro i hi
    obtain ⟨a, ha, rfl⟩ := List.mem_map.1 ((Attempt.tried_sublist _).subset hi)
    obtain ⟨ha, hadmitted⟩ := List.mem_filter.1 ha
    obtain ⟨t, r, ht, -, heq⟩ := hmember a ha
    rw [heq] at hadmitted
    exact ⟨t, ht, (beq_iff_eq ..).1 hadmitted⟩
  · rw [firstWritten, ← hcandidates, ← Attempt.map_snd_errors, ← hresults]
    refine serializeMembers_noting ?_ (fun a ha => ?_) fun a ha => ?_
    · exact List.ext_getElem (by simp [attempts, marked, hlen]) (by simp [attempts, marked])
    · obtain ⟨t, r, ht, hr, heq⟩ := hmember a ha
      rw [heq]
      exact hfail _ t r ht hr
    · obtain ⟨t, r, ht, hr, heq⟩ := hmember a ha
      rw [heq]
      exact hrun _ t r ht hr

/-! ### Compiled unions -/

/-- A union whose members note their label before they serialize. -/
def Operation.labelled (label : Nat → String) : Operation → Operation
  | .serializeUnion members tags =>
      .serializeUnion (members.mapIdx fun i op => .applyFirst .serializing (.log (label i)) op) tags
  | op => op

/-- What running a member's own serialize operation gives; a bare reference to the union itself
counts as a failure. -/
def OwnSerialize (w₁ w : World) (members : List Schema) (fuel : Nat) (v : Value) (t : Schema)
    (r : Result) : Prop :=
  if refersBack w₁ (members.map Schema.id) t then r = .error (selfMemberError .serializing)
  else ∃ w', t.serialize fuel v w = .ok (r, w')

section

variable {w₁ w₂ : World} {nodes : List Schema} {N : Schema → Prop} {members : List Schema}
  {fuel : Nat} {v : Value}

/-- A member's operation gives what its own serialize operation gives, and notes nothing. -/
theorem OwnSerialize.noting (h : w₂.Closed nodes N) {t : Schema} (ht : N t) {r : Result}
    (hown : OwnSerialize w₁ w₂ members fuel v t r) :
    Noting (w₂.Logged nodes)
      ((memberSerializer w₁ (members.map Schema.id) w₂.serializePlan t).run (machine fuel) v) r
      [] := by
  rw [OwnSerialize] at hown
  rw [memberSerializer]
  split at hown
  · rename_i hr
    rw [if_pos hr, hown]
    exact .pure _
  · rename_i hr
    rw [if_neg hr]
    obtain ⟨w', hrun⟩ := hown
    -- the member was run with one log, and gives the same with any other
    have hgives := Schema.gives_of_serializeOn h.compiles ht
      (h.serialize_runs h.compiles fuel ht) h.sound.later hrun
    refine .of_gives fun log w hw => ?_
    obtain ⟨w₃, -, hrun₃⟩ := hgives w hw.1
    exact h.serialize_runs (h.compiles_log log) fuel ht v w r w₃ hw hrun₃ w hw

/-- A member that is not a candidate fails. -/
theorem OwnSerialize.fails (h : w₂.Closed nodes N) {t : Schema} (ht : N t) {r : Result}
    (hown : OwnSerialize w₁ w₂ members fuel v t r)
    (hadmitted : admitted v (t.tag? .output) = false) : ∃ e, r = .error e := by
  rw [OwnSerialize] at hown
  split at hown
  · exact ⟨_, hown⟩
  · obtain ⟨w', hrun⟩ := hown
    obtain ⟨w₃, -, hop⟩ := h.compiles.serialize t ht w₂ h.sound.later
    rw [Schema.serialize, Schema.serializeOn, bind_ok hop] at hrun
    cases hg : t.tag? .output with
    | none => rw [hg] at hadmitted; cases hadmitted
    | some g =>
        rw [hg] at hadmitted
        exact h.sound.serialize_fails_of_not_admitted h.shaped t (h.member t ht) g hg v hadmitted
          _ _ _ hrun

end

/-- The serialize operation of a union, put together from the members' planned operations. -/
def unionSerializer (w₁ w : World) (members : List Schema) : Operation :=
  .serializeUnion (members.map (memberSerializer w₁ (members.map Schema.id) w.serializePlan))
    (members.map (Schema.tag? .output))

theorem unionSerializer_run (w₁ w : World) (members : List Schema) (m : Machine) (v : Value) :
    (unionSerializer w₁ w members).run m v =
      serializeMembers (members.map (Schema.tag? .output)) (members.mapIdx fun _ t =>
        (memberSerializer w₁ (members.map Schema.id) w.serializePlan t).run m) v := by
  rw [unionSerializer, Operation.run, runners_eq_map]
  exact congrArg (serializeMembers _ · v) (List.ext_getElem (by simp) (by simp))

theorem unionSerializer_labelled_run (w₁ w : World) (members : List Schema) (m : Machine)
    (v : Value) (label : Nat → String) :
    ((unionSerializer w₁ w members).labelled label).run m v =
      serializeMembers (members.map (Schema.tag? .output)) (members.mapIdx fun i t =>
        (Operation.applyFirst .serializing (.log (label i))
          (memberSerializer w₁ (members.map Schema.id) w.serializePlan t)).run m) v := by
  rw [unionSerializer, Operation.labelled, Operation.run, runners_eq_map]
  exact congrArg (serializeMembers _ · v) (List.ext_getElem (by simp) (by simp))

namespace Scene

variable {σ τ : Scene} {s : Schema} {members : List Schema} {c : Compiled Operation} {w₁ : World}

/-- The serialize operation of a union that was compiled from an empty cell, in any later scene. -/
theorem Reachable.union_serializer (hσ : σ.Reachable) (hs : s ∈ σ.nodes)
    (hkind : s.kind = .union members) (hempty : σ.world.serializeCells s.id = .empty)
    (hcompile : s.serializeOperation σ.world = .ok (c, w₁)) (hτ : Leads ⟨w₁, σ.nodes⟩ τ) :
    τ.Reachable ∧ s ∈ τ.nodes ∧ τ.world.serializePlan s = c ∧
      c.operation = unionSerializer σ.world τ.world members := by
  have hsound := hσ.sound
  obtain ⟨w', hrun, hlater, hfilled, -⟩ := Schema.serializeOperation_done hsound hs hsound.later
  rw [hcompile] at hrun
  cases hrun
  have hstep : Step .using σ ⟨w₁, σ.nodes⟩ := .serializeOperation hs hcompile
  have hreach : Reachable ⟨w₁, σ.nodes⟩ := hσ.tail ⟨_, hstep⟩
  have hkept := hτ.kept hreach.sound hreach.shaped
  refine ⟨hreach.trans hτ, hkept.nodes hs,
    World.serializePlan_of_filled (hkept.serialize s hs _ hfilled), ?_⟩
  -- the members that are not refused are compiled, now and in the later scene
  have hbelow : ∀ t ∈ s.kind.embedded σ.world,
      (if t.id < s.id then σ.world.serializePlan t else ⟨t.id, .noop⟩) =
        τ.world.serializePlan t := by
    intro t ht
    obtain ⟨htn, hlt⟩ := hsound.hosts.below s hs t (Kind.embedded_subset _ _ ht)
    obtain ⟨b, hb⟩ :=
      (hlater.ahead.serialize.closed s hs _ hfilled).resolve_left (by simp [hempty]) t ht
    rw [if_pos hlt, World.serializePlan_of_filled (hkept.serialize t htn b hb),
      hlater.ahead.serialize.planned t htn b hb]
  rw [World.serializePlan_of_unfilled (by rw [hempty]; rfl), Kind.serializer_congr rfl _ hbelow,
    hkind]
  rfl

/-- **A compiled union serializes like trying its members one after the other.**  Let a union be
compiled in any reachable scene.  In any later scene, if serializing a value with each member on its
own ends, serializing with the union gives the first success, or else the error that the candidates'
errors make.  When the members note a label, only candidates are seen to be run, each at most once
and in the order of their declaration. -/
theorem Reachable.serialize_union_eq_firstWritten (hσ : σ.Reachable) (hs : s ∈ σ.nodes)
    (hkind : s.kind = .union members) (hempty : σ.world.serializeCells s.id = .empty)
    (hcompile : s.serializeOperation σ.world = .ok (c, w₁)) (hτ : Leads ⟨w₁, σ.nodes⟩ τ)
    (hpure : ∀ t, τ.world.Reaches s t → t.kind.Pure) (fuel : Nat) {v : Value}
    {results : List Result}
    (hresults : List.Forall₂ (OwnSerialize σ.world τ.world members fuel v) members results) :
    (∃ w, s.serialize fuel v τ.world = .ok (firstWritten v members results, w)) ∧
    ∀ label : Nat → String, ∃ (order : List Nat) (w : World), order.Pairwise (· < ·) ∧
      (∀ i ∈ order, ∃ t, members[i]? = some t ∧ admitted v (t.tag? .output) = true) ∧
      (c.operation.labelled label).run (machine fuel) v τ.world =
        .ok (firstWritten v members results, w) ∧
      w.log = (order.map fun i => label i ++ ":" ++ v.text).reverse ++ τ.world.log := by
  obtain ⟨hreach, hsτ, hplan, hop⟩ := hσ.union_serializer hs hkind hempty hcompile hτ
  have hclosed := World.Closed.of_reaches hreach.sound hreach.shaped hsτ hpure
  have hN : ∀ t ∈ members, τ.world.Reaches s t := fun t ht =>
    .single (World.leads_of_child (by rw [Schema.children, hkind]; exact ht))
  have hown : ∀ (i : Nat) (t : Schema) (r : Result), members[i]? = some t → results[i]? = some r →
      OwnSerialize σ.world τ.world members fuel v t r := by
    intro i t r ht hr
    obtain ⟨hi, rfl⟩ := List.getElem?_eq_some_iff.1 ht
    obtain ⟨hi', rfl⟩ := List.getElem?_eq_some_iff.1 hr
    exact (List.forall₂_iff_get.1 hresults).2 i hi hi'
  have hfail := fun (i : Nat) (t : Schema) (r : Result) (ht : members[i]? = some t) hr =>
    (hown i t r ht hr).fails hclosed (hN t (List.mem_of_getElem? ht))
  have hrun := fun (i : Nat) (t : Schema) (r : Result) (ht : members[i]? = some t) hr =>
    (hown i t r ht hr).noting hclosed (hN t (List.mem_of_getElem? ht))
  constructor
  · obtain ⟨order, -, -, hnoting⟩ := candidates_noting (fun _ t => (memberSerializer σ.world
      (members.map Schema.id) τ.world.serializePlan t).run (machine fuel)) (fun _ => [])
        hresults.length_eq hfail hrun
    rw [Attempt.noted_nothing] at hnoting
    have hgives : Gives (τ.world.Logged τ.nodes τ.world.log)
        ((τ.world.serializePlan s).operation.run (machine fuel) v)
        (firstWritten v members results) := by
      rw [hplan, hop, unionSerializer_run]
      exact hnoting.gives _
    obtain ⟨w, -, hserialize⟩ := Schema.serializeOn_gives (hclosed.compiles_log _) .refl hgives
      τ.world ⟨hclosed.sound.later, rfl⟩
    exact ⟨w, hserialize⟩
  · intro label
    obtain ⟨order, hsorted, hcandidate, hnoting⟩ := candidates_noting (fun i t =>
      (Operation.applyFirst .serializing (.log (label i)) (memberSerializer σ.world
        (members.map Schema.id) τ.world.serializePlan t)).run (machine fuel))
          (fun i => [label i ++ ":" ++ v.text]) hresults.length_eq
            hfail fun i t r ht hr => (hrun i t r ht hr).announced .serializing (label i)
    rw [Attempt.noted_singleton] at hnoting
    obtain ⟨w, hw, hserialize⟩ := hnoting τ.world.log τ.world ⟨hclosed.sound.later, rfl⟩
    exact ⟨order, w, hsorted, hcandidate, by rw [hop, unionSerializer_labelled_run, hserialize],
      hw.2⟩

/-! ### A union of two letters -/

/-- Another letter only. -/
def otherLetter : Schema := .node 1 (.literal (.string "b")) Metadata.empty none

/-- One of two letters. -/
def eitherLetter : Schema := .node 2 (.union [letter, otherLetter]) Metadata.empty none

/-- The scene of the union. -/
def letters : Scene := ⟨made 3 0, [eitherLetter, otherLetter, letter]⟩

theorem letters_reachable : letters.Reachable := by
  have h₁ : Step .building initial ⟨made 1 0, [letter]⟩ :=
    .made (fun t ht => by cases ht) (by trivial)
  have h₂ : Step .building ⟨made 1 0, [letter]⟩ ⟨made 2 0, [otherLetter, letter]⟩ :=
    .made (fun t ht => by cases ht) (by trivial)
  have h₃ : Step .building ⟨made 2 0, [otherLetter, letter]⟩ letters :=
    .made (fun t ht => by simpa [Kind.children, or_comm] using ht) (by simp [Kind.Formed])
  exact .tail (.tail (.single ⟨_, h₁⟩) ⟨_, h₂⟩) ⟨_, h₃⟩

/-- The scene once the union is compiled. -/
def compiledLetters : Scene where
  world := match eitherLetter.serializeOperation letters.world with
    | .ok (_, w) => w
    | .error _ => letters.world
  nodes := letters.nodes

theorem compiledLetters_pure (t : Schema) (h : compiledLetters.world.Reaches eitherLetter t) :
    t.kind.Pure := by
  have hstep : Step .using letters compiledLetters :=
    .serializeOperation (s := eitherLetter) (List.mem_cons_self ..) rfl
  have hsound := Reachable.sound (letters_reachable.tail ⟨_, hstep⟩)
  have ht : t ∈ [eitherLetter, otherLetter, letter] :=
    hsound.hosts.reaches (List.mem_cons_self ..) h
  simp only [List.mem_cons, List.not_mem_nil, or_false] at ht
  rcases ht with rfl | rfl | rfl <;> trivial

/-- The second letter is written by the second member; the first one, which would refuse it, is not
run. -/
theorem serialize_union_eq_firstWritten_letters : ∃ c : Compiled Operation,
    eitherLetter.serializeOperation letters.world = .ok (c, compiledLetters.world) ∧
    (∃ w, eitherLetter.serialize 1 (.string "b") compiledLetters.world =
      .ok (.ok (.string "b"), w)) ∧
    ∀ label : Nat → String, ∃ (order : List Nat) (w : World), order.Pairwise (· < ·) ∧
      (∀ i ∈ order, ∃ t, [letter, otherLetter][i]? = some t ∧
        admitted (.string "b") (t.tag? .output) = true) ∧
      (c.operation.labelled label).run (machine 1) (.string "b") compiledLetters.world =
        .ok (.ok (.string "b"), w) ∧
      w.log = (order.map fun i => label i ++ ":" ++ (Value.string "b").text).reverse ++
        compiledLetters.world.log := by
  refine ⟨_, rfl, ?_⟩
  have hown : List.Forall₂ (OwnSerialize letters.world compiledLetters.world [letter, otherLetter] 1
      (.string "b")) [letter, otherLetter]
        [.error (literalError .serializing (.string "a") (.string "b")), .ok (.string "b")] :=
    .cons ⟨_, rfl⟩ (.cons ⟨_, rfl⟩ .nil)
  exact letters_reachable.serialize_union_eq_firstWritten (s := eitherLetter)
    (List.mem_cons_self ..) rfl rfl rfl .refl compiledLetters_pure 1 hown

end Scene

end Schemata
