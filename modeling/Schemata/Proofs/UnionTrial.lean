/-
**A union parses like trying its members one after the other.**

A union tries the members that a value admits first, and the others only when all of these fail.
The result is the one that plain trial in the order of declaration gives, because a member that the
value does not admit is certain to fail: the first success is found among the members admitted, and
when there is none, putting the errors of both passes in order gives those of all members.  The two
passes try different members, so none is tried twice.

Main definitions:

* `Schemata.firstMatch` — the result of plain trial;
* `Schemata.Noting` — a result together with the lines that are noted on the way;
* `Schemata.Attempt` — a member with its position, whether it is admitted, and its result;
* `Schemata.Operation.announced` — a union whose members announce themselves when they are run.

Main results:

* `Schemata.parseMembers_noting` — the two passes against plain trial;
* `Schemata.Scene.parse_union_eq_firstMatch` — **a compiled union against its members' own parses**.
-/

import Schemata.Proofs.Discrimination

set_option relaxedAutoImplicit false
set_option autoImplicit false

namespace Schemata

/-! ### Plain trial -/

/-- The first success, or all errors. -/
def trial : List Result → Except (List Error) Value
  | [] => .error []
  | .ok a :: _ => .ok a
  | .error e :: rest =>
      match trial rest with
      | .ok a => .ok a
      | .error es => .error (e :: es)

/-- **The result of plain trial**: the first success, or a union error with all errors. -/
def firstMatch (results : List Result) : Result :=
  match trial results with
  | .ok a => .ok a
  | .error es => .error (Error.atRoot (.invalidUnion es) .parsing)

/-! ### Results with the lines that are noted -/

/-- In every world of a family indexed by logs, the computation gives `a` and notes the lines. -/
def Noting {α : Type} (W : List String → World → Prop) (c : Run α) (a : α) (lines : List String) :
    Prop :=
  ∀ log w, W log w → ∃ w', W (lines ++ log) w' ∧ c w = .ok (a, w')

section

variable {α β : Type} {W : List String → World → Prop}

theorem Noting.pure (a : α) : Noting W (pure a : Run α) a [] := fun _ w hw => ⟨w, hw, rfl⟩

theorem Noting.bind {c : Run α} {f : α → Run β} {a : α} {b : β} {first second : List String}
    (hc : Noting W c a first) (hf : Noting W (f a) b second) :
    Noting W (c >>= f) b (second ++ first) := by
  intro log w hw
  obtain ⟨w₁, hw₁, h₁⟩ := hc log w hw
  obtain ⟨w₂, hw₂, h₂⟩ := hf _ w₁ hw₁
  exact ⟨w₂, by rwa [List.append_assoc], by rw [bind_ok h₁, h₂]⟩

theorem Noting.bind_pure {c : Run α} {f : α → Run β} {a : α} {b : β} {lines : List String}
    (hc : Noting W c a lines) (hf : f a = Pure.pure b) : Noting W (c >>= f) b lines :=
  hc.bind (hf ▸ Noting.pure b)

theorem Noting.gives {c : Run α} {a : α} (h : Noting W c a []) (log : List String) :
    Gives (W log) c a := fun w hw => h log w hw

/-- A computation that notes nothing. -/
theorem Noting.of_gives {c : Run α} {a : α} (h : ∀ log, Gives (W log) c a) : Noting W c a [] :=
  fun log w hw => h log w hw

end

/-! ### Attempts -/

/-- A member with its position, whether the value admits it, and its result. -/
structure Attempt where
  admitted : Bool
  position : Nat
  run : Runner
  result : Result

namespace Attempt

/-- What trying the attempts in order gives. -/
def outcome : List Attempt → Except (List (Nat × Error)) Value
  | [] => .error []
  | a :: rest =>
      match a.result with
      | .ok v => .ok v
      | .error e =>
          match outcome rest with
          | .ok v => .ok v
          | .error es => .error ((a.position, e) :: es)

/-- The positions that are tried. -/
def tried : List Attempt → List Nat
  | [] => []
  | a :: rest =>
      match a.result with
      | .ok _ => [a.position]
      | .error _ => a.position :: tried rest

/-- The attempts with one flag. -/
def only (wanted : Bool) (attempts : List Attempt) : List Attempt :=
  attempts.filter fun a => a.admitted == wanted

theorem only_cons_eq {wanted : Bool} {a : Attempt} {rest : List Attempt}
    (h : a.admitted = wanted) : only wanted (a :: rest) = a :: only wanted rest :=
  List.filter_cons_of_pos (by simp [h])

theorem only_cons_ne {wanted : Bool} {a : Attempt} {rest : List Attempt}
    (h : a.admitted ≠ wanted) : only wanted (a :: rest) = only wanted rest :=
  List.filter_cons_of_neg (by simpa using h)

/-- The errors under their positions. -/
def errors (attempts : List Attempt) : List (Nat × Error) :=
  attempts.filterMap fun a =>
    match a.result with
    | .ok _ => none
    | .error e => some (a.position, e)

theorem errors_cons_error {a : Attempt} {rest : List Attempt} {e : Error}
    (h : a.result = .error e) : errors (a :: rest) = (a.position, e) :: errors rest := by
  simp only [errors, List.filterMap_cons, h]

theorem errors_cons_ok {a : Attempt} {rest : List Attempt} {v : Value} (h : a.result = .ok v) :
    errors (a :: rest) = errors rest := by
  simp only [errors, List.filterMap_cons, h]

/-- The lines noted when members are tried in an order, the latest first. -/
def noted (lines : Nat → List String) : List Nat → List String
  | [] => []
  | i :: rest => noted lines rest ++ lines i

theorem noted_append (lines : Nat → List String) (first second : List Nat) :
    noted lines (first ++ second) = noted lines second ++ noted lines first := by
  induction first with
  | nil => simp [noted]
  | cons i rest ih => simp [noted, ih, List.append_assoc]

/-- Only positions of attempts are tried, each at most once. -/
theorem tried_sublist (attempts : List Attempt) :
    (tried attempts).Sublist (attempts.map Attempt.position) := by
  induction attempts with
  | nil => exact .refl _
  | cons a rest ih =>
      rw [tried, List.map_cons]
      split
      · exact (List.nil_sublist _).cons_cons _
      · exact ih.cons_cons _

/-- **Trying members in order.** -/
theorem tryEach_noting {W : List String → World → Prop} {v : Value} {lines : Nat → List String} :
    ∀ {attempts : List Attempt},
      (∀ a ∈ attempts, Noting W (a.run v) a.result (lines a.position)) →
      Noting W (tryEach v (attempts.map fun a => (a.position, a.run))) (outcome attempts)
        (noted lines (tried attempts))
  | [], _ => .pure _
  | a :: rest, h => by
      have ih := tryEach_noting fun x hx => h x (List.mem_cons_of_mem _ hx)
      have hrun := h a (List.mem_cons_self ..)
      rw [outcome, tried, List.map_cons]
      cases hr : a.result with
      | ok u =>
          rw [hr] at hrun
          exact hrun.bind (Noting.pure _)
      | error e =>
          rw [hr] at hrun
          refine hrun.bind ?_
          cases ho : outcome rest with
          | ok u =>
              rw [ho] at ih
              exact ih.bind_pure rfl
          | error es =>
              rw [ho] at ih
              exact ih.bind_pure rfl

/-! ### The two passes -/

/-- When an attempt succeeds, the first success is among those that are admitted. -/
theorem outcome_only_of_ok {v : Value} : ∀ {attempts : List Attempt},
    (∀ a ∈ attempts, a.admitted = false → ∃ e, a.result = .error e) →
    trial (attempts.map Attempt.result) = .ok v → outcome (only true attempts) = .ok v
  | [], _, h => by cases h
  | a :: rest, hfail, h => by
      have ih := outcome_only_of_ok (v := v) fun x hx => hfail x (List.mem_cons_of_mem _ hx)
      rw [List.map_cons] at h
      cases hr : a.result with
      | ok u =>
          have ha : a.admitted = true := by
            by_contra hn
            obtain ⟨e, he⟩ := hfail a (List.mem_cons_self ..) (by simpa using hn)
            rw [hr] at he
            cases he
          rw [hr, trial] at h
          cases h
          rw [only_cons_eq ha, outcome, hr]
      | error e =>
          have hrest : trial (rest.map Attempt.result) = .ok v := by
            rw [hr, trial] at h
            cases ht : trial (rest.map Attempt.result) with
            | ok u => rw [ht] at h; exact h
            | error es => rw [ht] at h; cases h
          cases ha : a.admitted with
          | true =>
              rw [only_cons_eq ha, outcome, hr, ih hrest]
          | false =>
              rw [only_cons_ne (by simp [ha])]
              exact ih hrest

/-- When no attempt succeeds, plain trial gives the errors of all. -/
theorem errors_of_error {es : List Error} : ∀ {attempts : List Attempt},
    trial (attempts.map Attempt.result) = .error es →
      (∀ a ∈ attempts, ∃ e, a.result = .error e) ∧ (errors attempts).map Prod.snd = es
  | [], h => by
      cases h
      exact ⟨fun a ha => (by cases ha), rfl⟩
  | a :: rest, h => by
      rw [List.map_cons] at h
      cases hr : a.result with
      | ok u => rw [hr] at h; cases h
      | error e =>
          rw [hr, trial] at h
          cases ht : trial (rest.map Attempt.result) with
          | ok u => rw [ht] at h; cases h
          | error es' =>
              rw [ht] at h
              cases h
              obtain ⟨hall, hes⟩ := errors_of_error ht
              refine ⟨fun x hx => ?_, ?_⟩
              · rcases List.mem_cons.1 hx with rfl | hx
                · exact ⟨e, hr⟩
                · exact hall x hx
              · rw [errors_cons_error hr, List.map_cons, hes]

theorem outcome_of_errors : ∀ {attempts : List Attempt},
    (∀ a ∈ attempts, ∃ e, a.result = .error e) → outcome attempts = .error (errors attempts)
  | [], _ => rfl
  | a :: rest, h => by
      obtain ⟨e, he⟩ := h a (List.mem_cons_self ..)
      have ih := outcome_of_errors fun x hx => h x (List.mem_cons_of_mem _ hx)
      rw [outcome, he, ih, errors_cons_error he]

/-- Every error stands under the position of an attempt. -/
theorem position_of_mem_errors {attempts : List Attempt} {x : Nat × Error}
    (h : x ∈ errors attempts) : ∃ a ∈ attempts, a.position = x.1 := by
  obtain ⟨a, ha, hx⟩ := List.mem_filterMap.1 h
  refine ⟨a, ha, ?_⟩
  split at hx
  · cases hx
  · cases hx
    rfl

/-- An error with a position before all others comes first. -/
theorem inOrder_cons_left {x : Nat × Error} {first rest : List (Nat × Error)}
    (h : ∀ y ∈ rest, x.1 < y.1) : inOrder (x :: first) rest = x.2 :: inOrder first rest := by
  cases rest with
  | nil => simp [inOrder]
  | cons y rest =>
      rw [inOrder, List.cons_merge_cons_pos _ _ _
        (by simpa using Nat.le_of_lt (h y (List.mem_cons_self ..)))]
      rfl

theorem inOrder_cons_right {x : Nat × Error} {first rest : List (Nat × Error)}
    (h : ∀ y ∈ first, x.1 < y.1) : inOrder first (x :: rest) = x.2 :: inOrder first rest := by
  cases first with
  | nil => simp [inOrder]
  | cons y first =>
      rw [inOrder, List.cons_merge_cons_neg _ _ _
        (by simpa using h y (List.mem_cons_self ..))]
      rfl

/-- **Putting the errors of both passes in order gives all errors.** -/
theorem inOrder_errors : ∀ {attempts : List Attempt},
    attempts.Pairwise (fun a b => a.position < b.position) →
    inOrder (errors (only true attempts)) (errors (only false attempts)) =
      (errors attempts).map Prod.snd
  | [], _ => by simp [inOrder, only, errors]
  | a :: rest, h => by
      obtain ⟨hlt, hrest⟩ := List.pairwise_cons.1 h
      have ih := inOrder_errors hrest
      have later : ∀ wanted, ∀ y ∈ errors (only wanted rest), a.position < y.1 := by
        intro wanted y hy
        obtain ⟨b, hb, hpos⟩ := position_of_mem_errors hy
        exact hpos ▸ hlt b (List.mem_filter.1 hb).1
      cases ha : a.admitted with
      | true =>
          rw [only_cons_eq ha, only_cons_ne (by simp [ha])]
          cases hr : a.result with
          | ok u => rw [errors_cons_ok hr, errors_cons_ok hr, ih]
          | error e =>
              rw [errors_cons_error hr, errors_cons_error hr, inOrder_cons_left (later false), ih]
              rfl
      | false =>
          rw [only_cons_eq ha, only_cons_ne (by simp [ha])]
          cases hr : a.result with
          | ok u => rw [errors_cons_ok hr, errors_cons_ok hr, ih]
          | error e =>
              rw [errors_cons_error hr, errors_cons_error hr, inOrder_cons_right (later true), ih]
              rfl

/-- The order in which members are tried: those admitted, and then, if need be, the others. -/
def order (attempts : List Attempt) : List Nat :=
  match outcome (only true attempts) with
  | .ok _ => tried (only true attempts)
  | .error _ => tried (only true attempts) ++ tried (only false attempts)

/-- **No member is tried twice.** -/
theorem order_nodup {attempts : List Attempt}
    (h : attempts.Pairwise fun a b => a.position < b.position) : (order attempts).Nodup := by
  have hpositions : (attempts.map Attempt.position).Nodup := List.pairwise_map.2 (h.imp Nat.ne_of_lt)
  have nodup : ∀ wanted, (tried (only wanted attempts)).Nodup := fun wanted =>
    ((tried_sublist _).trans (List.filter_sublist.map _)).nodup hpositions
  rw [order]
  split
  · exact nodup true
  · refine (nodup true).append (nodup false) fun i hi hi' => ?_
    -- a position has one flag only
    obtain ⟨a, ha, hai⟩ := List.mem_map.1 ((tried_sublist _).subset hi)
    obtain ⟨b, hb, hbi⟩ := List.mem_map.1 ((tried_sublist _).subset hi')
    obtain ⟨ha, hta⟩ := List.mem_filter.1 ha
    obtain ⟨hb, htb⟩ := List.mem_filter.1 hb
    have hab : a = b := List.inj_on_of_nodup_map hpositions ha hb (hai.trans hbi.symm)
    subst hab
    simp only [beq_iff_eq] at hta htb
    rw [hta] at htb
    cases htb

end Attempt

/-- Parsing as one of the members, given those of both passes. -/
theorem parseMembers_noting {W : List String → World → Prop} {v : Value}
    {lines : Nat → List String} {tags : List (Option Tag)} {members : List Runner}
    {attempts : List Attempt}
    (hmembers : marked tags v members =
      attempts.map fun a => (a.admitted, a.position, a.run))
    (hsorted : attempts.Pairwise fun a b => a.position < b.position)
    (hfail : ∀ a ∈ attempts, a.admitted = false → ∃ e, a.result = .error e)
    (hrun : ∀ a ∈ attempts, Noting W (a.run v) a.result (lines a.position)) :
    Noting W (parseMembers tags members v) (firstMatch (attempts.map Attempt.result))
      (Attempt.noted lines (Attempt.order attempts)) := by
  have pass : ∀ wanted, Noting W (tryEach v (selected wanted (marked tags v members)))
      (Attempt.outcome (Attempt.only wanted attempts))
      (Attempt.noted lines (Attempt.tried (Attempt.only wanted attempts))) := by
    intro wanted
    have hsel : selected wanted (marked tags v members) =
        (Attempt.only wanted attempts).map fun a => (a.position, a.run) := by
      rw [hmembers, selected, List.filter_map, List.map_map]
      rfl
    rw [hsel]
    exact Attempt.tryEach_noting fun a ha => hrun a (List.mem_filter.1 ha).1
  rw [parseMembers, firstMatch, Attempt.order]
  cases ht : trial (attempts.map Attempt.result) with
  | ok u =>
      have hok := Attempt.outcome_only_of_ok hfail ht
      rw [hok]
      have first := pass true
      rw [hok] at first
      exact first.bind_pure rfl
  | error es =>
      obtain ⟨hall, hes⟩ := Attempt.errors_of_error ht
      have houtcome : ∀ wanted, Attempt.outcome (Attempt.only wanted attempts) =
          .error (Attempt.errors (Attempt.only wanted attempts)) := fun wanted =>
        Attempt.outcome_of_errors fun a ha => hall a (List.mem_filter.1 ha).1
      rw [houtcome true]
      have first := pass true
      have second := pass false
      rw [houtcome] at first second
      rw [← hes, ← Attempt.inOrder_errors hsorted, Attempt.noted_append]
      exact first.bind (second.bind_pure rfl)

/-- Members under their positions, each with its own result. -/
theorem members_noting {W : List String → World → Prop} {v : Value} {members : List Schema}
    {results : List Result} (runner : Nat → Schema → Runner) (lines : Nat → List String)
    (hlen : members.length = results.length)
    (hfail : ∀ (i : Nat) (h : i < members.length), admitted v (members[i].tag? .input) = false →
      ∃ e, results[i] = .error e)
    (hrun : ∀ (i : Nat) (h : i < members.length),
      Noting W (runner i members[i] v) results[i] (lines i)) :
    ∃ order : List Nat, order.Nodup ∧
      Noting W (parseMembers (members.map (Schema.tag? .input)) (members.mapIdx runner) v)
        (firstMatch results) (Attempt.noted lines order) := by
  let attempts : List Attempt := (members.zip results).mapIdx fun i x =>
    ⟨admitted v (x.1.tag? .input), i, runner i x.1, x.2⟩
  have hresults : attempts.map Attempt.result = results :=
    List.ext_getElem (by simp [attempts, hlen]) (by simp [attempts])
  have hsorted : attempts.Pairwise fun a b => a.position < b.position := by
    rw [List.pairwise_iff_getElem]
    simp [attempts]
  refine ⟨Attempt.order attempts, Attempt.order_nodup hsorted, ?_⟩
  rw [← hresults]
  refine parseMembers_noting ?_ hsorted (fun a ha => ?_) fun a ha => ?_
  · exact List.ext_getElem (by simp [attempts, marked, hlen]) (by simp [attempts, marked])
  · obtain ⟨i, hi, rfl⟩ := List.mem_mapIdx.1 ha
    intro hadmitted
    simp only [List.getElem_zip] at hadmitted ⊢
    exact hfail i _ hadmitted
  · obtain ⟨i, hi, rfl⟩ := List.mem_mapIdx.1 ha
    simp only [List.getElem_zip]
    exact hrun i _

/-! ### Members that announce themselves -/

/-- A union whose members note their label before they are run. -/
def Operation.announced (label : Nat → String) : Operation → Operation
  | .parseUnion members tags =>
      .parseUnion (members.mapIdx fun i op => .applyFirst .parsing (.log (label i)) op) tags
  | op => op

/-- The worlds ahead with a log. -/
abbrev World.Logged (w₀ : World) (nodes : List Schema) (log : List String) (w : World) : Prop :=
  w₀.Later nodes w ∧ w.log = log

theorem Noting.announced {w₀ : World} {nodes : List Schema} {m : Machine} {op : Operation}
    {v : Value} {r : Result} (h : Noting (w₀.Logged nodes) (op.run m v) r [])
    (direction : Direction) (label : String) :
    Noting (w₀.Logged nodes)
      ((Operation.applyFirst direction (.log label) op).run m v) r [label ++ ":" ++ v.text] := by
  intro log w hw
  obtain ⟨w', hw', hrun⟩ := h _ { w with log := (label ++ ":" ++ v.text) :: w.log }
    ⟨hw.1.withLog _, rfl⟩
  exact ⟨w', by rwa [hw.2] at hw', hrun⟩

theorem Attempt.noted_nothing (order : List Nat) : noted (fun _ => []) order = [] := by
  induction order with
  | nil => rfl
  | cons i rest ih => rw [noted, ih, List.append_nil]

theorem Attempt.noted_singleton (line : Nat → String) (order : List Nat) :
    noted (fun i => [line i]) order = (order.map line).reverse := by
  induction order with
  | nil => rfl
  | cons i rest ih => rw [noted, ih, List.map_cons, List.reverse_cons]

/-! ### Compiled unions -/

/-- What running a member's own parse gives; a bare reference to the union itself counts as a
failure. -/
def OwnParse (w₁ w : World) (members : List Schema) (fuel : Nat) (v : Value) (t : Schema)
    (r : Result) : Prop :=
  if refersBack w₁ (members.map Schema.id) t then r = .error (selfMemberError .parsing)
  else ∃ w', t.parse fuel v w = .ok (r, w')

section

variable {w₁ w₂ : World} {nodes : List Schema} {N : Schema → Prop} {members : List Schema}
  {fuel : Nat} {v : Value}

/-- A member's operation gives what its own parse gives, and notes nothing. -/
theorem OwnParse.noting (h : w₂.Closed nodes N) {t : Schema} (ht : N t) {r : Result}
    (hown : OwnParse w₁ w₂ members fuel v t r) :
    Noting (w₂.Logged nodes)
      ((memberParser w₁ (members.map Schema.id) w₂.planned t).atOnce.run (machine fuel) v) r [] := by
  rw [OwnParse] at hown
  rw [memberParser]
  split at hown
  · rename_i hr
    rw [if_pos hr, hown]
    exact .pure _
  · rename_i hr
    rw [if_neg hr]
    obtain ⟨w', hrun⟩ := hown
    -- the member was run with one log, and gives the same with any other
    have hgives := Schema.gives_of_parseOn (h.compiles) ht (h.parse_runs h.compiles fuel ht)
      h.sound.later hrun
    refine .of_gives fun log w hw => ?_
    obtain ⟨w₃, hw₃, hrun₃⟩ := hgives w hw.1
    exact h.parse_runs (h.compiles_log log) fuel ht v w r w₃ hw hrun₃ w hw

/-- A member that the value does not admit fails. -/
theorem OwnParse.fails (h : w₂.Closed nodes N) {t : Schema} (ht : N t) {r : Result}
    (hv : v.WellFormed) (hown : OwnParse w₁ w₂ members fuel v t r)
    (hadmitted : admitted v (t.tag? .input) = false) : ∃ e, r = .error e := by
  rw [OwnParse] at hown
  split at hown
  · exact ⟨_, hown⟩
  · obtain ⟨w', hrun⟩ := hown
    obtain ⟨w₃, -, happly⟩ := Schema.parseOn_apply h.compiles ht h.sound.later v (m := machine fuel)
    rw [Schema.parse, happly] at hrun
    cases hg : t.tag? .input with
    | none => rw [hg] at hadmitted; cases hadmitted
    | some g =>
        rw [hg] at hadmitted
        exact h.sound.fails_of_not_admitted h.shaped t (h.member t ht) g hg v (hv.legible g) hadmitted
          _ _ _ hrun

end

/-- The operation of a union, put together from the members' planned operations. -/
def unionParser (w₁ w : World) (members : List Schema) : Operation :=
  .parseUnion (members.map fun t => (memberParser w₁ (members.map Schema.id) w.planned t).atOnce)
    (members.map (Schema.tag? .input))

theorem unionParser_run (w₁ w : World) (members : List Schema) (m : Machine) (v : Value) :
    (unionParser w₁ w members).run m v =
      parseMembers (members.map (Schema.tag? .input)) (members.mapIdx fun _ t =>
        (memberParser w₁ (members.map Schema.id) w.planned t).atOnce.run m) v := by
  rw [unionParser, Operation.run, runners_eq_map]
  exact congrArg (parseMembers _ · v) (List.ext_getElem (by simp) (by simp))

theorem unionParser_announced_run (w₁ w : World) (members : List Schema) (m : Machine) (v : Value)
    (label : Nat → String) :
    ((unionParser w₁ w members).announced label).run m v =
      parseMembers (members.map (Schema.tag? .input)) (members.mapIdx fun i t =>
        (Operation.applyFirst .parsing (.log (label i))
          (memberParser w₁ (members.map Schema.id) w.planned t).atOnce).run m) v := by
  rw [unionParser, Operation.announced, Operation.run, runners_eq_map]
  exact congrArg (parseMembers _ · v) (List.ext_getElem (by simp) (by simp))

namespace Scene

variable {σ τ : Scene} {s : Schema} {members : List Schema} {c : Compiled ParseOperation}
  {u : Operation} {w₁ : World}

/-- The operation of a union that was compiled from an empty cell, in any later scene. -/
theorem Reachable.union_operation (hσ : σ.Reachable) (hs : s ∈ σ.nodes)
    (hkind : s.kind = .union members) (hempty : σ.world.parseCells s.id = .empty)
    (hcompile : s.parseOperation σ.world = .ok (c, w₁)) (hop : c.operation = .direct u)
    (hτ : Leads ⟨w₁, σ.nodes⟩ τ) :
    τ.Reachable ∧ s ∈ τ.nodes ∧ τ.world.parsePlan s = c ∧
      u = unionParser σ.world τ.world members := by
  have hsound := hσ.sound
  obtain ⟨w', hrun, hlater, hfilled, -⟩ := Schema.parseOperation_done hsound hs hsound.later
  rw [hcompile] at hrun
  cases hrun
  have hstep : Step .using σ ⟨w₁, σ.nodes⟩ := .parseOperation hs hcompile
  have hreach : Reachable ⟨w₁, σ.nodes⟩ := hσ.tail ⟨_, hstep⟩
  obtain ⟨hnodes, hkept, -⟩ := hτ.kept hreach.sound hreach.shaped
  refine ⟨hreach.trans hτ, hnodes hs, World.parsePlan_of_filled (hkept s hs _ hfilled), ?_⟩
  -- the members that are not refused are compiled, now and in the later scene
  have hbelow : ∀ t ∈ s.kind.embedded σ.world,
      (if t.id < s.id then σ.world.planned t else .direct .noop) = τ.world.planned t := by
    intro t ht
    obtain ⟨htn, hlt⟩ := hsound.hosts.below s hs t (Kind.embedded_subset _ _ ht)
    obtain ⟨b, hb⟩ := (hlater.ahead.parse.closed s hs _ hfilled).resolve_left (by simp [hempty]) t ht
    rw [if_pos hlt, World.planned, World.planned, World.parsePlan_of_filled (hkept t htn b hb),
      hlater.ahead.parse.planned t htn b hb]
  rw [World.parsePlan_of_unfilled (by rw [hempty]; rfl), Kind.parser_congr rfl rfl _ _ hbelow,
    hkind] at hop
  cases hanswer : σ.world.answer s with
  | true =>
      rw [hanswer] at hop
      cases hop
  | false =>
      rw [hanswer] at hop
      cases hop
      rfl

/-- **A compiled union parses like trying its members one after the other.**  Let a union be
compiled in any reachable scene to an operation that does not wait.  In any later scene, if parsing
a value with each member on its own ends, parsing with the union gives the first success, or a
union error with the errors of all members.  When the members announce themselves, each is seen to
be run at most once. -/
theorem Reachable.parse_union_eq_firstMatch (hσ : σ.Reachable) (hs : s ∈ σ.nodes)
    (hkind : s.kind = .union members) (hempty : σ.world.parseCells s.id = .empty)
    (hcompile : s.parseOperation σ.world = .ok (c, w₁)) (hop : c.operation = .direct u)
    (hτ : Leads ⟨w₁, σ.nodes⟩ τ) (hpure : ∀ t, τ.world.Reaches s t → t.kind.Pure) (fuel : Nat)
    {v : Value} (hv : v.WellFormed) {results : List Result}
    (hresults : List.Forall₂ (OwnParse σ.world τ.world members fuel v) members results) :
    (∃ w, s.parse fuel v τ.world = .ok (firstMatch results, w)) ∧
    ∀ label : Nat → String, ∃ (order : List Nat) (w : World), order.Nodup ∧
      (u.announced label).run (machine fuel) v τ.world = .ok (firstMatch results, w) ∧
      w.log = (order.map fun i => label i ++ ":" ++ v.text).reverse ++ τ.world.log := by
  obtain ⟨hreach, hsτ, hplan, rfl⟩ := hσ.union_operation hs hkind hempty hcompile hop hτ
  have hclosed := World.Closed.of_reaches hreach.sound hreach.shaped hsτ hpure
  have hlen := hresults.length_eq
  have hN : ∀ t ∈ members, τ.world.Reaches s t := fun t ht =>
    .single (World.leads_of_child (by rw [Schema.children, hkind]; exact ht))
  have hown : ∀ (i : Nat) (h : i < members.length),
      OwnParse σ.world τ.world members fuel v members[i] results[i] := fun i h =>
    List.forall₂_iff_get.1 hresults |>.2 i h (hlen ▸ h)
  have hfail := fun (i : Nat) (h : i < members.length) =>
    (hown i h).fails hclosed (hN _ (List.getElem_mem h)) hv
  have hrun := fun (i : Nat) (h : i < members.length) =>
    (hown i h).noting hclosed (hN _ (List.getElem_mem h))
  constructor
  · obtain ⟨order, -, hnoting⟩ := members_noting (fun _ t => (memberParser σ.world
      (members.map Schema.id) τ.world.planned t).atOnce.run (machine fuel)) (fun _ => []) hlen hfail hrun
    rw [Attempt.noted_nothing] at hnoting
    have hgives : Gives (τ.world.Logged τ.nodes τ.world.log)
        ((τ.world.planned s).atOnce.run (machine fuel) v) (firstMatch results) := by
      rw [World.planned, hplan, hop, ParseOperation.atOnce, unionParser_run]
      exact hnoting.gives _
    obtain ⟨w, -, hparse⟩ := Schema.parseOn_gives (hclosed.compiles_log _) .refl hgives τ.world
      ⟨hclosed.sound.later, rfl⟩
    exact ⟨w, hparse⟩
  · intro label
    obtain ⟨order, hnodup, hnoting⟩ := members_noting (fun i t => (Operation.applyFirst .parsing
      (.log (label i)) (memberParser σ.world (members.map Schema.id) τ.world.planned t).atOnce).run
        (machine fuel)) (fun i => [label i ++ ":" ++ v.text]) hlen hfail
          fun i h => (hrun i h).announced .parsing (label i)
    rw [Attempt.noted_singleton] at hnoting
    obtain ⟨w, hw, hparse⟩ := hnoting τ.world.log τ.world ⟨hclosed.sound.later, rfl⟩
    exact ⟨order, w, hnodup, by rw [unionParser_announced_run, hparse], hw.2⟩

/-! ### A union with a tagged member -/

/-- One letter only. -/
def letter : Schema := .node 0 (.literal (.string "a")) Metadata.empty none

/-- Any text. -/
def text : Schema := .node 1 .string Metadata.empty none

/-- The letter, or else any text. -/
def choice : Schema := .node 2 (.union [letter, text]) Metadata.empty none

/-- The scene of the union. -/
def alternatives : Scene := ⟨made 3 0, [choice, text, letter]⟩

theorem alternatives_reachable : alternatives.Reachable := by
  have h₁ : Step .building initial ⟨made 1 0, [letter]⟩ :=
    .made (fun t ht => by cases ht) (by trivial)
  have h₂ : Step .building ⟨made 1 0, [letter]⟩ ⟨made 2 0, [text, letter]⟩ :=
    .made (fun t ht => by cases ht) (by trivial)
  have h₃ : Step .building ⟨made 2 0, [text, letter]⟩ alternatives :=
    .made (fun t ht => by simpa [Kind.children, or_comm] using ht) (by simp [Kind.Formed])
  exact .tail (.tail (.single ⟨_, h₁⟩) ⟨_, h₂⟩) ⟨_, h₃⟩

/-- The scene once the union is compiled. -/
def compiledAlternatives : Scene where
  world := match choice.parseOperation alternatives.world with
    | .ok (_, w) => w
    | .error _ => alternatives.world
  nodes := alternatives.nodes

theorem compiledAlternatives_pure (t : Schema)
    (h : compiledAlternatives.world.Reaches choice t) : t.kind.Pure := by
  have hstep : Step .using alternatives compiledAlternatives :=
    .parseOperation (s := choice) (List.mem_cons_self ..) rfl
  have hsound := Reachable.sound (alternatives_reachable.tail ⟨_, hstep⟩)
  have ht : t ∈ [choice, text, letter] := hsound.hosts.reaches (List.mem_cons_self ..) h
  simp only [List.mem_cons, List.not_mem_nil, or_false] at ht
  rcases ht with rfl | rfl | rfl <;> trivial

/-- Neither member takes null, which is tried with the text first; both errors are there, in
order. -/
theorem parse_union_eq_firstMatch_null : ∃ (c : Compiled ParseOperation) (u : Operation),
    choice.parseOperation alternatives.world = .ok (c, compiledAlternatives.world) ∧
    c.operation = .direct u ∧ ∃ w, choice.parse 1 .null compiledAlternatives.world =
      .ok (.error (Error.atRoot (.invalidUnion [literalError .parsing (.string "a") .null,
        Error.invalidType .parsing "String" .null]) .parsing), w) := by
  refine ⟨_, _, rfl, rfl, ?_⟩
  have hown : List.Forall₂ (OwnParse alternatives.world compiledAlternatives.world [letter, text] 1
      .null) [letter, text] [.error (literalError .parsing (.string "a") .null),
        .error (Error.invalidType .parsing "String" .null)] :=
    .cons ⟨_, rfl⟩ (.cons ⟨_, rfl⟩ .nil)
  exact (alternatives_reachable.parse_union_eq_firstMatch (s := choice)
    (List.mem_cons_self ..) rfl rfl rfl rfl .refl compiledAlternatives_pure 1 (v := .null) trivial hown).1

end Scene

end Schemata
