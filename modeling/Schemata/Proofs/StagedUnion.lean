/-
**A union that waits tries its members in turn.**

Starting such a union starts its members one after the other, up to the first that has its value.
If only failures came before, this value is the union's, and if there are nothing but failures the
union fails; everything else is left to do.  What is left is carried on in turn as well: a member is
polled when all before it have failed, and those after it stay as they are.  In the end this comes
to the same as carrying each member to its end by itself and taking the first that succeeds.

Main definitions:

* `Schemata.InTurn` — computations carried out one after the other;
* `Schemata.UpToReady` — outcomes up to the first that is ready;
* `Schemata.PollsInTurn` — one poll of what is left of members;
* `Schemata.Task.Becomes`, `Schemata.GotTo` — what many polls leave;
* `Schemata.Scene.TriesInTurn` — **what trying members in turn comes to**.

Main results:

* `Schemata.stageMembers_inTurn_iff`, `Schemata.pollAttempts_inTurn` — one start and one poll;
* `Schemata.GotTo.poll`, `Schemata.gotTo_of_becomes` — **many polls**;
* `Schemata.resolveMembers_concludes` — what is started comes to the first success;
* `Schemata.Scene.Called.staged_union_triesInTurn` — **a union that waits tries its members in
  turn**.
-/

import Schemata.Proofs.CompositeLaw
import Schemata.Proofs.UndiscriminatedUnion
import Schemata.Proofs.UnionTrial

set_option relaxedAutoImplicit false
set_option autoImplicit false

namespace Schemata

/-! ### One after the other -/

/-- **Computations carried out one after the other**, with their values and the world they leave. -/
inductive InTurn {α : Type} : List (Run α) → World → List α → World → Prop
  | nil (w : World) : InTurn [] w [] w
  | cons {c : Run α} {rest : List (Run α)} {a : α} {as : List α} {w w₁ w₂ : World} :
      c w = .ok (a, w₁) → InTurn rest w₁ as w₂ → InTurn (c :: rest) w (a :: as) w₂

/-- An outcome that is no value. -/
def Unready : Except Error Staged → Prop
  | .ok (.ready _) => False
  | _ => True

/-- **Outcomes up to the first that is ready**, with what is not tried after it. -/
def UpToReady {α : Type} : List (Except Error Staged) → List α → Prop
  | [], untried => untried = []
  | .ok (.ready _) :: rest, _ => rest = []
  | _ :: rest, untried => UpToReady rest untried

section

variable {α : Type} {o : Except Error Staged} {rest : List (Except Error Staged)}

theorem unready_or_ready (o : Except Error Staged) : Unready o ∨ ∃ a, o = .ok (.ready a) := by
  rcases o with e | (a | t)
  · exact .inl trivial
  · exact .inr ⟨a, rfl⟩
  · exact .inl trivial

theorem upToReady_cons (ho : Unready o) (untried : List α) :
    UpToReady (o :: rest) untried ↔ UpToReady rest untried := by
  rcases o with e | (a | t)
  · exact Iff.rfl
  · exact ho.elim
  · exact Iff.rfl

theorem upToReady_errors (es : List Error) (untried : List α) :
    UpToReady (es.map .error) untried ↔ untried = [] := by
  induction es with
  | nil => exact Iff.rfl
  | cons e es ih => exact ih

theorem upToReady_ready (es : List Error) (a : Value) (untried : List α) :
    UpToReady (es.map .error ++ [.ok (.ready a)]) untried := by
  induction es with
  | nil => rfl
  | cons e es ih => exact ih

theorem upToReady_map {β : Type} (f : α → β) : ∀ {outcomes : List (Except Error Staged)}
    {untried : List α}, UpToReady outcomes (untried.map f) ↔ UpToReady outcomes untried
  | [], _ => List.map_eq_nil_iff
  | o :: rest, untried => by
      rcases unready_or_ready o with ho | ⟨a, rfl⟩
      · rw [upToReady_cons ho, upToReady_cons ho, upToReady_map f]
      · exact Iff.rfl

/-- Outcomes can be taken up to the first that is ready. -/
theorem exists_upToReady {β : Type} {S : α → Except Error Staged → Prop}
    {C : Except Error Staged → β → Prop} {members : List α} {results : List β}
    (h : List.Forall₂ (fun x r => ∃ o, S x o ∧ C o r) members results) :
    ∃ tried untried outcomes first others, members = tried ++ untried ∧
      results = first ++ others ∧ List.Forall₂ S tried outcomes ∧ List.Forall₂ C outcomes first ∧
      UpToReady outcomes untried ∧ (untried = [] → others = []) := by
  induction h with
  | nil => exact ⟨[], [], [], [], [], rfl, rfl, .nil, .nil, rfl, fun _ => rfl⟩
  | @cons x r members results ho hrest ih =>
      obtain ⟨o, hx, ho⟩ := ho
      rcases unready_or_ready o with hun | ⟨a, rfl⟩
      · obtain ⟨tried, untried, outcomes, first, others, rfl, rfl, hall, hall', hup, hnil⟩ := ih
        exact ⟨x :: tried, untried, o :: outcomes, r :: first, others, rfl, rfl, .cons hx hall,
          .cons ho hall', (upToReady_cons hun _).2 hup, hnil⟩
      · refine ⟨[x], members, [_], [r], results, rfl, rfl, .cons hx .nil, .cons ho .nil, rfl, ?_⟩
        rintro rfl
        cases hrest
        rfl

/-- What is tried up to the first that does not fail. -/
theorem forall₂_errors {S : α → Except Error Staged → Prop} :
    ∀ {es : List Error} {tried : List α},
      List.Forall₂ S tried (es.map .error ++ o :: rest) →
        ∃ before x after, tried = before ++ x :: after ∧ (∀ y ∈ before, ∃ e, S y (.error e)) ∧ S x o
  | [], x :: after, .cons hx _ => ⟨[], x, after, rfl, List.forall_mem_nil _, hx⟩
  | e :: es, y :: tried, .cons hy htried => by
      obtain ⟨before, x, after, rfl, hbefore, hx⟩ := forall₂_errors htried
      exact ⟨y :: before, x, after, rfl, List.forall_mem_cons.2 ⟨⟨e, hy⟩, hbefore⟩, hx⟩

/-- What follows the outcome of a member: nothing when it is ready, or else the next ones. -/
def followedBy (o : Except Error Staged) (next : Run (List (Except Error Staged))) :
    Run (List (Except Error Staged)) :=
  match o with
  | .ok (.ready a) => return [.ok (.ready a)]
  | outcome => do return outcome :: (← next)

theorem followedBy_unready (ho : Unready o) (next : Run (List (Except Error Staged))) :
    followedBy o next = do return o :: (← next) := by
  rcases o with e | (a | t)
  · rfl
  · exact ho.elim
  · rfl

theorem stageMembers_cons (member : Stager) (members : List Stager) (v : Value) :
    stageMembers v (member :: members) =
      member v >>= fun o => followedBy o (stageMembers v members) := rfl

end

/-- **Starting members starts them in turn, up to the first that is ready**, and does nothing
else. -/
theorem stageMembers_inTurn_iff {v : Value} : ∀ {members : List Stager} {w w' : World}
    {outcomes : List (Except Error Staged)},
    stageMembers v members w = .ok (outcomes, w') ↔ ∃ tried untried, members = tried ++ untried ∧
      InTurn (tried.map fun member => member v) w outcomes w' ∧ UpToReady outcomes untried
  | [], w, w', outcomes => by
      constructor
      · intro h
        cases h
        exact ⟨[], [], rfl, .nil _, rfl⟩
      · rintro ⟨tried, untried, hsplit, hturn, -⟩
        obtain ⟨rfl, -⟩ := List.append_eq_nil_iff.1 hsplit.symm
        cases hturn
        rfl
  | member :: rest, w, w', outcomes => by
      constructor
      · intro h
        rw [stageMembers_cons] at h
        obtain ⟨o, w₁, hmember, h⟩ := of_bind_ok h
        rcases unready_or_ready o with ho | ⟨a, rfl⟩
        · rw [followedBy_unready ho] at h
          obtain ⟨outs, w₂, hrest, h⟩ := of_bind_ok h
          cases h
          obtain ⟨tried, untried, rfl, hturn, hup⟩ := stageMembers_inTurn_iff.1 hrest
          exact ⟨member :: tried, untried, rfl, .cons hmember hturn, (upToReady_cons ho _).2 hup⟩
        · cases h
          exact ⟨[member], rest, rfl, .cons hmember (.nil _), rfl⟩
      · rintro ⟨tried, untried, hsplit, hturn, hup⟩
        cases tried with
        | nil =>
            cases hturn
            cases (show untried = [] from hup)
            cases hsplit
        | cons x tried =>
            obtain ⟨rfl, hrest⟩ := List.cons.inj hsplit
            cases hturn with
            | @cons _ _ o outs _ w₁ _ hmember hturn =>
                rcases unready_or_ready o with ho | ⟨a, rfl⟩
                · have ih := stageMembers_inTurn_iff.2
                    ⟨tried, untried, hrest, hturn, (upToReady_cons ho _).1 hup⟩
                  rw [stageMembers_cons, bind_ok hmember, followedBy_unready ho, bind_ok ih]
                  rfl
                · cases (show outs = [] from hup)
                  obtain rfl : tried = [] := by cases tried with
                    | nil => rfl
                    | cons => cases hturn
                  cases hturn
                  rw [stageMembers_cons, bind_ok hmember]
                  rfl

/-! ### Polls of attempts -/

/-- **One poll of attempts.**  They are polled in turn as long as they fail.  The first one that
does not fail ends it, and those after it stay as they are. -/
inductive PollsInTurn (m : Machine) (errors : List Error) (attempts : List Task) (w : World) :
    Poll → World → Prop
  | fails {es : List Error} {w' : World} :
      InTurn (attempts.map (Task.poll m)) w (es.map fun e => .ready (.error e)) w' →
      PollsInTurn m errors attempts w
        (.ready (.error (Error.atRoot (.invalidUnion (errors ++ es)) .parsing))) w'
  | succeeds (before : List Task) (t : Task) (after : List Task) (es : List Error)
      {w₁ w' : World} {v : Value} : attempts = before ++ t :: after →
      InTurn (before.map (Task.poll m)) w (es.map fun e => .ready (.error e)) w₁ →
      t.poll m w₁ = .ok (.ready (.ok v), w') →
      PollsInTurn m errors attempts w (.ready (.ok v)) w'
  | waits (before : List Task) (t : Task) (after : List Task) (es : List Error)
      {w₁ w' : World} {t' : Task} : attempts = before ++ t :: after →
      InTurn (before.map (Task.poll m)) w (es.map fun e => .ready (.error e)) w₁ →
      t.poll m w₁ = .ok (.pending t', w') →
      PollsInTurn m errors attempts w (.pending (.firstSuccess (errors ++ es) (t' :: after))) w'

section

variable {m : Machine}

/-- An attempt that fails is followed by the next ones. -/
theorem PollsInTurn.cons {errors : List Error} {t : Task} {rest : List Task} {w w₁ w' : World}
    {e : Error} {p : Poll} (ht : t.poll m w = .ok (.ready (.error e), w₁))
    (h : PollsInTurn m (errors ++ [e]) rest w₁ p w') : PollsInTurn m errors (t :: rest) w p w' := by
  cases h with
  | fails hturn =>
      rw [List.append_assoc]
      exact .fails (.cons ht hturn)
  | succeeds before t' after es hsplit hturn ht' =>
      exact .succeeds (t :: before) t' after (e :: es) (congrArg (t :: ·) hsplit)
        (.cons ht hturn) ht'
  | waits before t' after es hsplit hturn ht' =>
      rw [List.append_assoc]
      exact .waits (t :: before) t' after (e :: es) (congrArg (t :: ·) hsplit) (.cons ht hturn) ht'

/-- **One poll of attempts polls them in turn, as long as they fail.** -/
theorem pollAttempts_inTurn : ∀ {attempts : List Task} {errors : List Error} {w w' : World}
    {p : Poll}, pollAttempts m errors attempts w = .ok (p, w') →
      PollsInTurn m errors attempts w p w'
  | [], errors, w, w', p, h => by
      cases h
      have hnone : PollsInTurn m errors [] w (.ready (.error (Error.atRoot
        (.invalidUnion (errors ++ [])) .parsing))) w := .fails (.nil w)
      rwa [List.append_nil] at hnone
  | t :: rest, errors, w, w', p, h => by
      rw [pollAttempts] at h
      obtain ⟨q, w₁, ht, h⟩ := of_bind_ok h
      rcases q with (e | v) | t'
      · exact .cons ht (pollAttempts_inTurn h)
      · cases h
        exact .succeeds [] t rest [] rfl (.nil w) ht
      · cases h
        have hwaits : PollsInTurn m errors (t :: rest) w
            (.pending (.firstSuccess (errors ++ []) (t' :: rest))) w' :=
          .waits [] t rest [] rfl (.nil w) ht
        rwa [List.append_nil] at hwaits

end

/-! ### Many polls -/

/-- **What many polls leave of a task**, in whatever worlds it is polled. -/
def Task.Becomes : Task → Task → Prop :=
  Relation.ReflTransGen fun t u => ∃ fuel w w', t.poll (machine fuel) w = .ok (.pending u, w')

/-- A task that is polled until it fails. -/
def Task.FailsWith (t : Task) (e : Error) : Prop :=
  ∃ u fuel w w', t.Becomes u ∧ u.poll (machine fuel) w = .ok (.ready (.error e), w')

/-- **How far attempts have got.**  Those before have been polled until they failed, one has been
polled and is not done, and those after it have not been polled. -/
def GotTo (attempts : List Task) (errors : List Error) (left : List Task) : Prop :=
  ∃ failed t now after, attempts = failed ++ t :: after ∧ left = now :: after ∧
    List.Forall₂ Task.FailsWith failed errors ∧ t.Becomes now

/-- What has been polled in turn and has failed. -/
theorem InTurn.failsWith {fuel : Nat} : ∀ {ts : List Task} {es : List Error} {w w' : World},
    InTurn (ts.map (Task.poll (machine fuel))) w (es.map fun e => .ready (.error e)) w' →
      List.Forall₂ Task.FailsWith ts es
  | [], [], _, _, _ => .nil
  | t :: ts, _ :: es, _, _, .cons ht hts => .cons ⟨t, fuel, _, _, .refl, ht⟩ hts.failsWith

/-- **A poll gets attempts further**, one after the other. -/
theorem GotTo.poll {attempts left : List Task} {errors : List Error}
    (h : GotTo attempts errors left) {fuel : Nat} {w w' : World} {u : Task}
    (hpoll : (Task.firstSuccess errors left).poll (machine fuel) w = .ok (.pending u, w')) :
    ∃ errors' left', u = .firstSuccess errors' left' ∧ GotTo attempts errors' left' := by
  obtain ⟨failed, t, now, after, rfl, rfl, hfailed, hnow⟩ := h
  rw [Task.poll] at hpoll
  cases pollAttempts_inTurn hpoll with
  | waits before x rest es hsplit hturn hx =>
      refine ⟨_, _, rfl, ?_⟩
      cases before with
      | nil =>
          -- the one that was not done is still not done
          obtain ⟨rfl, rfl⟩ := List.cons.inj hsplit
          cases es with
          | cons => cases hturn
          | nil =>
              cases hturn
              exact ⟨failed, t, _, after, rfl, rfl, by rwa [List.append_nil],
                hnow.tail ⟨_, _, _, hx⟩⟩
      | cons y before =>
          -- it has failed, and some after it
          obtain ⟨rfl, rfl⟩ := List.cons.inj hsplit
          cases es with
          | nil => cases hturn
          | cons e es =>
              cases hturn with
              | cons hy hturn =>
                  refine ⟨failed ++ t :: before, x, _, rest, by simp, rfl, ?_,
                    .single ⟨_, _, _, hx⟩⟩
                  exact List.rel_append hfailed
                    (.cons ⟨now, fuel, w, _, hnow, hy⟩ hturn.failsWith)

/-- **Many polls get attempts further**, one after the other. -/
theorem gotTo_of_becomes {attempts : List Task} (hne : attempts ≠ []) {u : Task}
    (h : (Task.firstSuccess [] attempts).Becomes u) :
    ∃ errors left, u = .firstSuccess errors left ∧ GotTo attempts errors left := by
  induction h with
  | refl =>
      obtain ⟨t, after, rfl⟩ := List.exists_cons_of_ne_nil hne
      exact ⟨[], _, rfl, ⟨[], t, t, after, rfl, rfl, .nil, .refl⟩⟩
  | tail _ hpoll ih =>
      obtain ⟨errors, left, rfl, hgot⟩ := ih
      obtain ⟨fuel, w, w', hpoll⟩ := hpoll
      exact hgot.poll hpoll

/-! ### Outcomes as one -/

theorem allErrors?_eq_some_iff : ∀ {outcomes : List (Except Error Staged)} {es : List Error},
    allErrors? outcomes = some es ↔ outcomes = es.map .error
  | [], es => by simp [allErrors?, eq_comm]
  | .error e :: rest, es => by
      simp only [allErrors?, Option.map_eq_some_iff, allErrors?_eq_some_iff]
      constructor
      · rintro ⟨es, rfl, rfl⟩
        rfl
      · intro h
        cases es with
        | nil => cases h
        | cons e' es =>
            obtain ⟨he, rfl⟩ := List.cons.inj h
            cases he
            exact ⟨es, rfl, rfl⟩
  | .ok a :: rest, es => by cases es <;> simp [allErrors?]

theorem readyAfterErrors?_eq_some_iff : ∀ {outcomes : List (Except Error Staged)} {a : Value},
    readyAfterErrors? outcomes = some a ↔
      ∃ (es : List Error) (rest : List (Except Error Staged)),
        outcomes = es.map .error ++ .ok (.ready a) :: rest
  | [], a => by simp [readyAfterErrors?]
  | .error e :: outcomes, a => by
      rw [readyAfterErrors?, readyAfterErrors?_eq_some_iff]
      constructor
      · rintro ⟨es, rest, rfl⟩
        exact ⟨e :: es, rest, rfl⟩
      · rintro ⟨es, rest, h⟩
        cases es with
        | nil => cases h
        | cons e' es => exact ⟨es, rest, (List.cons.inj h).2⟩
  | .ok (.ready b) :: outcomes, a => by
      constructor
      · intro h
        cases h
        exact ⟨[], outcomes, rfl⟩
      · rintro ⟨es, rest, h⟩
        cases es with
        | nil => cases h; rfl
        | cons e' es => cases h
  | .ok (.pending t) :: outcomes, a => by
      constructor
      · intro h
        cases h
      · rintro ⟨es, rest, h⟩
        cases es <;> cases h

/-- The outcomes of members as one outcome. -/
inductive Resolves (outcomes : List (Except Error Staged)) : Except Error Staged → Prop
  | ready (es : List Error) (a : Value) (rest : List (Except Error Staged)) :
      outcomes = es.map .error ++ .ok (.ready a) :: rest → Resolves outcomes (.ok (.ready a))
  | error (es : List Error) : outcomes = es.map .error →
      Resolves outcomes (.error (Error.atRoot (.invalidUnion es) .parsing))
  | pending : readyAfterErrors? outcomes = none → allErrors? outcomes = none →
      Resolves outcomes (.ok (.pending (.firstSuccess [] (outcomes.map outcomeTask))))

theorem resolveMembers_resolves (outcomes : List (Except Error Staged)) :
    Resolves outcomes (resolveMembers outcomes) := by
  rw [resolveMembers]
  cases hready : readyAfterErrors? outcomes with
  | some a =>
      obtain ⟨es, rest, h⟩ := readyAfterErrors?_eq_some_iff.1 hready
      exact .ready es a rest h
  | none =>
      cases herrors : allErrors? outcomes with
      | some es => exact .error es (allErrors?_eq_some_iff.1 herrors)
      | none => exact .pending hready herrors

theorem resolveMembers_errors (es : List Error) :
    resolveMembers (es.map .error) = .error (Error.atRoot (.invalidUnion es) .parsing) := by
  have hready : readyAfterErrors? (es.map .error) = none := by
    induction es with
    | nil => rfl
    | cons e es ih => exact ih
  rw [resolveMembers, hready, allErrors?_eq_some_iff.2 rfl]

theorem resolveMembers_ready (es : List Error) (a : Value) (rest : List (Except Error Staged)) :
    resolveMembers (es.map .error ++ .ok (.ready a) :: rest) = .ok (.ready a) := by
  rw [resolveMembers, readyAfterErrors?_eq_some_iff.2 ⟨es, rest, rfl⟩]

/-! ### The first success -/

theorem firstMatch_errors (es : List Error) :
    firstMatch (es.map .error) = .error (Error.atRoot (.invalidUnion es) .parsing) := by
  have htrial : trial (es.map .error) = .error es := by
    induction es with
    | nil => rfl
    | cons e es ih => rw [List.map_cons, trial, ih]
  rw [firstMatch, htrial]

theorem firstMatch_success (es : List Error) (a : Value) (rest : List Result) :
    firstMatch (es.map .error ++ .ok a :: rest) = .ok a := by
  have htrial : trial (es.map .error ++ .ok a :: rest) = .ok a := by
    induction es with
    | nil => rfl
    | cons e es ih => rw [List.map_cons, List.cons_append, trial, ih]
  rw [firstMatch, htrial]

section

variable {W : World → Prop} {w : World} (hw : W w)

include hw

/-- What is left of outcomes that are errors comes to these errors. -/
theorem errors_conclude {outcomes : List (Except Error Staged)} : ∀ {es : List Error}
    {results : List Result},
    List.Forall₂ (fun o r => (outcomeTask o).Concludes W r) (es.map .error ++ outcomes) results →
      ∃ others, results = es.map .error ++ others ∧
        List.Forall₂ (fun o r => (outcomeTask o).Concludes W r) outcomes others
  | [], _, h => ⟨_, rfl, h⟩
  | e :: es, _, .cons he hes => by
      obtain ⟨others, rfl, hothers⟩ := errors_conclude hes
      exact ⟨others, by rw [he.of_done hw]; rfl, hothers⟩

/-- Results of members that are not tried are not looked at. -/
theorem trial_upToReady {α : Type} : ∀ {outcomes : List (Except Error Staged)} {untried : List α}
    {results others : List Result}, UpToReady outcomes untried →
    List.Forall₂ (fun o r => (outcomeTask o).Concludes W r) outcomes results →
      (untried = [] → others = []) → trial (results ++ others) = trial results
  | [], untried, _, others, hup, .nil, hothers => by rw [hothers hup, List.append_nil]
  | o :: rest, untried, _, others, hup, .cons ho hrest, hothers => by
      rcases unready_or_ready o with hun | ⟨a, rfl⟩
      · have ih := trial_upToReady ((upToReady_cons hun _).1 hup) hrest hothers
        rename_i r rs
        cases r with
        | error e => rw [List.cons_append, trial, ih, trial]
        | ok v => rfl
      · rw [ho.of_done hw]
        rfl

variable (h : FuelHelps W)

include h

/-- **Attempts come to the first success**, after errors of earlier ones. -/
theorem concludeAttempts_firstMatch : ∀ {ts : List Task} {results : List Result},
    List.Forall₂ (Task.Concludes W) ts results → ∀ errors : List Error,
      Yields W (fun n => concludeAttempts (machine n) (concluding n) ts errors)
        (firstMatch (errors.map .error ++ results))
  | [], _, .nil, errors => by
      rw [List.append_nil, firstMatch_errors]
      exact .pure _
  | t :: ts, r :: results, .cons ht hts, errors => by
      refine Yields.bind ht ?_ (h.conclude_rising t) ?_ hw
      · rcases r with e | v
        · have ih := concludeAttempts_firstMatch hts (errors ++ [e])
          rwa [List.map_append, List.append_assoc] at ih
        · rw [firstMatch_success]
          exact .pure _
      · rcases r with e | v
        · exact h.concludeAttempts_rising ts (errors ++ [e])
        · exact .pure _

/-- **What is left of members comes to the first success among what is left of each.** -/
theorem resolveMembers_concludes {outcomes : List (Except Error Staged)} {results : List Result}
    (hall : List.Forall₂ (fun o r => (outcomeTask o).Concludes W r) outcomes results) :
    (outcomeTask (resolveMembers outcomes)).Concludes W (firstMatch results) := by
  have hresolves := resolveMembers_resolves outcomes
  generalize resolveMembers outcomes = outcome at hresolves
  cases hresolves with
  | ready es a rest heq =>
      obtain ⟨others, rfl, hothers⟩ := errors_conclude hw (heq ▸ hall)
      cases hothers with
      | cons ha _ =>
          rw [ha.of_done hw, firstMatch_success]
          exact .pure _
  | error es heq =>
      rw [heq, ← List.append_nil (es.map _)] at hall
      obtain ⟨others, rfl, hothers⟩ := errors_conclude hw hall
      cases hothers
      rw [List.append_nil, firstMatch_errors]
      exact .pure _
  | pending =>
      exact concludeAttempts_firstMatch hw h (List.forall₂_map_left_iff.2 hall) []

/-! ### Members that are started -/

omit h hw in
theorem Staging.refl (o : Except Error Staged) : Staging Eq o o := by
  rcases o with e | (a | t)
  · exact .error e
  · exact .ready a
  · exact .pending rfl

omit h hw in
theorem stageMembers_rising {α : Type} {starts : α → Nat → Stager} {v : Value}
    (hrise : ∀ x, Rising W fun n => starts x n v) (members : List α) :
    Rising W fun n => stageMembers v (members.map fun x => starts x n) := fun n k hk =>
  (stageMembers_mimics (T := Eq) (forall₂_map_map (l := members) fun x _ =>
    (hrise x n k hk).mono fun o _ ho => ho ▸ Staging.refl o)).mono fun _ _ ho =>
      List.forall₂_eq_eq_eq ▸ ho.imp fun _ _ => Staging.eq

omit h in
/-- **Members started in turn, up to the first that is ready**: what they come to is what each of
them comes to. -/
theorem yields_stageMembers_iff {α : Type} {starts : α → Nat → Stager} {v : Value}
    (hrise : ∀ x, Rising W fun n => starts x n v) :
    ∀ {members : List α} {outcomes : List (Except Error Staged)},
      Yields W (fun n => stageMembers v (members.map fun x => starts x n)) outcomes ↔
        ∃ tried untried, members = tried ++ untried ∧
          List.Forall₂ (fun x o => Yields W (fun n => starts x n v) o) tried outcomes ∧
          UpToReady outcomes untried
  | [], outcomes => by
      constructor
      · intro h
        rw [← Yields.of_pure h hw]
        exact ⟨[], [], rfl, .nil, rfl⟩
      · rintro ⟨tried, untried, hsplit, hall, -⟩
        obtain ⟨rfl, -⟩ := List.append_eq_nil_iff.1 hsplit.symm
        cases hall
        exact .pure _
  | x :: rest, outcomes => by
      have hothers := stageMembers_rising hrise rest
      have hnext : ∀ o, Rising W fun n =>
          followedBy o (stageMembers v (rest.map fun x => starts x n)) := by
        intro o
        rcases unready_or_ready o with ho | ⟨a, rfl⟩
        · simp only [followedBy_unready ho]
          exact hothers.bind fun _ => .pure _
        · exact .pure _
      simp only [List.map_cons, stageMembers_cons]
      constructor
      · intro h
        obtain ⟨o, ho, h⟩ := Yields.of_bind h (hrise x) hnext hw
        rcases unready_or_ready o with hun | ⟨a, rfl⟩
        · simp only [followedBy_unready hun] at h
          obtain ⟨outs, houts, h⟩ := Yields.of_bind h hothers (fun _ => .pure _) hw
          rw [← Yields.of_pure h hw]
          obtain ⟨tried, untried, rfl, hall, hup⟩ := (yields_stageMembers_iff hrise).1 houts
          exact ⟨x :: tried, untried, rfl, .cons ho hall, (upToReady_cons hun _).2 hup⟩
        · rw [← Yields.of_pure h hw]
          exact ⟨[x], rest, rfl, .cons ho .nil, rfl⟩
      · rintro ⟨tried, untried, hsplit, hall, hup⟩
        cases hall with
        | nil =>
            cases (show untried = [] from hup)
            cases hsplit
        | @cons y o tried outs ho hall =>
            obtain ⟨rfl, hrest⟩ := List.cons.inj hsplit
            refine Yields.bind ho ?_ (hrise x) (hnext o) hw
            rcases unready_or_ready o with hun | ⟨a, rfl⟩
            · simp only [followedBy_unready hun]
              have ih := (yields_stageMembers_iff hrise).2
                ⟨tried, untried, hrest, hall, (upToReady_cons hun _).1 hup⟩
              exact Yields.bind ih (.pure _) hothers (.pure _) hw
            · cases (show outs = [] from hup)
              exact .pure _

end

namespace Scene

/-! ### Unions that wait -/

variable {σ : Scene} {s u : Schema} {members : List Schema} {v : Value} {r : Result}
  {o : Except Error Staged}

/-- **A parse is started**, with an outcome. -/
def Starts (σ : Scene) (s : Schema) (v : Value) (o : Except Error Staged) : Prop :=
  ∃ fuel w, s.stage fuel v σ.world = .ok (o, w)

/-- A member is started.  One that is the union itself is refused. -/
def MemberStarts (σ : Scene) (members : List Schema) (v : Value) (u : Schema)
    (o : Except Error Staged) : Prop :=
  if refersBack σ.world (members.map Schema.id) u then o = .error (selfMemberError .parsing)
  else σ.Starts u v o

/-- **A member is carried to its end by itself**: it is started, and what is left is driven. -/
def MemberFinishes (σ : Scene) (members : List Schema) (v : Value) (u : Schema) (r : Result) :
    Prop :=
  if refersBack σ.world (members.map Schema.id) u then r = .error (selfMemberError .parsing)
  else σ.Comes (fun fuel => u.parseAsync fuel v) r

/-- The operation of a member. -/
def memberOperation (σ : Scene) (members : List Schema) (u : Schema) : ParseOperation :=
  memberParser σ.world (members.map Schema.id) σ.world.planned u

/-- **Trying members in turn.** -/
structure TriesInTurn (σ : Scene) (s : Schema) (members : List Schema) (v : Value) : Prop where
  /-- In the end there is the first success of the members, or a union error with all errors. -/
  finishes : ∀ results, List.Forall₂ (σ.MemberFinishes members v) members results →
    ∀ r, σ.Comes (fun fuel => s.parseAsync fuel v) r ↔ r = firstMatch results
  /-- Starting fails exactly when it does for all members, with the errors of all. -/
  fails : ∀ e, σ.Starts s v (.error e) ↔
    ∃ es, List.Forall₂ (fun u e => σ.MemberStarts members v u (.error e)) members es ∧
      e = Error.atRoot (.invalidUnion es) .parsing
  /-- It is ready exactly when the first member is that does not fail. -/
  ready : ∀ a, σ.Starts s v (.ok (.ready a)) ↔
    ∃ before u, FirstOf (fun u r => σ.MemberStarts members v u r.toStaged) members before u a
  /-- No member is started after one that is ready. -/
  starts : ∀ fuel w o w', (σ.world.planned s).stage (machine fuel) v w = .ok (o, w') →
    ∃ tried untried outcomes, members = tried ++ untried ∧
      InTurn (tried.map fun u => (σ.memberOperation members u).stage (machine fuel) v) w outcomes
        w' ∧ UpToReady outcomes untried ∧ o = resolveMembers outcomes
  /-- No member is polled before all earlier ones have failed. -/
  polls : ∀ t, σ.Starts s v (.ok (.pending t)) → ∃ tried untried outcomes,
    members = tried ++ untried ∧ List.Forall₂ (σ.MemberStarts members v) tried outcomes ∧
      UpToReady outcomes untried ∧ t = .firstSuccess [] (outcomes.map outcomeTask) ∧
      ∀ u, t.Becomes u → ∃ errors left, u = .firstSuccess errors left ∧
        GotTo (outcomes.map outcomeTask) errors left ∧
        ∀ fuel w p w', u.poll (machine fuel) w = .ok (p, w') →
          PollsInTurn (machine fuel) errors left w p w'

theorem starts_iff (h : σ.world.Sound σ.nodes) (hs : s ∈ σ.nodes) (v : Value)
    (o : Except Error Staged) : σ.Starts s v o ↔ Yields (σ.world.Later σ.nodes)
      (fun n => (σ.world.planned s).stage (machine n) v) o :=
  begins_iff (p := ⟨.index 0, s, v⟩) h hs o

theorem memberStarts_iff (h : σ.world.Sound σ.nodes) (hu : u ∈ σ.nodes) :
    σ.MemberStarts members v u o ↔ Yields (σ.world.Later σ.nodes)
      (fun n => (σ.memberOperation members u).stage (machine n) v) o := by
  rw [MemberStarts, memberOperation, memberParser]
  split
  · exact ⟨fun ho => ho ▸ .pure _, fun ho => (ho.of_pure h.later).symm⟩
  · exact starts_iff h hu v o

theorem memberFinishes_iff (h : σ.world.Sound σ.nodes) (hu : u ∈ σ.nodes) :
    σ.MemberFinishes members v u r ↔ ∃ o, σ.MemberStarts members v u o ∧
      (outcomeTask o).Concludes (σ.world.Later σ.nodes) r := by
  simp only [MemberFinishes, MemberStarts]
  split
  · constructor
    · rintro rfl
      exact ⟨_, rfl, .pure _⟩
    · rintro ⟨_, rfl, hr⟩
      exact hr.of_done h.later
  · rw [comes_parseAsync_iff h hu]
    refine exists_congr fun o => and_congr_left fun _ => ?_
    rw [starts_iff h hu, yields_stage_iff h hu]

/-- The operation of a union that waits is made of those of its members. -/
theorem Invariants.planned_union (inv : σ.Invariants) (hs : s ∈ σ.nodes)
    (hkind : s.kind = .union members) (hasync : ∃ u ∈ members, σ.world.ReachesAsync u) :
    σ.world.planned s = .union (members.map (σ.memberOperation members)) := by
  obtain ⟨w, o, waits, hw, -, -, hplan⟩ := inv.sound.parsePlan_shape inv.shaped (.refl _) hs
  have hwaits := inv.sound.planned_isAsync hs
  rw [World.planned, hplan, Kind.parser_isAsync] at hwaits
  obtain ⟨u, hu, hua⟩ := hasync
  have hlead : σ.world.Leads s u := World.leads_of_child (by rwa [Schema.children, hkind])
  obtain rfl : waits = true := hwaits.trans <|
    (inv.exact.answer_iff inv.sound.hosts hs).2 (World.reachesAsync_of_leads hlead hua)
  rw [World.planned, hplan, hkind]
  refine congrArg ParseOperation.union (List.map_congr_left fun u _ => ?_)
  rw [memberOperation, memberParser, memberParser, refersBack_congr hw.1]

/-- **Starting a union that waits starts its members up to the first that is ready.** -/
theorem Invariants.starts_union_iff (inv : σ.Invariants) (hs : s ∈ σ.nodes)
    (hkind : s.kind = .union members) (hasync : ∃ u ∈ members, σ.world.ReachesAsync u) :
    σ.Starts s v o ↔ ∃ tried untried outcomes, members = tried ++ untried ∧
      List.Forall₂ (σ.MemberStarts members v) tried outcomes ∧ UpToReady outcomes untried ∧
      o = resolveMembers outcomes := by
  have hmem : ∀ u ∈ members, u ∈ σ.nodes := fun u hu =>
    (inv.sound.hosts.below s hs u (by rwa [Schema.children, hkind])).1
  have hw := inv.sound.later
  have hrise := fun u => (fuelHelps inv.sound).stage_rising (σ.memberOperation members u) v
  have hiff := @yields_stageMembers_iff _ _ hw _
    (fun u n => (σ.memberOperation members u).stage (machine n)) v hrise members
  rw [starts_iff inv.sound hs, inv.planned_union hs hkind hasync]
  simp only [ParseOperation.stage, stagers_eq_map, List.map_map]
  constructor
  · intro h
    obtain ⟨outcomes, houtcomes, h⟩ := Yields.of_bind h (stageMembers_rising hrise members)
      (fun _ => .pure _) hw
    obtain ⟨tried, untried, hsplit, hall, hup⟩ := hiff.1 houtcomes
    refine ⟨tried, untried, outcomes, hsplit, ?_, hup, (Yields.of_pure h hw).symm⟩
    exact forall₂_imp_mem hall fun u hu o => (memberStarts_iff inv.sound
      (hmem u (hsplit ▸ List.mem_append_left _ hu))).2
  · rintro ⟨tried, untried, outcomes, hsplit, hall, hup, rfl⟩
    refine Yields.bind (hiff.2 ⟨tried, untried, hsplit, ?_, hup⟩) (.pure _)
      (stageMembers_rising hrise members) (.pure _) hw
    exact forall₂_imp_mem hall fun u hu o => (memberStarts_iff inv.sound
      (hmem u (hsplit ▸ List.mem_append_left _ hu))).1

/-- Starting fails exactly when it does for all members. -/
theorem Invariants.starts_union_error_iff (inv : σ.Invariants) (hs : s ∈ σ.nodes)
    (hkind : s.kind = .union members) (hasync : ∃ u ∈ members, σ.world.ReachesAsync u)
    (e : Error) : σ.Starts s v (.error e) ↔
      ∃ es, List.Forall₂ (fun u e => σ.MemberStarts members v u (.error e)) members es ∧
        e = Error.atRoot (.invalidUnion es) .parsing := by
  rw [inv.starts_union_iff hs hkind hasync]
  constructor
  · rintro ⟨tried, untried, outcomes, hsplit, hall, hup, he⟩
    have hresolves := resolveMembers_resolves outcomes
    rw [← he] at hresolves
    cases hresolves with
    | error es heq =>
        subst heq
        rw [(upToReady_errors es untried).1 hup, List.append_nil] at hsplit
        rw [← hsplit, List.forall₂_map_right_iff] at hall
        exact ⟨es, hall, rfl⟩
  · rintro ⟨es, hall, rfl⟩
    exact ⟨members, [], es.map .error, (List.append_nil members).symm,
      List.forall₂_map_right_iff.2 hall, (upToReady_errors es []).2 rfl,
      (resolveMembers_errors es).symm⟩

/-- Starting leaves a value exactly when it does for the first member that does not fail. -/
theorem Invariants.starts_union_ready_iff (inv : σ.Invariants) (hs : s ∈ σ.nodes)
    (hkind : s.kind = .union members) (hasync : ∃ u ∈ members, σ.world.ReachesAsync u)
    (a : Value) : σ.Starts s v (.ok (.ready a)) ↔ ∃ before u,
      FirstOf (fun u r => σ.MemberStarts members v u r.toStaged) members before u a := by
  rw [inv.starts_union_iff hs hkind hasync]
  constructor
  · rintro ⟨tried, untried, outcomes, hsplit, hall, hup, ha⟩
    have hresolves := resolveMembers_resolves outcomes
    rw [← ha] at hresolves
    cases hresolves with
    | ready es _ rest heq =>
        subst heq
        obtain ⟨before, u, after, rfl, hbefore, hu⟩ := forall₂_errors hall
        exact ⟨before, u, ⟨after ++ untried, by simpa using hsplit⟩, hbefore, hu⟩
  · rintro ⟨before, u, ⟨after, hsplit⟩, hbefore, hu⟩
    obtain ⟨es, hes⟩ := exists_forall₂ hbefore
    exact ⟨before ++ [u], after, es.map .error ++ [.ok (.ready a)], by simpa using hsplit,
      List.rel_append (List.forall₂_map_right_iff.2 hes) (.cons hu .nil),
      upToReady_ready es a after, (resolveMembers_ready es a []).symm⟩

/-- **In the end a union that waits comes to the first success of its members.** -/
theorem Invariants.union_finishes (inv : σ.Invariants) (hs : s ∈ σ.nodes)
    (hkind : s.kind = .union members) (hasync : ∃ u ∈ members, σ.world.ReachesAsync u)
    {results : List Result}
    (hresults : List.Forall₂ (σ.MemberFinishes members v) members results) :
    σ.Comes (fun fuel => s.parseAsync fuel v) (firstMatch results) := by
  have hmem : ∀ u ∈ members, u ∈ σ.nodes := fun u hu =>
    (inv.sound.hosts.below s hs u (by rwa [Schema.children, hkind])).1
  have hw := inv.sound.later
  obtain ⟨tried, untried, outcomes, first, others, hsplit, rfl, hall, hconclude, hup, hnil⟩ :=
    exists_upToReady (forall₂_imp_mem hresults fun u hu r =>
      (memberFinishes_iff inv.sound (hmem u hu)).1)
  have htrial : firstMatch (first ++ others) = firstMatch first := by
    rw [firstMatch, firstMatch, trial_upToReady hw hup hconclude hnil]
  rw [htrial, comes_parseAsync_iff inv.sound hs]
  refine ⟨resolveMembers outcomes, ?_, resolveMembers_concludes hw (fuelHelps inv.sound) hconclude⟩
  rw [yields_stage_iff inv.sound hs, ← starts_iff inv.sound hs]
  exact (inv.starts_union_iff hs hkind hasync).2 ⟨tried, untried, outcomes, hsplit, hall, hup, rfl⟩

/-- **A union that waits tries its members in turn.**  In any state that calls lead to, once
everything is bound, let a union have a member that waits.  Driven to its end, it comes to the first
success among what its members come to by themselves, or to a union error with all their errors.
Starting it fails when it fails for every member, and leaves a value when the first member does that
does not fail; no member is started after one that is ready, and none is polled before all earlier
ones have failed. -/
theorem Called.staged_union_triesInTurn (hσ : σ.Called) (hs : s ∈ σ.nodes)
    (hkind : s.kind = .union members) (hasync : ∃ u ∈ members, σ.world.ReachesAsync u) (v : Value) :
    σ.TriesInTurn s members v := by
  have inv := hσ.invariants
  constructor
  · intro results hresults r
    have hfirst := inv.union_finishes hs hkind hasync hresults
    exact ⟨fun hr => parseAsync_unique inv.sound hs hr hfirst, fun hr => hr ▸ hfirst⟩
  · exact inv.starts_union_error_iff hs hkind hasync
  · exact inv.starts_union_ready_iff hs hkind hasync
  · intro fuel w o w' hrun
    rw [inv.planned_union hs hkind hasync, ParseOperation.stage] at hrun
    obtain ⟨outcomes, w₁, hmembers, hrun⟩ := of_bind_ok hrun
    cases hrun
    rw [stagers_eq_map, List.map_map] at hmembers
    obtain ⟨_, _, hsplit, hturn, hup⟩ := stageMembers_inTurn_iff.1 hmembers
    obtain ⟨tried, untried, rfl, rfl, rfl⟩ := List.map_eq_append_iff.1 hsplit
    rw [List.map_map] at hturn
    exact ⟨tried, untried, outcomes, rfl, hturn, (upToReady_map _).1 hup, rfl⟩
  · intro t ht
    obtain ⟨tried, untried, outcomes, hsplit, hall, hup, ht⟩ :=
      (inv.starts_union_iff hs hkind hasync).1 ht
    have hresolves := resolveMembers_resolves outcomes
    rw [← ht] at hresolves
    cases hresolves with
    | pending _ herrors =>
        refine ⟨tried, untried, outcomes, hsplit, hall, hup, rfl, fun u hu => ?_⟩
        have hne : outcomes.map outcomeTask ≠ [] := by
          rintro hnil
          rw [List.map_eq_nil_iff] at hnil
          rw [hnil] at herrors
          cases herrors
        obtain ⟨errors, left, rfl, hgot⟩ := gotTo_of_becomes hne hu
        exact ⟨errors, left, rfl, hgot, fun fuel w p w' hpoll => pollAttempts_inTurn hpoll⟩

/-! ### A word that is looked up -/

/-- A word that is looked up elsewhere, and only one is found. -/
def lookedUp : Schema :=
  .node 0 (.custom "word" ⟨some (.async ⟨.compute fun
    | .string "known" => .ok (.string "known")
    | _ => .error (.message "unknown"), 1, none⟩), none⟩) Metadata.empty none

/-- A truth value. -/
def immediate : Schema := .node 1 .bool Metadata.empty none

/-- One or the other. -/
def lookedUpOrImmediate : Schema := .node 2 (.union [lookedUp, immediate]) Metadata.empty none

/-- The scene of the union. -/
def lookups : Scene := ⟨made 3 0, [lookedUpOrImmediate, immediate, lookedUp]⟩

theorem lookups_called : lookups.Called := by
  have h₁ : Step .building initial ⟨made 1 0, [lookedUp]⟩ :=
    .made (fun t ht => by cases ht) trivial
  have h₂ : Step .building ⟨made 1 0, [lookedUp]⟩ ⟨made 2 0, [immediate, lookedUp]⟩ :=
    .made (fun t ht => by cases ht) trivial
  have h₃ : Step .building ⟨made 2 0, [immediate, lookedUp]⟩ lookups :=
    .made (fun t ht => by simpa [Kind.children, or_comm] using ht) (by simp [Kind.Formed])
  refine ⟨lookups, .tail (.tail (.single h₁) h₂) h₃, fun s hs r hr => ?_, .refl⟩
  simp only [lookups, List.mem_cons, List.not_mem_nil, or_false] at hs
  rcases hs with rfl | rfl | rfl <;> cases hr

/-- Null is neither found nor a truth value: the first failure comes late, and the second one at
once, but they are listed in order. -/
theorem staged_union_triesInTurn_null :
    lookups.Called ∧ lookedUpOrImmediate ∈ lookups.nodes ∧
    lookedUpOrImmediate.kind = .union [lookedUp, immediate] ∧
    (∃ u ∈ [lookedUp, immediate], lookups.world.ReachesAsync u) ∧
    lookups.Comes (fun fuel => lookedUpOrImmediate.parseAsync fuel .null)
      (.error (Error.atRoot (.invalidUnion [Error.atRoot (.custom "unknown") .parsing,
        Error.invalidType .parsing "Bool" .null]) .parsing)) := by
  have hmem : lookedUpOrImmediate ∈ lookups.nodes := List.mem_cons_self ..
  have hasync : ∃ u ∈ [lookedUp, immediate], lookups.world.ReachesAsync u :=
    ⟨lookedUp, List.mem_cons_self .., lookedUp, .refl, rfl⟩
  have hkind : lookedUpOrImmediate.kind = .union [lookedUp, immediate] := rfl
  have htries := lookups_called.staged_union_triesInTurn hmem hkind hasync .null
  have hresults : List.Forall₂ (lookups.MemberFinishes [lookedUp, immediate] .null)
      [lookedUp, immediate] [.error (Error.atRoot (.custom "unknown") .parsing),
        .error (Error.invalidType .parsing "Bool" .null)] :=
    .cons ⟨2, _, rfl⟩ (.cons ⟨2, _, rfl⟩ .nil)
  exact ⟨lookups_called, hmem, hkind, hasync, (htries.finishes _ hresults _).2 rfl⟩

end Scene

end Schemata
