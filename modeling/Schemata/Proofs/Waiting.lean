/-
**A task that is polled ends with its conclusion.**

Polls take place in rounds, and in each round everything is carried on that can be.  No round
changes what the task concludes with, so what it ends with is its conclusion.  The other way round,
a task with a conclusion ends: every function that is waited for has to be asked only so often, and
a composite needs as many rounds as the slowest of its children.

Main definitions:

* `Schemata.Task.Concludes`, `Schemata.Continuation.Concludes` — what a task comes to when nothing is
  waited for;
* `Schemata.Task.Finishes` — what a task comes to when it is polled.

Main results:

* `Schemata.Task.concludes_of_poll` — a poll does not change the conclusion;
* `Schemata.Task.finishes_iff_concludes` — **a task that is polled ends with its conclusion**;
* `Schemata.Schema.yields_parseAsync_iff` — what parsing with waiting comes to.
-/

import Schemata.Proofs.Caching
import Schemata.Proofs.Conclusion

set_option relaxedAutoImplicit false
set_option autoImplicit false

namespace Schemata

/-- **What a task comes to when nothing is waited for.** -/
def Task.Concludes (W : World → Prop) (t : Task) (r : Result) : Prop :=
  Yields W (fun n => t.conclude (machine n) (concluding n)) r

/-- What becomes of a value when nothing is waited for. -/
def Continuation.Concludes (W : World → Prop) (next : Continuation) (v : Value) (r : Result) :
    Prop :=
  Yields W (fun n => next.conclude (machine n) (concluding n) v) r

/-- **What a task comes to when it is polled.** -/
def Task.Finishes (W : World → Prop) (t : Task) (r : Result) : Prop :=
  Yields W (fun n => t.drive (machine n) n) r

section

variable {W : World → Prop} (h : FuelHelps W) {w : World} (hw : W w)

include h hw

/-! ### Conclusions -/

omit h in
theorem Task.Concludes.of_concluding {t : Task} {r : Result}
    (ht : Yields W (fun n => concluding n t) r) : t.Concludes W r := by
  obtain ⟨n, hn⟩ := ht
  cases n with
  | zero =>
      obtain ⟨_, -, hrun⟩ := hn w hw
      cases hrun
  | succ n => exact ⟨n, hn⟩

omit h hw in
theorem Task.Concludes.concluding {t : Task} {r : Result} (ht : t.Concludes W r) :
    Yields W (fun n => Schemata.concluding n t) r := by
  obtain ⟨n, hn⟩ := ht
  exact ⟨n + 1, hn⟩

theorem Task.Concludes.andThen {t : Task} {v : Value} {next : Continuation} {r : Result}
    (ht : t.Concludes W (.ok v)) (hnext : next.Concludes W v r) :
    (Task.andThen t next).Concludes W r :=
  Yields.bind ht hnext (h.conclude_rising t) (h.continue_rising next v) hw

theorem Task.Concludes.andThen_error {t : Task} {e : Error} (ht : t.Concludes W (.error e))
    (next : Continuation) : (Task.andThen t next).Concludes W (.error e) :=
  Yields.bind ht (.pure _) (h.conclude_rising t) (.pure _) hw

/-- What becomes of a task becomes of one with the same conclusion. -/
theorem Task.Concludes.congr {α : Type} {t t' : Task} {f : Nat → Result → Run α} {a : α}
    (ha : Yields W (fun n => t.conclude (machine n) (Schemata.concluding n) >>= f n) a)
    (hrise : ∀ r, Rising W fun n => f n r)
    (ht : ∀ r, t.Concludes W r → t'.Concludes W r) :
    Yields W (fun n => t'.conclude (machine n) (Schemata.concluding n) >>= f n) a := by
  obtain ⟨r, hr, hrest⟩ := Yields.of_bind ha (h.conclude_rising t) hrise hw
  exact Yields.bind (ht r hr) hrest (h.conclude_rising t') (hrise r) hw

/-! ### A poll does not change the conclusion -/

omit h in
/-- The conclusion of a task with nothing left to do. -/
theorem Task.Concludes.of_done {r x : Result} (ht : (Task.done x).Concludes W r) : r = x :=
  (Yields.of_pure ht hw).symm

omit h in
/-- A poll that ends with what a computation gives. -/
theorem Gives.of_ready {c : Run Result} {p : Poll} {r : Result}
    (hp : Gives W (do return .ready (← c)) p) (hc : Steady W c) (hr : p.toTask.Concludes W r) :
    Gives W c r := by
  obtain ⟨x, hx, hp⟩ := hp.of_bind hw hc fun _ => .pure _
  cases hp.of_pure hw
  rw [hr.of_done hw]
  exact hx

theorem pollCall_concludes {n waits : Nat} {f : Action} {input : Value} {p : Poll} {r : Result}
    (hp : Gives W (pollCall (machine n) waits f input) p) (hr : p.toTask.Concludes W r) :
    Yields W (fun n => f.runAs (machine n) .parsing input) r := by
  cases waits with
  | succ waits =>
      cases hp.of_pure hw
      exact hr
  | zero =>
      exact ⟨n, hp.of_ready hw ((h n n le_rfl).runAs (fun _ _ => trivial) .parsing input).steady hr⟩

theorem pollCheck_concludes {waits : Nat} {message : String} {test : Test} {v : Value} {p : Poll}
    {r : Result} (hp : Gives W (pollCheck waits message test v) p)
    (hr : p.toTask.Concludes W r) :
    Yields W (fun _ => checked .parsing message test v) r := by
  cases waits with
  | succ waits =>
      cases hp.of_pure hw
      exact hr
  | zero => exact ⟨0, hp.of_ready hw ((h 0 0 le_rfl).checked .parsing message test v).steady hr⟩

omit hw in
/-- What is left to do with the outcome of a parse that begins late. -/
theorem FuelHelps.late_rising (outcome : Except Error Staged) :
    Rising W fun n => (match outcome with
      | .error e => return .error e
      | .ok staged => concluding n staged.toTask : Run Result) := by
  intro n k hk
  rcases outcome with e | staged
  · exact .pure rfl
  · exact h.concluding_mimics hk _ _ (.refl _)

/-- The children of a composite that have all finished. -/
theorem concludeEach_finished : ∀ {polls : List Poll} {results : List Result},
    finished? polls = some results →
      Yields W (fun n => concludeEach (machine n) (concluding n) (polls.map Poll.toTask)) results
  | [], _, hfinished => by
      cases hfinished
      exact .pure _
  | .pending _ :: _, _, hfinished => by cases hfinished
  | .ready r :: rest, _, hfinished => by
      simp only [finished?, Option.map_eq_some_iff] at hfinished
      obtain ⟨others, hothers, rfl⟩ := hfinished
      exact Yields.bind (.pure r)
        (Yields.bind (concludeEach_finished hothers) (.pure _) (h.concludeEach_rising _)
          (.pure _) hw)
        (.pure r) ((h.concludeEach_rising _).bind fun _ => .pure _) hw

/-- Polls of parses that begin late do not change the conclusion. -/
def LatePollsConclude (W : World → Prop) (n : Nat) : Prop :=
  ∀ t p r, Gives W ((machine n).poll t) p → p.toTask.Concludes W r → t.Concludes W r

variable {n : Nat}

theorem Continuation.concludes_of_resume (hlate : LatePollsConclude W n) (next : Continuation)
    {v : Value} {p : Poll} {r : Result} (hp : Gives W (next.resume (machine n) v) p)
    (hr : p.toTask.Concludes W r) : next.Concludes W v r := by
  have hm := h n n le_rfl
  cases next with
  | apply f => exact ⟨n, hp.of_ready hw (hm.runAs (fun _ _ => trivial) .parsing v).steady hr⟩
  | applyAsync f =>
      obtain ⟨_, hnote, hp⟩ := hp.of_bind hw
        (noteIf_mimics hm.logs hm.logs f.announce v).steady fun _ => (pollCall_mimics hm _ _ _).steady
      exact Yields.bind (c := fun _ => noteIf f.announce v) ⟨0, hnote⟩
        (pollCall_concludes h hw hp hr)
        (fun _ _ _ => noteIf_mimics hm.logs hm.logs f.announce v)
        (fun n k hk => (h n k hk).runAs (fun _ _ => trivial) .parsing v) hw
  | parse op =>
      obtain ⟨outcome, houtcome, hp⟩ := hp.of_bind hw ((h.stage_rising op v).steady n)
        fun outcome => by
          rcases outcome with e | (a | t)
          · exact .pure _
          · exact .pure _
          · exact (hm.poll t).steady
      -- the parse begins now, and what it leaves is polled at once by the machine below: this is
      -- where `hlate` is needed
      refine Yields.bind (c := fun n => op.stage (machine n) v) ⟨n, houtcome⟩ ?_
        (h.stage_rising op v) (h.late_rising outcome) hw
      rcases outcome with e | (a | t)
      · cases hp.of_pure hw
        rw [hr.of_done hw]
        exact .pure _
      · cases hp.of_pure hw
        exact hr.concluding
      · exact (hlate t p r hp hr).concluding
  | check message test =>
      exact ⟨n, hp.of_ready hw (hm.checked .parsing message test v).steady hr⟩
  | checkAsync message test => exact pollCheck_concludes h hw hp hr
  | constant value =>
      cases hp.of_pure hw
      exact hr
  | orSupply supply =>
      obtain ⟨x, hx, hp⟩ := hp.of_bind hw (hm.orElse supply v).steady fun _ => .pure _
      cases hp.of_pure hw
      rw [hr.of_done hw]
      exact ⟨n, hx.bind (.pure _)⟩

mutual

/-- A poll does not change the conclusion, if those of parses that begin late do not. -/
theorem Task.concludes_of_poll_late (hlate : LatePollsConclude W n) : ∀ (t : Task) {p : Poll}
    {r : Result}, Gives W (t.poll (machine n)) p → p.toTask.Concludes W r → t.Concludes W r
  | .done _, _, _, hp, hr => by
      cases hp.of_pure hw
      exact hr
  | .call _ _ _, _, _, hp, hr => pollCall_concludes h hw hp hr
  | .check _ _ _ _, _, _, hp, hr => pollCheck_concludes h hw hp hr
  | .andThen task next, p, r, hp, hr => by
      obtain ⟨first, hfirst, hp⟩ := hp.of_bind hw ((h.poll_rising task).steady n) fun first => by
        rcases first with (e | v) | t
        · exact .pure _
        · exact (next.resume_mimics (h n n le_rfl) v).steady
        · exact .pure _
      have ih := fun x => Task.concludes_of_poll_late hlate task hfirst (r := x)
      rcases first with (e | v) | t
      · cases hp.of_pure hw
        rw [hr.of_done hw]
        exact (ih (.error e) (.pure _)).andThen_error h hw next
      · exact (ih (.ok v) (.pure _)).andThen h hw (next.concludes_of_resume h hw hlate hp hr)
      -- the task is pending still, and its continuation has not been touched
      · cases hp.of_pure hw
        refine Task.Concludes.congr h hw hr (fun x => ?_) ih
        rcases x with e | v
        · exact .pure _
        · exact h.continue_rising next v
  | .inside s task, p, r, hp, hr => by
      obtain ⟨first, hfirst, hp⟩ := hp.of_bind hw ((h.poll_rising task).steady n) fun first => by
        rcases first with (e | v) | t <;> exact .pure _
      have ih := fun x => Task.concludes_of_poll_late hlate task hfirst (r := x)
      rcases first with x | t
      · refine Yields.bind (ih x (.pure _)) ?_ (h.conclude_rising task) ?_ hw
        · rcases x with e | v <;> cases hp.of_pure hw <;> exact hr
        · rcases x with e | v <;> exact .pure _
      · cases hp.of_pure hw
        refine Task.Concludes.congr h hw hr (fun x => ?_) ih
        rcases x with e | v <;> exact .pure _
  | .recover fallback input task, p, r, hp, hr => by
      obtain ⟨first, hfirst, hp⟩ := hp.of_bind hw ((h.poll_rising task).steady n) fun first => by
        rcases first with (e | v) | t <;> exact .pure _
      have ih := fun x => Task.concludes_of_poll_late hlate task hfirst (r := x)
      rcases first with x | t
      · refine Yields.bind (ih x (.pure _)) ?_ (h.conclude_rising task) ?_ hw
        · rcases x with e | v <;> cases hp.of_pure hw <;> exact hr
        · rcases x with e | v <;> exact .pure _
      · cases hp.of_pure hw
        refine Task.Concludes.congr h hw hr (fun x => ?_) ih
        rcases x with e | v <;> exact .pure _
  | .join children assembly, p, r, hp, hr => by
      obtain ⟨polls, hpolls, hp⟩ := hp.of_bind hw
        (pollEach_mimics (h n n le_rfl) children).steady fun polls => by split <;> exact .pure _
      cases hfinished : finished? polls with
      | some results =>
          rw [hfinished] at hp
          cases hp.of_pure hw
          rw [hr.of_done hw]
          exact Yields.bind (concludesEach_of_poll hlate children hpolls
            (concludeEach_finished h hw hfinished)) (.pure _) (h.concludeEach_rising children)
            (.pure _) hw
      | none =>
          rw [hfinished] at hp
          cases hp.of_pure hw
          obtain ⟨results, hresults, hr⟩ := Yields.of_bind hr (h.concludeEach_rising _)
            (fun _ => .pure _) hw
          exact Yields.bind (concludesEach_of_poll hlate children hpolls hresults) hr
            (h.concludeEach_rising children) (.pure _) hw
  | .firstSuccess errors attempts, _, _, hp, hr => concludesAttempts_of_poll hlate attempts errors hp hr

theorem concludesEach_of_poll (hlate : LatePollsConclude W n) : ∀ (ts : List Task)
    {polls : List Poll} {results : List Result}, Gives W (pollEach (machine n) ts) polls →
      Yields W (fun n => concludeEach (machine n) (concluding n) (polls.map Poll.toTask)) results →
      Yields W (fun n => concludeEach (machine n) (concluding n) ts) results
  | [], _, _, hp, hr => by
      cases hp.of_pure hw
      exact hr
  | t :: rest, _, _, hp, hr => by
      have hrest := pollEach_mimics (h n n le_rfl) rest
      obtain ⟨p, hfirst, hp⟩ := hp.of_bind hw ((h.poll_rising t).steady n) fun _ =>
        hrest.steady.bind fun _ => .pure _
      obtain ⟨polls, hpolls, hp⟩ := hp.of_bind hw hrest.steady fun _ => .pure _
      cases hp.of_pure hw
      have hboth : ∀ ts : List Task, ∀ r : Result, Rising W fun n =>
          concludeEach (machine n) (concluding n) ts >>= fun rs => pure (r :: rs) := fun ts r =>
        (h.concludeEach_rising ts).bind fun _ => .pure _
      obtain ⟨r, hr, hrs⟩ := Yields.of_bind hr (h.conclude_rising _) (hboth _) hw
      obtain ⟨rs, hrs, heq⟩ := Yields.of_bind hrs (h.concludeEach_rising _) (fun _ => .pure _) hw
      exact Yields.bind (Task.concludes_of_poll_late hlate t hfirst hr)
        (Yields.bind (concludesEach_of_poll hlate rest hpolls hrs) heq (h.concludeEach_rising rest)
          (.pure _) hw)
        (h.conclude_rising t) (hboth rest r) hw

theorem concludesAttempts_of_poll (hlate : LatePollsConclude W n) : ∀ (ts : List Task)
    (errors : List Error) {p : Poll} {r : Result},
    Gives W (pollAttempts (machine n) errors ts) p → p.toTask.Concludes W r →
      Yields W (fun n => concludeAttempts (machine n) (concluding n) ts errors) r
  | [], _, _, _, hp, hr => by
      cases hp.of_pure hw
      exact hr
  | t :: rest, errors, p, r, hp, hr => by
      obtain ⟨first, hfirst, hp⟩ := hp.of_bind hw ((h.poll_rising t).steady n) fun first => by
        rcases first with (e | v) | t
        · exact (pollAttempts_mimics (h n n le_rfl) rest (errors ++ [e])).steady
        · exact .pure _
        · exact .pure _
      have ih := fun x => Task.concludes_of_poll_late hlate t hfirst (r := x)
      have hrise : ∀ x : Result, Rising W fun n => (match x with
          | .ok v => return .ok v
          | .error e => concludeAttempts (machine n) (concluding n) rest (errors ++ [e]) :
          Run Result) := by
        intro x
        rcases x with e | v
        · exact h.concludeAttempts_rising rest (errors ++ [e])
        · exact .pure _
      rcases first with (e | v) | t'
      · exact Yields.bind (ih (.error e) (.pure _))
          (concludesAttempts_of_poll hlate rest (errors ++ [e]) hp hr) (h.conclude_rising t)
          (hrise (.error e)) hw
      · cases hp.of_pure hw
        exact Yields.bind (ih (.ok v) (.pure _)) hr (h.conclude_rising t) (hrise (.ok v)) hw
      -- the attempts after a pending one have not been polled
      · cases hp.of_pure hw
        exact Task.Concludes.congr h hw hr hrise ih

end

theorem latePollsConclude : ∀ n, LatePollsConclude W n
  | 0 => fun t p r hp _ => by
      obtain ⟨_, -, hrun⟩ := hp w hw
      cases hrun
  | n + 1 => fun t _ _ hp hr => t.concludes_of_poll_late h hw (latePollsConclude n) hp hr

/-- **A poll does not change the conclusion.** -/
theorem Task.concludes_of_poll {t : Task} {p : Poll} {r : Result}
    (hp : Yields W (fun n => t.poll (machine n)) p) (hr : p.toTask.Concludes W r) :
    t.Concludes W r := by
  obtain ⟨n, hn⟩ := hp
  exact t.concludes_of_poll_late h hw (latePollsConclude h hw n) hn hr

/-! ### Rounds -/

/-- With fuel enough a task that is driven is polled, and what is left is driven on. -/
theorem Task.drive_cases {t : Task} {k : Nat} {r : Result}
    (ht : Gives W (t.drive (machine n) (k + 1)) r) :
    ∃ p, Gives W (t.poll (machine n)) p ∧
      (p = .ready r ∨ ∃ t', p = .pending t' ∧ Gives W (t'.drive (machine n) k) r) := by
  obtain ⟨p, hp, hr⟩ := ht.of_bind hw ((h.poll_rising t).steady n) fun p => by
    cases p with
    | ready x => exact .pure _
    | pending t => exact (t.drive_mimics (h n n le_rfl) le_rfl).steady
  refine ⟨p, hp, ?_⟩
  cases p with
  | ready x =>
      cases hr.of_pure hw
      exact .inl rfl
  | pending t' => exact .inr ⟨t', rfl, hr⟩

/-- What a task ends with is its conclusion. -/
theorem Task.concludes_of_drive : ∀ {k : Nat} {t : Task} {r : Result},
    Gives W (t.drive (machine n) k) r → t.Concludes W r
  | 0, _, _, ht => by
      obtain ⟨_, -, hrun⟩ := ht w hw
      cases hrun
  | k + 1, t, r, ht => by
      obtain ⟨p, hp, rfl | ⟨t', rfl, ht'⟩⟩ := t.drive_cases h hw ht
      · exact Task.concludes_of_poll h hw ⟨n, hp⟩ (.pure r)
      · exact Task.concludes_of_poll h hw ⟨n, hp⟩ (Task.concludes_of_drive ht')

omit hw in
theorem Task.drive_gives {t : Task} {n n' k k' : Nat} {r : Result} (hn : n ≤ n') (hk : k ≤ k')
    (ht : Gives W (t.drive (machine n) k) r) {w : World} (hw : W w) :
    Gives W (t.drive (machine n') k') r := by
  obtain ⟨x, rfl, hx⟩ := (t.drive_mimics (h n n' hn) hk).gives ht
    (t.drive_mimics (h n' n' le_rfl) le_rfl).steady hw hw
  exact hx

/-- What a task finishes with, seen from its first poll. -/
theorem Task.Finishes.exists_poll {t : Task} {r : Result} (ht : t.Finishes W r) :
    ∃ p, Yields W (fun n => t.poll (machine n)) p ∧ p.toTask.Finishes W r := by
  obtain ⟨n, hn⟩ := ht
  obtain ⟨p, hp, rfl | ⟨t', rfl, ht'⟩⟩ :=
    t.drive_cases h hw (t.drive_gives h le_rfl (Nat.le_succ n) hn hw)
  · exact ⟨_, ⟨_, hp⟩, 1, .pure r⟩
  · exact ⟨_, ⟨_, hp⟩, n, ht'⟩

/-- A task finishes with what is left after a poll. -/
theorem Task.Finishes.of_poll {t : Task} {p : Poll} {r : Result}
    (hp : Yields W (fun n => t.poll (machine n)) p) (hr : p.toTask.Finishes W r) :
    t.Finishes W r := by
  obtain ⟨n, hn⟩ := hp
  obtain ⟨k, hk⟩ := hr
  -- the poll and what is left of the task need fuel of their own
  refine ⟨max n k + 1,
    ((h.poll_rising t).gives ((Nat.le_max_left n k).trans (Nat.le_succ _)) hn hw).bind ?_⟩
  cases p with
  | pending t' =>
      exact t'.drive_gives h ((Nat.le_max_right n k).trans (Nat.le_succ _)) (Nat.le_max_right n k)
        hk hw
  | ready x =>
      rw [(Task.concludes_of_drive h hw hk).of_done hw]
      exact .pure x

/-- **Induction on the polls that a task takes.** -/
theorem Task.Finishes.induct {r : Result} {Q : Task → Prop}
    (hready : ∀ t, Yields W (fun n => t.poll (machine n)) (.ready r) → Q t)
    (hpending : ∀ t t', Yields W (fun n => t.poll (machine n)) (.pending t') → Q t' → Q t)
    {t : Task} (ht : t.Finishes W r) : Q t := by
  obtain ⟨n, hn⟩ := ht
  suffices hk : ∀ k t, Gives W (t.drive (machine n) k) r → Q t from hk n t hn
  intro k
  induction k with
  | zero =>
      intro t ht
      obtain ⟨_, -, hrun⟩ := ht w hw
      cases hrun
  | succ k ih =>
      intro t ht
      obtain ⟨p, hp, rfl | ⟨t', rfl, ht'⟩⟩ := t.drive_cases h hw ht
      · exact hready t ⟨n, hp⟩
      · exact hpending t t' ⟨n, hp⟩ (ih t' ht')

/-- **What is wrapped around a task waits until the task has its result**, and goes on then. -/
theorem Task.Finishes.carry (wrap : Task → Task) {g : Nat → Result → Run Poll}
    (hpoll : ∀ n t, (wrap t).poll (machine n) = t.poll (machine n) >>= fun p => match p with
      | .pending t' => return .pending (wrap t')
      | .ready x => g n x)
    (hg : ∀ x, Rising W fun n => g n x) {t : Task} {x r : Result} (ht : t.Finishes W x)
    (hrest : ∃ p, Yields W (fun n => g n x) p ∧ p.toTask.Finishes W r) :
    (wrap t).Finishes W r := by
  obtain ⟨p, hp, hr⟩ := hrest
  have hrest : ∀ q : Poll, Rising W fun n => (match q with
      | .pending t' => return .pending (wrap t')
      | .ready x => g n x : Run Poll) := by
    intro q
    cases q with
    | pending t' => exact .pure _
    | ready x => exact hg x
  -- by induction on the polls: the wrapping stays around whatever is left of the task
  refine Task.Finishes.induct h hw (Q := fun t => (wrap t).Finishes W r) (fun t ht => ?_)
    (fun t t' ht ih => ?_) ht
  · refine Task.Finishes.of_poll h hw (p := p) ?_ hr
    simp only [hpoll]
    exact Yields.bind ht hp (h.poll_rising t) (hrest (.ready x)) hw
  · refine Task.Finishes.of_poll h hw (p := .pending (wrap t')) ?_ ih
    simp only [hpoll]
    exact Yields.bind ht (.pure _) (h.poll_rising t) (hrest (.pending t')) hw

omit h hw in
theorem Task.Finishes.done (r : Result) : (Task.done r).Finishes W r := ⟨1, .pure r⟩

theorem Task.Finishes.andThen {t : Task} {next : Continuation} {x r : Result}
    (ht : t.Finishes W x)
    (hrest : ∃ p, Yields W (fun n => match x with
      | .error e => return .ready (.error e)
      | .ok v => next.resume (machine n) v) p ∧ p.toTask.Finishes W r) :
    (Task.andThen t next).Finishes W r := by
  refine Task.Finishes.carry h hw (fun t => .andThen t next)
    (g := fun n x => match x with
      | .error e => return .ready (.error e)
      | .ok v => next.resume (machine n) v) (fun n t => ?_) (fun x => ?_) ht hrest
  · simp only [Task.poll]
    congr 1
    funext p
    rcases p with (e | v) | t <;> rfl
  · rcases x with e | v
    · exact .pure _
    · exact h.resume_rising next v

theorem Task.Finishes.inside {t : Task} {x : Result} (ht : t.Finishes W x) (s : Segment) :
    (Task.inside s t).Finishes W (x.mapError fun e => e.prepend s) := by
  refine Task.Finishes.carry h hw (Task.inside s)
    (g := fun _ x => return .ready (x.mapError fun e => e.prepend s)) (fun n t => ?_)
    (fun x => .pure _) ht ⟨_, .pure _, .done _⟩
  simp only [Task.poll]
  congr 1
  funext p
  rcases p with (e | v) | t <;> rfl

/-- The value of a result, or what stands in for a failure. -/
def standIn (fallback : Fallback) (input : Value) : Result → Value
  | .error e => fallback e input
  | .ok v => v

theorem Task.Finishes.recover {t : Task} {x : Result} (ht : t.Finishes W x) (fallback : Fallback)
    (input : Value) :
    (Task.recover fallback input t).Finishes W (.ok (standIn fallback input x)) := by
  refine Task.Finishes.carry h hw (Task.recover fallback input)
    (g := fun _ x => return .ready (.ok (standIn fallback input x))) (fun n t => ?_)
    (fun x => .pure _) ht ⟨_, .pure _, .done _⟩
  simp only [Task.poll]
  congr 1
  funext p
  rcases p with (e | v) | t <;> rfl

theorem Task.Finishes.firstSuccess {t : Task} {rest : List Task} {errors : List Error}
    {x r : Result} (ht : t.Finishes W x)
    (hrest : ∀ e, x = .error e → (Task.firstSuccess (errors ++ [e]) rest).Finishes W r)
    (hok : ∀ v, x = .ok v → r = .ok v) :
    (Task.firstSuccess errors (t :: rest)).Finishes W r := by
  refine Task.Finishes.carry h hw (fun t => .firstSuccess errors (t :: rest))
    (g := fun n x => match x with
      | .error e => pollAttempts (machine n) (errors ++ [e]) rest
      | .ok v => return .ready (.ok v)) (fun n t => ?_) (fun x => ?_) ht ?_
  · simp only [Task.poll, pollAttempts]
    congr 1
    funext p
    rcases p with (e | v) | t <;> rfl
  · rcases x with e | v
    · exact h.poll_rising (.firstSuccess (errors ++ [e]) rest)
    · exact .pure _
  · rcases x with e | v
    · exact (hrest e rfl).exists_poll h hw
    · exact ⟨_, .pure _, hok v rfl ▸ .done _⟩

/-! ### Composites -/

/-- One round for all children. -/
theorem pollEach_round {k : Nat} : ∀ {ts : List Task} {rs : List Result},
    List.Forall₂ (fun t r => Gives W (t.drive (machine n) (k + 1)) r) ts rs →
      ∃ polls, Gives W (pollEach (machine n) ts) polls ∧
        List.Forall₂ (fun p r => p = .ready r ∨
          ∃ t', p = .pending t' ∧ Gives W (t'.drive (machine n) k) r) polls rs
  | _, _, .nil => ⟨[], .pure _, .nil⟩
  | _, _, .cons ht hts => by
      obtain ⟨p, hp, hleft⟩ := Task.drive_cases h hw ht
      obtain ⟨polls, hpolls, hall⟩ := pollEach_round hts
      exact ⟨p :: polls, hp.bind (hpolls.bind (.pure _)), .cons hleft hall⟩

omit h hw in
/-- After a round all children have their results, or one is pending and not driven for nothing. -/
theorem finished?_of_round {k : Nat} {polls : List Poll} {rs : List Result}
    (hall : List.Forall₂ (fun p r => p = .ready r ∨
      ∃ t', p = .pending t' ∧ Gives W (t'.drive (machine n) k) r) polls rs) :
    finished? polls = some rs ∨ finished? polls = none ∧
      ∃ t' r, Gives W (Task.drive (machine n) k t') r := by
  induction hall with
  | nil => exact .inl rfl
  | @cons p r _ _ hp _ ih =>
      rcases hp with rfl | ⟨t', rfl, ht'⟩
      · rcases ih with hrest | ⟨hrest, hpending⟩
        · exact .inl (by simp [finished?, hrest])
        · exact .inr ⟨by simp [finished?, hrest], hpending⟩
      · exact .inr ⟨rfl, t', r, ht'⟩

/-- **A composite takes as many rounds as the slowest of its children.** -/
theorem Task.Finishes.join_rounds (assembly : Assembly) : ∀ (k : Nat) {ts : List Task}
    {rs : List Result},
    List.Forall₂ (fun t r => Gives W (t.drive (machine n) (k + 1)) r) ts rs →
      (Task.join ts assembly).Finishes W (collect assembly.build (sequenceResults rs))
  | k, ts, rs, hts => by
      -- a round leaves every child, finished or not, with one poll less to take
      obtain ⟨polls, hpolls, hall⟩ := pollEach_round h hw hts
      rcases finished?_of_round hall with hfinished | ⟨hfinished, t', r, ht'⟩
      · refine Task.Finishes.of_poll h hw
          (p := .ready (collect assembly.build (sequenceResults rs))) ⟨n, hpolls.bind ?_⟩ (.done _)
        simp only [hfinished]
        exact .pure _
      · cases k with
        | zero =>
            obtain ⟨_, -, hrun⟩ := ht' w hw
            cases hrun
        | succ k =>
            refine Task.Finishes.of_poll h hw (p := .pending (.join (polls.map Poll.toTask) assembly))
              ⟨n, hpolls.bind ?_⟩ (Task.Finishes.join_rounds assembly k ?_)
            · simp only [hfinished]
              exact .pure _
            · rw [List.forall₂_map_left_iff]
              refine hall.imp fun p r hp => ?_
              rcases hp with rfl | ⟨t', rfl, ht'⟩
              · exact .pure r
              · exact ht'

/-- Children that finish do so with a number of rounds that is enough for all. -/
theorem exists_rounds {ts : List Task} {rs : List Result}
    (hts : List.Forall₂ (Task.Finishes W) ts rs) :
    ∃ n, List.Forall₂ (fun t r => Gives W (t.drive (machine n) (n + 1)) r) ts rs := by
  induction hts with
  | nil => exact ⟨0, .nil⟩
  | @cons t r _ _ ht _ ih =>
      obtain ⟨n, hn⟩ := ht
      obtain ⟨k, hk⟩ := ih
      refine ⟨max n k, .cons (t.drive_gives h (Nat.le_max_left n k)
        ((Nat.le_max_left n k).trans (Nat.le_succ _)) hn hw) (hk.imp fun t r ht => ?_)⟩
      exact t.drive_gives h (Nat.le_max_right n k) (Nat.succ_le_succ (Nat.le_max_right n k)) ht hw

theorem Task.Finishes.join {ts : List Task} {rs : List Result}
    (hts : List.Forall₂ (Task.Finishes W) ts rs) (assembly : Assembly) :
    (Task.join ts assembly).Finishes W (collect assembly.build (sequenceResults rs)) := by
  obtain ⟨n, hn⟩ := exists_rounds h hw hts
  exact Task.Finishes.join_rounds h hw assembly n hn

/-! ### A task with a conclusion ends -/

omit hw in
theorem Task.Finishes.call {f : Action} {input : Value} {r : Result}
    (hr : Yields W (fun n => f.runAs (machine n) .parsing input) r) {w : World} (hw : W w) :
    ∀ waits : Nat, (Task.call waits f input).Finishes W r
  | 0 => by
      obtain ⟨n, hn⟩ := hr
      exact .of_poll h hw (p := .ready r) ⟨n, hn.bind (.pure _)⟩ (.done r)
  | waits + 1 => .of_poll h hw (.pure _) (Task.Finishes.call hr hw waits)

omit hw in
theorem Task.Finishes.check {message : String} {test : Test} {v : Value} {r : Result}
    (hr : Yields W (fun _ => checked .parsing message test v) r) {w : World} (hw : W w) :
    ∀ waits : Nat, (Task.check waits message test v).Finishes W r
  | 0 => by
      obtain ⟨n, hn⟩ := hr
      exact .of_poll h hw (p := .ready r) ⟨n, hn.bind (.pure _)⟩ (.done r)
  | waits + 1 => .of_poll h hw (.pure _) (Task.Finishes.check hr hw waits)

/-- Parses that begin late end with their conclusions. -/
def LateFinishes (W : World → Prop) (n : Nat) : Prop :=
  ∀ t r, Gives W (concluding n t) r → t.Finishes W r

theorem Continuation.finishes_of_conclude (hlate : LateFinishes W n) (next : Continuation)
    {v : Value} {r : Result}
    (hr : Gives W (next.conclude (machine n) (concluding n) v) r) :
    ∃ p, Yields W (fun n => next.resume (machine n) v) p ∧ p.toTask.Finishes W r := by
  have hm := h n n le_rfl
  cases next with
  | apply f => exact ⟨.ready r, ⟨n, hr.bind (.pure _)⟩, .done r⟩
  | applyAsync f =>
      obtain ⟨_, hnote, hr⟩ := hr.of_bind hw (noteIf_mimics hm.logs hm.logs f.announce v).steady
        fun _ => (hm.runAs (fun _ _ => trivial) .parsing v).steady
      obtain ⟨p, ⟨k, hp⟩, hfinishes⟩ :=
        (Task.Finishes.call h ⟨n, hr⟩ hw f.waits).exists_poll h hw
      exact ⟨p, ⟨k, hnote.bind hp⟩, hfinishes⟩
  | parse op =>
      obtain ⟨outcome, houtcome, hr⟩ := hr.of_bind hw ((h.stage_rising op v).steady n) fun outcome =>
        (h.late_rising outcome).steady n
      rcases outcome with e | (a | t)
      · cases hr.of_pure hw
        exact ⟨.ready (.error e), ⟨n, houtcome.bind (.pure _)⟩, .done _⟩
      · have hdone := Task.Concludes.of_concluding hw ⟨n, hr⟩
        rw [hdone.of_done hw]
        exact ⟨.ready (.ok a), ⟨n, houtcome.bind (.pure _)⟩, .done _⟩
      · obtain ⟨p, ⟨k, hp⟩, hfinishes⟩ := (hlate t r hr).exists_poll h hw
        refine ⟨p, Yields.bind (c := fun n => op.stage (machine n) v) ⟨n, houtcome⟩ ⟨k + 1, hp⟩
          (h.stage_rising op v) (fun n k hk => (h n k hk).poll t) hw, hfinishes⟩
  | check message test => exact ⟨.ready r, ⟨n, hr.bind (.pure _)⟩, .done r⟩
  | checkAsync message test =>
      exact (Task.Finishes.check h ⟨n, hr⟩ hw test.waits).exists_poll h hw
  | constant value =>
      cases hr.of_pure hw
      exact ⟨_, .pure _, .done _⟩
  | orSupply supply =>
      obtain ⟨x, hx, hr⟩ := hr.of_bind hw (hm.orElse supply v).steady fun _ => .pure _
      cases hr.of_pure hw
      exact ⟨_, ⟨n, hx.bind (.pure _)⟩, .done _⟩

mutual

/-- A task with a conclusion ends with it, if parses that begin late do. -/
theorem Task.finishes_of_conclude_late (hlate : LateFinishes W n) : ∀ (t : Task) {r : Result},
    Gives W (t.conclude (machine n) (concluding n)) r → t.Finishes W r
  | .done _, _, hr => by
      cases hr.of_pure hw
      exact .done _
  | .call waits _ _, _, hr => .call h ⟨n, hr⟩ hw waits
  | .check waits _ _ _, _, hr => .check h ⟨n, hr⟩ hw waits
  | .andThen task next, r, hr => by
      obtain ⟨x, hx, hr⟩ := hr.of_bind hw ((h.conclude_rising task).steady n) fun x => by
        rcases x with e | v
        · exact .pure _
        · exact (h.continue_rising next v).steady n
      refine (Task.finishes_of_conclude_late hlate task hx).andThen h hw ?_
      rcases x with e | v
      · cases hr.of_pure hw
        exact ⟨_, .pure _, .done _⟩
      · exact next.finishes_of_conclude h hw hlate hr
  | .inside s task, r, hr => by
      obtain ⟨x, hx, hr⟩ := hr.of_bind hw ((h.conclude_rising task).steady n) fun x => by
        rcases x with e | v <;> exact .pure _
      have ih := (Task.finishes_of_conclude_late hlate task hx).inside h hw s
      rcases x with e | v <;> cases hr.of_pure hw <;> exact ih
  | .recover fallback input task, r, hr => by
      obtain ⟨x, hx, hr⟩ := hr.of_bind hw ((h.conclude_rising task).steady n) fun x => by
        rcases x with e | v <;> exact .pure _
      have ih := (Task.finishes_of_conclude_late hlate task hx).recover h hw fallback input
      rcases x with e | v <;> cases hr.of_pure hw <;> exact ih
  | .join children assembly, r, hr => by
      obtain ⟨rs, hrs, hr⟩ := hr.of_bind hw ((h.concludeEach_rising children).steady n)
        fun _ => .pure _
      cases hr.of_pure hw
      exact .join h hw (finishesEach_of_conclude hlate children hrs) assembly
  | .firstSuccess errors attempts, _, hr => finishesAttempts_of_conclude hlate attempts errors hr

theorem finishesEach_of_conclude (hlate : LateFinishes W n) : ∀ (ts : List Task)
    {rs : List Result}, Gives W (concludeEach (machine n) (concluding n) ts) rs →
      List.Forall₂ (Task.Finishes W) ts rs
  | [], _, hr => by
      cases hr.of_pure hw
      exact .nil
  | t :: rest, _, hr => by
      have hrest := (h.concludeEach_rising rest).steady n
      obtain ⟨r, ht, hr⟩ := hr.of_bind hw ((h.conclude_rising t).steady n) fun _ =>
        hrest.bind fun _ => .pure _
      obtain ⟨rs, hrs, hr⟩ := hr.of_bind hw hrest fun _ => .pure _
      cases hr.of_pure hw
      exact .cons (Task.finishes_of_conclude_late hlate t ht)
        (finishesEach_of_conclude hlate rest hrs)

theorem finishesAttempts_of_conclude (hlate : LateFinishes W n) : ∀ (ts : List Task)
    (errors : List Error) {r : Result},
    Gives W (concludeAttempts (machine n) (concluding n) ts errors) r →
      (Task.firstSuccess errors ts).Finishes W r
  | [], _, _, hr => by
      cases hr.of_pure hw
      exact .of_poll h hw (.pure _) (.done _)
  | t :: rest, errors, r, hr => by
      obtain ⟨x, hx, hr⟩ := hr.of_bind hw ((h.conclude_rising t).steady n) fun x => by
        rcases x with e | v
        · exact (h.concludeAttempts_rising rest (errors ++ [e])).steady n
        · exact .pure _
      refine (Task.finishes_of_conclude_late hlate t hx).firstSuccess h hw ?_ ?_
      · rintro e rfl
        exact finishesAttempts_of_conclude hlate rest (errors ++ [e]) hr
      · rintro v rfl
        exact (hr.of_pure hw).symm

end

theorem lateFinishes : ∀ n, LateFinishes W n
  | 0 => fun t r hr => by
      obtain ⟨_, -, hrun⟩ := hr w hw
      cases hrun
  | n + 1 => fun t _ hr => t.finishes_of_conclude_late h hw (lateFinishes n) hr

/-- **A task that is polled ends with its conclusion**, and it ends if it has one. -/
theorem Task.finishes_iff_concludes {t : Task} {r : Result} :
    t.Finishes W r ↔ t.Concludes W r := by
  constructor
  · rintro ⟨n, hn⟩
    exact Task.concludes_of_drive h hw hn
  · rintro ⟨n, hn⟩
    exact t.finishes_of_conclude_late h hw (lateFinishes h hw n) hn

/-! ### Parsing with waiting -/

/-- **What parsing with waiting comes to**: the conclusion of what starting the parse leaves. -/
theorem Schema.yields_parseAsync_iff {s : Schema} {v : Value}
    (hs : Rising W fun n => s.stage n v) {r : Result} :
    Yields W (fun n => s.parseAsync n v) r ↔
      ∃ outcome, Yields W (fun n => s.stage n v) outcome ∧
        (outcomeTask outcome).Concludes W r := by
  have hrest : ∀ outcome : Except Error Staged, Rising W fun n => (match outcome with
      | .error e => return .error e
      | .ok staged => Schema.finish n staged : Run Result) := by
    intro outcome
    rcases outcome with e | staged
    · exact .pure _
    · exact h.drive_rising staged.toTask
  constructor
  · intro hr
    obtain ⟨outcome, houtcome, hr⟩ := Yields.of_bind hr hs hrest hw
    refine ⟨outcome, houtcome, ?_⟩
    rcases outcome with e | staged
    · exact hr.of_pure hw ▸ .pure _
    · exact (Task.finishes_iff_concludes h hw).1 hr
  · rintro ⟨outcome, houtcome, hr⟩
    refine Yields.bind houtcome ?_ hs (hrest outcome) hw
    rcases outcome with e | staged
    · rw [hr.of_done hw]
      exact .pure _
    · exact (Task.finishes_iff_concludes h hw).2 hr

omit h hw in
/-- What a scene comes to, where nothing depends on what has been compiled. -/
theorem Scene.comes_iff_yields {σ : Scene} {c : Nat → Run Result} (hc : ∀ n, Steady W (c n))
    (hσ : W σ.world) (r : Result) : σ.Comes c r ↔ Yields W c r := by
  constructor
  · rintro ⟨n, w, hrun⟩
    exact ⟨n, hc n _ r w hσ hrun⟩
  · rintro ⟨n, hn⟩
    obtain ⟨w, -, hrun⟩ := hn _ hσ
    exact ⟨n, w, hrun⟩

end

end Schemata
