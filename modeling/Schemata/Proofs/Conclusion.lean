/-
**What a task concludes with does not depend on how long its functions take.**

Polling carries tasks on in rounds, and how far a round gets depends on what is waiting.  What comes
out in the end can be said without rounds: each function is carried out when its turn comes, the
children of a composite one after the other, whatever they have to wait for.  This conclusion looks
at no waiting time, and it is what driving a task ends with.

Main definitions:

* `Schemata.Task.conclude`, `Schemata.concluding` — **a task carried out without waiting**;
* `Schemata.Yields`, `Schemata.Rising` — results with fuel enough, and computations that keep
  theirs with more;
* `Schemata.FuelHelps` — worlds in which more fuel comes to the same.

Main results:

* `Schemata.Task.conclude_mimics` — **tasks that differ in how long they wait have the same
  conclusion**;
* `Schemata.Yields.bind`, `Schemata.Yields.of_bind` — sequencing, with fuel enough for both parts;
* `Schemata.FuelHelps.conclude_rising` and its companions — more fuel comes to the same.
-/

import Schemata.Proofs.Children
import Schemata.Proofs.MoreFuel

set_option relaxedAutoImplicit false
set_option autoImplicit false

namespace Schemata

/-! ### Carrying out without waiting -/

/-- What becomes of a value, nothing being waited for.  Parses that begin late are left to `late`. -/
def Continuation.conclude (m : Machine) (late : Task → Run Result) :
    Continuation → Value → Run Result
  | .apply f, v => f.runAs m .parsing v
  | .applyAsync f, v => do
      noteIf f.announce v
      f.body.runAs m .parsing v
  | .parse op, v => do
      match ← op.stage m v with
      | .error e => return .error e
      | .ok staged => late staged.toTask
  | .check message test, v => checked .parsing message test v
  | .checkAsync message test, v => checked .parsing message test.test v
  | .constant value, _ => return .ok value
  | .orSupply supply, v => return .ok (← supply.orElse v)

mutual

/-- **The result of a task, nothing being waited for.** -/
def Task.conclude (m : Machine) (late : Task → Run Result) : Task → Run Result
  | .done r => return r
  | .call _ f input => f.runAs m .parsing input
  | .check _ message test v => checked .parsing message test v
  | .andThen task next => do
      match ← task.conclude m late with
      | .error e => return .error e
      | .ok v => next.conclude m late v
  | .inside s task => do
      match ← task.conclude m late with
      | .error e => return .error (e.prepend s)
      | .ok v => return .ok v
  | .recover fallback input task => do
      match ← task.conclude m late with
      | .error e => return .ok (fallback e input)
      | .ok v => return .ok v
  | .join children assembly => do
      return collect assembly.build (sequenceResults (← concludeEach m late children))
  | .firstSuccess errors attempts => concludeAttempts m late attempts errors

/-- The results of children, one after the other. -/
def concludeEach (m : Machine) (late : Task → Run Result) : List Task → Run (List Result)
  | [] => return []
  | t :: rest => do
      let r ← t.conclude m late
      return r :: (← concludeEach m late rest)

/-- The first success among attempts, after errors of earlier ones. -/
def concludeAttempts (m : Machine) (late : Task → Run Result) : List Task → List Error → Run Result
  | [], errors => return .error (Error.atRoot (.invalidUnion errors) .parsing)
  | t :: rest, errors => do
      match ← t.conclude m late with
      | .ok v => return .ok v
      | .error e => concludeAttempts m late rest (errors ++ [e])

end

/-- The result of a task with fuel for references and for parses that begin late. -/
def concluding : Nat → Task → Run Result
  | 0, _ => halt .outOfFuel
  | fuel + 1, t => t.conclude (machine fuel) (concluding fuel)

/-! ### Tasks that are alike -/

section

variable {W W' : World → Prop} {P : Reference → Prop} {L : ParseOperation → ParseOperation → Prop}
  {m m' : Machine} {late late' : Task → Run Result}

theorem Continuation.Like.conclude_mimics (hm : MachinesAlike W W' P (Task.Like P L) m m')
    (hL : ∀ op op', L op op' → StagesLike W W' (Task.Like P L) m m' op op')
    (hlate : ∀ t t', Task.Like P L t t' → Mimics W W' Eq (late t) (late' t'))
    {next next' : Continuation} (h : Continuation.Like P L next next') (v : Value) :
    Mimics W W' Eq (next.conclude m late v) (next'.conclude m' late' v) := by
  cases h with
  | apply hf => exact hm.runAs hf .parsing v
  | @applyAsync f f' hbody hannounce hf =>
      simp only [Continuation.conclude, ← hbody, ← hannounce]
      exact (noteIf_mimics hm.logs hm.logs' f.announce v).andThen fun _ => hm.runAs hf .parsing v
  | parse hop =>
      refine (hL _ _ hop v).afterStaging (fun _ => .pure rfl) fun a b hab => ?_
      exact hlate _ _ (hab.toTask (Task.Like.congruent P L))
  | check message test => exact hm.checked .parsing message test v
  | @checkAsync message test test' htest =>
      simp only [Continuation.conclude, ← htest]
      exact hm.checked .parsing message test.test v
  | constant value => exact .pure rfl
  | orSupply supply => exact (hm.orElse supply v).andThen fun _ => .pure rfl

mutual

/-- **Tasks that differ in how long they wait have the same conclusion.** -/
theorem Task.conclude_mimics (hm : MachinesAlike W W' P (Task.Like P L) m m')
    (hL : ∀ op op', L op op' → StagesLike W W' (Task.Like P L) m m' op op')
    (hlate : ∀ t t', Task.Like P L t t' → Mimics W W' Eq (late t) (late' t')) :
    ∀ t t' : Task, Task.Like P L t t' →
      Mimics W W' Eq (t.conclude m late) (t'.conclude m' late')
  | .done r, _, h => by
      cases h with
      | done => exact .pure rfl
  | .call _ _ input, _, h => by
      cases h with
      | call _ _ _ hf => exact hm.runAs hf .parsing input
  | .check _ message test v, _, h => by
      cases h with
      | check => exact hm.checked .parsing message test v
  | .andThen task next, _, h => by
      cases h with
      | andThen ht hnext =>
          refine (task.conclude_mimics hm hL hlate _ ht).andThen fun r => ?_
          cases r with
          | error e => exact .pure rfl
          | ok v => exact hnext.conclude_mimics hm hL hlate v
  | .inside _ task, _, h => by
      cases h with
      | inside _ ht =>
          exact (task.conclude_mimics hm hL hlate _ ht).andThen fun r => by
            cases r <;> exact .pure rfl
  | .recover _ _ task, _, h => by
      cases h with
      | recover _ _ ht =>
          exact (task.conclude_mimics hm hL hlate _ ht).andThen fun r => by
            cases r <;> exact .pure rfl
  | .join children _, _, h => by
      cases h with
      | join _ hts =>
          exact (concludeEach_mimics hm hL hlate children _ hts).andThen fun _ => .pure rfl
  | .firstSuccess errors attempts, _, h => by
      cases h with
      | firstSuccess _ hts => exact concludeAttempts_mimics hm hL hlate attempts _ errors hts

theorem concludeEach_mimics (hm : MachinesAlike W W' P (Task.Like P L) m m')
    (hL : ∀ op op', L op op' → StagesLike W W' (Task.Like P L) m m' op op')
    (hlate : ∀ t t', Task.Like P L t t' → Mimics W W' Eq (late t) (late' t')) :
    ∀ ts ts' : List Task, List.Forall₂ (Task.Like P L) ts ts' →
      Mimics W W' Eq (concludeEach m late ts) (concludeEach m' late' ts')
  | [], _, h => by
      cases h
      exact .pure rfl
  | t :: rest, _, h => by
      cases h with
      | cons ht hrest =>
          exact (t.conclude_mimics hm hL hlate _ ht).andThen fun _ =>
            (concludeEach_mimics hm hL hlate rest _ hrest).andThen fun _ => .pure rfl

theorem concludeAttempts_mimics (hm : MachinesAlike W W' P (Task.Like P L) m m')
    (hL : ∀ op op', L op op' → StagesLike W W' (Task.Like P L) m m' op op')
    (hlate : ∀ t t', Task.Like P L t t' → Mimics W W' Eq (late t) (late' t')) :
    ∀ (ts ts' : List Task) (errors : List Error), List.Forall₂ (Task.Like P L) ts ts' →
      Mimics W W' Eq (concludeAttempts m late ts errors) (concludeAttempts m' late' ts' errors)
  | [], _, _, h => by
      cases h
      exact .pure rfl
  | t :: rest, _, errors, h => by
      cases h with
      | cons ht hrest =>
          refine (t.conclude_mimics hm hL hlate _ ht).andThen fun r => ?_
          cases r with
          | ok v => exact .pure rfl
          | error e => exact concludeAttempts_mimics hm hL hlate rest _ (errors ++ [e]) hrest

end

end

/-! ### Results with fuel enough -/

section

variable {α β : Type} {W : World → Prop}

/-- **With fuel enough the computation gives the result.** -/
def Yields (W : World → Prop) (c : Nat → Run α) (a : α) : Prop := ∃ n, Gives W (c n) a

/-- A computation that keeps its result with more fuel. -/
def Rising (W : World → Prop) (c : Nat → Run α) : Prop :=
  ∀ n k, n ≤ k → Mimics W W Eq (c n) (c k)

/-- What mimics itself does not depend on the world. -/
theorem Mimics.steady {c : Run α} (h : Mimics W W Eq c c) : Steady W c := by
  intro w a u hw hrun w' hw'
  obtain ⟨b, u', hrun', -, hu', rfl⟩ := h w w' a u hw hw' hrun
  exact ⟨u', hu', hrun'⟩

theorem Rising.steady {c : Nat → Run α} (hc : Rising W c) (n : Nat) : Steady W (c n) :=
  (hc n n (Nat.le_refl n)).steady

theorem Rising.gives {c : Nat → Run α} (hc : Rising W c) {n k : Nat} (hk : n ≤ k) {a : α}
    (h : Gives W (c n) a) {w : World} (hw : W w) : Gives W (c k) a := by
  obtain ⟨b, rfl, hb⟩ := (hc n k hk).gives h (hc.steady k) hw hw
  exact hb

theorem Rising.pure (a : α) : Rising W fun _ => (pure a : Run α) := fun _ _ _ => .pure rfl

theorem Rising.bind {c : Nat → Run α} {f : Nat → α → Run β} (hc : Rising W c)
    (hf : ∀ a, Rising W fun n => f n a) : Rising W fun n => c n >>= f n := fun n k hk =>
  (hc n k hk).andThen fun a => hf a n k hk

/-- **Sequencing.** -/
theorem Yields.bind {c : Nat → Run α} {f : Nat → α → Run β} {a : α} {b : β} (h : Yields W c a)
    (hf : Yields W (fun n => f n a) b) (hc : Rising W c) (hrise : Rising W fun n => f n a)
    {w : World} (hw : W w) : Yields W (fun n => c n >>= f n) b := by
  obtain ⟨n, hn⟩ := h
  obtain ⟨k, hk⟩ := hf
  exact ⟨max n k, (hc.gives (Nat.le_max_left n k) hn hw).bind
    (hrise.gives (Nat.le_max_right n k) hk hw)⟩

/-- What is yielded as a whole has a first part that is. -/
theorem Yields.of_bind {c : Nat → Run α} {f : Nat → α → Run β} {b : β}
    (h : Yields W (fun n => c n >>= f n) b) (hc : Rising W c)
    (hrise : ∀ a, Rising W fun n => f n a) {w : World} (hw : W w) :
    ∃ a, Yields W c a ∧ Yields W (fun n => f n a) b := by
  obtain ⟨n, hn⟩ := h
  obtain ⟨a, ha, hb⟩ := hn.of_bind hw (hc.steady n) fun a => (hrise a).steady n
  exact ⟨a, ⟨n, ha⟩, n, hb⟩

theorem Yields.pure (a : α) : Yields W (fun _ => (pure a : Run α)) a := ⟨0, .pure a⟩

theorem Yields.of_pure {a b : α} (h : Yields W (fun _ => (Pure.pure a : Run α)) b) {w : World}
    (hw : W w) : a = b := by
  obtain ⟨_, hb⟩ := h
  exact hb.of_pure hw

/-- What a computation yields is one thing only. -/
theorem Yields.unique {c : Nat → Run α} {a b : α} (ha : Yields W c a) (hb : Yields W c b)
    (hc : Rising W c) {w : World} (hw : W w) : a = b := by
  obtain ⟨n, hn⟩ := ha
  obtain ⟨k, hk⟩ := hb
  exact (hc.gives (Nat.le_max_left n k) hn hw).unique (hc.gives (Nat.le_max_right n k) hk hw) hw

end

/-! ### Worlds in which more fuel comes to the same -/

/-- **More fuel comes to the same.** -/
def FuelHelps (W : World → Prop) : Prop := ∀ n k, n ≤ k → (machine n).AtMost W (machine k)

theorem World.Compiles.fuelHelps {w₀ : World} {N W : _ → Prop} (hc : w₀.Compiles N W)
    (hW : LeavesLogsOpen W) (htarget : ∀ r t, w₀.target? r = some t → N t) : FuelHelps W :=
  fun _ _ hk => hc.machine_atMost hW htarget hk

section

variable {W : World → Prop}

/-- A task is like itself. -/
theorem Continuation.Like.refl (next : Continuation) :
    Continuation.Like (fun _ => True) Eq next next := by
  cases next with
  | apply f => exact .apply fun _ _ => trivial
  | applyAsync f => exact .applyAsync rfl rfl fun _ _ => trivial
  | parse op => exact .parse rfl
  | check message test => exact .check message test
  | checkAsync message test => exact .checkAsync rfl
  | constant value => exact .constant value
  | orSupply supply => exact .orSupply supply

mutual

/-- A task is like itself. -/
theorem Task.Like.refl : ∀ t : Task, Task.Like (fun _ => True) Eq t t
  | .done r => .done r
  | .call waits _ input => .call waits waits input fun _ _ => trivial
  | .check waits message test v => .check waits waits message test v
  | .andThen task next => .andThen (Task.Like.refl task) (.refl next)
  | .inside s task => .inside s (Task.Like.refl task)
  | .recover fallback input task => .recover fallback input (Task.Like.refl task)
  | .join children assembly => .join assembly (Task.Like.refl_each children)
  | .firstSuccess errors attempts => .firstSuccess errors (Task.Like.refl_each attempts)

theorem Task.Like.refl_each : ∀ ts : List Task, List.Forall₂ (Task.Like (fun _ => True) Eq) ts ts
  | [] => .nil
  | t :: rest => .cons (Task.Like.refl t) (Task.Like.refl_each rest)

end

theorem Staging.mono {T T' : Task → Task → Prop} (hT : ∀ t t', T t t' → T' t t')
    {r r' : Except Error Staged} (h : Staging T r r') : Staging T' r r' := by
  cases h with
  | error e => exact .error e
  | ready v => exact .ready v
  | pending ht => exact .pending (hT _ _ ht)

/-- Machines that come to equal outcomes come to outcomes that are alike. -/
theorem Machine.AtMost.alike {m m' : Machine} (h : m.AtMost W m') :
    MachinesAlike W W (fun _ => True) (Task.Like (fun _ => True) Eq) m m' where
  logs := h.logs
  logs' := h.logs'
  parse := h.parse
  serialize := h.serialize
  stage r hr v := (h.stage r hr v).mono fun _ _ hr => hr.mono fun t _ ht => ht ▸ .refl t

theorem ParseOperation.stagesLike_refl {m m' : Machine} (h : m.AtMost W m')
    (op op' : ParseOperation) (hop : op = op') :
    StagesLike W W (Task.Like (fun _ => True) Eq) m m' op op' := fun v =>
  hop ▸ (op.stagesLike_self h.toMachinesAlike v).mono fun _ _ hr =>
    hr.mono fun t _ ht => ht ▸ .refl t

/-- More fuel comes to the same conclusion. -/
theorem FuelHelps.concluding_mimics (h : FuelHelps W) : ∀ {n k : Nat}, n ≤ k → ∀ t t' : Task,
    Task.Like (fun _ => True) Eq t t' → Mimics W W Eq (concluding n t) (concluding k t')
  | 0, _, _, _, _, _ => .halt _
  | n + 1, k + 1, hk, t, t', ht => by
      -- parses that begin late are concluded with one unit less
      have hk := Nat.le_of_succ_le_succ hk
      exact t.conclude_mimics (h n k hk).alike (ParseOperation.stagesLike_refl (h n k hk))
        (h.concluding_mimics hk) t' ht

namespace FuelHelps

variable (h : FuelHelps W)

include h

theorem poll_rising (t : Task) : Rising W fun n => t.poll (machine n) := fun n k hk =>
  t.poll_mimics (h n k hk)

theorem resume_rising (next : Continuation) (v : Value) :
    Rising W fun n => next.resume (machine n) v := fun n k hk => next.resume_mimics (h n k hk) v

theorem conclude_rising (t : Task) : Rising W fun n => t.conclude (machine n) (concluding n) :=
  fun n k hk => t.conclude_mimics (h n k hk).alike (ParseOperation.stagesLike_refl (h n k hk))
    (h.concluding_mimics hk) t (.refl t)

theorem continue_rising (next : Continuation) (v : Value) :
    Rising W fun n => next.conclude (machine n) (concluding n) v := fun n k hk =>
  (Continuation.Like.refl next).conclude_mimics (h n k hk).alike
    (ParseOperation.stagesLike_refl (h n k hk)) (h.concluding_mimics hk) v

theorem concludeEach_rising (ts : List Task) :
    Rising W fun n => concludeEach (machine n) (concluding n) ts := fun n k hk =>
  concludeEach_mimics (h n k hk).alike (ParseOperation.stagesLike_refl (h n k hk))
    (h.concluding_mimics hk) ts ts (Task.Like.refl_each ts)

theorem concludeAttempts_rising (ts : List Task) (errors : List Error) :
    Rising W fun n => concludeAttempts (machine n) (concluding n) ts errors := fun n k hk =>
  concludeAttempts_mimics (h n k hk).alike (ParseOperation.stagesLike_refl (h n k hk))
    (h.concluding_mimics hk) ts ts errors (Task.Like.refl_each ts)

theorem drive_rising (t : Task) : Rising W fun n => t.drive (machine n) n := fun n k hk =>
  t.drive_mimics (h n k hk) hk

theorem stage_rising (op : ParseOperation) (v : Value) :
    Rising W fun n => op.stage (machine n) v := fun n k hk =>
  (op.stagesLike_self (h n k hk).toMachinesAlike v).mono fun _ _ hr => hr.eq

end FuelHelps

end

end Schemata
