/-
**More fuel changes no result.**

A machine with more fuel follows references further than one with less, and does the same up to
there.  So what a computation comes to with some fuel it comes to with any more, with the same
result and the same tasks on the way.

Main definitions:

* `Schemata.Machine.AtMost` — the second machine comes to whatever the first one comes to.

Main results:

* `Schemata.World.Compiles.machine_atMost` — **a machine with more fuel comes to the same**;
* `Schemata.Task.poll_mimics`, `Schemata.Task.drive_mimics` — so do tasks that are carried on.
-/

import Schemata.Proofs.StagedSimulation

set_option relaxedAutoImplicit false
set_option autoImplicit false

namespace Schemata

variable {W W' : World → Prop} {m m' : Machine}

/-! ### Operations against themselves -/

section

variable {T : Task → Task → Prop} {K : Continuation → Continuation → Prop}

mutual

/-- Every operation comes to the same on machines that do, if all references may be used. -/
theorem Operation.runsLike_self (hm : MachinesAlike W W' (fun _ => True) T m m') :
    ∀ op : Operation, RunsLike W W' m m' op op
  | .noop => .noop
  | .fail e => .fail e
  | .scalar kind direction expected => .scalar kind direction expected
  | .literal direction l => .literal direction l
  | .array direction expected item => .array (item.runsLike_self hm) direction expected
  | .dict direction expected value => .dict (value.runsLike_self hm) direction expected
  | .tuple direction expected items =>
      .tuple (Operation.runsLike_each hm items) direction expected
  | .parseObject expected fields policy =>
      .parseObject (Operation.runsLike_fields hm fields) expected policy
  | .serializeObject expected fields omitted =>
      .serializeObject (Operation.runsLike_fields hm fields) expected omitted
  | .unlessNull inner => .unlessNull (inner.runsLike_self hm)
  | .parseUnion members tags => .parseUnion (Operation.runsLike_each hm members) tags
  | .serializeUnion members tags => .serializeUnion (Operation.runsLike_each hm members) tags
  | .decodeText expected inner => .decodeText (inner.runsLike_self hm) expected
  | .encodeText inner => .encodeText (inner.runsLike_self hm)
  | .apply direction _ => .apply hm (fun _ _ => trivial) direction
  | .thenApply direction base _ =>
      .thenApply hm (fun _ _ => trivial) (base.runsLike_self hm) direction
  | .applyFirst direction _ base =>
      .applyFirst hm (fun _ _ => trivial) (base.runsLike_self hm) direction
  | .thenCheck message test base => .thenCheck hm (base.runsLike_self hm) message test
  | .checkFirst message test base => .checkFirst hm (base.runsLike_self hm) message test
  | .recover fallback base => .recover (base.runsLike_self hm) fallback
  | .thenConstant value base => .thenConstant (base.runsLike_self hm) value
  | .exchange internal external base => .exchange (base.runsLike_self hm) internal external
  | .orSupply supply base => .orSupply hm (base.runsLike_self hm) supply
  | .follow direction _ => .follow hm trivial direction

theorem Operation.runsLike_each (hm : MachinesAlike W W' (fun _ => True) T m m') :
    ∀ ops : List Operation, List.Forall₂ (RunsLike W W' m m') ops ops
  | [] => .nil
  | op :: rest => .cons (op.runsLike_self hm) (Operation.runsLike_each hm rest)

theorem Operation.runsLike_fields (hm : MachinesAlike W W' (fun _ => True) T m m') :
    ∀ fields : List (String × Operation),
      List.Forall₂ (fun f g => f.1 = g.1 ∧ RunsLike W W' m m' f.2 g.2) fields fields
  | [] => .nil
  | (_, op) :: rest => .cons ⟨rfl, op.runsLike_self hm⟩ (Operation.runsLike_fields hm rest)

end

mutual

/-- Every parse operation comes to the same outcome on machines that do. -/
theorem ParseOperation.stagesLike_self (hm : MachinesAlike W W' (fun _ => True) Eq m m') :
    ∀ op : ParseOperation, StagesLike W W' Eq m m' op op
  | .direct op => .direct (op.runsLike_self hm)
  | .ready op => .ready (op.runsLike_self hm)
  | .array expected item => .array congruent_eq (item.stagesLike_self hm) expected
  | .dict expected value => .dict congruent_eq (value.stagesLike_self hm) expected
  | .tuple expected items => .tuple congruent_eq (ParseOperation.stagesLike_each hm items) expected
  | .object expected fields policy =>
      .object congruent_eq (ParseOperation.stagesLike_fields hm fields) expected policy
  | .unlessNull inner => .unlessNull (inner.stagesLike_self hm)
  | .union members => .union congruent_eq (ParseOperation.stagesLike_each hm members)
  | .decodeText expected inner => .decodeText (inner.stagesLike_self hm) expected
  | .applyAsync _ => .applyAsync hm rfl fun _ => rfl
  | .thenApply base _ =>
      .thenApply hm congruent_eq (base.stagesLike_self hm) (fun _ _ => trivial) rfl
  | .thenApplyAsync base _ =>
      .thenApplyAsync hm congruent_eq (base.stagesLike_self hm) rfl (fun _ => rfl) rfl
  | .applyFirst _ base => .applyFirst hm (base.stagesLike_self hm) fun _ _ => trivial
  | .applyAsyncFirst _ _ => .applyAsyncFirst hm congruent_eq rfl (fun _ => rfl) rfl
  | .thenCheck _ _ base => .thenCheck hm congruent_eq (base.stagesLike_self hm) rfl
  | .thenCheckAsync _ _ base => .thenCheckAsync congruent_eq (base.stagesLike_self hm) rfl
  | .recover fallback base => .recover congruent_eq (base.stagesLike_self hm) fallback
  | .thenConstant _ base => .thenConstant congruent_eq (base.stagesLike_self hm) rfl
  | .orSupply _ base => .orSupply hm congruent_eq (base.stagesLike_self hm) rfl
  | .follow _ => .follow hm trivial

theorem ParseOperation.stagesLike_each (hm : MachinesAlike W W' (fun _ => True) Eq m m') :
    ∀ ops : List ParseOperation, List.Forall₂ (StagesLike W W' Eq m m') ops ops
  | [] => .nil
  | op :: rest => .cons (op.stagesLike_self hm) (ParseOperation.stagesLike_each hm rest)

theorem ParseOperation.stagesLike_fields (hm : MachinesAlike W W' (fun _ => True) Eq m m') :
    ∀ fields : List (String × ParseOperation),
      List.Forall₂ (fun f g => f.1 = g.1 ∧ StagesLike W W' Eq m m' f.2 g.2) fields fields
  | [] => .nil
  | (_, op) :: rest => .cons ⟨rfl, op.stagesLike_self hm⟩ (ParseOperation.stagesLike_fields hm rest)

end

end

/-! ### Tasks -/

/-- **The second machine comes to whatever the first one comes to**, with all references and
tasks. -/
structure Machine.AtMost (W : World → Prop) (m m' : Machine) : Prop
    extends MachinesAlike W W (fun _ => True) Eq m m' where
  poll : ∀ t, Mimics W W Eq (m.poll t) (m'.poll t)

theorem Staging.eq {r r' : Except Error Staged} (h : Staging Eq r r') : r = r' := by
  cases h with
  | error e => rfl
  | ready v => rfl
  | pending ht => rw [ht]

theorem pollCall_mimics (hm : m.AtMost W m') (waits : Nat) (f : Action) (input : Value) :
    Mimics W W Eq (pollCall m waits f input) (pollCall m' waits f input) := by
  cases waits with
  | zero => exact (hm.runAs (fun _ _ => trivial) .parsing input).andThen fun _ => .pure rfl
  | succ waits => exact .pure rfl

theorem pollCheck_mimics (hm : m.AtMost W m') (waits : Nat) (message : String) (test : Test)
    (v : Value) :
    Mimics W W Eq (pollCheck waits message test v) (pollCheck waits message test v) := by
  cases waits with
  | zero => exact (hm.checked .parsing message test v).andThen fun _ => .pure rfl
  | succ waits => exact .pure rfl

theorem Continuation.resume_mimics (hm : m.AtMost W m') (next : Continuation) (v : Value) :
    Mimics W W Eq (next.resume m v) (next.resume m' v) := by
  cases next with
  | apply f => exact (hm.runAs (fun _ _ => trivial) .parsing v).andThen fun _ => .pure rfl
  | applyAsync f =>
      exact (noteIf_mimics hm.logs hm.logs f.announce v).andThen fun _ =>
        pollCall_mimics hm f.waits f.body v
  | parse op =>
      refine (op.stagesLike_self hm.toMachinesAlike v).bind fun r r' hr => ?_
      rw [← hr.eq]
      rcases r with e | (a | t)
      · exact .pure rfl
      · exact .pure rfl
      · exact hm.poll t
  | check message test => exact (hm.checked .parsing message test v).andThen fun _ => .pure rfl
  | checkAsync message test => exact pollCheck_mimics hm test.waits message test.test v
  | constant value => exact .pure rfl
  | orSupply supply => exact (hm.orElse supply v).andThen fun _ => .pure rfl

mutual

/-- **One poll comes to the same.** -/
theorem Task.poll_mimics (hm : m.AtMost W m') : ∀ t : Task, Mimics W W Eq (t.poll m) (t.poll m')
  | .done _ => .pure rfl
  | .call waits f input => pollCall_mimics hm waits f input
  | .check waits message test v => pollCheck_mimics hm waits message test v
  | .andThen task next => by
      refine (task.poll_mimics hm).andThen fun p => ?_
      rcases p with (e | v) | t
      · exact .pure rfl
      · exact next.resume_mimics hm v
      · exact .pure rfl
  | .inside _ task | .recover _ _ task => by
      refine (task.poll_mimics hm).andThen fun p => ?_
      rcases p with (e | v) | t <;> exact .pure rfl
  | .join children assembly => by
      refine (pollEach_mimics hm children).andThen fun polls => ?_
      split <;> exact .pure rfl
  | .firstSuccess errors attempts => pollAttempts_mimics hm attempts errors

theorem pollEach_mimics (hm : m.AtMost W m') :
    ∀ ts : List Task, Mimics W W Eq (pollEach m ts) (pollEach m' ts)
  | [] => .pure rfl
  | t :: rest =>
      (t.poll_mimics hm).andThen fun _ => (pollEach_mimics hm rest).andThen fun _ => .pure rfl

theorem pollAttempts_mimics (hm : m.AtMost W m') : ∀ (ts : List Task) (errors : List Error),
    Mimics W W Eq (pollAttempts m errors ts) (pollAttempts m' errors ts)
  | [], _ => .pure rfl
  | t :: rest, errors => by
      refine (t.poll_mimics hm).andThen fun p => ?_
      rcases p with (e | v) | t
      · exact pollAttempts_mimics hm rest (errors ++ [e])
      · exact .pure rfl
      · exact .pure rfl

end

/-- **Carrying a task on comes to the same**, also with more polls. -/
theorem Task.drive_mimics (hm : m.AtMost W m') : ∀ {k k' : Nat}, k ≤ k' → ∀ t : Task,
    Mimics W W Eq (t.drive m k) (t.drive m' k')
  | 0, _, _, _ => .halt _
  | k + 1, k' + 1, hk, t => by
      refine (t.poll_mimics hm).andThen fun p => ?_
      cases p with
      | ready r => exact .pure rfl
      | pending t => exact t.drive_mimics hm (Nat.le_of_succ_le_succ hk)

/-! ### The machine -/

/-- **A machine with more fuel comes to the same**, where every schema that a reference stands for
gives what was planned. -/
theorem World.Compiles.machine_atMost {w₀ : World} {N : Schema → Prop} (hc : w₀.Compiles N W)
    (hW : LeavesLogsOpen W) (htarget : ∀ r t, w₀.target? r = some t → N t) :
    ∀ {n k : Nat}, n ≤ k → (machine n).AtMost W (machine k)
  | 0, _, _ => ⟨⟨hW, hW, fun _ _ _ => .halt _, fun _ _ _ => .halt _, fun _ _ _ => .halt _⟩,
      fun _ => .halt _⟩
  | n + 1, k + 1, hk => by
      -- following a reference costs one unit, so what stands behind it runs on the machine below
      have ih := hc.machine_atMost hW htarget (Nat.le_of_succ_le_succ hk)
      have hrel : ∀ r, Option.Rel (fun t t' => N t ∧ t = t') (w₀.target? r) (w₀.target? r) := by
        intro r
        cases ht : w₀.target? r with
        | none => exact .none
        | some t => exact .some ⟨htarget r t ht, rfl⟩
      refine ⟨⟨hW, hW, fun r _ v => ?_, fun r _ v => ?_, fun r _ v => ?_⟩, fun t => ?_⟩
      · refine hc.target_mimics hc (hrel r) ?_ rfl
        rintro t _ ⟨ht, rfl⟩
        exact Schema.parseOn_mimics hc hc ht ht (Operation.runsLike_self ih.toMachinesAlike _) v
      · refine hc.target_mimics hc (hrel r) ?_ rfl
        rintro t _ ⟨ht, rfl⟩
        exact Schema.serializeOn_mimics hc hc ht ht
          (Operation.runsLike_self ih.toMachinesAlike _) v
      · refine hc.target_mimics hc (hrel r) ?_ (.error _)
        rintro t _ ⟨ht, rfl⟩
        exact Schema.stageOn_mimics hc hc ht ht
          (ParseOperation.stagesLike_self ih.toMachinesAlike _) v
      · exact t.poll_mimics ih

end Schemata
