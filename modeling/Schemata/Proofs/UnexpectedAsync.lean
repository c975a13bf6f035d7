/-
**No wait is unexpected, except where a schema that waits is parsed at once.**

In a graph that is bound before it is used a node does not wait only if nothing below it does, at
whatever moment and in whatever order its operations were compiled.  So the operations that stand
for an unexpected wait are never met: a parse at once fails with this error if its schema waits, and
otherwise neither comes to it nor gives it to a stand-in, and a parse that waits does not come to it
when it is started or while it is carried on, whatever calls are made in between.

Main definitions:

* `Schemata.Scene.Carried` — a task that is polled among other calls;
* `Schemata.Scene.NeverUnexpected` — the start of a parse that does not come to the error;
* `Schemata.Scene.SparesFallback` — a stand-in that is not given the error.

Main results:

* `Schemata.Scene.Invariants.planned_free` — the operations of all nodes;
* `Schemata.Scene.Called.unexpectedAsync_only_at_once` — **the error comes from parsing at once what
  waits, and from nowhere else**.
-/

import Schemata.Proofs.Calls
import Schemata.Proofs.FreeOfAsync

set_option relaxedAutoImplicit false
set_option autoImplicit false

namespace Schemata

namespace Scene

variable {σ τ : Scene} {s root : Schema} {m : Machine}

/-! ### Nodes and references -/

/-- **The planned operation of a node does not come to the error** when it is started, nor when it is
run where the node does not wait. -/
theorem Invariants.planned_free (inv : σ.Invariants) (hroot : root ∈ σ.nodes)
    (hfunction : ∀ t, σ.world.Reaches root t → t.kind.NeverUnexpected σ.world)
    (hm : m.Awaits σ.Onward σ.world (σ.world.Reaches root)) : ∀ s, σ.world.Reaches root s →
      (¬ σ.world.ReachesAsync s → RunsFree σ.Onward m (σ.world.planned s).atOnce) ∧
      StagesFree σ.Onward m σ.world (σ.world.Reaches root) (σ.world.planned s) := by
  have hmember : ∀ s, σ.world.Reaches root s → s ∈ σ.nodes := fun s =>
    inv.sound.hosts.reaches hroot
  have hleads : ∀ s t, σ.world.Reaches root s → σ.world.Leads s t → σ.world.Reaches root t :=
    fun s t hs hst => hs.tail hst
  refine inv.sound.hosts.induction_within hmember hleads fun s hs ih => ?_
  have hmem := hmember s hs
  have hwaits := inv.exact.answer_iff inv.sound.hosts hmem
  obtain ⟨w₁, o, waits, -, -, -, hplan⟩ :=
    inv.sound.parsePlan_shape inv.shaped (.refl _) hmem
  -- the operation waits exactly when an asynchronous function can be reached
  rw [← inv.sound.planned_isAsync hmem, World.planned, hplan, Kind.parser_isAsync] at hwaits
  rw [World.planned, hplan]
  cases waits with
  | true =>
      have hasync := hwaits.1 rfl
      refine ⟨fun hnot => absurd hasync hnot, ?_⟩
      exact Kind.stagedParser_free hm hs (fun t ht => hs.tail (World.leads_of_child ht))
        (hfunction s hs) (fun t ht => (ih t ht).2) hasync
  | false =>
      have hnot : ¬ σ.world.ReachesAsync s := fun ha => absurd (hwaits.2 ha) (by simp)
      have hrun : RunsFree σ.Onward m (s.kind.directParser w₁ o.id σ.world.planned) :=
        Kind.directParser_free hm hs hnot (hfunction s hs) fun t ht =>
          (ih t ht).1 fun ha => hnot (World.reachesAsync_of_leads (World.leads_of_child ht) ha)
      exact ⟨fun _ => hrun, .direct hrun⟩

/-- Functions that do not return the error do not return it onward. -/
theorem Invariants.function_free (inv : σ.Invariants) {f : Action}
    (hf : f.NeverUnexpected σ.world) (fuel : Nat) (v : Value) :
    Ensures σ.Onward (f.runAs (machine fuel) .parsing v) (OnError Error.FreeOfAsync) := by
  have hsteady := f.run_steady (onward_leavesLogsOpen σ) (inv.onward_deterministic fuel) v
  -- an error onward is an error now
  have hrun : Ensures σ.Onward (f.run (machine fuel) v) fun r =>
      ∀ e, r = .error (.error e) → e.FreeOfAsync := by
    intro w r w' hw hrun
    refine ⟨hsteady.keeps hw hrun, ?_⟩
    rintro e rfl
    obtain ⟨w₁, -, hnow⟩ := hsteady w _ w' hw hrun σ.world inv.onward
    exact hf fuel v e w₁ hnow
  refine hrun.bind fun r hr => ?_
  rcases r with (text | e) | a
  · exact .pure trivial
  · exact .pure (hr e rfl)
  · exact .pure trivial

/-- **References do not lead to the error**, with any fuel. -/
theorem Invariants.machine_awaits (inv : σ.Invariants) (hroot : root ∈ σ.nodes)
    (hfunction : ∀ t, σ.world.Reaches root t → t.kind.NeverUnexpected σ.world) (fuel : Nat) :
    (machine fuel).Awaits σ.Onward σ.world (σ.world.Reaches root) := by
  have hc : σ.world.Compiles (σ.world.Reaches root) σ.Onward :=
    { bindings := (onward_compiles σ).bindings
      parse := fun s hs => (onward_compiles σ).parse s (inv.sound.hosts.reaches hroot hs)
      serialize := fun s hs => (onward_compiles σ).serialize s (inv.sound.hosts.reaches hroot hs) }
  have hlogs := onward_leavesLogsOpen σ
  induction fuel with
  | zero =>
      exact ⟨hlogs, fun f hf => inv.function_free hf 0, fun _ _ _ _ _ _ => .halt _,
        fun _ _ _ _ _ => .halt _, fun _ _ => .halt _⟩
  | succ fuel ih =>
      have hplanned := inv.planned_free hroot hfunction ih
      refine ⟨hlogs, fun f hf => inv.function_free hf (fuel + 1), ?_, ?_, ?_⟩
      · intro s r hs hr hasync v
        refine hc.target_ensures (fun t ht => ?_) trivial
        have hst := World.leads_of_target hr ht
        exact Schema.parseOn_ensures hc (hs.tail hst)
          ((hplanned t (hs.tail hst)).1 (fun ha => hasync (World.reachesAsync_of_leads hst ha)) v)
      · intro s r hs hr v
        refine hc.target_ensures (fun t ht => ?_) trivial
        have htN := hs.tail (World.leads_of_target hr ht)
        exact Schema.stageOn_ensures hc htN ((hplanned t htN).2 v)
      · exact fun task => Task.poll_free ih (fun s hs => (hplanned s hs).2) task

/-! ### Parses that are carried on -/

/-- **A task that is polled among other calls**: from a scene and a task to a scene and what is left
of the task. -/
inductive Carried (σ : Scene) (task : Task) : Scene → Task → Prop
  | start : Carried σ task σ task
  | call {τ υ : Scene} {rest : Task} : Carried σ task τ rest → Call τ υ → Carried σ task υ rest
  | poll {τ : Scene} {rest rest' : Task} {fuel : Nat} {w : World} :
      Carried σ task τ rest → rest.poll (machine fuel) τ.world = .ok (.pending rest', w) →
      Carried σ task ⟨w, τ.nodes⟩ rest'

/-- **The start of a parse does not come to the error**, at once or while what it leaves is polled
among other calls. -/
def NeverUnexpected (σ : Scene) (start : Nat → Stager) : Prop :=
  ∀ fuel v outcome w, start fuel v σ.world = .ok (outcome, w) →
    (∀ e, outcome = .error e → e.FreeOfAsync) ∧
    ∀ staged, outcome = .ok staged → ∀ τ task, Carried ⟨w, σ.nodes⟩ staged.toTask τ task →
      ∀ fuel' e w', task.poll (machine fuel') τ.world = .ok (.ready (.error e), w') →
        e.FreeOfAsync

/-- **The stand-in of a node is not given the error.**  The operation of the node runs or starts
another one, and the errors of this one are what the stand-in is given. -/
def SparesFallback (σ : Scene) (s : Schema) (fallback : Fallback) : Prop :=
  ∃ c w, s.parseOperation σ.world = .ok (c, w) ∧
    ((∃ op, c.operation = .direct (.recover fallback op) ∧
        ∀ fuel v e w', op.run (machine fuel) v σ.world = .ok (.error e, w') → e.FreeOfAsync) ∨
      ∃ op, c.operation = .recover fallback op ∧
        σ.NeverUnexpected fun fuel => op.stage (machine fuel))

/-- Polls and other calls leave a task free of the error. -/
theorem Invariants.carried_free (inv : σ.Invariants) (hroot : root ∈ σ.nodes)
    (hfunction : ∀ t, σ.world.Reaches root t → t.kind.NeverUnexpected σ.world) {σ₁ : Scene}
    {task rest : Task} (h : Carried σ₁ task τ rest) (hext : σ.Extends σ₁) (inv₁ : σ₁.Invariants)
    (htask : task.FreeOfAsync σ.world (σ.world.Reaches root)) :
    σ.Extends τ ∧ τ.Invariants ∧ rest.FreeOfAsync σ.world (σ.world.Reaches root) := by
  induction h with
  | start => exact ⟨hext, inv₁, htask⟩
  | call _ hcall ih =>
      obtain ⟨hextτ, invτ, hrest⟩ := ih
      exact ⟨hextτ.trans (hcall.extends invτ), hcall.invariants invτ, hrest⟩
  | @poll _ _ _ fuel w _ hpoll ih =>
      obtain ⟨hextτ, invτ, hrest⟩ := ih
      have hcall := Call.poll hpoll
      have hplanned := inv.planned_free hroot hfunction (inv.machine_awaits hroot hfunction fuel)
      have hfree := Task.poll_free (inv.machine_awaits hroot hfunction fuel)
        (fun s hs => (hplanned s hs).2) _ hrest
      exact ⟨hextτ.trans (hcall.extends invτ), hcall.invariants invτ,
        (hfree _ _ w (hextτ.onward invτ) hpoll).2⟩

/-- **What is free of the error when it is started stays so while it is carried on.** -/
theorem Invariants.neverUnexpected (inv : σ.Invariants) (hroot : root ∈ σ.nodes)
    (hfunction : ∀ t, σ.world.Reaches root t → t.kind.NeverUnexpected σ.world)
    {start : Nat → Stager}
    (hsteady : ∀ fuel v, Steady (σ.world.Later σ.nodes) (start fuel v))
    (hfree : ∀ fuel v, Ensures σ.Onward (start fuel v)
      (StagedFree σ.world (σ.world.Reaches root))) : σ.NeverUnexpected start := by
  intro fuel v outcome w hrun
  have houtcome := (hfree fuel v σ.world outcome w inv.onward hrun).2
  refine ⟨?_, ?_⟩
  · rintro e rfl
    exact houtcome
  · rintro staged rfl τ task hcarried fuel' e w' hpoll
    have hlater := (hsteady fuel v).keeps inv.sound.later hrun
    have inv₁ : Invariants ⟨w, σ.nodes⟩ :=
      (Change.later hlater).invariants inv fun t ht => ⟨t, ht, rfl⟩
    obtain ⟨hext, invτ, htask⟩ := inv.carried_free hroot hfunction hcarried
      (.of_later inv.sound hlater) inv₁ houtcome
    have hawaits := inv.machine_awaits hroot hfunction fuel'
    have hplanned := inv.planned_free hroot hfunction hawaits
    exact (Task.poll_free hawaits (fun s hs => (hplanned s hs).2) task htask
      τ.world _ w' (hext.onward invτ) hpoll).2

/-- **The result of a task that is free of the error.** -/
theorem Invariants.drive_free (inv : σ.Invariants) (hroot : root ∈ σ.nodes)
    (hfunction : ∀ t, σ.world.Reaches root t → t.kind.NeverUnexpected σ.world) (fuel : Nat) :
    ∀ (polls : Nat) (task : Task), task.FreeOfAsync σ.world (σ.world.Reaches root) →
      Ensures σ.Onward (task.drive (machine fuel) polls) (OnError Error.FreeOfAsync)
  | 0, _, _ => .halt _
  | polls + 1, task, htask => by
      have hawaits := inv.machine_awaits hroot hfunction fuel
      have hplanned := inv.planned_free hroot hfunction hawaits
      refine (Task.poll_free hawaits (fun s hs => (hplanned s hs).2) task htask).bind fun p hp => ?_
      cases p with
      | ready r => exact .pure hp
      | pending rest => exact inv.drive_free hroot hfunction fuel polls rest hp

/-- A parse at once that does not wait. -/
theorem Invariants.parse_free (inv : σ.Invariants) (hs : s ∈ σ.nodes)
    (hfunction : ∀ t, σ.world.Reaches s t → t.kind.NeverUnexpected σ.world)
    (hnot : ¬ σ.world.ReachesAsync s) (fuel : Nat) (v : Value) :
    Ensures σ.Onward (s.parse fuel v) (OnError Error.FreeOfAsync) :=
  Schema.parseOn_ensures (onward_compiles σ) hs
    ((inv.planned_free hs hfunction (inv.machine_awaits hs hfunction fuel) s .refl).1 hnot v)

/-- The start of a parse. -/
theorem Invariants.stage_free (inv : σ.Invariants) (hs : s ∈ σ.nodes)
    (hfunction : ∀ t, σ.world.Reaches s t → t.kind.NeverUnexpected σ.world) (fuel : Nat)
    (v : Value) :
    Ensures σ.Onward (s.stage fuel v) (StagedFree σ.world (σ.world.Reaches s)) :=
  Schema.stageOn_ensures (onward_compiles σ) hs
    ((inv.planned_free hs hfunction (inv.machine_awaits hs hfunction fuel) s .refl).2 v)

/-- A parse that waits. -/
theorem Invariants.parseAsync_free (inv : σ.Invariants) (hs : s ∈ σ.nodes)
    (hfunction : ∀ t, σ.world.Reaches s t → t.kind.NeverUnexpected σ.world) (fuel : Nat)
    (v : Value) : Ensures σ.Onward (s.parseAsync fuel v) (OnError Error.FreeOfAsync) := by
  refine (inv.stage_free hs hfunction fuel v).bind fun outcome houtcome => ?_
  cases outcome with
  | error e => exact .pure houtcome
  | ok staged => exact inv.drive_free hs hfunction fuel fuel staged.toTask houtcome

/-- **A stand-in is not given the error**: the operation below it does not come to it. -/
theorem Invariants.sparesFallback (inv : σ.Invariants) (hroot : root ∈ σ.nodes)
    (hfunction : ∀ t, σ.world.Reaches root t → t.kind.NeverUnexpected σ.world)
    (hs : σ.world.Reaches root s) {base : Schema} {fallback : Fallback}
    (hkind : s.kind = .transformed base (.recover fallback)) : σ.SparesFallback s fallback := by
  have hmem := inv.sound.hosts.reaches hroot hs
  have hbase : σ.world.Leads s base := World.leads_of_child (by
    rw [Schema.children, hkind]
    exact List.mem_singleton_self base)
  have hplanned : ∀ fuel, _ := fun fuel =>
    inv.planned_free hroot hfunction (inv.machine_awaits hroot hfunction fuel) base (hs.tail hbase)
  obtain ⟨w, -, hrun⟩ := Schema.parseOperation_gives inv.sound hmem σ.world inv.sound.later
  refine ⟨_, w, hrun, ?_⟩
  obtain ⟨w₁, o, waits, -, -, -, hplan⟩ :=
    inv.sound.parsePlan_shape inv.shaped (.refl _) hmem
  have hwaits := inv.exact.answer_iff inv.sound.hosts hmem
  rw [← inv.sound.planned_isAsync hmem, World.planned, hplan, Kind.parser_isAsync] at hwaits
  rw [hplan, hkind]
  cases waits with
  | false =>
      have hnot : ¬ σ.world.ReachesAsync base := fun ha =>
        absurd (hwaits.2 (World.reachesAsync_of_leads hbase ha)) (by simp)
      refine .inl ⟨_, rfl, fun fuel v e w' hfails => ?_⟩
      exact ((hplanned fuel).1 hnot v σ.world _ w' inv.onward hfails).2
  | true =>
      refine .inr ⟨_, rfl, ?_⟩
      refine inv.neverUnexpected hroot hfunction (fun fuel => ?_) fun fuel v => (hplanned fuel).2 v
      exact ParseOperation.stages (σ.world.later_leavesLogsOpen σ.nodes)
        (inv.sound.machine_deterministic fuel) _

/-- **The error of an unexpected wait comes from parsing at once what waits, and from nowhere
else.**  After any calls, a schema whose functions do not return this error themselves is asked
whether it waits.  If it does, parsing it at once fails with the error; if it does not, the error is
nowhere in the error of a parse.  Starting to parse it, carrying on what this leaves and parsing it
to the end do not come to the error at any depth, and no stand-in for failures is given it. -/
theorem Called.unexpectedAsync_only_at_once (h : σ.Called) (hs : s ∈ σ.nodes)
    (hfunction : ∀ t, σ.world.Reaches s t → t.kind.NeverUnexpected σ.world) :
    (∃ b w, s.isAsync σ.world = .ok (b, w) ∧
      (b = true → ∀ fuel v, ∃ w',
        s.parse fuel v σ.world = .ok (.error unexpectedAsyncError, w')) ∧
      (b = false → ∀ fuel v e w', s.parse fuel v σ.world = .ok (.error e, w') → e.FreeOfAsync)) ∧
    σ.NeverUnexpected (fun fuel => s.stage fuel) ∧
    (∀ fuel v e w', s.parseAsync fuel v σ.world = .ok (.error e, w') → e.FreeOfAsync) ∧
    ∀ t base fallback, σ.world.Reaches s t → t.kind = .transformed base (.recover fallback) →
      σ.SparesFallback t fallback := by
  have inv := h.invariants
  have hanswer := inv.exact.answer_iff inv.sound.hosts hs
  obtain ⟨w, -, hasked⟩ := Schema.isAsync_gives inv.sound hs σ.world inv.sound.later
  refine ⟨⟨_, w, hasked, fun hwaits fuel v => ?_, fun hnot fuel v e w' hrun => ?_⟩, ?_, ?_, ?_⟩
  · -- the operation of a schema that waits is not run
    obtain ⟨w', -, happly⟩ := Schema.parseOn_apply (m := machine fuel)
      (inv.sound.compiles fun _ hs => hs) hs inv.sound.later v
    rw [ParseOperation.atOnce_of_isAsync ((inv.sound.planned_isAsync hs).trans hwaits)] at happly
    exact ⟨w', happly⟩
  · have hfree := inv.parse_free hs hfunction (fun ha => by rw [hanswer.2 ha] at hnot; cases hnot)
    exact (hfree fuel v σ.world _ w' inv.onward hrun).2
  · exact inv.neverUnexpected hs hfunction (fun fuel => inv.sound.stage_steady fuel hs)
      (inv.stage_free hs hfunction)
  · exact fun fuel v e w' hrun =>
      (inv.parseAsync_free hs hfunction fuel v σ.world _ w' inv.onward hrun).2
  · exact fun t base fallback ht hkind => inv.sparesFallback hs hfunction ht hkind

/-! ### A graph that waits -/

/-- The function of the cyclic graph does not fail. -/
theorem cyclic_neverUnexpected (t : Schema) (ht : t ∈ cyclicAsked.nodes) (w : World) :
    t.kind.NeverUnexpected w := by
  simp only [cyclicAsked, cyclic, List.mem_cons, List.not_mem_nil, or_false] at ht
  rcases ht with rfl | rfl | rfl
  · trivial
  · refine ⟨fun f hf => (by cases hf), fun f hf => ?_⟩
    cases hf
    exact Action.compute_neverUnexpected fun v e hfails => by cases hfails
  · trivial

/-- In the cyclic graph the tuple waits, and only a parse at once meets the error. -/
theorem unexpectedAsync_only_at_once_cyclic :
    cyclicAsked.Called ∧ outer ∈ cyclicAsked.nodes ∧
      (∀ t, cyclicAsked.world.Reaches outer t → t.kind.NeverUnexpected cyclicAsked.world) ∧
      cyclicAsked.NeverUnexpected fun fuel => outer.stage fuel := by
  have hcalled := Settled.called cyclicAsked_settled
  have hm : outer ∈ cyclicAsked.nodes := List.mem_cons_self ..
  have hfunction : ∀ t, cyclicAsked.world.Reaches outer t →
      t.kind.NeverUnexpected cyclicAsked.world := fun t ht =>
    cyclic_neverUnexpected t (hcalled.invariants.sound.hosts.reaches hm ht) _
  exact ⟨hcalled, hm, hfunction, (Called.unexpectedAsync_only_at_once hcalled hm hfunction).2.1⟩

end Scene

end Schemata
