/-
**No result depends on what has been compiled, or on the log.**

Steadiness was shown for schemas whose functions are pure, in sets of worlds that may even have one
log.  When logs are left open, functions need not be pure: a line that is noted leads to another
world of the set, nothing reads the log, and a function that runs another schema runs what was
planned for it.  So every operation, every parse that waits and every task is steady among the
worlds ahead, whatever functions it calls, and in particular it never leaves them.

Main definitions:

* `Schemata.LeavesLogsOpen` — a set of worlds that no line in the log leads out of;
* `Schemata.Machine.Deterministic` — a machine whose references and late parses are steady.

Main results:

* `Schemata.Operation.runs`, `Schemata.ParseOperation.stages`, `Schemata.Task.poll_steady` — what
  runs on such a machine is steady;
* `Schemata.World.Sound.machine_deterministic` — **the machine behind references is deterministic**;
* `Schemata.World.Sound.parse_steady`, `Schemata.World.Sound.serialize_steady`,
  `Schemata.World.Sound.parseAsync_steady` — **the entry points are steady**;
* `Schemata.World.Sound.planned_of_gives` — what parses at once does not wait.
-/

import Schemata.Proofs.Steadiness

set_option relaxedAutoImplicit false
set_option autoImplicit false

namespace Schemata

/-- No line in the log leads out of the set. -/
def LeavesLogsOpen (W : World → Prop) : Prop := ∀ w log, W w → W { w with log := log }

/-- The worlds ahead leave logs open. -/
theorem World.later_leavesLogsOpen (w₀ : World) (nodes : List Schema) :
    LeavesLogsOpen (w₀.Later nodes) := by
  intro w log hw
  exact hw.withLog log

/-- **References and late parses do not depend on the world.** -/
structure Machine.Deterministic (W : World → Prop) (m : Machine) : Prop where
  parse : ∀ r v, Steady W (m.parse r v)
  serialize : ∀ r v, Steady W (m.serialize r v)
  stage : ∀ r v, Steady W (m.stage r v)
  poll : ∀ task, Steady W (m.poll task)

section

variable {W : World → Prop} {m : Machine}

/-! ### User functions -/

theorem note_gives (hW : LeavesLogsOpen W) (tag : String) (v : Value) :
    Gives W (note tag v) () := by
  intro w hw
  exact ⟨_, hW w _ hw, rfl⟩

theorem noteIf_gives (hW : LeavesLogsOpen W) (tag : Option String) (v : Value) :
    Gives W (noteIf tag v) () := by
  cases tag with
  | none => exact .pure _
  | some tag => exact note_gives hW tag v

theorem noteIf_steady (hW : LeavesLogsOpen W) (tag : Option String) (v : Value) :
    Steady W (noteIf tag v) := (noteIf_gives hW tag v).steady

/-- A test ends with its outcome, whatever it notes. -/
theorem Test.run_gives (hW : LeavesLogsOpen W) (test : Test) (v : Value) :
    Gives W (test.run v) (test.outcome v) := by
  induction test with
  | holds p => exact .pure _
  | log tag test ih => exact (note_gives hW tag v).bind ih
  | not test ih => exact ih.bind (.pure _)

theorem Action.run_steady (hW : LeavesLogsOpen W) (hm : m.Deterministic W) (f : Action) :
    ∀ v, Steady W (f.run m v) := by
  induction f with
  | compute f => exact fun v => .pure _
  | log tag => exact fun v => (note_gives hW tag v).bind_steady (.pure _)
  | andThen first second ihFirst ihSecond =>
      exact fun v => (ihFirst v).attempt (fun _ => .pure _) ihSecond
  | choose test yes no ihYes ihNo =>
      intro v
      refine (test.run_gives hW v).bind_steady ?_
      cases test.outcome v with
      | true => exact ihYes v
      | false => exact ihNo v
  | parseWith r => exact fun v => (hm.parse r v).bind fun _ => .pure _
  | serializeWith r => exact fun v => (hm.serialize r v).bind fun _ => .pure _

theorem Action.runAs_steady (hW : LeavesLogsOpen W) (hm : m.Deterministic W) (f : Action)
    (direction : Direction) (v : Value) : Steady W (f.runAs m direction v) :=
  (f.run_steady hW hm v).attempt (fun _ => .pure _) fun _ => .pure _

theorem AsyncAction.start_steady (hW : LeavesLogsOpen W) (f : AsyncAction) (v : Value) :
    Steady W (f.start v) := (noteIf_steady hW f.announce v).bind fun _ => .pure _

theorem Supply.orElse_steady (hW : LeavesLogsOpen W) (s : Supply) (v : Value) :
    Steady W (s.orElse v) := by
  rw [Supply.orElse]
  split
  · exact (noteIf_steady hW s.tag s.value).bind fun _ => .pure _
  · exact .pure _

/-- A test that is made gives what it tells. -/
theorem checked_gives (hW : LeavesLogsOpen W) (direction : Direction) (message : String)
    (test : Test) (v : Value) :
    Gives W (checked direction message test v) (test.result direction message v) := by
  refine (test.run_gives hW v).bind ?_
  rw [Test.result]
  cases test.outcome v <;> exact .pure _

/-- What passes a test is the value itself, and the test holds of it. -/
theorem checked_passes (hW : LeavesLogsOpen W) {w : World} (hw : W w) {direction : Direction}
    {message : String} {test : Test} {v a : Value}
    (h : Gives W (checked direction message test v) (.ok a)) :
    a = v ∧ test.outcome v = true := by
  have hresult := (checked_gives hW direction message test v).unique h hw
  rw [Test.result] at hresult
  split at hresult
  · rename_i holds
    cases hresult
    exact ⟨rfl, holds⟩
  · cases hresult

theorem checked_steady (hW : LeavesLogsOpen W) (direction : Direction) (message : String)
    (test : Test) (v : Value) : Steady W (checked direction message test v) :=
  (checked_gives hW direction message test v).steady

/-! ### Operations -/

mutual

/-- **Every operation is steady** on a machine whose references are. -/
theorem Operation.runs (hW : LeavesLogsOpen W) (hm : m.Deterministic W) :
    ∀ op : Operation, Runs W m op
  | .noop => .noop
  | .fail e => .fail e
  | .scalar kind direction expected => .scalar kind direction expected
  | .literal direction l => .literal direction l
  | .array direction expected item => .array (item.runs hW hm) direction expected
  | .dict direction expected value => .dict (value.runs hW hm) direction expected
  | .tuple direction expected items => .tuple (Operation.runsEach hW hm items) direction expected
  | .parseObject expected fields policy =>
      .parseObject (Operation.runsFields hW hm fields) expected policy
  | .serializeObject expected fields omitted =>
      .serializeObject (Operation.runsFields hW hm fields) expected omitted
  | .unlessNull inner => .unlessNull (inner.runs hW hm)
  | .parseUnion members tags => .parseUnion (Operation.runsEach hW hm members) tags
  | .serializeUnion members tags => .serializeUnion (Operation.runsEach hW hm members) tags
  | .decodeText expected inner => .decodeText (inner.runs hW hm) expected
  | .encodeText inner => .encodeText (inner.runs hW hm)
  | .recover fallback base => .recover (base.runs hW hm) fallback
  | .thenConstant value base => .thenConstant (base.runs hW hm) value
  | .exchange internal external base => .exchange (base.runs hW hm) internal external
  -- what follows calls functions, which note lines and run other schemas
  | .apply direction f => fun v => f.runAs_steady hW hm direction v
  | .thenApply direction base f => fun v =>
      (base.runs hW hm v).attempt (fun _ => .pure _) (f.runAs_steady hW hm direction)
  | .applyFirst direction f base => fun v =>
      (f.runAs_steady hW hm direction v).attempt (fun _ => .pure _) (base.runs hW hm)
  | .thenCheck message test base => fun v =>
      (base.runs hW hm v).attempt (fun _ => .pure _) (checked_steady hW .parsing message test)
  | .checkFirst message test base => fun v =>
      (checked_steady hW .serializing message test v).attempt (fun _ => .pure _) (base.runs hW hm)
  | .orSupply supply base => fun v =>
      (base.runs hW hm v).attempt (fun _ => .pure _) fun a =>
        (supply.orElse_steady hW a).bind fun _ => .pure _
  | .follow .parsing r => fun v => hm.parse r v
  | .follow .serializing r => fun v => hm.serialize r v

theorem Operation.runsEach (hW : LeavesLogsOpen W) (hm : m.Deterministic W) :
    ∀ ops : List Operation, ∀ op ∈ ops, Runs W m op
  | [] => List.forall_mem_nil _
  | op :: rest => List.forall_mem_cons.2 ⟨op.runs hW hm, Operation.runsEach hW hm rest⟩

theorem Operation.runsFields (hW : LeavesLogsOpen W) (hm : m.Deterministic W) :
    ∀ fields : List (String × Operation), ∀ f ∈ fields, Runs W m f.2
  | [] => List.forall_mem_nil _
  | (_, op) :: rest => List.forall_mem_cons.2 ⟨op.runs hW hm, Operation.runsFields hW hm rest⟩

end

/-! ### Starting parses that may wait -/

/-- **Starting the operation is steady on every value.** -/
def Stages (W : World → Prop) (m : Machine) (op : ParseOperation) : Prop :=
  ∀ v, Steady W (op.stage m v)

theorem stageEach_steady {children : List (Segment × Run (Except Error Staged))}
    (h : ∀ c ∈ children, Steady W c.2) : Steady W (stageEach children) := by
  induction children with
  | nil => exact .pure _
  | cons c rest ih =>
      have hrest := ih fun d hd => h d (List.mem_cons_of_mem _ hd)
      refine (h c (List.mem_cons_self ..)).attempt (fun _ => .pure _) fun staged => ?_
      exact hrest.attempt (fun _ => .pure _) fun _ => .pure _

theorem stageFields_steady {fields : List (String × Stager)}
    (h : ∀ f ∈ fields, ∀ v, Steady W (f.2 v)) :
    ∀ entries, Steady W (stageFields fields entries) := by
  induction fields with
  | nil => exact fun entries => .pure _
  | cons f rest ih =>
      intro entries
      have hrest := ih fun g hg => h g (List.mem_cons_of_mem _ hg)
      refine (h f (List.mem_cons_self ..) _).attempt (fun _ => .pure _) fun staged => ?_
      exact (hrest _).attempt (fun _ => .pure _) fun _ => .pure _

theorem stageMembers_steady {members : List Stager} {v : Value}
    (h : ∀ member ∈ members, Steady W (member v)) : Steady W (stageMembers v members) := by
  induction members with
  | nil => exact .pure _
  | cons member rest ih =>
      have hrest := ih fun x hx => h x (List.mem_cons_of_mem _ hx)
      refine (h member (List.mem_cons_self ..)).bind fun outcome => ?_
      -- only a member that has its value ends the trial
      rcases outcome with e | (a | task)
      · exact hrest.bind fun _ => .pure _
      · exact .pure _
      · exact hrest.bind fun _ => .pure _

theorem afterStage_steady {base : Run (Except Error Staged)}
    {next : Staged → Run (Except Error Staged)} (hbase : Steady W base)
    (hnext : ∀ staged, Steady W (next staged)) : Steady W (afterStage base next) :=
  hbase.attempt (fun _ => .pure _) hnext

theorem Staged.andThen_steady {next : Continuation} {now : Value → Run Result}
    (hnow : ∀ v, Steady W (now v)) (staged : Staged) : Steady W (staged.andThen next now) := by
  cases staged with
  | ready v => exact (hnow v).attempt (fun _ => .pure _) fun _ => .pure _
  | pending task => exact .pure _

mutual

/-- **Starting any parse operation is steady.** -/
theorem ParseOperation.stages (hW : LeavesLogsOpen W) (hm : m.Deterministic W) :
    ∀ op : ParseOperation, Stages W m op
  | .direct op | .ready op => fun v => (op.runs hW hm v).bind fun _ => .pure _
  | .array expected item => by
      intro v
      cases v with
      | array values =>
          refine (stageEach_steady fun c hc => ?_).bind fun _ => .pure _
          obtain ⟨x, hx, rfl⟩ := List.mem_map.1 hc
          obtain ⟨a, -, ha⟩ := List.mem_map.1 (List.fst_mem_of_mem_zipIdx hx)
          exact ha ▸ item.stages hW hm a
      | _ => exact .pure _
  | .dict expected value => by
      intro v
      cases v with
      | object entries =>
          refine (stageEach_steady fun c hc => ?_).bind fun _ => .pure _
          obtain ⟨x, hx, rfl⟩ := List.mem_map.1 hc
          obtain ⟨e, -, rfl⟩ := List.mem_map.1 hx
          exact value.stages hW hm e.2
      | _ => exact .pure _
  | .tuple expected items => by
      intro v
      cases v with
      | array values =>
          simp only [ParseOperation.stage]
          split
          · exact .pure _
          · refine (stageEach_steady fun c hc => ?_).bind fun _ => .pure _
            obtain ⟨x, hx, rfl⟩ := List.mem_map.1 hc
            obtain ⟨i, hi, hget⟩ := List.mem_iff_getElem.1 (List.fst_mem_of_mem_zipIdx hx)
            rw [List.getElem_zipWith] at hget
            rw [← hget]
            exact ParseOperation.stagesEach hW hm items _ (List.getElem_mem _) _
      | _ => exact .pure _
  | .object expected fields policy => by
      intro v
      cases v with
      | object entries =>
          refine (stageFields_steady (ParseOperation.stagesFields hW hm fields) entries).attempt
            (fun _ => .pure _) fun r => ?_
          dsimp only
          split <;> exact .pure _
      | _ => exact .pure _
  | .unlessNull inner => by
      intro v
      cases v with
      | null => exact .pure _
      | _ => exact inner.stages hW hm _
  | .union members => fun v =>
      (stageMembers_steady fun member hmember =>
        ParseOperation.stagesEach hW hm members member hmember v).bind fun _ => .pure _
  | .decodeText expected inner => by
      intro v
      rw [ParseOperation.stage]
      split
      · exact .pure _
      · exact inner.stages hW hm _
  | .applyAsync f => fun v => (f.start_steady hW v).bind fun _ => .pure _
  | .thenApply base f => fun v =>
      afterStage_steady (base.stages hW hm v)
        (Staged.andThen_steady (f.runAs_steady hW hm .parsing))
  | .thenApplyAsync base f => by
      intro v
      refine afterStage_steady (base.stages hW hm v) fun staged => ?_
      cases staged with
      | ready a => exact (f.start_steady hW a).bind fun _ => .pure _
      | pending task => exact .pure _
  | .applyFirst f base => fun v =>
      (f.runAs_steady hW hm .parsing v).attempt (fun _ => .pure _) (base.stages hW hm)
  | .applyAsyncFirst f base => fun v => (f.start_steady hW v).bind fun _ => .pure _
  | .thenCheck message test base => fun v =>
      afterStage_steady (base.stages hW hm v)
        (Staged.andThen_steady (checked_steady hW .parsing message test))
  | .thenCheckAsync message test base => fun v =>
      afterStage_steady (base.stages hW hm v) fun _ => .pure _
  | .recover fallback base => by
      intro v
      refine (base.stages hW hm v).bind fun outcome => ?_
      rcases outcome with e | (a | task) <;> exact .pure _
  | .thenConstant value base => fun v =>
      afterStage_steady (base.stages hW hm v) (Staged.andThen_steady fun _ => .pure _)
  | .orSupply supply base => fun v =>
      afterStage_steady (base.stages hW hm v)
        (Staged.andThen_steady fun a => (supply.orElse_steady hW a).bind fun _ => .pure _)
  | .follow r => fun v => hm.stage r v

theorem ParseOperation.stagesEach (hW : LeavesLogsOpen W) (hm : m.Deterministic W) :
    ∀ ops : List ParseOperation, ∀ stage ∈ stagers m ops, ∀ v, Steady W (stage v)
  | [] => List.forall_mem_nil _
  | op :: rest => List.forall_mem_cons.2 ⟨op.stages hW hm, ParseOperation.stagesEach hW hm rest⟩

theorem ParseOperation.stagesFields (hW : LeavesLogsOpen W) (hm : m.Deterministic W) :
    ∀ fields : List (String × ParseOperation), ∀ f ∈ fieldStagers m fields, ∀ v,
      Steady W (f.2 v)
  | [] => List.forall_mem_nil _
  | (_, op) :: rest =>
      List.forall_mem_cons.2 ⟨op.stages hW hm, ParseOperation.stagesFields hW hm rest⟩

end

/-! ### Tasks -/

theorem pollCall_steady (hW : LeavesLogsOpen W) (hm : m.Deterministic W) (waits : Nat) (f : Action)
    (input : Value) : Steady W (pollCall m waits f input) := by
  cases waits with
  | zero => exact (f.runAs_steady hW hm .parsing input).bind fun _ => .pure _
  | succ waits => exact .pure _

theorem pollCheck_steady (hW : LeavesLogsOpen W) (waits : Nat) (message : String) (test : Test)
    (v : Value) : Steady W (pollCheck waits message test v) := by
  cases waits with
  | zero => exact (checked_steady hW .parsing message test v).bind fun _ => .pure _
  | succ waits => exact .pure _

theorem Continuation.resume_steady (hW : LeavesLogsOpen W) (hm : m.Deterministic W)
    (next : Continuation) (v : Value) : Steady W (next.resume m v) := by
  cases next with
  | apply f => exact (f.runAs_steady hW hm .parsing v).bind fun _ => .pure _
  | applyAsync f =>
      exact (noteIf_steady hW f.announce v).bind fun _ => pollCall_steady hW hm f.waits f.body v
  | parse op =>
      refine (op.stages hW hm v).bind fun outcome => ?_
      rcases outcome with e | (a | task)
      · exact .pure _
      · exact .pure _
      · exact hm.poll task
  | check message test => exact (checked_steady hW .parsing message test v).bind fun _ => .pure _
  | checkAsync message test => exact pollCheck_steady hW test.waits message test.test v
  | constant value => exact .pure _
  | orSupply supply => exact (supply.orElse_steady hW v).bind fun _ => .pure _

mutual

/-- **One poll of any task is steady.** -/
theorem Task.poll_steady (hW : LeavesLogsOpen W) (hm : m.Deterministic W) :
    ∀ task : Task, Steady W (task.poll m)
  | .done _ => .pure _
  | .call waits f input => pollCall_steady hW hm waits f input
  | .check waits message test v => pollCheck_steady hW waits message test v
  | .andThen task next => by
      refine (task.poll_steady hW hm).bind fun p => ?_
      rcases p with (e | v) | t
      · exact .pure _
      · exact next.resume_steady hW hm v
      · exact .pure _
  | .inside _ task | .recover _ _ task => by
      refine (task.poll_steady hW hm).bind fun p => ?_
      rcases p with (e | v) | t <;> exact .pure _
  | .join children assembly => by
      refine (pollEach_steady hW hm children).bind fun polls => ?_
      split <;> exact .pure _
  | .firstSuccess errors attempts => pollAttempts_steady hW hm attempts errors

theorem pollEach_steady (hW : LeavesLogsOpen W) (hm : m.Deterministic W) :
    ∀ tasks : List Task, Steady W (pollEach m tasks)
  | [] => .pure _
  | task :: rest =>
      (task.poll_steady hW hm).bind fun _ => (pollEach_steady hW hm rest).bind fun _ => .pure _

theorem pollAttempts_steady (hW : LeavesLogsOpen W) (hm : m.Deterministic W) :
    ∀ (tasks : List Task) (errors : List Error), Steady W (pollAttempts m errors tasks)
  | [], _ => .pure _
  | task :: rest, errors => by
      refine (task.poll_steady hW hm).bind fun p => ?_
      rcases p with (e | v) | t
      · exact pollAttempts_steady hW hm rest (errors ++ [e])
      · exact .pure _
      · exact .pure _

end

theorem Task.drive_steady (hW : LeavesLogsOpen W) (hm : m.Deterministic W) (fuel : Nat) :
    ∀ task : Task, Steady W (task.drive m fuel) := by
  induction fuel with
  | zero => exact fun task => .halt _
  | succ fuel ih =>
      intro task
      refine (task.poll_steady hW hm).bind fun p => ?_
      cases p with
      | ready r => exact .pure _
      | pending t => exact ih t

end

/-! ### Schemas -/

section

variable {w₀ : World} {nodes : List Schema} {s : Schema}

/-- What is done with the schema behind a reference is steady when it is so for the schema that the
reference stands for. -/
theorem World.Compiles.target_steady {α : Type} {N W : _ → Prop} (hc : w₀.Compiles N W)
    {r : Reference} {F : Schema → Run α} {a : α}
    (hF : ∀ t, w₀.target? r = some t → Steady W (F t)) :
    Steady W (do
      match (← get).target? r with
      | some t => F t
      | none => return a) := by
  cases ht : w₀.target? r with
  | none =>
      refine Steady.congr (fun w hw => ?_) (.pure a)
      simp only [get_bind, hc.target hw r, ht]
  | some t =>
      refine Steady.congr (fun w hw => ?_) (hF t ht)
      simp only [get_bind, hc.target hw r, ht]

/-- What is done with the schema behind a reference is as required, if it is for the schema that the
reference stands for. -/
theorem World.Compiles.target_ensures {α : Type} {N W : _ → Prop} (hc : w₀.Compiles N W)
    {r : Reference} {F : Schema → Run α} {a : α} {P : α → Prop}
    (hF : ∀ t, w₀.target? r = some t → Ensures W (F t) P) (ha : P a) :
    Ensures W (do
      match (← get).target? r with
      | some t => F t
      | none => return a) P := by
  cases ht : w₀.target? r with
  | none =>
      refine Ensures.congr (fun w hw => ?_) (.pure ha)
      simp only [get_bind, hc.target hw r, ht]
  | some t =>
      refine Ensures.congr (fun w hw => ?_) (hF t ht)
      simp only [get_bind, hc.target hw r, ht]

theorem Schema.stageOn_steady {m : Machine} {N W : _ → Prop} (hc : w₀.Compiles N W) (hs : N s)
    (h : Stages W m (w₀.planned s)) (v : Value) : Steady W (s.stageOn m v) :=
  (hc.parse s hs).bind_steady (h v)

/-- What starting the planned operation gives, starting a parse gives. -/
theorem Schema.stageOn_gives {m : Machine} {N W : _ → Prop} (hc : w₀.Compiles N W) (hs : N s)
    {v : Value} {o : Except Error Staged} (h : Gives W ((w₀.planned s).stage m v) o) :
    Gives W (s.stageOn m v) o := (hc.parse s hs).bind h

/-- What starting a parse gives in one world, starting the planned operation gives in all. -/
theorem Schema.gives_of_stageOn {m : Machine} {N W : _ → Prop} (hc : w₀.Compiles N W) (hs : N s)
    {v : Value} (h : Stages W m (w₀.planned s)) {w w' : World} (hw : W w)
    {o : Except Error Staged} (hrun : s.stageOn m v w = .ok (o, w')) :
    Gives W ((w₀.planned s).stage m v) o := by
  obtain ⟨w₁, hw₁, hop⟩ := hc.parse s hs w hw
  rw [Schema.stageOn, bind_ok hop] at hrun
  exact h v w₁ o w' hw₁ hrun

/-- **The machine behind references is deterministic** where every schema that a reference stands for
gives what was planned, with any fuel. -/
theorem World.Compiles.machine_deterministic {N W : _ → Prop} (hc : w₀.Compiles N W)
    (hW : LeavesLogsOpen W) (htarget : ∀ r t, w₀.target? r = some t → N t) (fuel : Nat) :
    (machine fuel).Deterministic W := by
  induction fuel with
  | zero => exact ⟨fun _ _ => .halt _, fun _ _ => .halt _, fun _ _ => .halt _, fun _ => .halt _⟩
  | succ fuel ih =>
      constructor
      · intro r v
        exact hc.target_steady fun t ht =>
          Schema.parseOn_steady hc (htarget r t ht) (Operation.runs hW ih _) v
      · intro r v
        exact hc.target_steady fun t ht =>
          Schema.serializeOn_steady hc (htarget r t ht) (Operation.runs hW ih _) v
      · intro r v
        exact hc.target_steady fun t ht =>
          Schema.stageOn_steady hc (htarget r t ht) (ParseOperation.stages hW ih _) v
      · intro task
        exact task.poll_steady hW ih

/-- It is so among the worlds ahead. -/
theorem World.Sound.machine_deterministic (h : w₀.Sound nodes) (fuel : Nat) :
    (machine fuel).Deterministic (w₀.Later nodes) :=
  (h.compiles fun _ hs => hs).machine_deterministic (w₀.later_leavesLogsOpen nodes)
    h.hosts.targets fuel

/-- Any operation is steady among the worlds ahead. -/
theorem World.Sound.runs (h : w₀.Sound nodes) (fuel : Nat) (op : Operation) :
    Runs (w₀.Later nodes) (machine fuel) op :=
  op.runs (w₀.later_leavesLogsOpen nodes) (h.machine_deterministic fuel)

/-- Starting any parse operation is steady among the worlds ahead. -/
theorem World.Sound.stages (h : w₀.Sound nodes) (fuel : Nat) (op : ParseOperation) :
    Stages (w₀.Later nodes) (machine fuel) op :=
  op.stages (w₀.later_leavesLogsOpen nodes) (h.machine_deterministic fuel)

/-- **Parsing is steady**, whatever functions it calls. -/
theorem World.Sound.parse_steady (h : w₀.Sound nodes) (fuel : Nat) (hs : s ∈ nodes) (v : Value) :
    Steady (w₀.Later nodes) (s.parse fuel v) :=
  Schema.parseOn_steady (h.compiles fun _ hs => hs) hs (h.runs fuel _) v

/-- **Serializing is steady**, whatever functions it calls. -/
theorem World.Sound.serialize_steady (h : w₀.Sound nodes) (fuel : Nat) (hs : s ∈ nodes)
    (v : Value) : Steady (w₀.Later nodes) (s.serialize fuel v) :=
  Schema.serializeOn_steady (h.compiles fun _ hs => hs) hs (h.runs fuel _) v

/-- Parsing with waiting is steady on a deterministic machine. -/
theorem World.Compiles.parseAsync_steady {N W : _ → Prop} (hc : w₀.Compiles N W)
    (hW : LeavesLogsOpen W) {fuel : Nat} (hm : (machine fuel).Deterministic W) (hs : N s)
    (v : Value) : Steady W (s.parseAsync fuel v) := by
  refine (Schema.stageOn_steady hc hs (ParseOperation.stages hW hm _) v).attempt
    (fun _ => .pure _) fun staged => ?_
  exact staged.toTask.drive_steady hW hm fuel

/-- **Parsing with waiting is steady**, whatever functions it calls. -/
theorem World.Sound.parseAsync_steady (h : w₀.Sound nodes) (fuel : Nat) (hs : s ∈ nodes)
    (v : Value) : Steady (w₀.Later nodes) (s.parseAsync fuel v) :=
  (h.compiles fun _ hs => hs).parseAsync_steady (w₀.later_leavesLogsOpen nodes)
    (h.machine_deterministic fuel) hs v

/-! ### What parses does not wait -/

/-- **A planned operation that succeeds belongs to a schema that does not wait**, so it has the
shape of its kind. -/
theorem World.Sound.planned_of_gives {W : World → Prop} {m : Machine} {w : World} {v t : Value}
    (h : w₀.Sound nodes) (hshape : w₀.Shaped World.Before nodes) (hs : s ∈ nodes) (hw : W w)
    (hg : Gives W ((w₀.planned s).atOnce.run m v) (.ok t)) :
    ∃ w₁ o, w₁.Before w₀ ∧ o ∈ nodes ∧ o.kind = s.kind ∧
      (w₀.planned s).atOnce = s.kind.directParser w₁ o.id w₀.planned := by
  obtain ⟨w₁, o, waits, hbefore, ho, hkind, hplan⟩ := h.parsePlan_shape hshape (.refl w₀) hs
  refine ⟨w₁, o, hbefore, ho, hkind, ?_⟩
  rw [World.planned, hplan] at hg ⊢
  cases waits with
  | false => rfl
  | true =>
      rw [ParseOperation.atOnce_of_isAsync (Kind.parser_isAsync _ _ _ _ _)] at hg
      obtain ⟨w', -, hrun⟩ := hg w hw
      cases hrun

end

end Schemata
