/-
**Errors of parses that wait.**

What a task can fail with can be read off the task: what it has failed with already, what its
functions say in their own words, and what its children fail with, moved into them once and for all
when they were started.  Polling keeps to this.  So a failure is held to the same law whether it
comes while a parse is started or while its task is carried on.

A parse that begins late, after a function that waits, is of another value than the one at hand and
is left out.

Main definitions:

* `Schemata.Task.FailsOnly`, `Schemata.Continuation.FailsOnly` — **what a task can fail with**;
* `Schemata.StageBlames` — an operation that is started and whose errors, now or later, blame what
  there is to blame.

Main results:

* `Schemata.Task.poll_failsOnly`, `Schemata.Task.drive_failsOnly` — a poll, and the result;
* `Schemata.stageEach_failsOnly`, `Schemata.stageFields_failsOnly`,
  `Schemata.stageMembers_failsOnly` — children, fields and members;
* `Schemata.Kind.stagedParser_blames` — **starting a kind blames what its children blame**, one
  level further out.
-/

import Schemata.Proofs.DirectErrors
import Schemata.Proofs.StagedMeaning

set_option relaxedAutoImplicit false
set_option autoImplicit false

namespace Schemata

/-! ### Tasks -/

/-- **What happens to a value fails only as required.** -/
def Continuation.FailsOnly (w : World) (Q : Error → Prop) : Continuation → Prop
  | .apply f => f.FailsPlainly w ∧ ∀ e, IsPlain .parsing e → Q e
  | .applyAsync f => f.body.FailsPlainly w ∧ ∀ e, IsPlain .parsing e → Q e
  | .parse _ => False
  | .check message _ | .checkAsync message _ => Q (Error.atRoot (.refinement message) .parsing)
  | .constant _ | .orSupply _ => True

mutual

/-- **The task fails only as required.** -/
def Task.FailsOnly (w : World) : Task → (Error → Prop) → Prop
  | .done r, Q => OnError Q r
  | .call _ f _, Q => f.FailsPlainly w ∧ ∀ e, IsPlain .parsing e → Q e
  | .check _ message _ _, Q => Q (Error.atRoot (.refinement message) .parsing)
  | .andThen task next, Q => task.FailsOnly w Q ∧ next.FailsOnly w Q
  | .inside s task, Q => task.FailsOnly w fun e => Q (e.prepend s)
  | .recover _ _ _, _ => True
  | .join children _, Q => FailOnlyEach w children Q
  | .firstSuccess errors attempts, Q => ∃ R : Error → Prop,
      (∀ es, (∀ e ∈ es, R e) → Q (Error.atRoot (.invalidUnion es) .parsing)) ∧
      (∀ e ∈ errors, R e) ∧ FailOnlyEach w attempts R

/-- Each of the tasks does. -/
def FailOnlyEach (w : World) : List Task → (Error → Prop) → Prop
  | [], _ => True
  | task :: rest, Q => task.FailsOnly w Q ∧ FailOnlyEach w rest Q

end

variable {W : World → Prop} {m : Machine} {w : World} {Q R : Error → Prop}

theorem Continuation.FailsOnly.mono {next : Continuation} (h : next.FailsOnly w Q)
    (hQR : ∀ e, Q e → R e) : next.FailsOnly w R := by
  cases next with
  | apply f => exact ⟨h.1, fun e he => hQR e (h.2 e he)⟩
  | applyAsync f => exact ⟨h.1, fun e he => hQR e (h.2 e he)⟩
  | parse op => exact h.elim
  | check message test => exact hQR _ h
  | checkAsync message test => exact hQR _ h
  | constant value => trivial
  | orSupply supply => trivial

mutual

theorem Task.FailsOnly.mono : ∀ {task : Task} {Q R : Error → Prop}, task.FailsOnly w Q →
    (∀ e, Q e → R e) → task.FailsOnly w R
  | .done _, _, _, h, hQR => OnError.mono h hQR
  | .call _ _ _, _, _, h, hQR => ⟨h.1, fun e he => hQR e (h.2 e he)⟩
  | .check _ _ _ _, _, _, h, hQR => hQR _ h
  | .andThen _ _, _, _, h, hQR => ⟨Task.FailsOnly.mono h.1 hQR, h.2.mono hQR⟩
  | .inside s task, Q, _, h, hQR =>
      have h : task.FailsOnly w fun e => Q (e.prepend s) := h
      h.mono fun e he => hQR (e.prepend s) he
  | .recover _ _ _, _, _, _, _ => trivial
  | .join children _, Q, _, h, hQR =>
      have h : FailOnlyEach w children Q := h
      FailOnlyEach.mono h hQR
  | .firstSuccess _ _, _, _, ⟨S, hunion, hes, hrest⟩, hQR =>
      ⟨S, fun es hes => hQR _ (hunion es hes), hes, hrest⟩

theorem FailOnlyEach.mono : ∀ {tasks : List Task} {Q R : Error → Prop}, FailOnlyEach w tasks Q →
    (∀ e, Q e → R e) → FailOnlyEach w tasks R
  | [], _, _, _, _ => trivial
  | _ :: _, _, _, h, hQR => ⟨h.1.mono hQR, FailOnlyEach.mono h.2 hQR⟩

end

/-! ### Polling -/

theorem pollCall_failsOnly (hm : m.Reports W w) {f : Action} (hf : f.FailsPlainly w)
    (hQ : ∀ e, IsPlain .parsing e → Q e) (waits : Nat) (input : Value) :
    Ensures W (pollCall m waits f input) fun p => p.toTask.FailsOnly w Q := by
  cases waits with
  | succ waits => exact .pure ⟨hf, hQ⟩
  | zero => exact (hm.plain f hf .parsing input).bind fun r hr => .pure (hr.mono hQ)

theorem pollCheck_failsOnly (hW : LeavesLogsOpen W) {message : String}
    (hQ : Q (Error.atRoot (.refinement message) .parsing)) (waits : Nat) (test : Test)
    (v : Value) : Ensures W (pollCheck waits message test v) fun p => p.toTask.FailsOnly w Q := by
  cases waits with
  | succ waits => exact .pure hQ
  | zero => exact (checked_onError hW hQ test v).bind fun r hr => .pure hr

/-- **What happens to a value of a task.** -/
theorem Continuation.resume_failsOnly (hm : m.Reports W w) {next : Continuation}
    (h : next.FailsOnly w Q) (v : Value) :
    Ensures W (next.resume m v) fun p => p.toTask.FailsOnly w Q := by
  cases next with
  | apply f => exact pollCall_failsOnly hm h.1 h.2 0 v
  | applyAsync f =>
      rw [resume]
      exact (noteIf_steady hm.logs f.announce v).ensures.bind fun _ _ =>
        pollCall_failsOnly hm h.1 h.2 f.waits v
  | parse op => exact h.elim
  | check message test => exact pollCheck_failsOnly hm.logs h 0 test v
  | checkAsync message test => exact pollCheck_failsOnly hm.logs h test.waits test.test v
  | constant value => exact .pure trivial
  | orSupply supply =>
      exact (supply.orElse_steady hm.logs v).ensures.bind fun _ _ => .pure trivial

/-- Results at last, the first error among which is as required. -/
theorem sequenceResults_onError : ∀ {polls : List Poll} {results : List Result},
    finished? polls = some results → FailOnlyEach w (polls.map Poll.toTask) Q →
      OnError Q (sequenceResults results)
  | [], _, hfinished, _ => by
      cases hfinished
      trivial
  | .pending _ :: _, _, hfinished, _ => by cases hfinished
  | .ready r :: rest, results, hfinished, h => by
      simp only [finished?, Option.map_eq_some_iff] at hfinished
      obtain ⟨others, hothers, rfl⟩ := hfinished
      have ih := sequenceResults_onError hothers h.2
      cases r with
      | error e => exact h.1
      | ok v =>
          rw [sequenceResults]
          cases hseq : sequenceResults others with
          | error e => rwa [hseq] at ih
          | ok vs => trivial

mutual

/-- **One poll keeps to what the task can fail with.** -/
theorem Task.poll_failsOnly (hm : m.Reports W w) : ∀ (task : Task) (Q : Error → Prop),
    task.FailsOnly w Q → Ensures W (task.poll m) fun p => p.toTask.FailsOnly w Q
  | .done _, _, h => .pure h
  | .call waits _ input, _, h => pollCall_failsOnly hm h.1 h.2 waits input
  | .check waits _ test v, _, h => pollCheck_failsOnly hm.logs h waits test v
  | .andThen task next, Q, h => by
      refine (Task.poll_failsOnly hm task Q h.1).bind fun p hp => ?_
      cases p with
      | pending task => exact .pure ⟨hp, h.2⟩
      | ready r =>
          cases r with
          | error e => exact .pure hp
          | ok v => exact Continuation.resume_failsOnly hm h.2 v
  | .inside s task, Q, h => by
      refine (Task.poll_failsOnly hm task (fun e => Q (e.prepend s)) h).bind fun p hp => ?_
      cases p with
      | pending task => exact .pure hp
      | ready r => cases r <;> exact .pure hp
  | .recover fallback input task, Q, _ => by
      -- whatever the task fails with is replaced
      refine (Task.poll_steady hm.logs hm.deterministic task).ensures.bind fun p _ => ?_
      cases p with
      | pending task => exact .pure trivial
      | ready r => cases r <;> exact .pure trivial
  | .join children assembly, Q, h => by
      refine (pollEach_failsOnly hm children Q h).bind fun polls hpolls => ?_
      cases hfinished : finished? polls with
      | none => exact .pure hpolls
      | some results =>
          have hall := sequenceResults_onError hfinished hpolls
          refine .pure ?_
          cases hseq : sequenceResults results with
          | error e => rwa [hseq] at hall
          | ok vs => trivial
  | .firstSuccess errors attempts, Q, ⟨_, hunion, herrors, hattempts⟩ =>
      pollAttempts_failsOnly hm attempts errors _ Q hunion herrors hattempts

/-- One poll of each child. -/
theorem pollEach_failsOnly (hm : m.Reports W w) : ∀ (tasks : List Task) (Q : Error → Prop),
    FailOnlyEach w tasks Q →
      Ensures W (pollEach m tasks) fun polls => FailOnlyEach w (polls.map Poll.toTask) Q
  | [], _, _ => .pure trivial
  | task :: rest, Q, h =>
      (Task.poll_failsOnly hm task Q h.1).bind fun _ hp =>
        (pollEach_failsOnly hm rest Q h.2).bind fun _ hpolls => .pure ⟨hp, hpolls⟩

/-- Polls of attempts in order. -/
theorem pollAttempts_failsOnly (hm : m.Reports W w) : ∀ (tasks : List Task) (errors : List Error)
    (R Q : Error → Prop),
      (∀ es, (∀ e ∈ es, R e) → Q (Error.atRoot (.invalidUnion es) .parsing)) →
      (∀ e ∈ errors, R e) → FailOnlyEach w tasks R →
      Ensures W (pollAttempts m errors tasks) fun p => p.toTask.FailsOnly w Q
  | [], errors, _, _, hunion, herrors, _ => .pure (hunion errors herrors)
  | task :: rest, errors, R, Q, hunion, herrors, h => by
      refine (Task.poll_failsOnly hm task R h.1).bind fun p hp => ?_
      cases p with
      | pending task => exact .pure ⟨R, hunion, herrors, hp, h.2⟩
      | ready r =>
          cases r with
          | ok v => exact .pure trivial
          | error e =>
              -- the error joins those of the attempts before it
              refine pollAttempts_failsOnly hm rest (errors ++ [e]) R Q hunion ?_ h.2
              exact List.forall_mem_append.2 ⟨herrors, List.forall_mem_singleton.2 hp⟩

end

/-- **The result of a task fails only as the task does.** -/
theorem Task.drive_failsOnly (hm : m.Reports W w) : ∀ (fuel : Nat) (task : Task),
    task.FailsOnly w Q → Ensures W (task.drive m fuel) (OnError Q)
  | 0, _, _ => .halt _
  | fuel + 1, task, h => by
      refine (Task.poll_failsOnly hm task Q h).bind fun p hp => ?_
      cases p with
      | ready r => exact .pure hp
      | pending task => exact Task.drive_failsOnly hm fuel task hp

/-! ### Children, fields and members -/

/-- The outcome of starting fails only as required, now or later. -/
abbrev StagedOnly (w : World) (Q : Error → Prop) (outcome : Except Error Staged) : Prop :=
  (outcomeTask outcome).FailsOnly w Q

theorem toStaged_only {r : Result} (h : OnError Q r) : StagedOnly w Q r.toStaged := by
  cases r <;> exact h

theorem Staged.inside_failsOnly {staged : Staged} {s : Segment}
    (h : staged.toTask.FailsOnly w fun e => Q (e.prepend s)) :
    (staged.inside s).toTask.FailsOnly w Q := by
  cases staged with
  | ready a => trivial
  | pending task => exact h

/-- The outcome of starting children fails only as required. -/
def AllStagedOnly (w : World) (Q : Error → Prop) : Except Error (List Staged) → Prop
  | .error e => Q e
  | .ok children => FailOnlyEach w (children.map Staged.toTask) Q

/-- **Starting children in order**: what each fails with is moved into it, now or later. -/
theorem stageEach_failsOnly : ∀ {children : List (Segment × Run (Except Error Staged))},
    (∀ c ∈ children, Ensures W c.2 (StagedOnly w fun e => Q (e.prepend c.1))) →
      Ensures W (stageEach children) (AllStagedOnly w Q)
  | [], _ => .pure trivial
  | (s, child) :: rest, h => by
      have ih := stageEach_failsOnly fun c hc => h c (List.mem_cons_of_mem _ hc)
      refine (h _ (List.mem_cons_self ..)).bind fun outcome houtcome => ?_
      cases outcome with
      | error e => exact .pure houtcome
      | ok staged =>
          refine ih.bind fun others hothers => ?_
          cases others with
          | error e => exact .pure hothers
          | ok others => exact .pure ⟨Staged.inside_failsOnly houtcome, hothers⟩

/-- **Starting fields in order**, with the entries that are left. -/
theorem stageFields_failsOnly : ∀ {fields : List (String × Stager)}
    {entries : List (String × Value)},
    (Entries.keys fields).Nodup → (Entries.keys entries).Nodup →
    (∀ f ∈ fields, Ensures W (f.2 ((Entries.find? f.1 entries).getD .null))
      (StagedOnly w fun e => Q (e.prepend (.key f.1)))) →
    Ensures W (stageFields fields entries) fun r =>
      Taken Q (Entries.keys fields) entries r ∧ AllStagedOnly w Q (r.map Prod.fst)
  | [], _, _, _, _ => .pure ⟨fun key hkey => ⟨hkey, List.not_mem_nil⟩, trivial⟩
  | (name, field) :: rest, entries, hfields, hentries, h => by
      obtain ⟨hnew, hrest⟩ := List.nodup_cons.1 hfields
      -- the fields that follow find what they would have found at first
      have ih : Ensures W (stageFields rest (Entries.remove name entries)) _ :=
        stageFields_failsOnly hrest (Entries.remove_nodup hentries) fun f hf => by
          rw [Entries.find?_remove_other hentries hnew hf]
          exact h f (List.mem_cons_of_mem _ hf)
      refine (h _ (List.mem_cons_self ..)).bind fun outcome houtcome => ?_
      cases outcome with
      | error e => exact .pure ⟨houtcome, houtcome⟩
      | ok staged =>
          refine ih.bind fun r hr => ?_
          rcases r with e | ⟨others, left⟩
          · exact .pure hr
          · exact .pure ⟨hr.1.cons hentries, Staged.inside_failsOnly houtcome, hr.2⟩

/-- **Children put together.** -/
theorem assembled_failsOnly {r : Except Error (List Staged)} (h : AllStagedOnly w Q r)
    (assembly : Assembly) : StagedOnly w Q (assembled assembly r) := by
  cases r with
  | error e => exact h
  | ok children =>
      simp only [assembled, assemble]
      cases readyValues? children with
      | some values => trivial
      | none => exact h

/-- **Starting members in order**, up to the first that has its value. -/
theorem stageMembers_failsOnly {v : Value} : ∀ {members : List Stager},
    (∀ member ∈ members, Ensures W (member v) (StagedOnly w Q)) →
      Ensures W (stageMembers v members) fun outcomes =>
        FailOnlyEach w (outcomes.map outcomeTask) Q
  | [], _ => .pure trivial
  | member :: rest, h => by
      have ih := stageMembers_failsOnly fun member hmember =>
        h member (List.mem_cons_of_mem _ hmember)
      refine (h _ (List.mem_cons_self ..)).bind fun outcome houtcome => ?_
      have go : Ensures W (do return outcome :: (← stageMembers v rest)) fun outcomes =>
          FailOnlyEach w (outcomes.map outcomeTask) Q :=
        ih.bind fun outcomes houtcomes => .pure ⟨houtcome, houtcomes⟩
      cases outcome with
      | error e => exact go
      | ok staged =>
          cases staged with
          | pending task => exact go
          | ready a =>
              -- the members after it are not started
              exact .pure ⟨trivial, trivial⟩

theorem allErrors?_onError : ∀ {outcomes : List (Except Error Staged)} {errors : List Error},
    allErrors? outcomes = some errors → FailOnlyEach w (outcomes.map outcomeTask) Q →
      ∀ e ∈ errors, Q e
  | [], _, herrors, _ => by
      cases herrors
      exact List.forall_mem_nil _
  | .ok _ :: _, _, herrors, _ => by cases herrors
  | .error e :: rest, errors, herrors, h => by
      simp only [allErrors?, Option.map_eq_some_iff] at herrors
      obtain ⟨others, hothers, rfl⟩ := herrors
      exact List.forall_mem_cons.2 ⟨h.1, allErrors?_onError hothers h.2⟩

/-- **The outcomes of members as one** fail with their errors put together. -/
theorem resolveMembers_failsOnly {outcomes : List (Except Error Staged)}
    (h : FailOnlyEach w (outcomes.map outcomeTask) R)
    (hunion : ∀ errors, (∀ e ∈ errors, R e) →
      Q (Error.atRoot (.invalidUnion errors) .parsing)) :
    StagedOnly w Q (resolveMembers outcomes) := by
  rw [resolveMembers]
  split
  · trivial
  · split
    · rename_i errors herrors
      exact hunion errors (allErrors?_onError herrors h)
    · exact ⟨R, hunion, List.forall_mem_nil _, h⟩

/-- What is done with the outcome of a base. -/
theorem afterStage_failsOnly {base : Run (Except Error Staged)}
    {next : Staged → Run (Except Error Staged)} (hbase : Ensures W base (StagedOnly w Q))
    (hready : ∀ a, Ensures W (next (.ready a)) (StagedOnly w Q))
    (hpending : ∀ task, task.FailsOnly w Q → Ensures W (next (.pending task)) (StagedOnly w Q)) :
    Ensures W (afterStage base next) (StagedOnly w Q) := by
  refine hbase.bind fun outcome houtcome => ?_
  cases outcome with
  | error e => exact .pure houtcome
  | ok staged =>
      cases staged with
      | ready a => exact hready a
      | pending task => exact hpending task houtcome

theorem stagedAndThen_failsOnly {base : Run (Except Error Staged)} {next : Continuation}
    {now : Value → Run Result} (hbase : Ensures W base (StagedOnly w Q))
    (hnext : next.FailsOnly w Q) (hnow : ∀ a, Ensures W (now a) (OnError Q)) :
    Ensures W (afterStage base fun staged => staged.andThen next now) (StagedOnly w Q) := by
  refine afterStage_failsOnly hbase (fun a => ?_) fun task htask => .pure ⟨htask, hnext⟩
  refine (hnow a).bind fun r hr => ?_
  cases r with
  | error e => exact .pure hr
  | ok b => exact .pure trivial

/-! ### Operations -/

section

variable {s t : Schema} {v : Value}

/-- **Every error of the operation that is started blames what there is to blame**, now or later, in
the value that is held against the schema. -/
abbrev StageBlames (W : World → Prop) (m : Machine) (w : World) (op : ParseOperation) (s : Schema)
    (v : Value) : Prop :=
  Ensures W (op.stage m v) (StagedOnly w fun e => e.Blames w .parsing s v)

theorem StageBlames.alongside {op : ParseOperation} (ht : t ∈ s.kind.alongside w)
    (h : StageBlames W m w op t v) : StageBlames W m w op s v :=
  h.mono fun _ ho => Task.FailsOnly.mono ho fun _ he => he.alongside ht

theorem StageBlames.direct {op : Operation} (h : RunBlames W m w .parsing op s v) :
    StageBlames W m w (.direct op) s v := h.bind fun _ hr => .pure (toStaged_only hr)

theorem StageBlames.ready {op : Operation} (h : RunBlames W m w .parsing op s v) :
    StageBlames W m w (.ready op) s v := h.bind fun _ hr => .pure (toStaged_only hr)

theorem StageBlames.array {item : ParseOperation} (hs : s.kind = .array t)
    (h : ∀ a, v.Holds a → StageBlames W m w item t a) (expected : Thunk String) :
    StageBlames W m w (.array expected item) s v := by
  cases v with
  | array items =>
      rw [StageBlames, ParseOperation.stage]
      refine (stageEach_failsOnly fun c hc => ?_).bind fun r hr => .pure (assembled_failsOnly hr _)
      obtain ⟨i, a, ha, rfl⟩ := mem_indexed_map hc
      exact (h a (.item (List.mem_of_getElem? ha))).mono fun o ho => ho.mono fun e he =>
        he.item hs ha
  | _ => exact .pure .invalidType

theorem StageBlames.dict {value : ParseOperation} (hs : s.kind = .dict t)
    (h : ∀ a, v.Holds a → StageBlames W m w value t a) (expected : Thunk String) :
    StageBlames W m w (.dict expected value) s v := by
  cases v with
  | object entries =>
      rw [StageBlames, ParseOperation.stage]
      refine (stageEach_failsOnly fun c hc => ?_).bind fun r hr => .pure (assembled_failsOnly hr _)
      obtain ⟨key, a, ha, rfl⟩ := mem_keyed_map hc
      exact (h a (.entry ha)).mono fun o ho => ho.mono fun e he => he.entry hs ha
  | _ => exact .pure .invalidType

theorem StageBlames.tuple {schemas : List Schema} {op : Schema → ParseOperation}
    (hs : s.kind = .tuple schemas)
    (h : ∀ t ∈ schemas, ∀ a, v.Holds a → StageBlames W m w (op t) t a) (expected : Thunk String) :
    StageBlames W m w (.tuple expected (schemas.map op)) s v := by
  cases v with
  | array items =>
      rw [StageBlames, ParseOperation.stage, List.length_map]
      split
      · rename_i e hsize
        exact .pure (sizeError?_blames hsize)
      · refine (stageEach_failsOnly fun c hc => ?_).bind fun r hr =>
          .pure (assembled_failsOnly hr _)
        rw [stagers_eq_map, List.map_map, List.zipWith_map_left] at hc
        obtain ⟨i, t, a, ht, ha, rfl⟩ := mem_indexed_zipWith hc
        have ht' := List.mem_of_getElem? ht
        exact (h t ht' a (.item (List.mem_of_getElem? ha))).mono fun o ho => ho.mono fun e he =>
          he.place hs ht ha
  | _ => exact .pure .invalidType

theorem StageBlames.object {fields : List (String × Schema)} {own : Option UnknownKeys}
    {op : Schema → ParseOperation} (hs : s.kind = .object fields own)
    (hnames : (Entries.keys fields).Nodup) (hv : v.WellFormed)
    (h : ∀ t ∈ fields.map Prod.snd, ∀ a, v.Holds a → StageBlames W m w (op t) t a)
    (expected : Thunk String) (policy : UnknownKeys) :
    StageBlames W m w (.object expected (fields.map fun f => (f.1, op f.2)) policy) s v := by
  cases v with
  | object entries =>
      rw [StageBlames, ParseOperation.stage, fieldStagers_map]
      have hfields : Ensures W (stageFields (fields.map fun f => (f.1, (op f.2).stage m)) entries)
          fun r => Taken (fun e => e.Blames w .parsing s (.object entries)) (Entries.keys fields)
              entries r ∧
            AllStagedOnly w (fun e => e.Blames w .parsing s (.object entries))
              (r.map Prod.fst) := by
        rw [← Entries.keys_map fun f : String × Schema => (op f.2).stage m]
        refine stageFields_failsOnly (by rwa [Entries.keys_map]) hv.1 fun f hf => ?_
        obtain ⟨g, hg, rfl⟩ := List.mem_map.1 hf
        exact (h g.2 (List.mem_map_of_mem hg) _ (.field entries g.1)).mono fun o ho =>
          ho.mono fun e he => he.field hs hg
      refine hfields.bind fun r hr => ?_
      rcases r with e | ⟨children, left⟩
      · exact .pure hr.1
      · dsimp only
        split
        · rename_i e hexcess
          exact .pure (excessError?_blames hs hr.1 hexcess)
        · exact .pure (assembled_failsOnly (r := .ok children) hr.2 _)
  | _ => exact .pure .invalidType

theorem StageBlames.unlessNull {inner : ParseOperation} (h : StageBlames W m w inner s v) :
    StageBlames W m w (.unlessNull inner) s v := by
  cases v with
  | null => exact .pure trivial
  | _ => exact h

theorem StageBlames.union {members : List Schema} {op : Schema → ParseOperation}
    (h : ∀ t ∈ members, StageBlames W m w (op t) s v) :
    StageBlames W m w (.union (members.map op)) s v := by
  rw [StageBlames, ParseOperation.stage, stagers_eq_map, List.map_map]
  exact (stageMembers_failsOnly (List.forall_mem_map.2 h)).bind fun outcomes houtcomes =>
    .pure (resolveMembers_failsOnly houtcomes fun errors => .invalidUnion)

/-! ### Kinds -/

/-- A function that is called fails in its own words later. -/
theorem start_failsOnly (hm : m.Reports W w) {f : AsyncAction} (hf : f.body.FailsPlainly w)
    (a : Value) : Ensures W (do return .ok (.pending (← f.start a)))
      (StagedOnly w fun e => e.Blames w .parsing s v) := by
  have hstart : Ensures W (f.start a) fun task =>
      task.FailsOnly w fun e => e.Blames w .parsing s v :=
    (noteIf_steady hm.logs f.announce a).ensures.bind fun _ _ =>
      .pure ⟨hf, fun e he => he.blames⟩
  exact hstart.bind fun task htask => .pure htask

/-- Effects around a base that blames what is to be blamed. -/
theorem Effect.stageAround_blames (hm : m.Reports W w) {effect : Effect} {base : ParseOperation}
    (hplain : (Kind.transformed t effect).FailsPlainly w)
    (hplace : (Kind.transformed t effect).ReadsInPlace) (h : StageBlames W m w base s v) :
    StageBlames W m w (effect.stageAround base) s v := by
  cases effect with
  | transform handlers =>
      simp only [stageAround]
      split
      · rename_i f hf
        have hplain := hplain.direct f hf
        exact stagedAndThen_failsOnly h ⟨hplain, fun e he => he.blames⟩ (hm.runAs_blames hplain)
      · rename_i f hf
        have hplain := hplain.async f hf
        exact afterStage_failsOnly h (start_failsOnly hm hplain) fun task htask =>
          .pure ⟨htask, hplain, fun e he => he.blames⟩
      · exact .ready (.fail trivial)
  | preprocess handlers => exact hplace.elim
  | refine message check =>
      cases check with
      | direct test =>
          exact stagedAndThen_failsOnly h (.atRoot trivial)
            (checked_onError hm.logs (.atRoot trivial) test)
      | async test =>
          exact afterStage_failsOnly h (fun a => .pure ⟨trivial, .atRoot trivial⟩) fun task htask =>
            .pure ⟨htask, .atRoot trivial⟩
  | recover fallback =>
      -- whatever the base fails with is replaced, now or later
      refine (base.stages hm.logs hm.deterministic v).ensures.bind fun outcome _ => ?_
      cases outcome with
      | error e => exact .pure trivial
      | ok staged => cases staged <;> exact .pure trivial
  | variant external internal =>
      exact stagedAndThen_failsOnly h trivial fun a => .pure trivial
  | getOr supply =>
      exact stagedAndThen_failsOnly h trivial fun a =>
        (supply.orElse_steady hm.logs a).ensures.bind fun x _ => .pure trivial

/-- **Starting a kind blames what its children blame**, one level further out. -/
theorem Kind.stagedParser_blames (hm : m.Reports W w) (hformed : s.kind.Formed)
    (hplain : s.kind.FailsPlainly w) (hplace : s.kind.ReadsInPlace) (hv : v.WellFormed)
    {w₁ : World} {id : NodeId} {P : Schema → ParseOperation}
    (hbelow : ∀ t ∈ s.children, ∀ a, v.Holds a → StageBlames W m w (P t) t a)
    (href : ∀ r, s.kind = .recursive r →
      Ensures W (m.stage r v) (StagedOnly w fun e => e.Blames w .parsing s v)) :
    StageBlames W m w (s.kind.stagedParser w₁ id P) s v := by
  have hself : ∀ t ∈ s.children, t ∈ s.kind.alongside w → StageBlames W m w (P t) s v :=
    fun t ht halong => (hbelow t ht v (.self v)).alongside halong
  rw [Schema.children] at hbelow hself
  cases hs : s.kind with
  | unknown | json => exact .ready (.pure trivial)
  | never | unit | string | bool | int | float => exact .ready (.scalar _ _)
  | literal l => exact .ready (.literal l)
  | array t =>
      rw [hs] at hbelow
      exact .array hs (hbelow t (List.mem_singleton_self t)) _
  | dict t =>
      rw [hs] at hbelow
      exact .dict hs (hbelow t (List.mem_singleton_self t)) _
  | object fields own =>
      rw [hs] at hbelow hformed
      exact .object hs hformed hv hbelow _ _
  | tuple schemas =>
      rw [hs] at hbelow
      exact .tuple hs hbelow _
  | option t | null t | nullable t =>
      rw [hs] at hself
      exact .unlessNull (hself t (List.mem_singleton_self t) (List.mem_singleton_self t))
  | union members =>
      rw [hs] at hself
      refine .union fun t ht => ?_
      rw [memberParser]
      split
      · exact .direct (.fail trivial)
      · exact hself t ht ht
  | jsonString t =>
      rw [hs] at hplace
      exact hplace.elim
  | custom name handlers =>
      rw [hs] at hplain
      simp only [stagedParser]
      split
      · rename_i f hf
        exact start_failsOnly hm (hplain.async f hf) v
      · exact .ready (.custom hm hplain)
  | transformed base effect =>
      rw [hs] at hself hplain hplace
      exact Effect.stageAround_blames hm hplain hplace
        (hself base (List.mem_singleton_self base) (List.mem_singleton_self base))
  | recursive r =>
      rw [stagedParser, followStaged]
      split
      · exact href r hs
      · exact .ready (.fail trivial)

end

end Schemata
