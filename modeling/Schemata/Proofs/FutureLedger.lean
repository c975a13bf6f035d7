/-
**No future is carried out twice.**

A computation holds some futures when it begins.  What it comes to holds some of these and of those
that it has created; whatever it has carried out it does not hold any more.  Computations that keep
account like this can be put one after the other, and futures that one of them does not hold are out
of its reach.  Starting a parse holds nothing in the beginning, creates futures, and polls none.
Polling a task holds the futures in the task.

So whoever polls a parse, however often and in whatever world, carries each of its futures out at
most once.

Main definitions:

* `Schemata.Ledger.Owns`, `Schemata.Spends` — futures that are held, and what becomes of them;
* `Schemata.Accounts` — **computations that keep account of futures**;
* `Schemata.Numbered.Polled` — a task that has been polled a number of times.

Main results:

* `Schemata.Accounts.bind`, `Schemata.Accounts.frame` — one after the other, and beside others;
* `Schemata.Numbered.stage_accounts`, `Schemata.Numbered.poll_accounts` — starting and polling;
* `Schemata.Numbered.Polled.spends` — **any number of polls**;
* `Schemata.Schema.bodies_wait` — **starting a parse carries out no body, and carrying it on none
  twice**.
-/

import Mathlib.Data.List.Perm.Subperm
import Schemata.Proofs.DirectErrors
import Schemata.Proofs.FutureErasure

set_option relaxedAutoImplicit false
set_option autoImplicit false

namespace Schemata

/-! ### Accounts -/

/-- Different futures, all of which have been created. -/
structure Ledger.Owns (l : Ledger) (held : List Nat) : Prop where
  nodup : held.Nodup
  created : ∀ n ∈ held, n < l.created

/-- **What becomes of futures that are held**: those that are left and those that have been carried
out are different, and each of them was held or is new. -/
structure Spends (held : List Nat) (l l' : Ledger) (left : List Nat) : Prop where
  created : l.created ≤ l'.created
  driven : ∃ spent, l'.driven = spent ++ l.driven ∧ (spent ++ left).Nodup ∧
    ∀ n ∈ spent ++ left, n ∈ held ∨ (l.created ≤ n ∧ n < l'.created)

/-- **The computation keeps account of futures.**  It may be one that leaves them in peace: no
future is polled. -/
def Accounts {α : Type} (peace : Prop) (held : List Nat) (c : Ledgered α) (left : α → List Nat) :
    Prop :=
  ∀ l w a l' w', l.Owns held → c l w = .ok ((a, l'), w') →
    Spends held l l' (left a) ∧ (peace → l'.polled = l.polled ∧ l'.driven = l.driven)

section

variable {held left mid other : List Nat} {l l₁ l' : Ledger}

namespace Spends

theorem refl (hl : l.Owns held) (h : left.Subperm held) : Spends held l l left := by
  refine ⟨le_rfl, [], rfl, ?_, fun n hn => .inl (h.subset hn)⟩
  obtain ⟨k, hk, hsub⟩ := h
  exact hk.nodup_iff.1 (hsub.nodup hl.nodup)

theorem owns (h : Spends held l l' left) (hl : l.Owns held) : l'.Owns left := by
  obtain ⟨hcreated, spent, -, hnodup, hfrom⟩ := h
  refine ⟨(List.nodup_append.1 hnodup).2.1, fun n hn => ?_⟩
  rcases hfrom n (List.mem_append_right _ hn) with hheld | hnew
  · exact Nat.lt_of_lt_of_le (hl.created n hheld) hcreated
  · exact hnew.2

/-- What is left may be dropped. -/
theorem drop (h : Spends held l l' mid) (hsub : left.Subperm mid) : Spends held l l' left := by
  obtain ⟨hcreated, spent, hdriven, hnodup, hfrom⟩ := h
  have hperm : (spent ++ left).Subperm (spent ++ mid) := (List.subperm_append_left spent).2 hsub
  refine ⟨hcreated, spent, hdriven, ?_, fun n hn => hfrom n (hperm.subset hn)⟩
  obtain ⟨k, hk, hsub⟩ := hperm
  exact hk.nodup_iff.1 (hsub.nodup hnodup)

/-- **One after the other.**  What has been carried out first was there before, and is not held any
more, so it is not carried out again. -/
theorem trans (h : Spends held l l₁ mid) (hl : l.Owns held) (h' : Spends mid l₁ l' left) :
    Spends held l l' left := by
  obtain ⟨hcreated, spent, hdriven, hnodup, hfrom⟩ := h
  obtain ⟨hcreated', spent', hdriven', hnodup', hfrom'⟩ := h'
  have hold : ∀ n ∈ spent ++ mid, n < l₁.created := by
    intro n hn
    rcases hfrom n hn with hheld | hnew
    · exact Nat.lt_of_lt_of_le (hl.created n hheld) hcreated
    · exact hnew.2
  have hapart : ∀ n ∈ spent, n ∉ spent' ++ left := by
    intro n hn hn'
    rcases hfrom' n hn' with hmid | hnew
    · exact (List.nodup_append.1 hnodup).2.2 n hn n hmid rfl
    · exact absurd (hold n (List.mem_append_left _ hn)) (Nat.not_lt.2 hnew.1)
  have hperm : (spent' ++ spent ++ left).Perm (spent ++ (spent' ++ left)) := by
    rw [← List.append_assoc spent]
    exact List.perm_append_comm.append_right left
  refine ⟨hcreated.trans hcreated', spent' ++ spent, by rw [hdriven', hdriven, List.append_assoc],
    hperm.nodup_iff.2 (List.nodup_append.2 ⟨(List.nodup_append.1 hnodup).1, hnodup', ?_⟩), ?_⟩
  · rintro n hn m hm rfl
    exact hapart n hn hm
  · intro n hn
    rcases List.mem_append.1 (hperm.mem_iff.1 hn) with hn | hn
    · rcases hfrom n (List.mem_append_left _ hn) with hheld | hnew
      · exact .inl hheld
      · exact .inr ⟨hnew.1, Nat.lt_of_lt_of_le hnew.2 hcreated'⟩
    · rcases hfrom' n hn with hmid | hnew
      · rcases hfrom n (List.mem_append_right _ hmid) with hheld | hnew
        · exact .inl hheld
        · exact .inr ⟨hnew.1, Nat.lt_of_lt_of_le hnew.2 hcreated'⟩
      · exact .inr ⟨hcreated.trans hnew.1, hnew.2⟩

/-- **Beside others**, which are out of reach. -/
theorem frame (h : Spends held l l' left) (hl : l.Owns (held ++ other)) :
    Spends (held ++ other) l l' (left ++ other) := by
  obtain ⟨hcreated, spent, hdriven, hnodup, hfrom⟩ := h
  obtain ⟨-, hother, hapart⟩ := List.nodup_append.1 hl.nodup
  refine ⟨hcreated, spent, hdriven, ?_, fun n hn => ?_⟩
  · rw [← List.append_assoc]
    refine List.nodup_append.2 ⟨hnodup, hother, ?_⟩
    rintro n hn m hm rfl
    rcases hfrom n hn with hheld | hnew
    · exact hapart n hheld n hm rfl
    · exact absurd (hl.created n (List.mem_append_right _ hm)) (Nat.not_lt.2 hnew.1)
  · rw [← List.append_assoc] at hn
    rcases List.mem_append.1 hn with hn | hn
    · exact (hfrom n hn).imp_left (List.mem_append_left _)
    · exact .inl (List.mem_append_right _ hn)

/-- What is held besides may be dropped to begin with. -/
theorem from_more (h : Spends held l l' left) (hsub : held.Subperm other) :
    Spends other l l' left := by
  obtain ⟨hcreated, spent, hdriven, hnodup, hfrom⟩ := h
  exact ⟨hcreated, spent, hdriven, hnodup, fun n hn => (hfrom n hn).imp_left (hsub.subset ·)⟩

end Spends

theorem Ledger.Owns.of_more (hl : l.Owns other) (hsub : held.Subperm other) : l.Owns held :=
  (Spends.refl hl hsub).owns hl

end

/-- A first part that ends hands its value, ledger and world on. -/
theorem ledgered_bind_ok {α β : Type} {c : Ledgered α} {f : α → Ledgered β} {l l' : Ledger}
    {w w' : World} {a : α} (h : c l w = .ok ((a, l'), w')) : (c >>= f) l w = f a l' w' := by
  change (c l >>= fun p => f p.1 p.2) w = _
  rw [bind_ok h]

namespace Accounts

variable {α β : Type} {peace : Prop} {held other : List Nat} {c : Ledgered α} {mid : α → List Nat}

theorem pure {a : α} (h : (mid a).Subperm held) : Accounts peace held (pure a) mid := by
  intro l w b l' w' hl hrun
  cases hrun
  exact ⟨.refl hl h, fun _ => ⟨rfl, rfl⟩⟩

theorem aside (c : Run α) : Accounts peace held (aside c) fun _ => held := by
  intro l w b l' w' hl hrun
  obtain ⟨a, w₁, -, hpure⟩ := of_bind_ok hrun
  cases hpure
  exact ⟨.refl hl (.refl held), fun _ => ⟨rfl, rfl⟩⟩

theorem halt (e : Halt) : Accounts peace held (Schemata.aside (Schemata.halt e)) mid := by
  intro l w a l' w' _ hrun
  cases hrun

/-- **One after the other.** -/
theorem bind {f : α → Ledgered β} {left : β → List Nat} (h : Accounts peace held c mid)
    (hf : ∀ a, Accounts peace (mid a) (f a) left) : Accounts peace held (c >>= f) left := by
  intro l w b l' w' hl hrun
  have hbind : (c l >>= fun p => f p.1 p.2) w = .ok ((b, l'), w') := hrun
  obtain ⟨⟨a, l₁⟩, w₁, hfirst, hrest⟩ := of_bind_ok hbind
  obtain ⟨hspends, hpeace⟩ := h l w a l₁ w₁ hl hfirst
  obtain ⟨hspends', hpeace'⟩ := hf a l₁ w₁ b l' w' (hspends.owns hl) hrest
  refine ⟨hspends.trans hl hspends', fun hp => ?_⟩
  obtain ⟨hpolled, hdriven⟩ := hpeace hp
  obtain ⟨hpolled', hdriven'⟩ := hpeace' hp
  exact ⟨hpolled'.trans hpolled, hdriven'.trans hdriven⟩

/-- **Beside others**, which are out of reach. -/
theorem frame (h : Accounts peace held c mid) (other : List Nat) :
    Accounts peace (held ++ other) c fun a => mid a ++ other := by
  intro l w a l' w' hl hrun
  obtain ⟨hspends, hpeace⟩ :=
    h l w a l' w' (hl.of_more (List.sublist_append_left held other).subperm) hrun
  exact ⟨hspends.frame hl, hpeace⟩

theorem drop {left : α → List Nat} (h : Accounts peace held c mid)
    (hsub : ∀ a, (left a).Subperm (mid a)) : Accounts peace held c left := by
  intro l w a l' w' hl hrun
  obtain ⟨hspends, hpeace⟩ := h l w a l' w' hl hrun
  exact ⟨hspends.drop (hsub a), hpeace⟩

theorem from_more (h : Accounts peace held c mid) (hsub : held.Subperm other) :
    Accounts peace other c mid := by
  intro l w a l' w' hl hrun
  obtain ⟨hspends, hpeace⟩ := h l w a l' w' (hl.of_more hsub) hrun
  exact ⟨hspends.from_more hsub, hpeace⟩

/-- Leaving futures in peace is not required. -/
theorem loud (h : Accounts True held c mid) : Accounts False held c mid := by
  intro l w a l' w' hl hrun
  exact ⟨(h l w a l' w' hl hrun).1, False.elim⟩

/-- What holds nothing, beside what is held. -/
theorem beside (h : Accounts peace [] c mid) (held : List Nat) :
    Accounts peace held c fun a => mid a ++ held :=
  h.frame held

/-- A new future is held. -/
theorem create : Accounts peace held Ledger.create fun n => n :: held := by
  intro l w n l' w' hl hrun
  cases hrun
  refine ⟨⟨Nat.le_succ _, [], rfl, ?_, fun n hn => ?_⟩, fun _ => ⟨rfl, rfl⟩⟩
  · exact List.nodup_cons.2 ⟨fun hmem => Nat.lt_irrefl _ (hl.created _ hmem), hl.nodup⟩
  · rcases List.mem_cons.1 hn with rfl | hn
    · exact .inr ⟨le_rfl, Nat.lt_succ_self _⟩
    · exact .inl hn

theorem poll (n : Nat) : Accounts False held (Ledger.poll n) fun _ => held := by
  intro l w a l' w' hl hrun
  cases hrun
  exact ⟨⟨le_rfl, [], rfl, hl.nodup, fun _ hn => .inl hn⟩, False.elim⟩

/-- **What is carried out is not held any more.** -/
theorem drive (n : Nat) : Accounts False (n :: held) (Ledger.drive n) fun _ => held := by
  intro l w a l' w' hl hrun
  cases hrun
  exact ⟨⟨le_rfl, [n], rfl, hl.nodup, fun _ hn => .inl hn⟩, False.elim⟩

end Accounts

namespace Numbered

/-! ### Futures of what is left -/

/-- The futures of an outcome. -/
def futuresOfOutcome : Except Error Staged → List Nat
  | .ok staged => staged.futures
  | .error _ => []

/-- The futures of the outcomes of children. -/
def futuresOfChildren : Except Error (List Staged) → List Nat
  | .ok children => children.flatMap Staged.futures
  | .error _ => []

/-- The futures of the outcomes of fields. -/
def futuresOfFields {α : Type} : Except Error (List Staged × α) → List Nat
  | .ok (children, _) => children.flatMap Staged.futures
  | .error _ => []

/-- **A machine that keeps account of futures**, and leaves them in peace when it starts a parse. -/
structure Machine.KeepsAccount (M : Machine) : Prop where
  stage : ∀ r v, Accounts True [] (M.stage r v) futuresOfOutcome
  poll : ∀ t : Task, Accounts False t.futures (M.poll t) Poll.futures

theorem futuresOf_eq_flatMap (ts : List Task) : futuresOf ts = ts.flatMap Task.futures := by
  induction ts with
  | nil => rfl
  | cons t rest ih => rw [futuresOf, ih, List.flatMap_cons]

theorem futures_inside (s : Segment) (staged : Staged) :
    (staged.inside s).futures = staged.futures := by
  cases staged <;> rfl

/-- Children put together keep their futures, or have none. -/
theorem futures_assemble (assembly : Assembly) (children : List Staged) :
    (assemble assembly children).futures.Subperm (children.flatMap Staged.futures) := by
  rw [assemble]
  cases readyValues? (children.map Staged.plain) with
  | some values => exact List.nil_subperm
  | none =>
      have heq : futuresOf (children.map Staged.toTask) = children.flatMap Staged.futures := by
        rw [futuresOf_eq_flatMap, List.flatMap_map]
        rfl
      exact heq ▸ List.Subperm.refl _

theorem futures_assembled (assembly : Assembly) (outcomes : Except Error (List Staged)) :
    (futuresOfOutcome (assembled assembly outcomes)).Subperm (futuresOfChildren outcomes) := by
  cases outcomes with
  | error e => exact .refl _
  | ok children => exact futures_assemble assembly children

theorem futures_outcomeTask (outcome : Except Error Staged) :
    (outcomeTask outcome).futures = futuresOfOutcome outcome := by
  cases outcome <;> rfl

/-- Members' outcomes as one keep the members' futures, or have none. -/
theorem futures_resolveMembers (outcomes : List (Except Error Staged)) :
    (futuresOfOutcome (resolveMembers outcomes)).Subperm (outcomes.flatMap futuresOfOutcome) := by
  rw [resolveMembers]
  cases readyAfterErrors? (outcomes.map plainOutcome) with
  | some v => exact List.nil_subperm
  | none =>
      cases allErrors? (outcomes.map plainOutcome) with
      | some errors => exact List.nil_subperm
      | none =>
          have heq : futuresOf (outcomes.map outcomeTask) =
              outcomes.flatMap futuresOfOutcome := by
            rw [futuresOf_eq_flatMap, List.flatMap_map]
            exact congrArg (outcomes.flatMap ·) (funext futures_outcomeTask)
          exact heq ▸ List.Subperm.refl _

/-! ### Starting -/

section

variable {peace : Prop} {M : Machine}

theorem start_accounts (f : AsyncAction) (v : Value) :
    Accounts peace [] (start f v) Task.futures :=
  (Accounts.aside _).bind fun _ => Accounts.create.bind fun _ => .pure (.refl _)

theorem afterStage_accounts {base : Ledgered (Except Error Staged)}
    {next : Staged → Ledgered (Except Error Staged)}
    (h : Accounts peace [] base futuresOfOutcome)
    (hnext : ∀ staged, Accounts peace staged.futures (next staged) futuresOfOutcome) :
    Accounts peace [] (afterStage base next) futuresOfOutcome := by
  refine h.bind fun outcome => ?_
  cases outcome with
  | error e => exact .pure (.refl _)
  | ok staged => exact hnext staged

theorem andThen_accounts (staged : Staged) (next : Continuation) (now : Value → Run Result) :
    Accounts peace staged.futures (andThen staged next now) futuresOfOutcome := by
  cases staged with
  | ready v =>
      refine (Accounts.aside _).bind fun r => ?_
      cases r <;> exact .pure (.refl _)
  | pending t => exact .pure (.refl _)

/-- Children are started one after the other, the futures of earlier ones being out of reach. -/
theorem stageEach_accounts (children : List (Segment × Ledgered (Except Error Staged)))
    (h : ∀ c ∈ children, Accounts peace [] c.2 futuresOfOutcome) :
    Accounts peace [] (stageEach children) futuresOfChildren := by
  induction children with
  | nil => exact .pure (.refl _)
  | cons child rest ih =>
      refine (h child List.mem_cons_self).bind fun outcome => ?_
      cases outcome with
      | error e => exact .pure (.refl _)
      | ok staged =>
          have hrest := ih fun c hc => h c (List.mem_cons_of_mem _ hc)
          refine (hrest.beside staged.futures).bind fun others => ?_
          cases others with
          | error e => exact .pure List.nil_subperm
          | ok others =>
              refine .pure (List.Perm.subperm ?_)
              rw [futuresOfChildren, List.flatMap_cons, futures_inside]
              exact List.perm_append_comm

theorem stageFields_accounts (fields : List (String × Stager))
    (h : ∀ f ∈ fields, ∀ v, Accounts peace [] (f.2 v) futuresOfOutcome)
    (entries : List (String × Value)) :
    Accounts peace [] (stageFields fields entries) futuresOfFields := by
  induction fields generalizing entries with
  | nil => exact .pure (.refl _)
  | cons field rest ih =>
      refine (h field List.mem_cons_self _).bind fun outcome => ?_
      cases outcome with
      | error e => exact .pure (.refl _)
      | ok staged =>
          have hrest := ih (fun f hf => h f (List.mem_cons_of_mem _ hf))
            (Entries.remove field.1 entries)
          refine (hrest.beside staged.futures).bind fun others => ?_
          cases others with
          | error e => exact .pure List.nil_subperm
          | ok others =>
              refine .pure (List.Perm.subperm ?_)
              rw [futuresOfFields, List.flatMap_cons, futures_inside]
              exact List.perm_append_comm

theorem stageMembers_accounts (v : Value) (members : List Stager)
    (h : ∀ member ∈ members, ∀ v, Accounts peace [] (member v) futuresOfOutcome) :
    Accounts peace [] (stageMembers v members) (List.flatMap futuresOfOutcome) := by
  induction members with
  | nil => exact .pure (.refl _)
  | cons member rest ih =>
      refine (h member List.mem_cons_self v).bind fun outcome => ?_
      have hrest := ih fun m hm => h m (List.mem_cons_of_mem _ hm)
      have hgo : Accounts peace (futuresOfOutcome outcome)
          (do return outcome :: (← stageMembers v rest)) (List.flatMap futuresOfOutcome) :=
        (hrest.beside _).bind fun others => .pure (List.Perm.subperm List.perm_append_comm)
      rcases outcome with e | (a | t)
      · exact hgo
      · exact .pure (.refl _)
      · exact hgo

mutual

/-- **Starting creates futures and leaves them in peace**, and what is left of the parse holds no
others. -/
theorem stage_accounts (h : M.KeepsAccount) : ∀ (op : ParseOperation) (v : Value),
    Accounts True [] (stage M op v) futuresOfOutcome
  | .direct op, v | .ready op, v => by
      rw [stage]
      refine (Accounts.aside _).bind fun r => ?_
      cases r <;> exact .pure (.refl _)
  | .array expected item, v => by
      cases v with
      | array items =>
          rw [stage]
          refine (stageEach_accounts _ fun c hc => ?_).bind fun outcomes =>
            .pure (futures_assembled _ outcomes)
          obtain ⟨_, a, -, rfl⟩ := mem_indexed_map hc
          exact stage_accounts h item a
      | _ => simp only [stage]; exact .pure (.refl _)
  | .dict expected value, v => by
      cases v with
      | object entries =>
          rw [stage]
          refine (stageEach_accounts _ fun c hc => ?_).bind fun outcomes =>
            .pure (futures_assembled _ outcomes)
          obtain ⟨_, a, -, rfl⟩ := mem_keyed_map hc
          exact stage_accounts h value a
      | _ => simp only [stage]; exact .pure (.refl _)
  | .tuple expected items, v => by
      cases v with
      | array values =>
          simp only [stage]
          cases sizeError? .parsing items.length values.length with
          | some e => exact .pure (.refl _)
          | none =>
              refine (stageEach_accounts _ fun c hc => ?_).bind fun outcomes =>
                .pure (futures_assembled _ outcomes)
              obtain ⟨_, g, a, hg, -, rfl⟩ := mem_indexed_zipWith hc
              exact stagers_account h items g (List.mem_of_getElem? hg) a
      | _ => simp only [stage]; exact .pure (.refl _)
  | .object expected fields policy, v => by
      cases v with
      | object entries =>
          simp only [stage]
          refine (stageFields_accounts _ (fieldStagers_account h fields) entries).bind
            fun outcomes => ?_
          cases outcomes with
          | error e => exact .pure (.refl _)
          | ok outcomes =>
              obtain ⟨children, left⟩ := outcomes
              simp only
              cases excessError? policy left with
              | some e => exact .pure List.nil_subperm
              | none => exact .pure (futures_assemble _ children)
      | _ => simp only [stage]; exact .pure (.refl _)
  | .unlessNull inner, v => by
      cases v with
      | null => rw [stage]; exact .pure (.refl _)
      | _ => simp only [stage]; exact stage_accounts h inner _
  | .union members, v => by
      rw [stage]
      exact (stageMembers_accounts v _ (stagers_account h members)).bind fun outcomes =>
        .pure (futures_resolveMembers outcomes)
  | .decodeText expected inner, v => by
      rw [stage]
      cases decodeDocument expected v with
      | error e => exact .pure (.refl _)
      | ok a => exact stage_accounts h inner a
  | .applyAsync f, v => by
      rw [stage]
      exact (start_accounts f v).bind fun t => .pure (.refl _)
  | .thenApply base f, v => by
      rw [stage]
      exact afterStage_accounts (stage_accounts h base v) fun staged => andThen_accounts staged _ _
  | .thenApplyAsync base f, v => by
      rw [stage]
      refine afterStage_accounts (stage_accounts h base v) fun staged => ?_
      cases staged with
      | ready a => exact (start_accounts f a).bind fun t => .pure (.refl _)
      | pending t => exact .pure (.refl _)
  | .applyFirst f base, v => by
      rw [stage]
      refine (Accounts.aside _).bind fun r => ?_
      cases r with
      | error e => exact .pure (.refl _)
      | ok a => exact stage_accounts h base a
  | .applyAsyncFirst f base, v => by
      rw [stage]
      exact (start_accounts f v).bind fun t => .pure (.refl _)
  | .thenCheck message test base, v => by
      rw [stage]
      exact afterStage_accounts (stage_accounts h base v) fun staged => andThen_accounts staged _ _
  | .thenCheckAsync message test base, v => by
      rw [stage]
      exact afterStage_accounts (stage_accounts h base v) fun staged => .pure (.refl _)
  | .recover fallback base, v => by
      rw [stage]
      refine (stage_accounts h base v).bind fun outcome => ?_
      rcases outcome with e | (a | t) <;> exact .pure (.refl _)
  | .thenConstant value base, v => by
      rw [stage]
      exact afterStage_accounts (stage_accounts h base v) fun staged => andThen_accounts staged _ _
  | .orSupply supply base, v => by
      rw [stage]
      exact afterStage_accounts (stage_accounts h base v) fun staged => andThen_accounts staged _ _
  | .follow r, v => by
      rw [stage]
      exact h.stage r v

theorem stagers_account (h : M.KeepsAccount) : ∀ ops : List ParseOperation,
    ∀ g ∈ stagers M ops, ∀ v, Accounts True [] (g v) futuresOfOutcome
  | [] => fun _ hg => absurd hg List.not_mem_nil
  | op :: rest => by
      intro g hg v
      rw [stagers] at hg
      rcases List.mem_cons.1 hg with rfl | hg
      · exact stage_accounts h op v
      · exact stagers_account h rest g hg v

theorem fieldStagers_account (h : M.KeepsAccount) : ∀ fields : List (String × ParseOperation),
    ∀ f ∈ fieldStagers M fields, ∀ v, Accounts True [] (f.2 v) futuresOfOutcome
  | [] => fun _ hf => absurd hf List.not_mem_nil
  | (_, op) :: rest => by
      intro f hf v
      rw [fieldStagers] at hf
      rcases List.mem_cons.1 hf with rfl | hf
      · exact stage_accounts h op v
      · exact fieldStagers_account h rest f hf v

end

theorem stageOn_accounts (h : M.KeepsAccount) (s : Schema) (v : Value) :
    Accounts True [] (stageOn M s v) futuresOfOutcome :=
  (Accounts.aside _).bind fun c => stage_accounts h c.operation v

/-! ### Polling -/

theorem pollCall_accounts (number waits : Nat) (f : Action) (input : Value) :
    Accounts False [number] (pollCall M number waits f input) Poll.futures := by
  refine (Accounts.poll number).bind fun _ => ?_
  cases waits with
  | succ waits => exact .pure (.refl _)
  | zero =>
      exact (Accounts.drive number).bind fun _ => (Accounts.aside _).bind fun r => .pure (.refl _)

theorem pollCheck_accounts (number waits : Nat) (message : String) (test : Test) (v : Value) :
    Accounts False [number] (pollCheck number waits message test v) Poll.futures := by
  refine (Accounts.poll number).bind fun _ => ?_
  cases waits with
  | succ waits => exact .pure (.refl _)
  | zero =>
      exact (Accounts.drive number).bind fun _ => (Accounts.aside _).bind fun r => .pure (.refl _)

theorem resume_accounts (h : M.KeepsAccount) (next : Continuation) (v : Value) :
    Accounts False [] (resume M next v) Poll.futures := by
  cases next with
  | apply f => exact (Accounts.aside _).bind fun r => .pure (.refl _)
  | applyAsync f =>
      exact (Accounts.aside _).bind fun _ => Accounts.create.bind fun number =>
        pollCall_accounts number f.waits f.body v
  | parse op =>
      refine (stage_accounts h op v).loud.bind fun outcome => ?_
      rcases outcome with e | (a | t)
      · exact .pure (.refl _)
      · exact .pure (.refl _)
      · exact h.poll t
  | check message test => exact (Accounts.aside _).bind fun r => .pure (.refl _)
  | checkAsync message test =>
      exact Accounts.create.bind fun number =>
        pollCheck_accounts number test.waits message test.test v
  | constant value => exact .pure (.refl _)
  | orSupply supply => exact (Accounts.aside _).bind fun r => .pure (.refl _)

mutual

/-- **Polling a task holds the futures in it**, and those that it carries out are not in the task
any more. -/
theorem poll_accounts (h : M.KeepsAccount) : ∀ t : Task,
    Accounts False t.futures (poll M t) Poll.futures
  | .done r => .pure (.refl _)
  | .call number waits f input => pollCall_accounts number waits f input
  | .check number waits message test v => pollCheck_accounts number waits message test v
  | .andThen task next => by
      rw [poll]
      refine (poll_accounts h task).bind fun p => ?_
      rcases p with (e | v) | t
      · exact .pure (.refl _)
      · exact resume_accounts h next v
      · exact .pure (.refl _)
  | .inside s task => by
      rw [poll]
      refine (poll_accounts h task).bind fun p => ?_
      rcases p with (e | v) | t <;> exact .pure (.refl _)
  | .recover fallback input task => by
      rw [poll]
      refine (poll_accounts h task).bind fun p => ?_
      rcases p with (e | v) | t <;> exact .pure (.refl _)
  | .join children assembly => by
      rw [poll]
      refine (pollEach_accounts h children).bind fun polls => ?_
      cases finished? (polls.map Poll.plain) with
      | some results => exact .pure List.nil_subperm
      | none =>
          refine .pure (List.Perm.subperm (List.Perm.of_eq ?_))
          change futuresOf (polls.map Poll.toTask) = polls.flatMap Poll.futures
          rw [futuresOf_eq_flatMap, List.flatMap_map]
          rfl
  | .firstSuccess errors attempts => by
      rw [poll]
      exact pollAttempts_accounts h errors attempts

theorem pollEach_accounts (h : M.KeepsAccount) : ∀ ts : List Task,
    Accounts False (futuresOf ts) (pollEach M ts) (List.flatMap Poll.futures)
  | [] => .pure (.refl _)
  | t :: rest => by
      rw [pollEach]
      refine ((poll_accounts h t).frame (futuresOf rest)).bind fun p => ?_
      have hrest := (pollEach_accounts h rest).frame p.futures
      exact (hrest.from_more List.perm_append_comm.subperm).bind fun ps =>
        .pure (List.Perm.subperm List.perm_append_comm)

theorem pollAttempts_accounts (h : M.KeepsAccount) (errors : List Error) : ∀ ts : List Task,
    Accounts False (futuresOf ts) (pollAttempts M errors ts) Poll.futures
  | [] => .pure (.refl _)
  | t :: rest => by
      rw [pollAttempts]
      refine ((poll_accounts h t).frame (futuresOf rest)).bind fun p => ?_
      rcases p with (e | v) | t
      · exact pollAttempts_accounts h (errors ++ [e]) rest
      · exact .pure List.nil_subperm
      · exact .pure (.refl _)

end

end

/-- **The machine keeps account of futures**, and leaves them in peace when it starts a parse. -/
theorem machine_keepsAccount (fuel : Nat) : (machine fuel).KeepsAccount := by
  induction fuel with
  | zero =>
      rw [machine]
      exact ⟨fun _ _ => .halt _, fun _ => .halt _⟩
  | succ fuel ih =>
      rw [machine]
      refine ⟨fun r v => (Accounts.aside _).bind fun w => ?_, fun t => poll_accounts ih t⟩
      cases w.target? r with
      | none => exact .pure (.refl _)
      | some s => exact stageOn_accounts ih s v

/-! ### Any number of polls -/

/-- **A task that has been polled a number of times**, each time in whatever world, following at
most so many references. -/
inductive Polled (t : Task) (l : Ledger) : Task → Ledger → Prop
  | zero : Polled t l t l
  | succ {t₁ : Task} {p : Poll} {l₁ l' : Ledger} {fuel : Nat} {w w' : World}
      (before : Polled t l t₁ l₁) (last : poll (machine fuel) t₁ l₁ w = .ok ((p, l'), w')) :
      Polled t l p.toTask l'

/-- **However often a task is polled**, what it has carried out is not in it any more. -/
theorem Polled.spends {t t' : Task} {l l' : Ledger} (h : Polled t l t' l')
    (hl : l.Owns t.futures) : Spends t.futures l l' t'.futures := by
  induction h with
  | zero => exact .refl hl (.refl _)
  | @succ t₁ p l₁ l' fuel w w' _ last ih =>
      have hlast := poll_accounts (machine_keepsAccount fuel) t₁ l₁ w p l' w' (ih.owns hl) last
      exact ih.trans hl hlast.1

/-- The result of a task, polled at most `fuel` times, with numbers. -/
def drive (m : Machine) : Nat → Task → Ledgered Result
  | 0, _ => aside (halt .outOfFuel)
  | fuel + 1, t => do
      match ← poll m t with
      | .ready r => return r
      | .pending t => drive m fuel t

theorem drive_erases {M : Machine} {m : Schemata.Machine} (h : M.PollsLike m) (fuel : Nat)
    (t : Task) : Erases (fun r => r) (drive M fuel t) (t.plain.drive m fuel) := by
  induction fuel generalizing t with
  | zero => exact .halt _
  | succ fuel ih =>
      refine (poll_erases h t).bind fun p => ?_
      cases p with
      | ready r => exact .pure rfl
      | pending t => exact ih t

/-- Driving a task is polling it a number of times. -/
theorem drive_accounts {M : Machine} (h : M.KeepsAccount) (fuel : Nat) (t : Task) :
    Accounts False t.futures (drive M fuel t) fun _ => [] := by
  induction fuel generalizing t with
  | zero => exact .halt _
  | succ fuel ih =>
      refine (poll_accounts h t).bind fun p => ?_
      cases p with
      | ready r => exact .pure (.refl _)
      | pending t => exact ih t

end Numbered

/-! ### Schemas -/

/-- **Parse a value, waiting for asynchronous functions**, with numbers. -/
def Schema.parseAsyncNumbered (fuel : Nat) (s : Schema) (v : Value) : Ledgered Result := do
  match ← s.stageNumbered fuel v with
  | .error e => return .error e
  | .ok staged => Numbered.drive (Numbered.machine fuel) fuel staged.toTask

namespace Schema

section

variable (fuel : Nat) (s : Schema) (v : Value)

/-- **Parsing with numbers is parsing.** -/
theorem parseAsyncNumbered_erases :
    Erases (fun r => r) (s.parseAsyncNumbered fuel v) (s.parseAsync fuel v) := by
  refine (s.stageNumbered_erases fuel v).bind fun outcome => ?_
  cases outcome with
  | error e => exact .pure rfl
  | ok staged =>
      have hdrive := Numbered.drive_erases (Numbered.machine_pollsLike fuel) fuel staged.toTask
      cases staged <;> exact hdrive

/-- Starting creates futures and leaves them in peace. -/
theorem stageNumbered_accounts :
    Accounts True [] (s.stageNumbered fuel v) Numbered.futuresOfOutcome :=
  Numbered.stageOn_accounts (Numbered.machine_keepsAccount fuel) s v

theorem parseAsyncNumbered_accounts :
    Accounts False [] (s.parseAsyncNumbered fuel v) fun _ => [] := by
  refine (s.stageNumbered_accounts fuel v).loud.bind fun outcome => ?_
  cases outcome with
  | error e => exact .pure (.refl _)
  | ok staged => exact Numbered.drive_accounts (Numbered.machine_keepsAccount fuel) fuel _

end

/-- **Bodies wait for the future to be polled.**  The start of a parse is the same with other bodies
for the asynchronous functions, whatever they are.  With a ledger that changes nothing else it polls
no future and carries none out; if it fails or has the value, the parse is over with that, in the
same world and with the same ledger.  What is left to do carries each future out at most once when
it is driven, and whoever polls it, however often and in whatever worlds. -/
theorem bodies_wait (fuel : Nat) (s : Schema) (v : Value) :
    (∀ ρ, s.stageWith ρ fuel v = outcomeWithBodies ρ <$> s.stage fuel v) ∧
    -- the ledger changes nothing else
    Erases Numbered.plainOutcome (s.stageNumbered fuel v) (s.stage fuel v) ∧
    Erases (fun r => r) (s.parseAsyncNumbered fuel v) (s.parseAsync fuel v) ∧
    (∀ k t, Erases Numbered.Poll.plain (Numbered.poll (Numbered.machine k) t)
      (t.plain.poll (machine k))) ∧
    -- the first phase
    (∀ l w outcome l' w', s.stageNumbered fuel v l w = .ok ((outcome, l'), w') →
      l'.polled = l.polled ∧ l'.driven = l.driven ∧
      (∀ e, outcome = .error e →
        s.parseAsyncNumbered fuel v l w = .ok ((.error e, l'), w')) ∧
      ∀ a, outcome = .ok (.ready a) → 0 < fuel →
        s.parseAsyncNumbered fuel v l w = .ok ((.ok a, l'), w')) ∧
    -- what is left to do
    (∀ w r l w', s.parseAsyncNumbered fuel v .empty w = .ok ((r, l), w') → l.driven.Nodup) ∧
    ∀ w staged l w', s.stageNumbered fuel v .empty w = .ok ((.ok staged, l), w') →
      ∀ t l', Numbered.Polled staged.toTask l t l' → l'.driven.Nodup := by
  have hempty : Ledger.empty.Owns [] := ⟨List.nodup_nil, fun _ hn => absurd hn List.not_mem_nil⟩
  refine ⟨fun ρ => s.stageWith_eq ρ fuel v, s.stageNumbered_erases fuel v,
    s.parseAsyncNumbered_erases fuel v, fun k t =>
      Numbered.poll_erases (Numbered.machine_pollsLike k) t, ?_, ?_, ?_⟩
  · intro l w outcome l' w' hrun
    have hnone : l.Owns [] := ⟨List.nodup_nil, fun _ hn => absurd hn List.not_mem_nil⟩
    obtain ⟨hpolled, hdriven⟩ :=
      (s.stageNumbered_accounts fuel v l w outcome l' w' hnone hrun).2 trivial
    refine ⟨hpolled, hdriven, ?_, ?_⟩
    · rintro e rfl
      exact ledgered_bind_ok hrun
    · rintro a rfl hfuel
      obtain ⟨k, rfl⟩ := Nat.exists_eq_succ_of_ne_zero hfuel.ne'
      exact ledgered_bind_ok hrun
  · intro w r l w' hrun
    obtain ⟨-, spent, hdriven, hnodup, -⟩ :=
      (s.parseAsyncNumbered_accounts fuel v _ w r l w' hempty hrun).1
    rw [hdriven, Ledger.empty]
    exact hnodup
  · intro w staged l w' hrun t l' hpolled
    have hstart := (s.stageNumbered_accounts fuel v _ w _ l w' hempty hrun).1
    obtain ⟨-, spent, hdriven, hnodup, -⟩ :=
      hstart.trans hempty (hpolled.spends (hstart.owns hempty))
    rw [hdriven, Ledger.empty, List.append_nil]
    exact (List.nodup_append.1 hnodup).1

end Schema

/-- A leaf that takes what it is given, after a while. -/
def waitingLeaf (id waits : Nat) : Schema :=
  .node id (.custom "waiting" ⟨some (.async ⟨.compute .ok, waits, none⟩), none⟩) .empty none

/-- A tuple of two leaves, the first of which takes longer. -/
def waitingPair : Schema := .node 2 (.tuple [waitingLeaf 0 1, waitingLeaf 1 0]) .empty none

/-- Starting creates both futures and polls none; the second one is then carried out at the first
poll, and the first one at the second. -/
example :
    (∃ outcome w, waitingPair.stageNumbered 5 (.array [.null, .null]) .empty .initial =
      .ok ((outcome, ⟨2, [], []⟩), w)) ∧
    ∃ r w, waitingPair.parseAsyncNumbered 5 (.array [.null, .null]) .empty .initial =
      .ok ((r, ⟨2, [0, 1, 0], [0, 1]⟩), w) :=
  ⟨⟨_, _, rfl⟩, _, _, rfl⟩

end Schemata
