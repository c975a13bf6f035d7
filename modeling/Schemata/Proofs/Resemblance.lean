/-
**Graphs that resemble each other come to the same results.**

Two graphs resemble each other by a relation of their nodes when related nodes are of kinds that are
alike, when references stand for related nodes, and when what decides over their operations is the
same: whether they wait, which policy objects have, which members of unions are the union itself.  A
reference need not have been compiled in the same way, as long as nothing can run behind it.

Related nodes then come to the same results, whatever the two graphs look like inside.  Behind a
reference nothing is known of the other graph but what less fuel has shown already, so the proof is
by induction on fuel; below a node it is by induction on its identity.

Main definitions:

* `Schemata.World.Dangles` — references behind which nothing can run;
* `Schemata.World.Resembles` — **graphs that resemble each other**.

Main results:

* `Schemata.World.Resembles.machinesAlike` — machines on such graphs, for each amount of fuel;
* `Schemata.Scene.sameResults_of_resembles` — **related nodes come to the same results**.
-/

import Schemata.Proofs.LikeOperations
import Schemata.Proofs.Waiting

set_option relaxedAutoImplicit false
set_option autoImplicit false

namespace Schemata

theorem World.target?_congr {w w' : World} (h : w.bindings = w'.bindings) (r : Reference) :
    w.target? r = w'.target? r := by rw [World.target?, World.target?, h]

theorem World.isSet_congr {w w' : World} (h : w.bindings = w'.bindings) (r : Reference) :
    w.isSet r = w'.isSet r := by rw [World.isSet, World.isSet, h]

/-! ### References behind which nothing can run -/

/-- What the reference stands for, if anything, fails as one that stands for nothing does. -/
def World.Dangles (w : World) (r : Reference) : Prop :=
  ∀ t, w.target? r = some t → w.planned t = .direct (.fail (danglingError .parsing)) ∧
    (w.serializePlan t).operation = .fail (danglingError .serializing)

/-- A reference that waits, and behind which nothing can run: it fails, or it is looked up. -/
def IsStagedLoop (r : Reference) (op : ParseOperation) : Prop :=
  op = .ready (.fail (danglingError .parsing)) ∨ op = .follow r

theorem followStaged_isStagedLoop (w : World) (id : NodeId) (r : Reference) :
    IsStagedLoop r (followStaged w id r) := by
  rw [followStaged]
  split
  · exact .inr rfl
  · exact .inl rfl

section

variable {W : World → Prop} {w₀ : World} {N : Schema → Prop} {r : Reference}

/-- With fuel to look the reference up, it fails either way. -/
theorem World.Compiles.loop_gives (hc : w₀.Compiles N W)
    (htarget : ∀ t, w₀.target? r = some t → N t) (hd : w₀.Dangles r) {d : Direction}
    {op : Operation} (hop : Scene.IsLoop d r op) (fuel : Nat) (v : Value) :
    Gives W (op.run (machine (fuel + 1)) v) (.error (danglingError d)) := by
  rcases hop with rfl | rfl
  · exact .pure _
  cases ht : w₀.target? r with
  | none =>
      cases d with
      | parsing | serializing =>
          refine Gives.congr (fun w hw => ?_) (.pure _)
          simp only [Operation.run, machine, get_bind, hc.target hw r, ht]
  | some t =>
      obtain ⟨hparse, hserialize⟩ := hd t ht
      cases d with
      | parsing =>
          refine Gives.congr (fun w hw => hc.parse_target hw ht fuel v) ?_
          exact Schema.parseOn_gives hc (htarget t ht) (by rw [hparse]; exact .pure _)
      | serializing =>
          refine Gives.congr (fun w hw => hc.serialize_target hw ht fuel v) ?_
          exact Schema.serializeOn_gives hc (htarget t ht) (by rw [hserialize]; exact .pure _)

theorem World.Compiles.stagedLoop_gives (hc : w₀.Compiles N W)
    (htarget : ∀ t, w₀.target? r = some t → N t) (hd : w₀.Dangles r) {op : ParseOperation}
    (hop : IsStagedLoop r op) (fuel : Nat) (v : Value) :
    Gives W (op.stage (machine (fuel + 1)) v) (.error (danglingError .parsing)) := by
  rcases hop with rfl | rfl
  · exact .pure _
  cases ht : w₀.target? r with
  | none =>
      refine Gives.congr (fun w hw => ?_) (.pure _)
      simp only [ParseOperation.stage, machine, get_bind, hc.target hw r, ht]
  | some t =>
      have hfollowed : Gives W (t.stageOn (machine fuel) v) (.error (danglingError .parsing)) := by
        refine (hc.parse t (htarget t ht)).bind ?_
        rw [show (w₀.parsePlan t).operation = w₀.planned t from rfl, (hd t ht).1]
        exact .pure _
      refine Gives.congr (fun w hw => ?_) hfollowed
      simp only [ParseOperation.stage, machine, get_bind, hc.target hw r, ht]

/-- What comes to one result at most is mimicked by what gives a related one. -/
theorem Ensures.mimics {α β : Type} {W' : World → Prop} {R : α → β → Prop} {c : Run α} {d : Run β}
    {a : α} {b : β} (hc : Ensures W c (· = a)) (hd : Gives W' d b) (h : R a b) :
    Mimics W W' R c d := by
  intro w w' x u hw hw' hrun
  obtain ⟨hu, rfl⟩ := hc w x u hw hrun
  obtain ⟨u', hu', hdrun⟩ := hd w' hw'
  exact ⟨b, u', hdrun, hu, hu', h⟩

end

/-! ### Resemblance -/

/-- A reference is followed in the same way, or there is nothing that can run behind it. -/
def FollowsAlike (w w' w₁ w₁' : World) (id id' : NodeId) (r : Reference) : Prop :=
  ((∀ d, followOperation w₁ d id r = followOperation w₁' d id' r) ∧
      followStaged w₁ id r = followStaged w₁' id' r) ∨
    (w.Dangles r ∧ w'.Dangles r)

/-- **What is read off the world while two kinds are compiled is the same.** -/
structure Kind.SameTerms (w w' w₁ w₁' : World) (id id' : NodeId) (kind kind' : Kind) : Prop where
  tests : kind.SameTests w₁ w₁' kind'
  follows : ∀ r, kind = .recursive r → FollowsAlike w w' w₁ w₁' id id' r

/-- **Graphs that resemble each other** by a relation of their nodes, on some of the references. -/
structure World.Resembles (w w' : World) (R : Schema → Schema → Prop) (P : Reference → Prop) :
    Prop where
  kinds : ∀ s s', R s s' → s.kind.Like R s'.kind
  references : ∀ s s', R s s' → ∀ r ∈ s.kind.references, P r
  targets : ∀ r, P r → Option.Rel R (w.target? r) (w'.target? r)
  parse : ∀ s s', R s s' → ∃ w₁ w₁' id id' waits,
    w.planned s = s.kind.parser w₁ id waits w.planned ∧
    w'.planned s' = s'.kind.parser w₁' id' waits w'.planned ∧
    s.kind.SameTerms w w' w₁ w₁' id id' s'.kind ∧ s.kind.SamePolicy w₁ w₁'
  serialize : ∀ s s', R s s' → ∃ w₁ w₁' id id',
    (w.serializePlan s).operation = (s.kind.serializer w₁ id w.serializePlan).operation ∧
    (w'.serializePlan s').operation = (s'.kind.serializer w₁' id' w'.serializePlan).operation ∧
    s.kind.SameTerms w w' w₁ w₁' id id' s'.kind

theorem optionRel_flip {α β : Type} {R : α → β → Prop} {a : Option α} {b : Option β}
    (h : Option.Rel R a b) : Option.Rel (fun y x => R x y) b a := by
  cases h with
  | none => exact .none
  | some h => exact .some h

section

variable {w w' w₁ w₁' : World} {R : Schema → Schema → Prop} {P : Reference → Prop}

theorem FollowsAlike.symm {id id' : NodeId} {r : Reference}
    (h : FollowsAlike w w' w₁ w₁' id id' r) : FollowsAlike w' w w₁' w₁ id' id r :=
  h.imp (fun h => ⟨fun d => (h.1 d).symm, h.2.symm⟩) And.symm

theorem Kind.SameTerms.refl (w₁ : World) (id : NodeId) (kind : Kind) :
    kind.SameTerms w w' w₁ w₁ id id kind where
  tests members members' hkind hkind' := by
    rw [hkind] at hkind'
    cases hkind'
    exact List.forall₂_same.2 fun _ _ => rfl
  follows _ _ := .inl ⟨fun _ => rfl, rfl⟩

theorem Kind.SameTerms.symm {id id' : NodeId} {kind kind' : Kind} (hk : kind.Like R kind')
    (h : kind.SameTerms w w' w₁ w₁' id id' kind') :
    kind'.SameTerms w' w w₁' w₁ id' id kind where
  tests members' members hkind' hkind :=
    ((h.tests members members' hkind hkind').imp fun _ _ ht => ht.symm).flip
  follows r hkind' := by
    subst hkind'
    exact (h.follows r hk.symm.recursive).symm

theorem Kind.SamePolicy.symm {kind kind' : Kind} (hk : kind.Like R kind')
    (h : kind.SamePolicy w₁ w₁') : kind'.SamePolicy w₁' w₁ := by
  intro fields' own hkind'
  subst hkind'
  cases hk with
  | leaf hl => cases hl
  | object _ _ => exact (h _ own rfl).symm

namespace World.Resembles

theorem symm (h : w.Resembles w' R P) : w'.Resembles w (fun s' s => R s s') P where
  kinds s' s hs := (h.kinds s s' hs).symm
  references s' s hs := by
    rw [← (h.kinds s s' hs).references]
    exact h.references s s' hs
  targets r hr := optionRel_flip (h.targets r hr)
  parse s' s hs := by
    obtain ⟨w₁, w₁', id, id', waits, hplan, hplan', hterms, hpolicy⟩ := h.parse s s' hs
    have hk := h.kinds s s' hs
    exact ⟨w₁', w₁, id', id, waits, hplan', hplan, hterms.symm hk, hpolicy.symm hk⟩
  serialize s' s hs := by
    obtain ⟨w₁, w₁', id, id', hplan, hplan', hterms⟩ := h.serialize s s' hs
    exact ⟨w₁', w₁, id', id, hplan', hplan, hterms.symm (h.kinds s s' hs)⟩

section

variable {W W' : World → Prop} {N N' : Schema → Prop} (h : w.Resembles w' R P)
  (hc : w.Compiles N W) (hc' : w'.Compiles N' W') (hW : LeavesLogsOpen W)
  (hW' : LeavesLogsOpen W') (hN : ∀ s s', R s s' → N s) (hN' : ∀ s s', R s s' → N' s')
  (hbelow : ∀ s s', R s s' → ∀ t ∈ s.children, t.id < s.id)

/-- The operations that related nodes go on with. -/
def plans (w w' : World) (R : Schema → Schema → Prop) (op op' : ParseOperation) : Prop :=
  ∃ s s', R s s' ∧ op = w.planned s ∧ op' = w'.planned s'

include h hc hc' hN hN'

omit hc hc' hN hN' in
/-- Nothing but related nodes stands behind the references. -/
theorem target_left {r : Reference} (hr : P r) {t : Schema} (ht : w.target? r = some t) :
    ∃ t', R t t' := by
  have hrel := h.targets r hr
  rw [ht] at hrel
  generalize w'.target? r = target at hrel
  cases hrel with
  | some ht' => exact ⟨_, ht'⟩

/-- References behind which nothing can run come to the same. -/
theorem loop_runs {r : Reference} (hr : P r) (hd : w.Dangles r) (hd' : w'.Dangles r)
    {d : Direction} {op op' : Operation} (hop : Scene.IsLoop d r op) (hop' : Scene.IsLoop d r op') :
    ∀ n, RunsLike W W' (machine n) (machine (n + 1)) op op' := by
  intro n v
  have htarget : ∀ t, w.target? r = some t → N t := fun t ht =>
    have ⟨t', ht'⟩ := h.target_left hr ht
    hN t t' ht'
  have htarget' : ∀ t, w'.target? r = some t → N' t := fun t ht =>
    have ⟨t', ht'⟩ := h.symm.target_left hr ht
    hN' t' t ht'
  refine Ensures.mimics (a := .error (danglingError d)) ?_
    (hc'.loop_gives htarget' hd' hop' n v) rfl
  -- without fuel the first machine may halt where the second one fails already
  cases n with
  | zero => exact Scene.loop_ensures hop v
  | succ n => exact (hc.loop_gives htarget hd hop n v).ensures rfl

theorem stagedLoop_stages {r : Reference} (hr : P r) (hd : w.Dangles r) (hd' : w'.Dangles r)
    {op op' : ParseOperation} (hop : IsStagedLoop r op) (hop' : IsStagedLoop r op')
    (T : Task → Task → Prop) :
    ∀ n, StagesLike W W' T (machine n) (machine (n + 1)) op op' := by
  intro n v
  have htarget : ∀ t, w.target? r = some t → N t := fun t ht =>
    have ⟨t', ht'⟩ := h.target_left hr ht
    hN t t' ht'
  have htarget' : ∀ t, w'.target? r = some t → N' t := fun t ht =>
    have ⟨t', ht'⟩ := h.symm.target_left hr ht
    hN' t' t ht'
  refine Ensures.mimics (a := .error (danglingError .parsing)) ?_
    (hc'.stagedLoop_gives htarget' hd' hop' n v) (.error _)
  cases n with
  | zero =>
      rcases hop with rfl | rfl
      · exact .pure rfl
      · exact .halt _
  | succ n => exact (hc.stagedLoop_gives htarget hd hop n v).ensures rfl

/-- References that are followed alike come to the same. -/
theorem follow_runs {r : Reference} (hr : P r) {id id' : NodeId} {n : Nat} {T : Task → Task → Prop}
    (hm : MachinesAlike W W' P T (machine n) (machine (n + 1)))
    (hf : FollowsAlike w w' w₁ w₁' id id' r) (d : Direction) :
    OperationsLike W W' (machine n) (machine (n + 1)) (followOperation w₁ d id r)
      (followOperation w₁' d id' r) := by
  have hloop := Scene.followOperation_isLoop w₁ d id r
  have hloop' := Scene.followOperation_isLoop w₁' d id' r
  have hnoop : ∀ {op : Operation}, Scene.IsLoop d r op → op.isNoop = false := by
    rintro op (rfl | rfl) <;> rfl
  refine ⟨by rw [hnoop hloop, hnoop hloop'], ?_⟩
  rcases hf with ⟨hsame, -⟩ | ⟨hd, hd'⟩
  · rw [← hsame d]
    rcases hloop with heq | heq
    · rw [heq]
      exact .fail _
    · rw [heq]
      exact .follow hm hr d
  · exact h.loop_runs hc hc' hN hN' hr hd hd' hloop hloop' n

theorem follow_stages {r : Reference} (hr : P r) {id id' : NodeId} {n : Nat} {T : Task → Task → Prop}
    (hm : MachinesAlike W W' P T (machine n) (machine (n + 1)))
    (hf : FollowsAlike w w' w₁ w₁' id id' r) :
    StagesLike W W' T (machine n) (machine (n + 1)) (followStaged w₁ id r)
      (followStaged w₁' id' r) := by
  have hloop := followStaged_isStagedLoop w₁ id r
  rcases hf with ⟨-, hsame⟩ | ⟨hd, hd'⟩
  · rw [← hsame]
    rcases hloop with heq | heq
    · rw [heq]
      exact .ready (.fail _)
    · rw [heq]
      exact .follow hm hr
  · exact h.stagedLoop_stages hc hc' hN hN' hr hd hd' hloop
      (followStaged_isStagedLoop w₁' id' r) T n

/-! ### Nodes -/

include hbelow

omit h hc hc' hN hN' in
/-- Induction along the nodes below, on one side. -/
theorem induction_below {Q : Schema → Schema → Prop}
    (step : ∀ s s', R s s' → (∀ t ∈ s.kind.children, ∀ t', R t t' → Q t t') → Q s s') :
    ∀ s s', R s s' → Q s s' := by
  intro s
  induction hn : s.id using Nat.strongRecOn generalizing s with
  | ind n ih =>
      intro s' hs
      exact step s s' hs fun t ht t' ht' =>
        ih t.id (hn ▸ hbelow s s' hs t ht) t rfl t' ht'

/-- **The parse operations of related nodes come to the same.** -/
theorem parsersLike {n : Nat}
    (hm : MachinesAlike W W' P (Task.Like P (plans w w' R)) (machine n) (machine (n + 1))) :
    ∀ s s', R s s' → ParsersLike W W' P (plans w w' R) (machine n) (machine (n + 1)) (w.planned s)
      (w'.planned s') := by
  refine induction_below hbelow fun s s' hs ih => ?_
  obtain ⟨w₁, w₁', id, id', waits, hplan, hplan', hterms, hpolicy⟩ := h.parse s s' hs
  have hk := h.kinds s s' hs
  rw [hplan, hplan']
  -- a reference is the one kind whose operation is not made of those below it
  by_cases hrec : ∃ r, s.kind = .recursive r
  · obtain ⟨r, hr⟩ := hrec
    have hP : P r := h.references s s' hs r (by rw [hr]; exact List.mem_singleton_self r)
    have hf := hterms.follows r hr
    rw [hr] at hk
    rw [hr, hk.recursive]
    cases waits with
    | false => exact .direct (h.follow_runs hc hc' hN hN' hP hm hf .parsing)
    | true =>
        exact .of_isAsync (Kind.parser_isAsync ..) (Kind.parser_isAsync ..)
          (h.follow_stages hc hc' hN hN' hP hm hf)
  · exact hk.parser hm h.kinds (h.references s s' hs) hterms.tests hpolicy ih
      (fun r hr => hrec ⟨r, hr⟩) waits fun t _ t' ht => ⟨t, t', ht, rfl, rfl⟩

/-- **The serialize operations of related nodes come to the same.** -/
theorem serializersLike {n : Nat}
    (hm : MachinesAlike W W' P (Task.Like P (plans w w' R)) (machine n) (machine (n + 1))) :
    ∀ s s', R s s' → OperationsLike W W' (machine n) (machine (n + 1)) (w.serializePlan s).operation
      (w'.serializePlan s').operation := by
  refine induction_below hbelow fun s s' hs ih => ?_
  obtain ⟨w₁, w₁', id, id', hplan, hplan', hterms⟩ := h.serialize s s' hs
  have hk := h.kinds s s' hs
  rw [hplan, hplan']
  by_cases hrec : ∃ r, s.kind = .recursive r
  · obtain ⟨r, hr⟩ := hrec
    have hP : P r := h.references s s' hs r (by rw [hr]; exact List.mem_singleton_self r)
    rw [hr] at hk
    rw [hr, hk.recursive]
    exact h.follow_runs hc hc' hN hN' hP hm (hterms.follows r hr) .serializing
  · exact hk.serializer hm h.kinds (h.references s s' hs) hterms.tests ih
      fun r hr => hrec ⟨r, hr⟩

/-! ### Machines -/

include hW hW'

/-- **Machines on graphs that resemble each other**: the second one may need more fuel, to look up a
reference behind which nothing can run. -/
theorem machinesAlike : ∀ n,
    MachinesAlike W W' P (Task.Like P (plans w w' R)) (machine n) (machine (n + 1))
  | 0 => ⟨hW, hW', fun _ _ _ => .halt _, fun _ _ _ => .halt _, fun _ _ _ => .halt _⟩
  | n + 1 => by
      have ih := machinesAlike n
      refine ⟨hW, hW', fun r hr v => ?_, fun r hr v => ?_, fun r hr v => ?_⟩
      · refine hc.target_mimics hc' (h.targets r hr) (fun t t' ht => ?_) rfl
        exact Schema.parseOn_mimics hc hc' (hN t t' ht) (hN' t t' ht)
          (h.parsersLike hc hc' hN hN' hbelow ih t t' ht).once.run v
      · refine hc.target_mimics hc' (h.targets r hr) (fun t t' ht => ?_) rfl
        exact Schema.serializeOn_mimics hc hc' (hN t t' ht) (hN' t t' ht)
          (h.serializersLike hc hc' hN hN' hbelow ih t t' ht).run v
      · refine hc.target_mimics hc' (h.targets r hr) (fun t t' ht => ?_) (.error _)
        exact Schema.stageOn_mimics hc hc' (hN t t' ht) (hN' t t' ht)
          (h.parsersLike hc hc' hN hN' hbelow ih t t' ht).stage v

/-- What is parsed late in both graphs. -/
theorem plans_stagesLike (n : Nat) (op op' : ParseOperation) (hop : plans w w' R op op') :
    StagesLike W W' (Task.Like P (plans w w' R)) (machine n) (machine (n + 1)) op op' := by
  obtain ⟨s, s', hs, rfl, rfl⟩ := hop
  exact (h.parsersLike hc hc' hN hN' hbelow
    (h.machinesAlike hc hc' hW hW' hN hN' hbelow n) s s' hs).stage

/-- **Tasks that are alike have the same conclusion** in both graphs. -/
theorem concluding_mimics : ∀ n t t', Task.Like P (plans w w' R) t t' →
    Mimics W W' Eq (concluding n t) (concluding (n + 1) t')
  | 0, _, _, _ => .halt _
  | n + 1, t, t', ht =>
      t.conclude_mimics (h.machinesAlike hc hc' hW hW' hN hN' hbelow n)
        (h.plans_stagesLike hc hc' hW hW' hN hN' hbelow n) (concluding_mimics n) t' ht

end

end World.Resembles

end

/-! ### Results -/

/-- Starting a parse with more fuel comes to the same. -/
theorem World.Compiles.stage_rising {w₀ : World} {N : Schema → Prop} {W : World → Prop}
    (hc : w₀.Compiles N W) (hfuel : FuelHelps W) {s : Schema} (hs : N s) (v : Value) :
    Rising W fun n => s.stage n v := fun n k hk =>
  (Schema.stageOn_mimics hc hc hs hs
    (ParseOperation.stagesLike_self (hfuel n k hk).toMachinesAlike _) v).mono fun _ _ hr => hr.eq

namespace Scene

variable {σ τ : Scene} {R : Schema → Schema → Prop} {P : Reference → Prop} {s t : Schema}

/-- More fuel comes to the same in the worlds ahead. -/
theorem fuelHelps (h : σ.world.Sound σ.nodes) : FuelHelps (σ.world.Later σ.nodes) :=
  (h.compiles fun _ hs => hs).fuelHelps (σ.world.later_leavesLogsOpen σ.nodes) h.hosts.targets

/-- A parse comes to one result only. -/
theorem parse_unique (h : σ.world.Sound σ.nodes) (hs : s ∈ σ.nodes) {v : Value} {r r' : Result}
    (hr : σ.Comes (fun fuel => s.parse fuel v) r) (hr' : σ.Comes (fun fuel => s.parse fuel v) r') :
    r = r' := by
  have hc : σ.world.Compiles (· ∈ σ.nodes) _ := h.compiles fun _ hs => hs
  have hrising : Rising (σ.world.Later σ.nodes) fun n => s.parse n v := fun n k hk =>
    Schema.parseOn_mimics hc hc hs hs
      (Operation.runsLike_self (fuelHelps h n k hk).toMachinesAlike _) v
  exact Yields.unique ((comes_iff_yields hrising.steady h.later r).1 hr)
    ((comes_iff_yields hrising.steady h.later r').1 hr') hrising h.later

/-- Serializing comes to one result only. -/
theorem serialize_unique (h : σ.world.Sound σ.nodes) (hs : s ∈ σ.nodes) {v : Value}
    {r r' : Result} (hr : σ.Comes (fun fuel => s.serialize fuel v) r)
    (hr' : σ.Comes (fun fuel => s.serialize fuel v) r') : r = r' := by
  have hc : σ.world.Compiles (· ∈ σ.nodes) _ := h.compiles fun _ hs => hs
  have hrising : Rising (σ.world.Later σ.nodes) fun n => s.serialize n v := fun n k hk =>
    Schema.serializeOn_mimics hc hc hs hs
      (Operation.runsLike_self (fuelHelps h n k hk).toMachinesAlike _) v
  exact Yields.unique ((comes_iff_yields hrising.steady h.later r).1 hr)
    ((comes_iff_yields hrising.steady h.later r').1 hr') hrising h.later

/-- What parsing with waiting comes to: the conclusion of what starting the parse leaves. -/
theorem comes_parseAsync_iff (h : σ.world.Sound σ.nodes) (hs : s ∈ σ.nodes) (v : Value)
    (r : Result) : σ.Comes (fun fuel => s.parseAsync fuel v) r ↔
      ∃ outcome, Yields (σ.world.Later σ.nodes) (fun n => s.stage n v) outcome ∧
        (outcomeTask outcome).Concludes (σ.world.Later σ.nodes) r :=
  (comes_iff_yields (fun n => h.parseAsync_steady n hs v) h.later r).trans <|
    Schema.yields_parseAsync_iff (fuelHelps h) h.later
      ((h.compiles fun _ hs => hs).stage_rising (fuelHelps h) hs v)

/-- A parse that waits comes to one result only. -/
theorem parseAsync_unique (h : σ.world.Sound σ.nodes) (hs : s ∈ σ.nodes) {v : Value}
    {r r' : Result} (hr : σ.Comes (fun fuel => s.parseAsync fuel v) r)
    (hr' : σ.Comes (fun fuel => s.parseAsync fuel v) r') : r = r' := by
  obtain ⟨o, ho, hr⟩ := (comes_parseAsync_iff h hs v r).1 hr
  obtain ⟨o', ho', hr'⟩ := (comes_parseAsync_iff h hs v r').1 hr'
  have hc : σ.world.Compiles (· ∈ σ.nodes) _ := h.compiles fun _ hs => hs
  have heq := ho.unique ho' (hc.stage_rising (fuelHelps h) hs v) h.later
  subst heq
  exact Yields.unique hr hr' ((fuelHelps h).conclude_rising _) h.later

/-- What one of two related nodes comes to the other one comes to. -/
theorem comes_of_resembles (hσ : σ.world.Sound σ.nodes) (hτ : τ.world.Sound τ.nodes)
    (h : σ.world.Resembles τ.world R P) (hσR : ∀ s t, R s t → s ∈ σ.nodes)
    (hτR : ∀ s t, R s t → t ∈ τ.nodes) (hst : R s t) (v : Value) (r : Result) :
    (σ.Comes (fun fuel => s.parse fuel v) r → τ.Comes (fun fuel => t.parse fuel v) r) ∧
    (σ.Comes (fun fuel => s.parseAsync fuel v) r → τ.Comes (fun fuel => t.parseAsync fuel v) r) ∧
    (σ.Comes (fun fuel => s.serialize fuel v) r →
      τ.Comes (fun fuel => t.serialize fuel v) r) := by
  have hc : σ.world.Compiles (· ∈ σ.nodes) _ := hσ.compiles fun _ hs => hs
  have hc' : τ.world.Compiles (· ∈ τ.nodes) _ := hτ.compiles fun _ hs => hs
  have hW := σ.world.later_leavesLogsOpen σ.nodes
  have hW' := τ.world.later_leavesLogsOpen τ.nodes
  have hbelow : ∀ s t, R s t → ∀ u ∈ s.children, u.id < s.id := fun s t hs u hu =>
    (hσ.hosts.below s (hσR s t hs) u hu).2
  have hm := h.machinesAlike hc hc' hW hW' hσR hτR hbelow
  refine ⟨?_, ?_, ?_⟩
  · rintro ⟨n, w, hrun⟩
    obtain ⟨r', w', hrun', -, -, rfl⟩ := Schema.parseOn_mimics hc hc' (hσR s t hst) (hτR s t hst)
      (h.parsersLike hc hc' hσR hτR hbelow (hm n) s t hst).once.run v _ _ r w hσ.later hτ.later hrun
    exact ⟨n + 1, w', hrun'⟩
  · rw [comes_parseAsync_iff hσ (hσR s t hst), comes_parseAsync_iff hτ (hτR s t hst)]
    rintro ⟨outcome, ⟨n, hn⟩, k, hk⟩
    have hstage := Schema.stageOn_mimics hc hc' (hσR s t hst) (hτR s t hst)
      (h.parsersLike hc hc' hσR hτR hbelow (hm n) s t hst).stage v
    -- starting the parse may leave tasks that wait differently; their conclusions are the same
    obtain ⟨outcome', houtcome, hn'⟩ := hstage.gives hn
      ((hc'.stage_rising (fuelHelps hτ) (hτR s t hst) v).steady (n + 1)) hσ.later hτ.later
    have hlike := houtcome.outcomeTask (Task.Like.congruent P (World.Resembles.plans _ _ R))
    obtain ⟨r', rfl, hk'⟩ := ((outcomeTask outcome).conclude_mimics (hm k)
      (h.plans_stagesLike hc hc' hW hW' hσR hτR hbelow k)
      (h.concluding_mimics hc hc' hW hW' hσR hτR hbelow k) _ hlike).gives hk
      (((fuelHelps hτ).conclude_rising _).steady (k + 1)) hσ.later hτ.later
    exact ⟨outcome', ⟨n + 1, hn'⟩, k + 1, hk'⟩
  · rintro ⟨n, w, hrun⟩
    obtain ⟨r', w', hrun', -, -, rfl⟩ := Schema.serializeOn_mimics hc hc' (hσR s t hst)
      (hτR s t hst) (h.serializersLike hc hc' hσR hτR hbelow (hm n) s t hst).run v _ _ r w hσ.later
      hτ.later hrun
    exact ⟨n + 1, w', hrun'⟩

/-- **Related nodes of graphs that resemble each other come to the same results.** -/
theorem sameResults_of_resembles (hσ : σ.world.Sound σ.nodes) (hτ : τ.world.Sound τ.nodes)
    (h : σ.world.Resembles τ.world R P) (hσR : ∀ s t, R s t → s ∈ σ.nodes)
    (hτR : ∀ s t, R s t → t ∈ τ.nodes) (hst : R s t) : SameResults σ s τ t := by
  have hforth := comes_of_resembles hσ hτ h hσR hτR hst
  have hback := comes_of_resembles hτ hσ h.symm (fun s t hs => hτR t s hs)
    (fun s t hs => hσR t s hs) hst
  exact
    { parse := fun v r => ⟨(hforth v r).1, (hback v r).1⟩
      parseAsync := fun v r => ⟨(hforth v r).2.1, (hback v r).2.1⟩
      serialize := fun v r => ⟨(hforth v r).2.2, (hback v r).2.2⟩ }

end Scene

end Schemata
