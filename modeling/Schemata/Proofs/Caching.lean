/-
**What is compiled stays, and changes no result.**

Operations are built when they are first needed, in an order that the calls decide, are embedded in
those of other nodes and handed on to copies.  None of this can be seen.  Calls keep the plan, so a
node gives in every later scene what it gave at first, and a copy with other metadata is compiled to
what any node of its kind is compiled to.  There is one exception, a reference that is bound to
itself: it fails for good, while a copy of it that was not compiled before looks the reference up
and fails then.

Main definitions:

* `Schemata.World.Retains` — a world in which all filled cells of another are still filled;
* `Schemata.Scene.Comes`, `Schemata.Scene.SameResults` — results, with fuel enough;
* `Schemata.Scene.IsCopyOf` — a graph built afresh, of the same nodes under the same settings.

Main results:

* `Schemata.Scene.Calls.retains` — **what is in a cell stays in it**;
* `Schemata.Scene.Extends.sameResults`, `Schemata.Scene.Invariants.sameResults_of_kind` — later
  scenes, and nodes of the same kind;
* `Schemata.Scene.Called.caching_transparent` — **after any calls each node gives what it gives in a
  graph that is built afresh**.
-/

import Schemata.Proofs.Calls

set_option relaxedAutoImplicit false
set_option autoImplicit false

namespace Schemata

/-! ### Cells -/

/-- **What is in a cell stays in it.** -/
structure World.Retains (w w' : World) : Prop where
  parse : ∀ id c, w.parseCells id = .filled c → w'.parseCells id = .filled c
  serialize : ∀ id c, w.serializeCells id = .filled c → w'.serializeCells id = .filled c
  async : ∀ id b, w.asyncCells id = .filled b → w'.asyncCells id = .filled b

theorem World.Retains.trans {w w' w'' : World} (h : w.Retains w') (h' : w'.Retains w'') :
    w.Retains w'' where
  parse id c hc := h'.parse id c (h.parse id c hc)
  serialize id c hc := h'.serialize id c (h.serialize id c hc)
  async id b hb := h'.async id b (h.async id b hb)

namespace Scene

variable {σ τ : Scene} {s t u : Schema}

/-- A change leaves filled cells as they are: the cells of a new node were empty. -/
theorem Change.retains (h : Change .using σ τ) (hs : σ.world.Sound σ.nodes) :
    σ.world.Retains τ.world := by
  cases h with
  | later hl => exact ⟨hl.ahead.parse.kept, hl.ahead.serialize.kept, hl.ahead.async.kept⟩
  | node =>
      have kept : ∀ {α : Type} {cells : NodeId → Cell α} {new : Cell α},
          cells σ.world.nextNode = .empty → ∀ id a, cells id = .filled a →
            updateAt cells σ.world.nextNode new id = .filled a := by
        intro α cells new hblank id a ha
        have hid : id ≠ σ.world.nextNode := by
          rintro rfl
          rw [hblank] at ha
          cases ha
        exact (updateAt_other hid).trans ha
      exact ⟨kept (hs.blank.parse _ (Nat.le_refl _)), kept (hs.blank.serialize _ (Nat.le_refl _)),
        kept (hs.blank.async _ (Nat.le_refl _))⟩

/-- **Calls write no cell twice.** -/
theorem Calls.retains (h : σ.Calls τ) (inv : σ.Invariants) : σ.world.Retains τ.world := by
  induction h with
  | refl => exact ⟨fun _ _ hc => hc, fun _ _ hc => hc, fun _ _ hb => hb⟩
  | tail hbefore hcall ih =>
      have hsound := (Calls.invariants hbefore inv).sound
      exact ih.trans ((hcall.change hsound).retains hsound)

/-! ### Results -/

/-- **The computation comes to a result**, with some fuel. -/
def Comes (σ : Scene) (c : Nat → Run Result) (r : Result) : Prop :=
  ∃ fuel w, c fuel σ.world = .ok (r, w)

/-- The world that a computation leaves. -/
def worldAfter {α : Type} (c : Run α) (w : World) : World :=
  match c w with
  | .ok (_, w') => w'
  | .error _ => w

/-- **Two nodes come to the same results**, in their scenes. -/
structure SameResults (σ : Scene) (s : Schema) (τ : Scene) (t : Schema) : Prop where
  parse : ∀ v r, σ.Comes (fun fuel => s.parse fuel v) r ↔ τ.Comes (fun fuel => t.parse fuel v) r
  parseAsync : ∀ v r,
    σ.Comes (fun fuel => s.parseAsync fuel v) r ↔ τ.Comes (fun fuel => t.parseAsync fuel v) r
  serialize : ∀ v r,
    σ.Comes (fun fuel => s.serialize fuel v) r ↔ τ.Comes (fun fuel => t.serialize fuel v) r

theorem SameResults.symm (h : SameResults σ s τ t) : SameResults τ t σ s where
  parse v r := (h.parse v r).symm
  parseAsync v r := (h.parseAsync v r).symm
  serialize v r := (h.serialize v r).symm

theorem SameResults.trans {υ : Scene} (h : SameResults σ s τ t) (h' : SameResults τ t υ u) :
    SameResults σ s υ u where
  parse v r := (h.parse v r).trans (h'.parse v r)
  parseAsync v r := (h.parseAsync v r).trans (h'.parseAsync v r)
  serialize v r := (h.serialize v r).trans (h'.serialize v r)

/-! ### Later scenes -/

/-- A steady computation comes to the same results in two worlds. -/
theorem comes_iff_of_steady {W : World → Prop} {c : Nat → Run Result}
    (hsteady : ∀ fuel, Steady W (c fuel)) (hσ : W σ.world) (hτ : W τ.world) (r : Result) :
    σ.Comes c r ↔ τ.Comes c r := by
  constructor
  · rintro ⟨fuel, w, hrun⟩
    obtain ⟨w', -, hrun'⟩ := hsteady fuel _ r w hσ hrun _ hτ
    exact ⟨fuel, w', hrun'⟩
  · rintro ⟨fuel, w, hrun⟩
    obtain ⟨w', -, hrun'⟩ := hsteady fuel _ r w hτ hrun _ hσ
    exact ⟨fuel, w', hrun'⟩

/-- **A node comes to the same results in every later scene.** -/
theorem Extends.sameResults (h : σ.Extends τ) (inv : σ.Invariants) (invτ : τ.Invariants)
    (hs : s ∈ σ.nodes) : SameResults σ s τ s := by
  have hc := onward_compiles σ
  have hW := onward_leavesLogsOpen σ
  have hm := inv.onward_deterministic
  have hτ := h.onward invτ
  exact
    { parse := fun v => comes_iff_of_steady
        (fun fuel => Schema.parseOn_steady hc hs (Operation.runs hW (hm fuel) _) v) inv.onward hτ
      parseAsync := fun v => comes_iff_of_steady
        (fun fuel => hc.parseAsync_steady hW (hm fuel) hs v) inv.onward hτ
      serialize := fun v => comes_iff_of_steady
        (fun fuel => Schema.serializeOn_steady hc hs (Operation.runs hW (hm fuel) _) v)
        inv.onward hτ }

end Scene

/-! ### Nodes of the same kind -/

section

variable {w w' : World} {id id' : NodeId}

theorem followOperation_id_congr {d : Direction} {r : Reference}
    (h : usableTarget w id r = usableTarget w id' r) :
    followOperation w d id r = followOperation w d id' r := by
  rw [followOperation, followOperation, h]

/-- The identity of a node matters for the operations of references only. -/
theorem Kind.parser_id_congr {kind : Kind} (waits : Bool) (below : Schema → ParseOperation)
    (h : ∀ r, kind = .recursive r → usableTarget w id r = usableTarget w id' r) :
    kind.parser w id waits below = kind.parser w id' waits below := by
  cases kind with
  | recursive r =>
      simp only [Kind.parser, Kind.directParser, Kind.stagedParser, followStaged, h r rfl,
        followOperation_id_congr (h r rfl)]
  | _ => rfl

/-- The identity of a node matters for the operations of references only. -/
theorem Kind.serializer_id_congr {kind : Kind} (below : Schema → Compiled Operation)
    (h : ∀ r, kind = .recursive r → usableTarget w id r = usableTarget w id' r) :
    (kind.serializer w id below).operation = (kind.serializer w id' below).operation := by
  cases kind with
  | recursive r => simp only [Kind.serializer, followOperation_id_congr (h r rfl)]
  | custom name handlers =>
      simp only [Kind.serializer]
      split <;> rfl
  | transformed base effect =>
      cases effect with
      | transform h | preprocess h =>
          simp only [Kind.serializer, Effect.serializeAround]
          split <;> rfl
      | refine message check => cases check <;> rfl
      | _ => rfl
  | _ => rfl

end

namespace Scene

variable {σ τ : Scene} {s t u : Schema} {r : Reference}

/-- A reference bound to itself is seen by the identity of the node; any other one is not. -/
theorem usableTarget_eq (hosts : σ.world.Hosts σ.nodes) {w : World}
    (hw : w.SameSettings σ.world) {o : Schema} (ho : o ∈ σ.nodes) (hkind : o.kind = .recursive r)
    (hother : ∀ u, σ.world.target? r = some u → u.kind ≠ .recursive r) :
    usableTarget w o.id r = (σ.world.target? r).isSome := by
  rw [usableTarget_congr hw.1, usableTarget]
  cases ht : σ.world.target? r with
  | none => rfl
  | some u =>
      have hne : u.id ≠ o.id := fun heq => hother u ht
        (hosts.identity u (hosts.targets r u ht) o ho heq ▸ hkind)
      simpa using hne

/-- **Nodes of the same kind have the same plan**, unless they are references bound to a reference
to the same place. -/
theorem Invariants.planned_of_kind (inv : σ.Invariants) (hs : s ∈ σ.nodes) (ht : t ∈ σ.nodes)
    (hkind : s.kind = t.kind)
    (hother : ∀ r u, s.kind = .recursive r → σ.world.target? r = some u → u.kind ≠ .recursive r) :
    σ.world.planned s = σ.world.planned t ∧
      (σ.world.serializePlan s).operation = (σ.world.serializePlan t).operation := by
  constructor
  · obtain ⟨w₁, o, waits, hw₁, ho, hko, hplan⟩ :=
      inv.sound.parsePlan_shape inv.shaped (.refl _) hs
    obtain ⟨w₂, o', waits', hw₂, ho', hko', hplan'⟩ :=
      inv.sound.parsePlan_shape inv.shaped (.refl _) ht
    have hwaits : waits = waits' := by
      have hanswer : ∀ x ∈ σ.nodes, σ.world.answer x = true ↔ σ.world.ReachesAsync x := fun x =>
        inv.exact.answer_iff inv.sound.hosts
      have h₁ := inv.sound.planned_isAsync hs
      have h₂ := inv.sound.planned_isAsync ht
      rw [World.planned, hplan, Kind.parser_isAsync] at h₁
      rw [World.planned, hplan', Kind.parser_isAsync] at h₂
      rw [h₁, h₂, Bool.eq_iff_iff, hanswer s hs, hanswer t ht]
      exact ⟨World.reachesAsync_of_kind hkind, World.reachesAsync_of_kind hkind.symm⟩
    rw [World.planned, World.planned, hplan, hplan', ← hkind, ← hwaits,
      Kind.parser_congr (hw₁.2.trans hw₂.2.symm) (hw₁.1.trans hw₂.1.symm) o.id waits
        fun _ _ => rfl]
    refine Kind.parser_id_congr waits _ fun r hr => ?_
    rw [usableTarget_eq inv.sound.hosts hw₂ ho (hko.trans hr) fun u => hother r u hr,
      usableTarget_eq inv.sound.hosts hw₂ ho' (hko'.trans (hkind.symm.trans hr)) fun u => hother r u hr]
  · obtain ⟨w₁, o, hw₁, ho, hko, hplan⟩ :=
      inv.sound.serializePlan_shape inv.shaped (.refl _) hs
    obtain ⟨w₂, o', hw₂, ho', hko', hplan'⟩ :=
      inv.sound.serializePlan_shape inv.shaped (.refl _) ht
    rw [hplan, hplan', ← hkind, Kind.serializer_congr (hw₁.1.trans hw₂.1.symm) o.id fun _ _ => rfl]
    refine Kind.serializer_id_congr _ fun r hr => ?_
    rw [usableTarget_eq inv.sound.hosts hw₂ ho (hko.trans hr) fun u => hother r u hr,
      usableTarget_eq inv.sound.hosts hw₂ ho' (hko'.trans (hkind.symm.trans hr)) fun u => hother r u hr]

/-! ### References bound to themselves -/

/-- A reference bound to a reference to the same place reaches nothing else. -/
theorem reaches_of_loop (hs : s.kind = .recursive r) (hu : σ.world.target? r = some u)
    (hloop : u.kind = .recursive r) (h : σ.world.Reaches s t) : t.kind = .recursive r := by
  induction h with
  | refl => exact hs
  | @tail x y _ hxy ih =>
      have hy : y = u := by simpa [World.Leads, ih, Kind.successors, hu] using hxy
      exact hy ▸ hloop

/-- It does not wait. -/
theorem not_reachesAsync_of_loop (hs : s.kind = .recursive r)
    (hu : σ.world.target? r = some u) (hloop : u.kind = .recursive r) :
    ¬ σ.world.ReachesAsync s := by
  rintro ⟨t, ht, ha⟩
  rw [reaches_of_loop hs hu hloop ht] at ha
  cases ha

/-- What a reference bound to itself is compiled to: it fails, or it looks the reference up. -/
def IsLoop (d : Direction) (r : Reference) (op : Operation) : Prop :=
  op = .fail (danglingError d) ∨ op = .follow d r

theorem followOperation_isLoop (w : World) (d : Direction) (id : NodeId) (r : Reference) :
    IsLoop d r (followOperation w d id r) := by
  rw [followOperation]
  split
  · exact .inl rfl
  · exact .inr rfl

/-- The plan of a reference bound to a reference to the same place. -/
theorem Invariants.planned_loop (inv : σ.Invariants) (hm : s ∈ σ.nodes) (hs : s.kind = .recursive r)
    (hu : σ.world.target? r = some u) (hloop : u.kind = .recursive r) :
    (∃ op, IsLoop .parsing r op ∧ σ.world.planned s = .direct op) ∧
      IsLoop .serializing r (σ.world.serializePlan s).operation := by
  constructor
  · obtain ⟨w₁, o, waits, -, -, -, hplan⟩ := inv.sound.parsePlan_shape inv.shaped (.refl _) hm
    have hwaits := inv.exact.answer_iff inv.sound.hosts hm
    rw [← inv.sound.planned_isAsync hm, World.planned, hplan, Kind.parser_isAsync] at hwaits
    cases waits with
    | true => exact absurd (hwaits.1 rfl) (not_reachesAsync_of_loop hs hu hloop)
    | false => exact ⟨_, followOperation_isLoop w₁ .parsing o.id r, by rw [World.planned, hplan, hs]; rfl⟩
  · obtain ⟨w₁, o, -, -, -, hplan⟩ := inv.sound.serializePlan_shape inv.shaped (.refl _) hm
    rw [hplan, hs]
    exact followOperation_isLoop w₁ .serializing o.id r

/-- **A reference that is bound to itself fails.** -/
def LoopsFail (σ : Scene) : Prop :=
  ∀ u r, u.kind = .recursive r → σ.world.target? r = some u →
    σ.world.planned u = .direct (.fail (danglingError .parsing)) ∧
      (σ.world.serializePlan u).operation = .fail (danglingError .serializing)

/-- What a node is compiled to that is its own target. -/
theorem loop_planned (hs : σ.world.Sound σ.nodes) (hexact : σ.world.Exact σ.nodes)
    (hkind : u.kind = .recursive r) (hu : σ.world.target? r = some u) :
    ((σ.world.parseCells u.id).content? = none →
      σ.world.planned u = .direct (.fail (danglingError .parsing))) ∧
    ((σ.world.serializeCells u.id).content? = none →
      (σ.world.serializePlan u).operation = .fail (danglingError .serializing)) := by
  have hm := hs.hosts.targets r u hu
  have hset : σ.world.isSet r = true := by
    rw [World.isSet]
    rw [World.target?] at hu
    split at hu
    · rename_i hb
      rw [hb]
    · cases hu
  have hfollow : ∀ d, followOperation σ.world d u.id r = .fail (danglingError d) := by
    intro d
    simp [followOperation, usableTarget, hset, hu]
  have hanswer : σ.world.answer u = false := by
    refine Bool.eq_false_iff.2 fun ha => ?_
    exact not_reachesAsync_of_loop hkind hu hkind ((hexact.answer_iff hs.hosts hm).1 ha)
  constructor
  · intro hnone
    rw [World.planned, World.parsePlan_of_unfilled hnone, hanswer, hkind]
    exact congrArg ParseOperation.direct (hfollow .parsing)
  · intro hnone
    rw [World.serializePlan_of_unfilled hnone, hkind]
    exact hfollow .serializing

/-- It does when nothing is compiled: it is its own target. -/
theorem Invariants.loopsFail (inv : σ.Invariants) (h : σ.world.Untouched) : σ.LoopsFail := by
  intro u r hkind hu
  obtain ⟨hparse, hserialize⟩ := loop_planned inv.sound inv.exact hkind hu
  exact ⟨hparse (by rw [h.parse]; rfl), hserialize (by rw [h.serialize]; rfl)⟩

/-- It does so in later scenes. -/
theorem Extends.loopsFail (h : σ.Extends τ) (inv : σ.Invariants) (hloops : σ.LoopsFail) :
    τ.LoopsFail := by
  intro u r hkind hu
  have hu : σ.world.target? r = some u := by rwa [World.target?, h.settings.1]
  have hm := inv.sound.hosts.targets r u hu
  rw [World.planned, h.parse u hm, h.serialize u hm]
  exact hloops u r hkind hu

/-- With fuel to look the reference up, it fails either way. -/
theorem Invariants.loop_gives (inv : σ.Invariants) (hloops : σ.LoopsFail)
    (hu : σ.world.target? r = some u) (hloop : u.kind = .recursive r) {d : Direction}
    {op : Operation} (hop : IsLoop d r op) (fuel : Nat) (v : Value) :
    Gives (σ.world.Later σ.nodes) (op.run (machine (fuel + 1)) v) (.error (danglingError d)) := by
  have hc : σ.world.Compiles (· ∈ σ.nodes) _ := inv.sound.compiles fun _ hs => hs
  have hm := inv.sound.hosts.targets r u hu
  obtain ⟨hparse, hserialize⟩ := hloops u r hloop hu
  rcases hop with rfl | rfl
  · exact .pure _
  · cases d with
    | parsing =>
        refine Gives.congr (fun w hw => hc.parse_target hw hu fuel v) ?_
        exact Schema.parseOn_gives hc hm (by rw [hparse]; exact .pure _)
    | serializing =>
        refine Gives.congr (fun w hw => hc.serialize_target hw hu fuel v) ?_
        exact Schema.serializeOn_gives hc hm (by rw [hserialize]; exact .pure _)

/-- Without fuel it does not come to anything else. -/
theorem loop_ensures {W : World → Prop} {d : Direction} {op : Operation} (hop : IsLoop d r op)
    (v : Value) : Ensures W (op.run (machine 0) v) fun a => a = .error (danglingError d) := by
  rcases hop with rfl | rfl
  · exact .pure rfl
  · cases d <;> exact .halt _

/-- What a computation comes to that gives one result as soon as there is fuel. -/
theorem comes_iff_of_gives {W : World → Prop} {c : Nat → Run Result} {a : Result}
    (hzero : Ensures W (c 0) fun b => b = a) (hgives : ∀ fuel, Gives W (c (fuel + 1)) a)
    (hσ : W σ.world) (b : Result) : σ.Comes c b ↔ b = a := by
  constructor
  · rintro ⟨fuel, w, hrun⟩
    cases fuel with
    | zero => exact (hzero _ b w hσ hrun).2
    | succ fuel => exact ((hgives fuel).ensures (P := fun b => b = a) rfl _ b w hσ hrun).2
  · rintro rfl
    obtain ⟨w, -, hrun⟩ := hgives 0 _ hσ
    exact ⟨1, w, hrun⟩

/-- **A reference bound to a reference to the same place fails**, in whichever way it is run. -/
theorem Invariants.loop_comes (inv : σ.Invariants) (hloops : σ.LoopsFail) (hm : s ∈ σ.nodes)
    (hs : s.kind = .recursive r) (hu : σ.world.target? r = some u) (hloop : u.kind = .recursive r)
    (v : Value) (a : Result) :
    (σ.Comes (fun fuel => s.parse fuel v) a ↔ a = .error (danglingError .parsing)) ∧
    (σ.Comes (fun fuel => s.parseAsync fuel v) a ↔ a = .error (danglingError .parsing)) ∧
    (σ.Comes (fun fuel => s.serialize fuel v) a ↔ a = .error (danglingError .serializing)) := by
  have hc : σ.world.Compiles (· ∈ σ.nodes) _ := inv.sound.compiles fun _ hs => hs
  have hσ := inv.sound.later
  obtain ⟨⟨op, hop, hplan⟩, hop'⟩ := inv.planned_loop hm hs hu hloop
  refine ⟨comes_iff_of_gives ?_ (fun fuel => ?_) hσ a, comes_iff_of_gives ?_ (fun fuel => ?_) hσ a,
    comes_iff_of_gives ?_ (fun fuel => ?_) hσ a⟩
  · exact Schema.parseOn_ensures hc hm (by rw [hplan]; exact loop_ensures hop v)
  · exact Schema.parseOn_gives hc hm (by rw [hplan]; exact inv.loop_gives hloops hu hloop hop fuel v)
  · -- a parse that waits fails when it is started
    refine (Schema.stageOn_ensures (P := fun b => b = .error (danglingError .parsing)) hc hm ?_).bind
      fun b hb => ?_
    · rw [hplan]
      exact (loop_ensures hop v).bind fun b hb => .pure (by rw [hb]; rfl)
    · rw [hb]
      exact .pure rfl
  · have hstage : Gives (σ.world.Later σ.nodes) (s.stage (fuel + 1) v)
        (.error (danglingError .parsing)) := by
      refine (hc.parse s hm).bind ?_
      rw [show (σ.world.parsePlan s).operation = .direct op from hplan]
      exact (inv.loop_gives hloops hu hloop hop fuel v).bind (.pure _)
    exact hstage.bind (.pure _)
  · exact Schema.serializeOn_ensures hc hm (loop_ensures hop' v)
  · exact Schema.serializeOn_gives hc hm (inv.loop_gives hloops hu hloop hop' fuel v)

/-! ### The same results -/

/-- Start an operation and carry it to its end. -/
def startAndFinish (v : Value) (fuel : Nat) (op : ParseOperation) : Run Result := do
  match ← op.stage (machine fuel) v with
  | .error e => return .error e
  | .ok staged => Schema.finish fuel staged

/-- Parsing runs the operation of the schema, one that waits as a failure. -/
theorem parse_eq_atOnce (x : Schema) (v : Value) : (fun fuel => x.parse fuel v) =
    fun fuel => x.parseOperation >>= fun c => c.operation.atOnce.run (machine fuel) v := by
  funext fuel
  refine congrArg (x.parseOperation >>= ·) (funext fun c => ?_)
  cases c.operation <;> rfl

/-- Parsing with waiting starts the operation of the schema and carries it to its end. -/
theorem parseAsync_eq_startAndFinish (x : Schema) (v : Value) :
    (fun fuel => x.parseAsync fuel v) =
      fun fuel => x.parseOperation >>= fun c => startAndFinish v fuel c.operation := by
  funext fuel
  rw [Schema.parseAsync, Schema.stage, Schema.stageOn]
  exact bind_assoc _ _ _

/-- What is done with equal operations comes to the same. -/
theorem comes_iff_of_operation {α : Type} {W : World → Prop} {cs ct : Run (Compiled α)}
    {a b : Compiled α} (hs : Gives W cs a) (ht : Gives W ct b) (hop : a.operation = b.operation)
    {F : Nat → α → Run Result} (hF : ∀ fuel x, Steady W (F fuel x)) (hσ : W σ.world) (r : Result) :
    σ.Comes (fun fuel => cs >>= fun x => F fuel x.operation) r ↔
      σ.Comes (fun fuel => ct >>= fun x => F fuel x.operation) r := by
  have hrun : ∀ {c : Run (Compiled α)} {x : Compiled α}, Gives W c x → ∀ fuel,
      (∃ w, (c >>= fun x => F fuel x.operation) σ.world = .ok (r, w)) ↔
        ∃ w, F fuel x.operation σ.world = .ok (r, w) := by
    intro c x hc fuel
    obtain ⟨w₁, hw₁, hgives⟩ := hc _ hσ
    rw [bind_ok hgives]
    constructor
    · rintro ⟨w, hw⟩
      obtain ⟨w', -, hw'⟩ := hF fuel _ _ r w hw₁ hw _ hσ
      exact ⟨w', hw'⟩
    · rintro ⟨w, hw⟩
      obtain ⟨w', -, hw'⟩ := hF fuel _ _ r w hσ hw _ hw₁
      exact ⟨w', hw'⟩
  exact exists_congr fun fuel => (hrun hs fuel).trans (hop ▸ (hrun ht fuel).symm)

/-- **Nodes of the same kind come to the same results.** -/
theorem Invariants.sameResults_of_kind (inv : σ.Invariants) (hloops : σ.LoopsFail)
    (hs : s ∈ σ.nodes) (ht : t ∈ σ.nodes) (hkind : s.kind = t.kind) : SameResults σ s σ t := by
  by_cases hother : ∀ r u, s.kind = .recursive r → σ.world.target? r = some u →
      u.kind ≠ .recursive r
  · obtain ⟨hparse, hserialize⟩ := inv.planned_of_kind hs ht hkind hother
    have hW := σ.world.later_leavesLogsOpen σ.nodes
    have hm := inv.sound.machine_deterministic
    have hσ := inv.sound.later
    have hps := Schema.parseOperation_gives inv.sound hs
    have hpt := Schema.parseOperation_gives inv.sound ht
    constructor
    · intro v r
      rw [parse_eq_atOnce s, parse_eq_atOnce t]
      exact comes_iff_of_operation hps hpt hparse
        (fun fuel op => Operation.runs hW (hm fuel) op.atOnce v) hσ r
    · intro v r
      rw [parseAsync_eq_startAndFinish s, parseAsync_eq_startAndFinish t]
      refine comes_iff_of_operation hps hpt hparse (fun fuel op => ?_) hσ r
      exact (ParseOperation.stages hW (hm fuel) op v).attempt (fun _ => .pure _) fun staged =>
        staged.toTask.drive_steady hW (hm fuel) fuel
    · exact fun v => comes_iff_of_operation (Schema.serializeOperation_gives inv.sound hs)
        (Schema.serializeOperation_gives inv.sound ht) hserialize
        (fun fuel op => Operation.runs hW (hm fuel) op v) hσ
  · push Not at hother
    obtain ⟨r, u, hr, hu, hloop⟩ := hother
    have hcs := inv.loop_comes hloops hs hr hu hloop
    have hct := inv.loop_comes hloops ht (hkind ▸ hr) hu hloop
    exact
      { parse := fun v a => (hcs v a).1.trans (hct v a).1.symm
        parseAsync := fun v a => (hcs v a).2.1.trans (hct v a).2.1.symm
        serialize := fun v a => (hcs v a).2.2.trans (hct v a).2.2.symm }

/-! ### Graphs built afresh -/

/-- **A graph built afresh**, of the same nodes under the same settings. -/
structure IsCopyOf (ρ τ : Scene) : Prop where
  built : Relation.ReflTransGen (Step .building) initial ρ
  nodes : ρ.nodes = τ.nodes
  settings : τ.world.SameSettings ρ.world

/-- The same copy of a node is made wherever the next identity is the same. -/
theorem exists_withMetadata {w w' ρ : World} {update : Metadata → Metadata}
    (h : s.withMetadata update w = .ok (t, w')) (hnext : ρ.nextNode = w.nextNode) :
    ∃ ρ', s.withMetadata update ρ = .ok (t, ρ') ∧ ρ'.nextNode = w'.nextNode ∧
      ρ.SameSettings ρ' := by
  cases h
  rw [← hnext]
  exact ⟨_, rfl, rfl, rfl, rfl⟩

/-- A use that makes no node makes no identity. -/
theorem Change.nextNode (h : Change .using σ τ) (hnodes : τ.nodes = σ.nodes) :
    τ.world.nextNode = σ.world.nextNode := by
  cases h with
  | later hl => exact hl.ahead.nextNode
  | node => exact absurd hnodes (List.cons_ne_self _ _)

/-- Of what calls have made of a graph there is a copy: the copies with other metadata are made
while it is built, and everything else is left out. -/
theorem Calls.exists_copy (hbuild : Relation.ReflTransGen (Step .building) initial σ)
    (inv : σ.Invariants) (h : σ.Calls τ) :
    ∃ ρ, IsCopyOf ρ τ ∧ ρ.world.nextNode = τ.world.nextNode := by
  induction h with
  | refl => exact ⟨σ, ⟨hbuild, rfl, .refl _⟩, rfl⟩
  | @tail τ τ' hbefore hcall ih =>
      obtain ⟨ρ, ⟨hρ, hnodes, hsettings⟩, hnext⟩ := ih
      have hchange := hcall.change (Calls.invariants hbefore inv).sound
      have hsettings' : τ'.world.SameSettings ρ.world :=
        ⟨hchange.settings_same.1.symm.trans hsettings.1,
          hchange.settings_same.2.symm.trans hsettings.2⟩
      have stays (hsame : τ'.nodes = τ.nodes) :
          ∃ ρ, IsCopyOf ρ τ' ∧ ρ.world.nextNode = τ'.world.nextNode :=
        ⟨ρ, ⟨hρ, hnodes.trans hsame.symm, hsettings'⟩, hnext.trans (hchange.nextNode hsame).symm⟩
      cases hcall with
      | use hstep =>
          cases hstep with
          | @withMetadata _ _ s t update w hm hrun =>
              obtain ⟨ρ', hrun', hnext', hsame⟩ := exists_withMetadata hrun hnext
              refine ⟨⟨ρ', t :: ρ.nodes⟩, ⟨hρ.tail (.withMetadata .building (hnodes ▸ hm) hrun'),
                congrArg (t :: ·) hnodes, ?_⟩, hnext'⟩
              exact ⟨hsettings'.1.trans hsame.1, hsettings'.2.trans hsame.2⟩
          | isAsync | parseOperation | serializeOperation => exact stays rfl
      | parse | serialize | parseAsync | stage | poll => exact stays rfl

/-- A copy has the same plan for the nodes that were there before any call. -/
theorem IsCopyOf.extends {ρ : Scene} (h : IsCopyOf ρ τ) (inv : σ.Invariants)
    (hu : σ.world.Untouched) (hρ : ρ.Invariants) (hext : σ.Extends τ) : σ.Extends ρ := by
  have huρ := built_untouched h.built
  have hnodes : σ.nodes ⊆ ρ.nodes := h.nodes ▸ hext.nodes
  have hsettings : σ.world.SameSettings ρ.world :=
    ⟨hext.settings.1.trans h.settings.1, hext.settings.2.trans h.settings.2⟩
  refine ⟨hnodes, hsettings, ?_, ?_⟩
  · refine inv.sound.hosts.parsePlan_congr hsettings.2.symm hsettings.1.symm
      (fun s _ => by rw [hu.parse, huρ.parse]) fun s hs => ?_
    rw [Bool.eq_iff_iff, inv.exact.answer_iff inv.sound.hosts hs,
      hρ.exact.answer_iff hρ.sound.hosts (hnodes hs), World.reachesAsync_congr hsettings.1]
  · exact inv.sound.hosts.serializePlan_congr hsettings.1.symm
      fun s _ => by rw [hu.serialize, huρ.serialize]

/-- **After any calls each node gives what it gives in a graph that is built afresh.**  What was
compiled stays, also in copies with other metadata. -/
theorem Called.caching_transparent (h : τ.Called) :
    (∃ ρ, IsCopyOf ρ τ) ∧
    (∀ ρ, IsCopyOf ρ τ → ρ.world.Untouched ∧ ∀ s ∈ τ.nodes, SameResults τ s ρ s) ∧
    (∀ υ, τ.Calls υ → τ.world.Retains υ.world) ∧
    ∀ s ∈ τ.nodes, ∀ update t w, s.withMetadata update τ.world = .ok (t, w) →
      ∀ υ, Scene.Calls ⟨w, t :: τ.nodes⟩ υ →
        (∀ c, τ.world.parseCells s.id = .filled c →
          υ.world.parseCells s.id = .filled c ∧ υ.world.parseCells t.id = .filled c) ∧
        (∀ c, τ.world.serializeCells s.id = .filled c →
          υ.world.serializeCells s.id = .filled c ∧ υ.world.serializeCells t.id = .filled c) := by
  have inv := h.invariants
  obtain ⟨σ, hbuild, hresolved, hcalls⟩ := h
  have invσ := built_invariants hbuild hresolved
  have hext := hcalls.extends invσ
  have hloops := invσ.loopsFail (built_untouched hbuild)
  refine ⟨?_, fun ρ hρ => ?_, fun υ hυ => hυ.retains inv, fun s hs update t w hrun υ hυ => ?_⟩
  · obtain ⟨ρ, hρ, -⟩ := hcalls.exists_copy hbuild invσ
    exact ⟨ρ, hρ⟩
  · have hρresolved : ρ.Resolved := by
      intro s hs r hkind
      obtain ⟨u, hu⟩ := inv.resolved s (hρ.nodes ▸ hs) r hkind
      exact ⟨u, by rwa [World.target?, ← hρ.settings.1]⟩
    have invρ := built_invariants hρ.built hρresolved
    have hextρ := hρ.extends invσ (built_untouched hbuild) invρ hext
    refine ⟨built_untouched hρ.built, fun s hs => ?_⟩
    -- all scenes share a node of the same kind
    obtain ⟨o, ho, hkind⟩ := hcalls.kinds s hs
    have hτ : SameResults τ s τ o :=
      inv.sameResults_of_kind (hext.loopsFail invσ hloops) hs (hext.nodes ho) hkind.symm
    have hρs : SameResults ρ o ρ s :=
      invρ.sameResults_of_kind (hextρ.loopsFail invσ hloops) (hextρ.nodes ho) (hρ.nodes ▸ hs) hkind
    exact hτ.trans <| (hext.sameResults invσ inv ho).symm.trans <|
      (hextρ.sameResults invσ invρ ho).trans hρs
  · have hcopy : Step .using τ ⟨w, t :: τ.nodes⟩ := .withMetadata .using hs hrun
    have hchange := hcopy.change inv.sound
    have invw := hchange.invariants inv hcopy.kinds
    have hkeeps := (hchange.retains inv.sound).trans (hυ.retains invw)
    have hfilled := hυ.retains invw
    cases hrun
    exact ⟨fun c hc => ⟨hkeeps.parse _ c hc, hfilled.parse _ c (by simpa [Schema.id] using hc)⟩,
      fun c hc => ⟨hkeeps.serialize _ c hc, hfilled.serialize _ c (by simpa [Schema.id] using hc)⟩⟩

/-- The tuple of the cyclic graph gives what it gave before its reference was asked. -/
theorem caching_transparent_cyclic :
    cyclicAsked.Called ∧ IsCopyOf cyclic cyclicAsked ∧
      SameResults cyclicAsked outer cyclic outer :=
  have hcalled := cyclicAsked_settled.called
  have hcopy : IsCopyOf cyclic cyclicAsked := ⟨cyclic_built, rfl, rfl, rfl⟩
  have ⟨_, hsame, _, _⟩ := Called.caching_transparent hcalled
  ⟨hcalled, hcopy, (hsame cyclic hcopy).2 outer (List.mem_cons_self ..)⟩

end Scene

end Schemata
