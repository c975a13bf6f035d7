/-
**Effects as steps.**

A transform, a preprocessing step or a refinement does something to a value before the schema below
it is run, or afterwards.  Three compilers put this around the operation of that schema: one for
parsing at once, one for parsing with waiting, and one for serializing.  In each of them the outcome
is the same as that of three steps in turn, the middle one of which is what is below, and the first
failure ends them.

Main definitions:

* `Schemata.inTurn` — steps one after the other, the first failure ending them;
* `Schemata.Effect.beforeParse` and its companions — what an effect does, and when;
* `Schemata.parseSteps`, `Schemata.serializeSteps` — the steps of several effects around a base;
* `Schemata.SameYields` — functions that come to the same results.

Main results:

* `Schemata.Effect.parseAround_run`, `Schemata.Effect.serializeAround_run` — one effect, where
  nothing waits;
* `Schemata.Effect.stageAround_sameYields` — one effect, where something waits.
-/

import Schemata.Proofs.Reconfiguration

set_option relaxedAutoImplicit false
set_option autoImplicit false

namespace Schemata

/-! ### Steps in turn -/

/-- One function after another, unless the first one fails. -/
def followed (f g : Runner) : Runner := fun v => do
  match ← f v with
  | .error e => return .error e
  | .ok a => g a

/-- **Steps one after the other**; the first failure ends them. -/
def inTurn (m : Machine) : List (Machine → Runner) → Runner
  | [] => fun v => return .ok v
  | f :: rest => followed (f m) (inTurn m rest)

theorem followed_assoc (f g h : Runner) :
    followed (followed f g) h = followed f (followed g h) := by
  funext v
  simp only [followed, bind_assoc]
  congr 1
  funext r
  cases r with
  | error e => simp only [pure_bind]
  | ok a => rfl

/-- The step that hands its value on changes nothing. -/
theorem followed_pure (f : Runner) : followed f (fun v => return .ok v) = f := by
  funext v
  have hsame : (fun r : Result => (match r with
      | .error e => return .error e
      | .ok a => return .ok a : Run Result)) = pure := by
    funext r
    cases r <;> rfl
  exact (congrArg (f v >>= ·) hsame).trans (bind_pure (f v))

theorem pure_followed (f : Runner) : followed (fun v => return .ok v) f = f := by
  funext v
  simp only [followed, pure_bind]

theorem inTurn_append (m : Machine) (fs gs : List (Machine → Runner)) :
    inTurn m (fs ++ gs) = followed (inTurn m fs) (inTurn m gs) := by
  induction fs with
  | nil => exact (pure_followed _).symm
  | cons f rest ih =>
      rw [List.cons_append, inTurn, ih, inTurn, followed_assoc]

theorem inTurn_singleton (m : Machine) (f : Machine → Runner) : inTurn m [f] = f m :=
  followed_pure (f m)

/-! ### The steps of effects -/

/-- The parse function of a pair of handlers as a step.  One that waits is called and carried out. -/
def Parser.step : Parser → Machine → Runner
  | .direct f, m => f.runAs m .parsing
  | .async f, m => fun v => do
      noteIf f.announce v
      f.body.runAs m .parsing v

/-- The test of a refinement as a step. -/
def Check.step (message : String) : Check → Machine → Runner
  | .direct test, _ => checked .parsing message test
  | .async test, _ => checked .parsing message test.test

namespace Effect

/-- What an effect does to a value before the schema below it parses the value. -/
def beforeParse : Effect → List (Machine → Runner)
  | .preprocess h => h.parser.toList.map Parser.step
  | _ => []

/-- What an effect does to a value that the schema below it has parsed. -/
def afterParse : Effect → List (Machine → Runner)
  | .transform h => h.parser.toList.map Parser.step
  | .refine message check => [check.step message]
  | _ => []

/-- What an effect does to a value before the schema below it serializes the value.  A test that
waits is left out. -/
def beforeSerialize : Effect → List (Machine → Runner)
  | .transform h => h.serializer.toList.map fun f m => f.runAs m .serializing
  | .refine message (.direct test) => [fun _ => checked .serializing message test]
  | _ => []

/-- What an effect does to a value that the schema below it has serialized. -/
def afterSerialize : Effect → List (Machine → Runner)
  | .preprocess h => h.serializer.toList.map fun f m => f.runAs m .serializing
  | _ => []

/-- A transform, a preprocessing step or a refinement with the function that parsing needs. -/
def CanParse : Effect → Prop
  | .transform h => h.parser ≠ none
  | .preprocess h => h.parser ≠ none
  | .refine _ _ => True
  | _ => False

/-- A transform, a preprocessing step or a refinement with the function that serializing needs. -/
def CanSerialize : Effect → Prop
  | .transform h => h.serializer ≠ none
  | .preprocess h => h.serializer ≠ none
  | .refine _ _ => True
  | _ => False

end Effect

/-- **The steps of parsing** with effects around a base, the outermost first: inward, then the base,
then outward. -/
def parseSteps (base : Machine → Runner) (es : List Effect) : List (Machine → Runner) :=
  es.flatMap Effect.beforeParse ++ base :: es.reverse.flatMap Effect.afterParse

/-- **The steps of serializing** with effects around a base, the outermost first. -/
def serializeSteps (base : Machine → Runner) (es : List Effect) : List (Machine → Runner) :=
  es.flatMap Effect.beforeSerialize ++ base :: es.reverse.flatMap Effect.afterSerialize

theorem parseSteps_cons (base : Machine → Runner) (e : Effect) (es : List Effect) :
    parseSteps base (e :: es) = e.beforeParse ++ (parseSteps base es ++ e.afterParse) := by
  simp [parseSteps]

theorem serializeSteps_cons (base : Machine → Runner) (e : Effect) (es : List Effect) :
    serializeSteps base (e :: es) =
      e.beforeSerialize ++ (serializeSteps base es ++ e.afterSerialize) := by
  simp [serializeSteps]

/-! ### One effect -/

/-- An operation after another one, in turn. -/
theorem inTurn_before (m : Machine) (f g : Machine → Runner) :
    inTurn m [f, g] = followed (f m) (g m) := by
  rw [inTurn, inTurn_singleton]

/-- What parsing with waiting comes to, nothing being waited for. -/
def ParseOperation.conclude (m : Machine) (late : Task → Run Result) (op : ParseOperation) :
    Runner := fun v => do (outcomeTask (← op.stage m v)).conclude m late

section

variable {m : Machine} {late : Task → Run Result}

theorem outcomeTask_toStaged (r : Result) :
    (outcomeTask r.toStaged).conclude m late = (return r) := by
  cases r <;> rfl

/-- An operation that does not wait is its own conclusion. -/
theorem ParseOperation.direct_conclude (m : Machine) (late : Task → Run Result) (op : Operation) :
    (ParseOperation.direct op).conclude m late = op.run m := by
  funext v
  simp only [conclude, ParseOperation.stage, bind_assoc, pure_bind, outcomeTask_toStaged, bind_pure]

/-- What is done to the outcome of a base is done to its conclusion. -/
theorem afterStage_conclude {base : ParseOperation} {next : Staged → Run (Except Error Staged)}
    {k : Runner}
    (hnext : ∀ staged, (do (outcomeTask (← next staged)).conclude m late) =
      followed (fun _ => staged.toTask.conclude m late) k .null) (v : Value) :
    (do (outcomeTask (← afterStage (base.stage m v) next)).conclude m late) =
      followed (base.conclude m late) k v := by
  simp only [afterStage, followed, ParseOperation.conclude, bind_assoc]
  congr 1
  funext outcome
  rcases outcome with e | staged
  · simp only [pure_bind, outcomeTask, Task.conclude]
  · exact hnext staged

/-- What is done at once to a value that is there, and later to one that is not. -/
theorem andThen_conclude {next : Continuation} {now : Runner}
    (hnow : next.conclude m late = now) (staged : Staged) :
    (do (outcomeTask (← staged.andThen next now)).conclude m late) =
      followed (fun _ => staged.toTask.conclude m late) now .null := by
  cases staged with
  | ready a =>
      simp only [Staged.andThen, followed, Staged.toTask, Task.conclude, pure_bind, bind_assoc]
      refine (congrArg (now a >>= ·) (funext fun r => ?_)).trans (bind_pure (now a))
      cases r <;> rfl
  | pending t =>
      subst hnow
      rfl

end

namespace Effect

variable {e : Effect} {m : Machine}

/-- **An effect around an operation that does not wait.** -/
theorem parseAround_run (hcan : e.CanParse) (hsync : e.isAsync = false) (base : Operation) :
    (e.parseAround base).run m =
      inTurn m (e.beforeParse ++ ((fun m => base.run m) :: e.afterParse)) := by
  cases e with
  | transform h =>
      obtain ⟨parser, serializer⟩ := h
      cases parser with
      | none => exact absurd rfl hcan
      | some parser =>
          cases parser with
          | direct f => exact (inTurn_before m (fun m => base.run m) (fun m => f.runAs m .parsing)).symm
          | async f => cases hsync
  | preprocess h =>
      obtain ⟨parser, serializer⟩ := h
      cases parser with
      | none => exact absurd rfl hcan
      | some parser =>
          cases parser with
          | direct f => exact (inTurn_before m (fun m => f.runAs m .parsing) (fun m => base.run m)).symm
          | async f => cases hsync
  | refine message check =>
      cases check with
      | direct test =>
          exact (inTurn_before m (fun m => base.run m) (fun _ => checked .parsing message test)).symm
      | async test => cases hsync
  | recover | variant | getOr => cases hcan

/-- **An effect around a serialize operation.** -/
theorem serializeAround_run (hcan : e.CanSerialize) (id : NodeId) (base : Compiled Operation) :
    (e.serializeAround id base).operation.run m =
      inTurn m (e.beforeSerialize ++ ((fun m => base.operation.run m) :: e.afterSerialize)) := by
  cases e with
  | transform h =>
      obtain ⟨parser, serializer⟩ := h
      cases serializer with
      | none => exact absurd rfl hcan
      | some f =>
          exact (inTurn_before m (fun m => f.runAs m .serializing)
            (fun m => base.operation.run m)).symm
  | preprocess h =>
      obtain ⟨parser, serializer⟩ := h
      cases serializer with
      | none => exact absurd rfl hcan
      | some f =>
          exact (inTurn_before m (fun m => base.operation.run m)
            (fun m => f.runAs m .serializing)).symm
  | refine message check =>
      cases check with
      | direct test =>
          exact (inTurn_before m (fun _ => checked .serializing message test)
            (fun m => base.operation.run m)).symm
      | async test => exact (inTurn_singleton m (fun m => base.operation.run m)).symm
  | recover | variant | getOr => cases hcan

/-- Preprocessing that waits is all that is left to do before the base is started. -/
def isLateStart : Effect → Bool
  | .preprocess h => h.isAsync
  | _ => false

theorem eq_of_isLateStart (h : e.isLateStart = true) :
    ∃ f serializer, e = .preprocess ⟨some (.async f), serializer⟩ := by
  cases e with
  | preprocess handlers =>
      obtain ⟨parser, serializer⟩ := handlers
      match parser, h with
      | some (.async f), _ => exact ⟨f, serializer, rfl⟩
  | _ => cases h

/-- **An effect around an operation, one of which waits.** -/
theorem stageAround_conclude (hcan : e.CanParse) (hstart : e.isLateStart = false)
    (late : Machine → Task → Run Result) (base : ParseOperation) :
    (e.stageAround base).conclude m (late m) =
      inTurn m (e.beforeParse ++ ((fun m => base.conclude m (late m)) :: e.afterParse)) := by
  cases e with
  | transform h =>
      obtain ⟨parser, serializer⟩ := h
      cases parser with
      | none => exact absurd rfl hcan
      | some parser =>
          refine Eq.trans (funext fun v => ?_)
            (inTurn_before m (fun m => base.conclude m (late m)) parser.step).symm
          cases parser with
          | direct f => exact afterStage_conclude (andThen_conclude rfl) v
          | async f =>
              refine afterStage_conclude (fun staged => ?_) v
              cases staged with
              | ready a =>
                  simp only [followed, Staged.toTask, outcomeTask, Task.conclude, Parser.step,
                    AsyncAction.start, pure_bind, bind_assoc]
              | pending t =>
                  rfl
  | preprocess h =>
      obtain ⟨parser, serializer⟩ := h
      cases parser with
      | none => exact absurd rfl hcan
      | some parser =>
          cases parser with
          | direct f =>
              refine Eq.trans (funext fun v => ?_)
                (inTurn_before m (fun m => f.runAs m .parsing)
                  (fun m => base.conclude m (late m))).symm
              simp only [stageAround, ParseOperation.conclude, ParseOperation.stage, followed,
                bind_assoc]
              congr 1
              funext r
              cases r with
              | error e => simp only [pure_bind, outcomeTask, Task.conclude]
              | ok a => rfl
          | async f => cases hstart
  | refine message check =>
      refine Eq.trans (funext fun v => ?_)
        (inTurn_before m (fun m => base.conclude m (late m)) (check.step message)).symm
      cases check with
      | direct test => exact afterStage_conclude (andThen_conclude rfl) v
      | async test =>
          refine afterStage_conclude (fun staged => ?_) v
          rfl
  | recover | variant | getOr => cases hcan

end Effect

/-! ### Steps with fuel enough -/

section

variable {W : World → Prop} {w : World} {f f' g g' : Nat → Runner}

theorem followed_rising (hf : ∀ v, Rising W fun n => f n v) (hg : ∀ v, Rising W fun n => g n v)
    (v : Value) : Rising W fun n => followed (f n) (g n) v :=
  (hf v).bind fun r => by
    rcases r with e | a
    · exact .pure _
    · exact hg a

theorem inTurn_rising : ∀ {fs : List (Machine → Runner)},
    (∀ f ∈ fs, ∀ v, Rising W fun n => f (machine n) v) →
      ∀ v, Rising W fun n => inTurn (machine n) fs v
  | [], _, _ => .pure _
  | _ :: _, h, v =>
      have h := List.forall_mem_cons.1 h
      followed_rising h.1 (inTurn_rising h.2) v

/-- Functions that come to the same results. -/
def SameYields (W : World → Prop) (f f' : Nat → Runner) : Prop :=
  ∀ v r, Yields W (fun n => f n v) r ↔ Yields W (fun n => f' n v) r

theorem SameYields.refl (W : World → Prop) (f : Nat → Runner) : SameYields W f f := fun _ _ => .rfl

theorem SameYields.symm (h : SameYields W f f') : SameYields W f' f := fun v r => (h v r).symm

/-- One half of the congruence below. -/
theorem yields_followed_of_same (hw : W w) (hf : ∀ v, Rising W fun n => f n v)
    (hf' : ∀ v, Rising W fun n => f' n v) (hg : ∀ v, Rising W fun n => g n v)
    (hg' : ∀ v, Rising W fun n => g' n v) (hff : SameYields W f f') (hgg : SameYields W g g')
    {v : Value} {r : Result} (h : Yields W (fun n => followed (f n) (g n) v) r) :
    Yields W (fun n => followed (f' n) (g' n) v) r := by
  obtain ⟨x, hx, h⟩ := Yields.of_bind h (hf v)
    (fun x => by
      rcases x with e | a
      · exact .pure _
      · exact hg a) hw
  refine Yields.bind ((hff v x).1 hx) ?_ (hf' v) ?_ hw
  · cases x with
    | error e => exact h
    | ok a => exact (hgg a r).1 h
  · cases x with
    | error e => exact .pure _
    | ok a => exact hg' a

/-- One function after another comes to what functions with the same results come to. -/
theorem SameYields.followed (hw : W w) (hf : ∀ v, Rising W fun n => f n v)
    (hf' : ∀ v, Rising W fun n => f' n v) (hg : ∀ v, Rising W fun n => g n v)
    (hg' : ∀ v, Rising W fun n => g' n v) (hff : SameYields W f f') (hgg : SameYields W g g') :
    SameYields W (fun n => Schemata.followed (f n) (g n)) fun n => Schemata.followed (f' n) (g' n) :=
  fun _ _ => ⟨yields_followed_of_same hw hf hf' hg hg' hff hgg,
    yields_followed_of_same hw hf' hf hg' hg hff.symm hgg.symm⟩

namespace FuelHelps

variable (h : FuelHelps W)

include h

theorem runAs_rising (f : Action) (direction : Direction) (v : Value) :
    Rising W fun n => f.runAs (machine n) direction v := fun n k hk =>
  (h n k hk).runAs (fun _ _ => trivial) direction v

theorem checked_rising (direction : Direction) (message : String) (test : Test) (v : Value) :
    Rising W fun _ => checked direction message test v := fun n k hk =>
  (h n k hk).checked direction message test v

theorem beforeParse_rising (e : Effect) : ∀ f ∈ e.beforeParse, ∀ v,
    Rising W fun n => f (machine n) v := by
  intro f hf v
  cases e with
  | preprocess handlers =>
      obtain ⟨parser, -, rfl⟩ := List.mem_map.1 hf
      cases parser with
      | direct f => exact h.runAs_rising f .parsing v
      | async f =>
          exact Rising.bind (fun n k hk => noteIf_mimics (h n k hk).logs (h n k hk).logs _ v)
            fun _ => h.runAs_rising f.body .parsing v
  | transform | refine | recover | variant | getOr => cases hf

theorem afterParse_rising (e : Effect) : ∀ f ∈ e.afterParse, ∀ v,
    Rising W fun n => f (machine n) v := by
  intro f hf v
  cases e with
  | transform handlers =>
      obtain ⟨parser, -, rfl⟩ := List.mem_map.1 hf
      cases parser with
      | direct f => exact h.runAs_rising f .parsing v
      | async f =>
          exact Rising.bind (fun n k hk => noteIf_mimics (h n k hk).logs (h n k hk).logs _ v)
            fun _ => h.runAs_rising f.body .parsing v
  | refine message check =>
      rw [List.mem_singleton.1 hf]
      cases check with
      | direct test => exact h.checked_rising .parsing message test v
      | async test => exact h.checked_rising .parsing message test.test v
  | preprocess | recover | variant | getOr => cases hf

theorem beforeSerialize_rising (e : Effect) : ∀ f ∈ e.beforeSerialize, ∀ v,
    Rising W fun n => f (machine n) v := by
  intro f hf v
  cases e with
  | transform handlers =>
      obtain ⟨f, -, rfl⟩ := List.mem_map.1 hf
      exact h.runAs_rising f .serializing v
  | refine message check =>
      cases check with
      | direct test =>
          rw [List.mem_singleton.1 hf]
          exact h.checked_rising .serializing message test v
      | async test => cases hf
  | preprocess | recover | variant | getOr => cases hf

/-- The steps of parsing with effects around a base keep their results with more fuel. -/
theorem parseSteps_rising {base : Machine → Runner}
    (hbase : ∀ v, Rising W fun n => base (machine n) v) (es : List Effect) :
    ∀ f ∈ parseSteps base es, ∀ v, Rising W fun n => f (machine n) v := by
  intro f hf
  rcases List.mem_append.1 hf with hf | hf
  · obtain ⟨e, -, hf⟩ := List.mem_flatMap.1 hf
    exact h.beforeParse_rising e f hf
  · rcases List.mem_cons.1 hf with rfl | hf
    · exact hbase
    · obtain ⟨e, -, hf⟩ := List.mem_flatMap.1 hf
      exact h.afterParse_rising e f hf

/-- What an operation comes to, nothing being waited for, it comes to with more fuel. -/
theorem parse_conclude_rising (op : ParseOperation) (v : Value) :
    Rising W fun n => op.conclude (machine n) (concluding n) v :=
  (h.stage_rising op v).bind fun outcome => h.conclude_rising (outcomeTask outcome)

end FuelHelps

/-- A parse that begins late concludes as one that begins now. -/
theorem sameYields_late (h : FuelHelps W) (hw : W w) (op : ParseOperation) :
    SameYields W (fun n => (Continuation.parse op).conclude (machine n) (concluding n))
      fun n => op.conclude (machine n) (concluding n) := by
  intro v r
  constructor
  · intro hr
    obtain ⟨outcome, houtcome, hr⟩ := Yields.of_bind hr (h.stage_rising op v) h.late_rising hw
    refine Yields.bind houtcome ?_ (h.stage_rising op v) (h.conclude_rising _) hw
    cases outcome with
    | error e => exact hr
    | ok staged => exact Task.Concludes.of_concluding hw hr
  · intro hr
    obtain ⟨outcome, houtcome, hr⟩ := Yields.of_bind hr (h.stage_rising op v)
      (fun outcome => h.conclude_rising (outcomeTask outcome)) hw
    refine Yields.bind houtcome ?_ (h.stage_rising op v) (h.late_rising outcome) hw
    cases outcome with
    | error e => exact hr
    | ok staged => exact Task.Concludes.concluding hr

/-- Preprocessing that waits, and the base after it. -/
theorem lateStart_conclude (m : Machine) (late : Task → Run Result) (f : AsyncAction)
    (base : ParseOperation) :
    (ParseOperation.applyAsyncFirst f base).conclude m late =
      followed ((Parser.async f).step m) ((Continuation.parse base).conclude m late) := by
  funext v
  simp only [ParseOperation.conclude, ParseOperation.stage, AsyncAction.start, followed,
    Parser.step, bind_assoc, pure_bind]
  rfl

/-- **An effect around an operation, one of which waits**, comes to its own steps around what the
operation comes to. -/
theorem Effect.stageAround_sameYields (h : FuelHelps W) (hw : W w) {e : Effect} (hcan : e.CanParse)
    (base : ParseOperation) (hf : ∀ v, Rising W fun n => f n v)
    (hbase : SameYields W (fun n => base.conclude (machine n) (concluding n)) f) :
    SameYields W (fun n => (e.stageAround base).conclude (machine n) (concluding n)) fun n =>
      followed (inTurn (machine n) e.beforeParse)
        (followed (f n) (inTurn (machine n) e.afterParse)) := by
  have hbefore := inTurn_rising (h.beforeParse_rising e)
  have hafter := inTurn_rising (h.afterParse_rising e)
  have hconclude := h.parse_conclude_rising base
  cases hstart : e.isLateStart with
  | false =>
      have hone : ∀ n, (e.stageAround base).conclude (machine n) (concluding n) =
          followed (inTurn (machine n) e.beforeParse)
            (followed (base.conclude (machine n) (concluding n))
              (inTurn (machine n) e.afterParse)) := by
        intro n
        rw [Effect.stageAround_conclude hcan hstart (fun _ => concluding n), inTurn_append, inTurn]
      simp only [hone]
      exact .followed hw hbefore hbefore (followed_rising hconclude hafter)
        (followed_rising hf hafter) (.refl W _)
        (.followed hw hconclude hf hafter hafter hbase (.refl W _))
  | true =>
      -- the base is started when the function has been carried out
      obtain ⟨k, serializer, rfl⟩ := Effect.eq_of_isLateStart hstart
      have hone : ∀ n, (Effect.stageAround (.preprocess ⟨some (.async k), serializer⟩) base).conclude
          (machine n) (concluding n) =
          followed (inTurn (machine n) (Effect.preprocess ⟨some (.async k), serializer⟩).beforeParse)
            ((Continuation.parse base).conclude (machine n) (concluding n)) := fun n =>
        (lateStart_conclude (machine n) (concluding n) k base).trans
          (congrArg (followed · _) (inTurn_singleton _ (Parser.async k).step).symm)
      have hlast : ∀ n, followed (f n)
          (inTurn (machine n) (Effect.preprocess ⟨some (.async k), serializer⟩).afterParse) = f n :=
        fun n => followed_pure (f n)
      simp only [hone, hlast]
      refine .followed hw hbefore hbefore (h.continue_rising (.parse base)) hf (.refl W _)
        fun v r => ?_
      exact (sameYields_late h hw base v r).trans (hbase v r)

end

end Schemata
