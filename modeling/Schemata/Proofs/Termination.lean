/-
**Guarded recursion ends.**

With fuel enough, running an operation ends, and more fuel makes no difference.  Each operation ends
when those inside it end on the values that they are given; references add to this that the schema
behind them ends.  In a guarded graph this is an induction along what is handed on.

Main definitions:

* `Schemata.Settles` — a computation that ends in one way as soon as there is fuel enough;
* `Schemata.Operation.Ends` — an operation that does so on a value;
* `Schemata.Action.Total`, `Schemata.Kind.Total` — functions that end on every value.

Main results:

* `Schemata.Kind.directParser_ends`, `Schemata.Kind.serializer_ends` — the operations of a kind end
  when what is handed on ends;
* `Schemata.Scene.Called.guarded_terminates` — **in a guarded graph parsing and serializing end with
  a result**, and a union refuses members that are the union itself.
-/

import Schemata.Proofs.Calls
import Schemata.Proofs.DirectErrors
import Schemata.Proofs.Guardedness

set_option relaxedAutoImplicit false
set_option autoImplicit false

namespace Schemata

/-! ### Computations with fuel enough -/

/-- **With fuel enough the computation gives one result.** -/
def Settles {α : Type} (W : World → Prop) (c : Nat → Run α) : Prop :=
  ∃ n a, ∀ fuel ≥ n, Gives W (c fuel) a

section

variable {α β : Type} {W : World → Prop} {v a : Value}

theorem Gives.settles {c : Run α} {a : α} (h : Gives W c a) : Settles W fun _ => c :=
  ⟨0, a, fun _ _ => h⟩

theorem Settles.pure (a : α) : Settles W fun _ => (pure a : Run α) := (Gives.pure a).settles

/-- **Sequencing.** -/
theorem Settles.bind {c : Nat → Run α} {f : Nat → α → Run β} (hc : Settles W c)
    (hf : ∀ a, Settles W fun fuel => f fuel a) : Settles W fun fuel => c fuel >>= f fuel := by
  obtain ⟨n, a, ha⟩ := hc
  obtain ⟨k, b, hb⟩ := hf a
  exact ⟨max n k, b, fun fuel hfuel =>
    (ha fuel (le_of_max_le_left hfuel)).bind (hb fuel (le_of_max_le_right hfuel))⟩

/-- What takes one more unit of fuel settles as well. -/
theorem Settles.succ {c c' : Nat → Run α} (hc : Settles W c)
    (h : ∀ fuel w, W w → c' (fuel + 1) w = c fuel w) : Settles W c' := by
  obtain ⟨n, a, ha⟩ := hc
  refine ⟨n + 1, a, fun fuel hfuel => ?_⟩
  obtain ⟨fuel, rfl⟩ := Nat.exists_eq_succ_of_ne_zero (Nat.ne_zero_of_lt hfuel)
  exact (ha fuel (Nat.le_of_succ_le_succ hfuel)).congr (h fuel)

/-! ### Children, fields and members -/

theorem runEach_settles {ι : Type} {segment : ι → Segment} {child : ι → Nat → Run Result} :
    ∀ {items : List ι}, (∀ i ∈ items, Settles W (child i)) →
      Settles W fun fuel => runEach (items.map fun i => (segment i, child i fuel))
  | [], _ => .pure _
  | i :: rest, h => by
      have ih : Settles W fun fuel => runEach (rest.map fun i => (segment i, child i fuel)) :=
        runEach_settles fun j hj => h j (List.mem_cons_of_mem _ hj)
      refine (h i (List.mem_cons_self ..)).bind fun r => ?_
      cases r with
      | error e => exact .pure _
      | ok v => exact ih.bind fun others => by cases others <;> exact .pure _

theorem Value.Contains.field {all entries : List (String × Value)} (h : entries ⊆ all)
    (name : String) : (Value.object all).Contains ((Entries.find? name entries).getD .null) := by
  cases hfind : Entries.find? name entries with
  | none => exact .missing all
  | some a => exact .entry (h (Entries.mem_of_find? hfind))

/-- Fields settle on what an object contains, whatever has been taken out of it before. -/
theorem runFields_settles {all : List (String × Value)} :
    ∀ {fields : List (String × (Nat → Runner))} {entries : List (String × Value)},
      entries ⊆ all →
      (∀ f ∈ fields, ∀ a, (Value.object all).Contains a → Settles W fun fuel => f.2 fuel a) →
      Settles W fun fuel => runFields (fields.map fun f => (f.1, f.2 fuel)) entries
  | [], _, _, _ => .pure _
  | (name, field) :: rest, entries, hsub, h => by
      have hleft : Entries.remove name entries ⊆ all := fun e he =>
        hsub (Entries.mem_of_mem_remove he)
      have ih := runFields_settles hleft fun f hf => h f (List.mem_cons_of_mem _ hf)
      refine (h _ (List.mem_cons_self ..) _ (.field hsub name)).bind fun r => ?_
      cases r with
      | error e => exact .pure _
      | ok v => exact ih.bind fun others => by cases others <;> exact .pure _

theorem runPresentFields_settles {entries : List (String × Value)} (omitted : List String) :
    ∀ {fields : List (String × (Nat → Runner))},
      (∀ f ∈ fields, ∀ a, (Value.object entries).Contains a → Settles W fun fuel => f.2 fuel a) →
      Settles W fun fuel => runPresentFields omitted (fields.map fun f => (f.1, f.2 fuel)) entries
  | [], _ => .pure _
  | (name, field) :: rest, h => by
      have ih := runPresentFields_settles omitted fun f hf => h f (List.mem_cons_of_mem _ hf)
      simp only [List.map_cons, runPresentFields]
      split
      · exact ih
      · refine (h _ (List.mem_cons_self ..) _ (.field (List.Subset.refl _) name)).bind fun r => ?_
        cases r with
        | error e => exact .pure _
        | ok v => exact ih.bind fun others => by cases others <;> exact .pure _

theorem tryEach_settles : ∀ {members : List (Nat × (Nat → Runner))},
    (∀ x ∈ members, Settles W fun fuel => x.2 fuel v) →
      Settles W fun fuel => tryEach v (members.map fun x => (x.1, x.2 fuel))
  | [], _ => .pure _
  | (i, member) :: rest, h => by
      have ih := tryEach_settles fun x hx => h x (List.mem_cons_of_mem _ hx)
      refine (h _ (List.mem_cons_self ..)).bind fun r => ?_
      cases r with
      | ok a => exact .pure _
      | error e => exact ih.bind fun others => by cases others <;> exact .pure _

/-- Which members are selected does not depend on how they are run. -/
theorem exists_selected {γ : Type} (tags : List (Option Tag)) (v : Value) (members : List γ)
    (wanted : Bool) : ∃ chosen : List (Nat × γ), (∀ x ∈ chosen, x.2 ∈ members) ∧
      ∀ run : γ → Runner, selected wanted (marked tags v (members.map run)) =
        chosen.map fun x => (x.1, run x.2) := by
  refine ⟨((members.zipIdx.zip tags).filter fun x => admitted v x.2 == wanted).map
    fun x => (x.1.2, x.1.1), fun x hx => ?_, fun run => ?_⟩
  · obtain ⟨y, hy, rfl⟩ := List.mem_map.1 hx
    exact List.fst_mem_of_mem_zipIdx (List.of_mem_zip (List.mem_filter.1 hy).1).1
  · rw [selected, marked, List.zipIdx_map, List.zip_map_left, List.map_map, List.filter_map,
      List.map_map, List.map_map]
    rfl

theorem selected_settles {tags : List (Option Tag)} {members : List (Nat → Runner)}
    (h : ∀ member ∈ members, Settles W fun fuel => member fuel v) (wanted : Bool) :
    Settles W fun fuel =>
      tryEach v (selected wanted (marked tags v (members.map fun member => member fuel))) := by
  obtain ⟨chosen, hmem, hchosen⟩ := exists_selected tags v members wanted
  simp only [hchosen]
  exact tryEach_settles fun x hx => h x.2 (hmem x hx)

theorem parseMembers_settles {tags : List (Option Tag)} {members : List (Nat → Runner)}
    (h : ∀ member ∈ members, Settles W fun fuel => member fuel v) :
    Settles W fun fuel => parseMembers tags (members.map fun member => member fuel) v := by
  refine (selected_settles h true).bind fun first => ?_
  cases first with
  | ok a => exact .pure _
  | error first => exact (selected_settles h false).bind fun rest => by cases rest <;> exact .pure _

theorem serializeMembers_settles {tags : List (Option Tag)} {members : List (Nat → Runner)}
    (h : ∀ member ∈ members, Settles W fun fuel => member fuel v) :
    Settles W fun fuel => serializeMembers tags (members.map fun member => member fuel) v := by
  obtain ⟨chosen, hmem, hchosen⟩ := exists_selected tags v members true
  simp only [serializeMembers, hchosen]
  cases hc : chosen with
  | nil => exact .pure _
  | cons x rest =>
      rw [hc] at hmem
      have hrun : ∀ y ∈ x :: rest, Settles W fun fuel => y.2 fuel v := fun y hy =>
        h y.2 (hmem y hy)
      refine (tryEach_settles hrun).bind fun r => ?_
      rcases r with (_ | ⟨_, _ | _⟩) | a <;> exact .pure _

end

/-! ### User functions -/

/-- **The function ends on every value**, with fuel enough for the schemas that it runs. -/
def Action.Total (w : World) (f : Action) : Prop :=
  ∀ v, ∃ n r, ∀ fuel ≥ n, ∃ w', f.run (machine fuel) v w = .ok (r, w')

/-- The functions of the pair end, but for those that parsing at once does not call. -/
structure Handlers.Total (w : World) (h : Handlers) : Prop where
  parser : ∀ f, h.parser = some (.direct f) → f.Total w
  serializer : ∀ f, h.serializer = some f → f.Total w

/-- **The functions of the kind end.**  Tests, stand-ins for failures and supplies always do. -/
def Kind.Total (w : World) : Kind → Prop
  | .custom _ h | .transformed _ (.transform h) | .transformed _ (.preprocess h) => h.Total w
  | _ => True

/-- **Worlds in which functions that end have results.** -/
structure World.Carries (w : World) (W : World → Prop) : Prop where
  logs : LeavesLogsOpen W
  function : ∀ f : Action, f.Total w → ∀ v, Settles W fun fuel => f.run (machine fuel) v

/-- The worlds ahead are such worlds. -/
theorem World.Sound.carries {w : World} {nodes : List Schema} (h : w.Sound nodes) :
    w.Carries (w.Later nodes) where
  logs := w.later_leavesLogsOpen nodes
  function f hf v := by
    obtain ⟨n, r, hends⟩ := hf v
    refine ⟨n, r, fun fuel hfuel => ?_⟩
    obtain ⟨w', hrun⟩ := hends fuel hfuel
    exact f.run_steady (w.later_leavesLogsOpen nodes) (h.machine_deterministic fuel) v _ _ _ h.later
      hrun

section

variable {W : World → Prop} {w : World}

/-- A supply is always there. -/
theorem Supply.orElse_gives (hW : LeavesLogsOpen W) (s : Supply) (v : Value) :
    Gives W (s.orElse v) (s.result v) := by
  rw [orElse, result]
  split
  · exact (noteIf_gives hW s.tag s.value).bind (.pure _)
  · exact .pure _

theorem World.Carries.runAs (hW : w.Carries W) {f : Action} (hf : f.Total w)
    (direction : Direction) (v : Value) :
    Settles W fun fuel => f.runAs (machine fuel) direction v := by
  refine (hW.function f hf v).bind fun r => ?_
  cases r <;> exact .pure _

/-! ### Operations -/

/-- **With fuel enough the operation ends on the value.** -/
abbrev Operation.Ends (W : World → Prop) (op : Operation) (v : Value) : Prop :=
  Settles W fun fuel => op.run (machine fuel) v

namespace Operation.Ends

variable {item base inner : Operation} {items : List Operation} {v : Value}

theorem fail (e : Error) : Ends W (.fail e) v := .pure _

theorem scalar (kind : Scalar) (direction : Direction) (expected : Thunk String) :
    Ends W (.scalar kind direction expected) v := by
  simp only [Ends, run]
  split <;> exact .pure _

theorem literal (direction : Direction) (l : Literal) : Ends W (.literal direction l) v := by
  simp only [Ends, run]
  split <;> exact .pure _

theorem array (h : ∀ a, v.Contains a → Ends W item a) (direction : Direction)
    (expected : Thunk String) : Ends W (.array direction expected item) v := by
  cases v with
  | array values =>
      simp only [Ends, run, indexed_map]
      refine (runEach_settles fun c hc => ?_).bind fun _ => .pure _
      obtain ⟨i, a, ha, rfl⟩ := mem_indexed hc
      exact h a (.item (List.mem_of_getElem? ha))
  | _ => exact .pure _

theorem dict (h : ∀ a, v.Contains a → Ends W item a) (direction : Direction)
    (expected : Thunk String) : Ends W (.dict direction expected item) v := by
  cases v with
  | object entries =>
      simp only [Ends, run, fun fuel => keyed_map (item.run (machine fuel)) entries]
      refine (runEach_settles fun c hc => ?_).bind fun _ => .pure _
      obtain ⟨e, he, rfl⟩ := List.mem_map.1 hc
      exact h e.2 (.entry he)
  | _ => exact .pure _

theorem tuple (h : ∀ op ∈ items, ∀ a, v.Contains a → Ends W op a) (direction : Direction)
    (expected : Thunk String) : Ends W (.tuple direction expected items) v := by
  cases v with
  | array values =>
      simp only [Ends, run, zipWith_runners, indexed_map]
      split
      · exact .pure _
      · refine (runEach_settles fun c hc => ?_).bind fun _ => .pure _
        obtain ⟨i, x, hx, rfl⟩ := mem_indexed hc
        obtain ⟨hop, ha⟩ := List.of_mem_zip (List.mem_of_getElem? hx)
        exact h x.1 hop x.2 (.item ha)
  | _ => exact .pure _

/-- The operations of fields as families of functions. -/
theorem fieldRunners_family (fields : List (String × Operation)) (fuel : Nat) :
    fieldRunners (machine fuel) fields =
      (fields.map fun f => (f.1, fun fuel => f.2.run (machine fuel))).map
        fun f => (f.1, f.2 fuel) := by
  rw [fieldRunners_eq_map, List.map_map]
  rfl

theorem parseObject {fields : List (String × Operation)}
    (h : ∀ f ∈ fields, ∀ a, v.Contains a → Ends W f.2 a) (expected : Thunk String)
    (policy : UnknownKeys) : Ends W (.parseObject expected fields policy) v := by
  cases v with
  | object entries =>
      simp only [Ends, run, fieldRunners_family]
      refine (runFields_settles (List.Subset.refl _) fun f hf a ha => ?_).bind fun r => ?_
      · obtain ⟨g, hg, rfl⟩ := List.mem_map.1 hf
        exact h g hg a ha
      · rcases r with e | ⟨values, left⟩
        · exact .pure _
        · dsimp only
          split <;> exact .pure _
  | _ => exact .pure _

theorem serializeObject {fields : List (String × Operation)}
    (h : ∀ f ∈ fields, ∀ a, v.Contains a → Ends W f.2 a) (expected : Thunk String)
    (omitted : List String) : Ends W (.serializeObject expected fields omitted) v := by
  cases v with
  | object entries =>
      simp only [Ends, run, fieldRunners_family]
      refine (runPresentFields_settles omitted fun f hf a ha => ?_).bind fun r => ?_
      · obtain ⟨g, hg, rfl⟩ := List.mem_map.1 hf
        exact h g hg a ha
      · cases r <;> exact .pure _
  | _ => exact .pure _

theorem unlessNull (h : Ends W inner v) : Ends W (.unlessNull inner) v := by
  cases v with
  | null => exact .pure _
  | _ => exact h

theorem unlessAllNoop {op : Operation} (h : Ends W op v) (ops : List Operation) :
    Ends W (unlessAllNoop ops op) v := by
  rw [Schemata.unlessAllNoop]
  split
  · exact .pure _
  · exact h

/-- The operations of members as families of functions. -/
theorem runners_family (ops : List Operation) (fuel : Nat) :
    runners (machine fuel) ops =
      (ops.map fun op fuel => op.run (machine fuel)).map fun member => member fuel := by
  rw [runners_eq_map, List.map_map]
  rfl

theorem parseUnion (h : ∀ op ∈ items, Ends W op v) (tags : List (Option Tag)) :
    Ends W (.parseUnion items tags) v := by
  simp only [Ends, run, runners_family]
  refine parseMembers_settles fun member hmember => ?_
  obtain ⟨op, hop, rfl⟩ := List.mem_map.1 hmember
  exact h op hop

theorem serializeUnion (h : ∀ op ∈ items, Ends W op v) (tags : List (Option Tag)) :
    Ends W (.serializeUnion items tags) v := by
  simp only [Ends, run, runners_family]
  refine serializeMembers_settles fun member hmember => ?_
  obtain ⟨op, hop, rfl⟩ := List.mem_map.1 hmember
  exact h op hop

theorem decodeText (h : ∀ a, Ends W inner a) (expected : Thunk String) :
    Ends W (.decodeText expected inner) v := by
  simp only [Ends, run]
  split
  · exact .pure _
  · exact h _

theorem encodeText (h : Ends W inner v) : Ends W (.encodeText inner) v := by
  refine h.bind fun r => ?_
  cases r <;> exact .pure _

theorem apply (hW : w.Carries W) {f : Action} (hf : f.Total w) (direction : Direction) :
    Ends W (.apply direction f) v := hW.runAs hf direction v

theorem thenApply (hW : w.Carries W) {f : Action} (hf : f.Total w) (h : Ends W base v)
    (direction : Direction) : Ends W (.thenApply direction base f) v := by
  refine h.bind fun r => ?_
  cases r with
  | error e => exact .pure _
  | ok a => exact hW.runAs hf direction a

theorem applyFirst (hW : w.Carries W) {f : Action} (hf : f.Total w) (h : ∀ a, Ends W base a)
    (direction : Direction) : Ends W (.applyFirst direction f base) v := by
  refine (hW.runAs hf direction v).bind fun r => ?_
  cases r with
  | error e => exact .pure _
  | ok a => exact h a

theorem thenCheck (hW : LeavesLogsOpen W) (message : String) (test : Test) (h : Ends W base v) :
    Ends W (.thenCheck message test base) v := by
  refine h.bind fun r => ?_
  cases r with
  | error e => exact .pure _
  | ok a => exact (checked_gives hW .parsing message test a).settles

theorem checkFirst (hW : LeavesLogsOpen W) (message : String) (test : Test) (h : Ends W base v) :
    Ends W (.checkFirst message test base) v := by
  have hchecked := checked_gives hW .serializing message test v
  rw [Test.result] at hchecked
  obtain ⟨n, r, hends⟩ := h
  cases houtcome : test.outcome v with
  | false =>
      rw [houtcome] at hchecked
      exact ⟨0, .error _, fun fuel _ => hchecked.bind (.pure _)⟩
  | true =>
      -- the base runs on the value that has passed the test
      rw [houtcome] at hchecked
      exact ⟨n, r, fun fuel hfuel => hchecked.bind (hends fuel hfuel)⟩

theorem recover (h : Ends W base v) (fallback : Fallback) : Ends W (.recover fallback base) v := by
  refine h.bind fun r => ?_
  cases r <;> exact .pure _

theorem thenConstant (h : Ends W base v) (value : Value) :
    Ends W (.thenConstant value base) v := by
  refine h.bind fun r => ?_
  cases r <;> exact .pure _

theorem exchange (internal : Literal) {external : Value} (h : Ends W base external) :
    Ends W (.exchange internal external base) v := by
  simp only [Ends, run]
  split
  · exact h
  · exact .pure _

theorem orSupply (hW : LeavesLogsOpen W) (supply : Supply) (h : Ends W base v) :
    Ends W (.orSupply supply base) v := by
  refine h.bind fun r => ?_
  cases r with
  | error e => exact .pure _
  | ok a => exact (supply.orElse_gives hW a).settles.bind fun b => .pure (Except.ok b)

theorem customOperation (hW : w.Carries W) {handlers : Handlers} (h : handlers.Total w)
    (name : String) : Ends W (customOperation name handlers) v := by
  rw [Schemata.customOperation]
  split
  · rename_i f hf
    exact .apply hW (h.parser f hf) _
  · exact .fail _
  · exact .fail _

end Operation.Ends

/-! ### Kinds -/

/-- **The parse operation of a kind ends** where those that the value is handed to end. -/
theorem Kind.directParser_ends (hW : w.Carries W) {kind : Kind} {id : NodeId}
    {below : Schema → ParseOperation} {v : Value} (htotal : kind.Total w)
    (hands : ∀ t a, kind.Hands w v t a → (below t).atOnce.Ends W a)
    (href : ∀ r, kind = .recursive r → Settles W fun fuel => (machine fuel).parse r v) :
    (kind.directParser w id below).Ends W v := by
  cases kind with
  | unknown | json => exact .pure _
  | never | unit | string | bool | int | float => exact .scalar _ _ _
  | literal l => exact .literal _ _
  | array t => exact .array (fun a ha => hands t a (.part (List.mem_singleton_self t) ha)) _ _
  | dict t => exact .dict (fun a ha => hands t a (.part (List.mem_singleton_self t) ha)) _ _
  | object fields policy =>
      refine .parseObject (fun f hf a ha => ?_) _ _
      obtain ⟨g, hg, rfl⟩ := List.mem_map.1 hf
      exact hands g.2 a (.part (List.mem_map_of_mem hg) ha)
  | tuple items =>
      refine .tuple (fun op hop a ha => ?_) _ _
      obtain ⟨t, ht, rfl⟩ := List.mem_map.1 hop
      exact hands t a (.part ht ha)
  | option t | null t | nullable t =>
      exact (Operation.Ends.unlessNull
        (hands t v (.relay (List.mem_singleton_self t)))).unlessAllNoop _
  | union members =>
      refine .parseUnion (fun op hop => ?_) _
      obtain ⟨t, ht, rfl⟩ := List.mem_map.1 hop
      simp only [memberParser]
      split
      · exact .fail _
      · rename_i hback
        exact hands t v (.relay (List.mem_filter.2 ⟨ht, by simpa using hback⟩))
  | jsonString t =>
      exact .decodeText (fun a => hands t a (.convert trivial (List.mem_singleton_self t))) _
  | custom name handlers => exact .customOperation hW htotal name
  | transformed base effect =>
      have hbase := List.mem_singleton_self base
      simp only [Kind.directParser]
      cases effect with
      | transform h =>
          simp only [Effect.parseAround]
          split
          · rename_i f hf
            exact .thenApply hW (htotal.parser f hf) (hands base v (.convert trivial hbase)) _
          · exact .fail _
          · exact .fail _
      | preprocess h =>
          simp only [Effect.parseAround]
          split
          · rename_i f hf
            exact .applyFirst hW (htotal.parser f hf)
              (fun a => hands base a (.convert trivial hbase)) _
          · exact .fail _
          · exact .fail _
      | refine message check =>
          cases check with
          | direct test => exact .thenCheck hW.logs message test (hands base v (.relay hbase))
          | async test => exact .fail _
      | recover fallback => exact .recover (hands base v (.relay hbase)) _
      | variant external internal => exact .thenConstant (hands base v (.relay hbase)) _
      | getOr supply => exact .orSupply hW.logs supply (hands base v (.relay hbase))
  | recursive r =>
      simp only [Kind.directParser, followOperation]
      split
      · exact .fail _
      · exact href r rfl

/-- **The serialize operation of a kind ends** where those that the value is handed to end. -/
theorem Kind.serializer_ends (hW : w.Carries W) {kind : Kind} {id : NodeId}
    {below : Schema → Compiled Operation} {v : Value} (htotal : kind.Total w)
    (hands : ∀ t a, kind.Hands w v t a → (below t).operation.Ends W a)
    (href : ∀ r, kind = .recursive r → Settles W fun fuel => (machine fuel).serialize r v) :
    (kind.serializer w id below).operation.Ends W v := by
  cases kind with
  | unknown | json | unit | string | bool | int | float => exact .pure _
  | never => exact .scalar _ _ _
  | literal l => exact .literal _ _
  | array t =>
      exact (Operation.Ends.array
        (fun a ha => hands t a (.part (List.mem_singleton_self t) ha)) _ _).unlessAllNoop _
  | dict t =>
      exact (Operation.Ends.dict
        (fun a ha => hands t a (.part (List.mem_singleton_self t) ha)) _ _).unlessAllNoop _
  | object fields policy =>
      simp only [Kind.serializer, objectSerializer]
      split
      · exact .pure _
      · refine .serializeObject (fun f hf a ha => ?_) _ _
        obtain ⟨g, hg, rfl⟩ := List.mem_map.1 hf
        exact hands g.2 a (.part (List.mem_map_of_mem hg) ha)
  | tuple items =>
      refine (Operation.Ends.tuple (fun op hop a ha => ?_) _ _).unlessAllNoop _
      obtain ⟨t, ht, rfl⟩ := List.mem_map.1 hop
      exact hands t a (.part ht ha)
  | option t | null t | nullable t =>
      exact (Operation.Ends.unlessNull
        (hands t v (.relay (List.mem_singleton_self t)))).unlessAllNoop _
  | union members =>
      refine .serializeUnion (fun op hop => ?_) _
      obtain ⟨t, ht, rfl⟩ := List.mem_map.1 hop
      simp only [memberSerializer]
      split
      · exact .fail _
      · rename_i hback
        exact hands t v (.relay (List.mem_filter.2 ⟨ht, by simpa using hback⟩))
  | jsonString t => exact .encodeText (hands t v (.convert trivial (List.mem_singleton_self t)))
  | custom name handlers =>
      simp only [Kind.serializer]
      split
      · rename_i f hf
        exact .apply hW (htotal.serializer f hf) _
      · exact .fail _
  | transformed base effect =>
      have hbase := List.mem_singleton_self base
      simp only [Kind.serializer]
      cases effect with
      | transform h =>
          simp only [Effect.serializeAround]
          split
          · rename_i f hf
            exact .applyFirst hW (htotal.serializer f hf)
              (fun a => hands base a (.convert trivial hbase)) _
          · exact .fail _
      | preprocess h =>
          simp only [Effect.serializeAround]
          split
          · rename_i f hf
            exact .thenApply hW (htotal.serializer f hf) (hands base v (.convert trivial hbase)) _
          · exact .fail _
      | refine message check =>
          cases check with
          | direct test => exact .checkFirst hW.logs message test (hands base v (.relay hbase))
          | async test => exact hands base v (.relay hbase)
      | recover fallback => exact hands base v (.relay hbase)
      | variant external internal => exact .exchange internal (hands base _ (.exchange _))
      | getOr supply => exact hands base v (.relay hbase)
  | recursive r =>
      simp only [Kind.serializer, followOperation]
      split
      · exact .fail _
      · exact href r rfl

end

/-! ### Members that are the union itself -/

section

variable {W : World → Prop} {v : Value} {e : Error}

/-- Each member is among those that are selected for what its tag says. -/
theorem exists_mem_selected {γ : Type} {tag : γ → Option Tag} {run : γ → Runner}
    {members : List γ} {x : γ} (hx : x ∈ members) (v : Value) :
    ∃ i, (i, run x) ∈
      selected (admitted v (tag x)) (marked (members.map tag) v (members.map run)) := by
  obtain ⟨i, hi⟩ := List.getElem?_of_mem hx
  have hzip : ((run x, i), tag x) ∈ (members.map run).zipIdx.zip (members.map tag) := by
    refine List.mem_of_getElem? (i := i) ?_
    rw [List.getElem?_zip_eq_some, List.getElem?_zipIdx, List.getElem?_map, List.getElem?_map, hi]
    simp
  refine ⟨i, ?_⟩
  simp only [selected, marked, List.mem_map, List.mem_filter]
  exact ⟨_, ⟨⟨_, hzip, rfl⟩, by simp⟩, rfl⟩

/-- When all members fail, the error of a member that always does is among theirs. -/
theorem tryEach_lists {i : Nat} {run : Runner} (hfails : Gives W (run v) (.error e)) :
    ∀ {members : List (Nat × Runner)}, (∀ x ∈ members, Steady W (x.2 v)) → (i, run) ∈ members →
      Ensures W (tryEach v members) fun r => ∀ es, r = .error es → (i, e) ∈ es
  | x :: rest, hsteady, hmem => by
      have hx := hsteady x (List.mem_cons_self ..)
      have hrest : ∀ y ∈ rest, Steady W (y.2 v) := fun y hy => hsteady y (List.mem_cons_of_mem _ hy)
      rcases List.mem_cons.1 hmem with rfl | hmem
      · -- the member itself fails, and its error comes first
        refine (hfails.ensures (P := fun r => r = .error e) rfl).bind fun r hr => ?_
        subst hr
        refine (tryEach_steady hrest).ensures.bind fun others _ => ?_
        cases others with
        | ok a => exact .pure fun es hes => nomatch hes
        | error es => exact .pure fun es hes => by cases hes; exact List.mem_cons_self ..
      · have ih := tryEach_lists hfails hrest hmem
        refine hx.ensures.bind fun r _ => ?_
        cases r with
        | ok a => exact .pure fun es hes => nomatch hes
        | error e' =>
            refine ih.bind fun others hothers => ?_
            cases others with
            | ok a => exact .pure fun es hes => nomatch hes
            | error es =>
                refine .pure fun es' hes => ?_
                cases hes
                exact List.mem_cons_of_mem _ (hothers es rfl)

/-- The error of a parsing union lists that of a member that always fails. -/
theorem parseMembers_lists {γ : Type} {tag : γ → Option Tag} {run : γ → Runner} {members : List γ}
    {x : γ} (hx : x ∈ members) (hsteady : ∀ y ∈ members, Steady W (run y v))
    (hfails : Gives W (run x v) (.error e)) :
    Ensures W (parseMembers (members.map tag) (members.map run) v) (OnError fun u =>
      ∃ errors, u = Error.atRoot (.invalidUnion errors) .parsing ∧ e ∈ errors) := by
  obtain ⟨i, hmem⟩ := exists_mem_selected hx v
  have each : ∀ wanted,
      ∀ y ∈ selected wanted (marked (members.map tag) v (members.map run)), Steady W (y.2 v) := by
    intro wanted y hy
    obtain ⟨z, hz, heq⟩ := List.mem_map.1 (mem_of_mem_selected hy)
    exact heq ▸ hsteady z hz
  have lists : ∀ wanted,
      Ensures W (tryEach v (selected wanted (marked (members.map tag) v (members.map run))))
        fun r => ∀ es, r = .error es → admitted v (tag x) = wanted → (i, e) ∈ es := by
    intro wanted
    by_cases hwanted : admitted v (tag x) = wanted
    · exact (tryEach_lists hfails (each wanted) (hwanted ▸ hmem)).mono fun r hr es hes _ => hr es hes
    · exact (tryEach_steady (each wanted)).ensures.mono fun r _ es _ heq => absurd heq hwanted
  refine (lists true).bind fun first hfirst => ?_
  cases first with
  | ok a => exact .pure trivial
  | error first =>
      refine (lists false).bind fun rest hrest => ?_
      cases rest with
      | ok a => exact .pure trivial
      | error rest =>
          refine .pure ⟨_, rfl, List.mem_map.2 ⟨(i, e), List.mem_merge.2 ?_, rfl⟩⟩
          cases hadmitted : admitted v (tag x) with
          | true => exact .inl (hfirst first rfl hadmitted)
          | false => exact .inr (hrest rest rfl hadmitted)

/-- The error of a serializing union is that of a candidate that always fails, or lists it. -/
theorem serializeMembers_lists {γ : Type} {tag : γ → Option Tag} {run : γ → Runner}
    {members : List γ} {x : γ} (hx : x ∈ members) (htag : admitted v (tag x) = true)
    (hsteady : ∀ y ∈ members, Steady W (run y v)) (hfails : Gives W (run x v) (.error e)) :
    Ensures W (serializeMembers (members.map tag) (members.map run) v) (OnError fun u =>
      u = e ∨ ∃ errors, u = Error.atRoot (.invalidUnion errors) .serializing ∧ e ∈ errors) := by
  obtain ⟨i, hmem⟩ := exists_mem_selected hx v
  rw [htag] at hmem
  rw [serializeMembers]
  split
  · rename_i hnone
    rw [hnone] at hmem
    cases hmem
  · rename_i candidates _
    refine (tryEach_lists hfails (fun y hy => ?_) hmem).bind fun r hr => ?_
    · obtain ⟨z, hz, heq⟩ := List.mem_map.1 (mem_of_mem_selected hy)
      exact heq ▸ hsteady z hz
    split
    · exact .pure trivial
    · have heq := hr _ rfl
      rw [List.mem_singleton] at heq
      cases heq
      exact .pure (.inl rfl)
    · rename_i errors _
      exact .pure (.inr ⟨_, rfl, List.mem_map.2 ⟨(i, e), hr errors rfl, rfl⟩⟩)

end

/-! ### Guarded graphs -/

namespace Scene

variable {σ : Scene} {s t : Schema} {v : Value}

/-- **A planned parse ends** where those that the value is handed to end. -/
theorem Invariants.planned_ends (inv : σ.Invariants) (hs : s ∈ σ.nodes)
    (htotal : s.kind.Total σ.world) (hands : ∀ t a, s.kind.Hands σ.world v t a →
      (σ.world.planned t).atOnce.Ends (σ.world.Later σ.nodes) a) :
    (σ.world.planned s).atOnce.Ends (σ.world.Later σ.nodes) v := by
  have hc : σ.world.Compiles (· ∈ σ.nodes) (σ.world.Later σ.nodes) :=
    inv.sound.compiles fun _ hs => hs
  obtain ⟨w₁, o, waits, hw₁, -, -, hplan⟩ := inv.sound.parsePlan_shape inv.shaped (.refl _) hs
  rw [World.planned, hplan, Kind.parser_congr hw₁.2 hw₁.1 o.id waits fun _ _ => rfl]
  cases waits with
  | true =>
      rw [ParseOperation.atOnce_of_isAsync (Kind.parser_isAsync _ _ _ _ _)]
      exact .fail _
  | false =>
      refine Kind.directParser_ends inv.sound.carries htotal hands fun r hr => ?_
      obtain ⟨t, ht⟩ := inv.resolved s hs r hr
      -- following the reference takes a unit of fuel
      obtain ⟨n, a, hgives⟩ := hands t v (.relay (by simp [hr, Kind.relays, ht]))
      refine Settles.succ (c := fun fuel => t.parseOn (machine fuel) v) ⟨n, a, fun fuel hfuel => ?_⟩
        fun fuel w hw => hc.parse_target hw ht fuel v
      exact Schema.parseOn_gives hc (inv.sound.hosts.targets r t ht) (hgives fuel hfuel)

/-- In a guarded graph the planned operations end. -/
theorem Guarded.planned_ends (h : σ.Guarded) (inv : σ.Invariants)
    (htotal : ∀ s ∈ σ.nodes, s.kind.Total σ.world) :
    ∀ s ∈ σ.nodes, ∀ v,
      (σ.world.planned s).atOnce.Ends (σ.world.Later σ.nodes) v ∧
      (σ.world.serializePlan s).operation.Ends (σ.world.Later σ.nodes) v := by
  have hW := inv.sound.carries
  have hc : σ.world.Compiles (· ∈ σ.nodes) (σ.world.Later σ.nodes) :=
    inv.sound.compiles fun _ hs => hs
  refine h.induction inv.sound.hosts fun s hs v ih => ⟨?_, ?_⟩
  · exact inv.planned_ends hs (htotal s hs) fun t a hta => (ih t a hta).1
  · obtain ⟨w₁, o, hw₁, -, -, hplan⟩ := inv.sound.serializePlan_shape inv.shaped (.refl _) hs
    rw [hplan, Kind.serializer_congr hw₁.1 o.id fun _ _ => rfl]
    refine Kind.serializer_ends hW (htotal s hs) (fun t a hta => (ih t a hta).2) ?_
    intro r hr
    obtain ⟨t, ht⟩ := inv.resolved s hs r hr
    obtain ⟨n, a, hgives⟩ := (ih t v (.relay (by simp [hr, Kind.relays, ht]))).2
    refine Settles.succ (c := fun fuel => t.serializeOn (machine fuel) v)
      ⟨n, a, fun fuel hfuel => ?_⟩ fun fuel w hw => hc.serialize_target hw ht fuel v
    exact Schema.serializeOn_gives hc (inv.sound.hosts.targets r t ht) (hgives fuel hfuel)

/-- The error of a union in which a member that is the union itself has failed, as an operation that
cannot run. -/
def ListsItself (d : Direction) (e : Error) : Prop :=
  ∃ errors, e = Error.atRoot (.invalidUnion errors) d ∧ selfMemberError d ∈ errors

/-- **A member that is the union itself fails**, which is seen when the union does. -/
structure RefusesItself (σ : Scene) (s : Schema) : Prop where
  parse : ∀ fuel v e w, s.parse fuel v σ.world = .ok (.error e, w) →
    σ.world.ReachesAsync s ∧ e = unexpectedAsyncError ∨ ListsItself .parsing e
  serialize : ∀ fuel v e w, s.serialize fuel v σ.world = .ok (.error e, w) →
    e = selfMemberError .serializing ∨ ListsItself .serializing e

theorem Invariants.refusesItself (inv : σ.Invariants) (hs : s ∈ σ.nodes) {members : List Schema}
    (hkind : s.kind = .union members) (ht : t ∈ members)
    (hback : refersBack σ.world (members.map Schema.id) t = true) : σ.RefusesItself s := by
  have hc : σ.world.Compiles (· ∈ σ.nodes) (σ.world.Later σ.nodes) :=
    inv.sound.compiles fun _ hs => hs
  constructor
  · intro fuel v e w hrun
    obtain ⟨w₁, o, waits, hw₁, -, -, hplan⟩ := inv.sound.parsePlan_shape inv.shaped (.refl _) hs
    rw [Kind.parser_congr hw₁.2 hw₁.1 o.id waits fun _ _ => rfl] at hplan
    have hwaits := inv.exact.answer_iff inv.sound.hosts hs
    rw [← inv.sound.planned_isAsync hs, World.planned, hplan, Kind.parser_isAsync] at hwaits
    have hparse : Ensures (σ.world.Later σ.nodes) (s.parse fuel v) (OnError fun e =>
        σ.world.ReachesAsync s ∧ e = unexpectedAsyncError ∨ ListsItself .parsing e) := by
      refine Schema.parseOn_ensures hc hs ?_
      rw [World.planned, hplan]
      cases waits with
      | true =>
          rw [ParseOperation.atOnce_of_isAsync (Kind.parser_isAsync _ _ _ _ _)]
          exact .pure (.inl ⟨hwaits.1 rfl, rfl⟩)
      | false =>
          simp only [hkind, Kind.parser, Kind.directParser, Bool.false_eq_true, if_false,
            ParseOperation.atOnce, Operation.run, runners_eq_map, List.map_map]
          refine (parseMembers_lists ht (fun x _ => inv.sound.runs fuel _ v) ?_).onError_mono
            fun e he => .inr he
          simp only [memberParser, if_pos hback]
          exact .pure _
    exact (hparse _ _ _ inv.sound.later hrun).2
  · intro fuel v e w hrun
    obtain ⟨w₁, o, hw₁, -, -, hplan⟩ := inv.sound.serializePlan_shape inv.shaped (.refl _) hs
    rw [Kind.serializer_congr hw₁.1 o.id fun _ _ => rfl] at hplan
    have htag : admitted v (t.tag? .output) = true := by
      cases t with
      | node id kind metadata origin =>
          cases kind <;> first | rfl | exact absurd hback (by simp [refersBack])
    have hserialize : Ensures (σ.world.Later σ.nodes) (s.serialize fuel v) (OnError fun e =>
        e = selfMemberError .serializing ∨ ListsItself .serializing e) := by
      refine Schema.serializeOn_ensures hc hs ?_
      simp only [hplan, hkind, Kind.serializer, Operation.run, runners_eq_map, List.map_map]
      refine serializeMembers_lists ht htag (fun x _ => inv.sound.runs fuel _ v) ?_
      simp only [Function.comp_apply, memberSerializer, if_pos hback]
      exact .pure _
    exact (hserialize _ _ _ inv.sound.later hrun).2

/-- **Guarded recursion ends.**  In a guarded graph whose functions end, parsing and serializing any
value with any node end with a result, when there is fuel enough, after whatever calls.  A member
that is the union itself is not run but fails. -/
theorem Called.guarded_terminates (h : σ.Called) (hguarded : σ.Guarded)
    (htotal : ∀ s ∈ σ.nodes, s.kind.Total σ.world) :
    ∀ s ∈ σ.nodes,
      (∀ v, (∃ n r, ∀ fuel ≥ n, ∃ w, s.parse fuel v σ.world = .ok (r, w)) ∧
        ∃ n r, ∀ fuel ≥ n, ∃ w, s.serialize fuel v σ.world = .ok (r, w)) ∧
      ∀ members, s.kind = .union members →
        (∃ t ∈ members, refersBack σ.world (members.map Schema.id) t = true) →
        σ.RefusesItself s := by
  have inv := h.invariants
  have hc : σ.world.Compiles (· ∈ σ.nodes) (σ.world.Later σ.nodes) :=
    inv.sound.compiles fun _ hs => hs
  intro s hs
  refine ⟨fun v => ?_, fun members hkind ⟨t, ht, hback⟩ => inv.refusesItself hs hkind ht hback⟩
  obtain ⟨⟨n, r, hparse⟩, k, q, hserialize⟩ := hguarded.planned_ends inv htotal s hs v
  refine ⟨⟨n, r, fun fuel hfuel => ?_⟩, k, q, fun fuel hfuel => ?_⟩
  · obtain ⟨w, -, hrun⟩ := Schema.parseOn_gives hc hs (hparse fuel hfuel) _ inv.sound.later
    exact ⟨w, hrun⟩
  · obtain ⟨w, -, hrun⟩ := Schema.serializeOn_gives hc hs (hserialize fuel hfuel) _ inv.sound.later
    exact ⟨w, hrun⟩

/-! ### Trees -/

/-- The tree, inside itself. -/
def again : Schema := .node 0 (.recursive 0) Metadata.empty none

/-- A list of trees. -/
def branches : Schema := .node 1 (.array again) Metadata.empty none

/-- An object with a list of trees. -/
def branching : Schema := .node 2 (.object [("children", branches)] none) Metadata.empty none

/-- The tree itself, or an object with a list of trees. -/
def tree : Schema := .node 3 (.union [again, branching]) Metadata.empty none

/-- The scene of these nodes. -/
def trees : Scene where
  world := { made 4 1 with bindings := updateAt (made 4 1).bindings 0 (.live tree) }
  nodes := [tree, branching, branches, again]

theorem trees_called : trees.Called := by
  have h₁ : Step .building initial ⟨made 0 1, []⟩ := .reference rfl
  have h₂ : Step .building ⟨made 0 1, []⟩ ⟨made 1 1, [again]⟩ :=
    .made (fun t ht => by cases ht) (by trivial)
  have h₃ : Step .building ⟨made 1 1, [again]⟩ ⟨made 2 1, [branches, again]⟩ :=
    .made (fun t ht => by simpa [Kind.children] using ht) (by trivial)
  have h₄ : Step .building ⟨made 2 1, [branches, again]⟩
      ⟨made 3 1, [branching, branches, again]⟩ :=
    .made (fun t ht => by simp [Kind.children] at ht; simp [ht]) (by simp [Kind.Formed, Entries.keys])
  have h₅ : Step .building ⟨made 3 1, [branching, branches, again]⟩
      ⟨made 4 1, [tree, branching, branches, again]⟩ :=
    .made (fun t ht => by simp [Kind.children] at ht; rcases ht with rfl | rfl <;> simp)
      (by simp [Kind.Formed])
  have h₆ : Step .building ⟨made 4 1, [tree, branching, branches, again]⟩ trees :=
    .bind Nat.zero_lt_one rfl (List.mem_cons_self ..) rfl
  refine ⟨trees, .tail (.tail (.tail (.tail (.tail (.single h₁) h₂) h₃) h₄) h₅) h₆,
    fun s hs r hr => ?_, .refl⟩
  simp only [trees, List.mem_cons, List.not_mem_nil, or_false] at hs
  rcases hs with rfl | rfl | rfl | rfl <;> cases hr
  exact ⟨tree, rfl⟩

/-- A value is handed on as it is from the reference to the union, and from there to the object. -/
theorem trees_relays {s t : Schema} (hs : s ∈ trees.nodes) (h : trees.world.Relays s t) :
    s = again ∧ t = tree ∨ s = tree ∧ t = branching := by
  have htree : tree.kind.relays trees.world = [branching] := rfl
  have hagain : again.kind.relays trees.world = [tree] := rfl
  simp only [trees, List.mem_cons, List.not_mem_nil, or_false] at hs
  rw [World.Relays] at h
  rcases hs with rfl | rfl | rfl | rfl
  · rw [htree, List.mem_singleton] at h
    exact .inr ⟨rfl, h⟩
  · cases h
  · cases h
  · rw [hagain, List.mem_singleton] at h
    exact .inl ⟨rfl, h⟩

theorem trees_guarded : trees.Guarded where
  relays := by
    refine not_cycle_of_rank (fun s => if s.id = 0 then 2 else if s.id = 3 then 1 else 0)
      fun s hs t h => ?_
    rcases trees_relays hs h with ⟨rfl, rfl⟩ | ⟨rfl, rfl⟩
    · exact ⟨by simp [trees], by decide⟩
    · exact ⟨by simp [trees], by decide⟩
  converts s hs hconverts := by
    simp only [trees, List.mem_cons, List.not_mem_nil, or_false] at hs
    rcases hs with rfl | rfl | rfl | rfl <;> exact absurd hconverts id

/-- Trees are read and written to their end, and the tree inside itself is refused. -/
theorem guarded_terminates_trees :
    trees.Called ∧ trees.Guarded ∧ (∀ s ∈ trees.nodes, s.kind.Total trees.world) ∧
      (∀ v, ∃ n r, ∀ fuel ≥ n, ∃ w, tree.parse fuel v trees.world = .ok (r, w)) ∧
      trees.RefusesItself tree :=
  have htotal : ∀ s ∈ trees.nodes, s.kind.Total trees.world := by
    intro s hs
    simp only [trees, List.mem_cons, List.not_mem_nil, or_false] at hs
    rcases hs with rfl | rfl | rfl | rfl <;> trivial
  have htree : tree ∈ trees.nodes := List.mem_cons_self ..
  have ⟨hends, hrefuses⟩ := Called.guarded_terminates trees_called trees_guarded htotal tree htree
  ⟨trees_called, trees_guarded, htotal, fun v => (hends v).1,
    hrefuses [again, branching] rfl ⟨again, List.mem_cons_self .., rfl⟩⟩

end Scene

end Schemata
