/-
**Schemas without waiting.**

The synchronous form of a schema has each asynchronous function replaced by the synchronous function
of the same outcome, and is otherwise the same: the same nodes with the same identities, kinds and
references.  A scene has a synchronous form as well, in which the synchronous forms of its nodes
have been made and its references are bound to the synchronous forms of their schemas, and nothing
has been used yet.

Main definitions:

* `Schemata.Schema.synchronous`, `Schemata.Scene.synchronous` — the synchronous forms.

Main results:

* `Schemata.Kind.demand_synchronous` — the synchronous form demands the same;
* `Schemata.World.Parses.synchronous` — **it parses values with the same outcomes**;
* `Schemata.Scene.Settled.synchronous` — the synchronous form of a settled scene is settled.
-/

import Schemata.Proofs.AsyncFlag
import Schemata.Proofs.Meaning

set_option relaxedAutoImplicit false
set_option autoImplicit false

namespace Schemata

/-! ### Functions and schemas -/

/-- The function, carried out without waiting. -/
def Parser.synchronous : Parser → Parser
  | .direct f => .direct f
  | .async f => .direct f.body

/-- The functions, carried out without waiting. -/
def Handlers.synchronous (h : Handlers) : Handlers := ⟨h.parser.map Parser.synchronous, h.serializer⟩

/-- The test, made without waiting. -/
def Check.synchronous : Check → Check
  | .direct test => .direct test
  | .async test => .direct test.test

/-- The effect, with its functions carried out without waiting. -/
def Effect.synchronous : Effect → Effect
  | .transform h => .transform h.synchronous
  | .preprocess h => .preprocess h.synchronous
  | .refine message check => .refine message check.synchronous
  | effect => effect

mutual

/-- **The synchronous form of a schema.** -/
def Schema.synchronous : Schema → Schema
  | .node id kind metadata origin =>
      .node id kind.synchronous metadata (synchronousOrigin origin)

/-- The synchronous form of what a copy keeps. -/
def synchronousOrigin : Option Schema → Option Schema
  | none => none
  | some s => some s.synchronous

/-- The synchronous form of a kind. -/
def Kind.synchronous : Kind → Kind
  | .array s => .array s.synchronous
  | .dict s => .dict s.synchronous
  | .object fields own => .object (synchronousFields fields) own
  | .tuple items => .tuple (synchronousAll items)
  | .option s => .option s.synchronous
  | .null s => .null s.synchronous
  | .nullable s => .nullable s.synchronous
  | .union members => .union (synchronousAll members)
  | .jsonString s => .jsonString s.synchronous
  | .custom name handlers => .custom name handlers.synchronous
  | .transformed base effect => .transformed base.synchronous effect.synchronous
  | .recursive r => .recursive r
  | .never => .never
  | .unknown => .unknown
  | .unit => .unit
  | .string => .string
  | .bool => .bool
  | .int => .int
  | .float => .float
  | .json => .json
  | .literal l => .literal l

/-- The synchronous forms of the schemas of fields. -/
def synchronousFields : List (String × Schema) → List (String × Schema)
  | [] => []
  | (name, s) :: rest => (name, s.synchronous) :: synchronousFields rest

/-- The synchronous forms of schemas. -/
def synchronousAll : List Schema → List Schema
  | [] => []
  | s :: rest => s.synchronous :: synchronousAll rest

end

section

variable {s : Schema} {kind : Kind}

@[simp] theorem synchronousAll_eq_map (l : List Schema) :
    synchronousAll l = l.map Schema.synchronous := by
  induction l with
  | nil => rfl
  | cons s rest ih => rw [synchronousAll, ih, List.map_cons]

@[simp] theorem synchronousFields_eq_map (l : List (String × Schema)) :
    synchronousFields l = l.map fun f => (f.1, f.2.synchronous) := by
  induction l with
  | nil => rfl
  | cons f rest ih => rw [synchronousFields, ih, List.map_cons]

@[simp] theorem synchronousOrigin_eq_map (o : Option Schema) :
    synchronousOrigin o = o.map Schema.synchronous := by
  cases o <;> rfl

@[simp] theorem Schema.id_synchronous (s : Schema) : s.synchronous.id = s.id := by
  cases s
  rfl

@[simp] theorem Schema.kind_synchronous (s : Schema) :
    s.synchronous.kind = s.kind.synchronous := by
  cases s
  rfl

@[simp] theorem Schema.id_comp_synchronous : Schema.id ∘ Schema.synchronous = Schema.id :=
  funext id_synchronous

@[simp] theorem Kind.children_synchronous (kind : Kind) :
    kind.synchronous.children = kind.children.map Schema.synchronous := by
  cases kind <;> simp [Kind.synchronous, Kind.children]

/-- The synchronous form is a reference only where the schema is. -/
theorem Schema.kind_of_synchronous_recursive (s : Schema) {r : Reference}
    (h : s.synchronous.kind = .recursive r) : s.kind = .recursive r := by
  rw [kind_synchronous] at h
  cases hk : s.kind with
  | recursive r' => rwa [hk] at h
  | _ => rw [hk] at h; cases h

@[simp] theorem Parser.outcome_synchronous (p : Parser) : p.synchronous.outcome = p.outcome := by
  cases p <;> rfl

@[simp] theorem Check.outcome_synchronous (check : Check) :
    check.synchronous.outcome = check.outcome := by
  cases check <;> rfl

theorem Handlers.bind_synchronous (h : Handlers) (v : Value) :
    h.synchronous.parser.bind (Parser.outcome · v) = h.parser.bind (Parser.outcome · v) := by
  rw [Handlers.synchronous, Option.bind_map]
  congr 1
  funext p
  rw [Function.comp_apply, Parser.outcome_synchronous]

theorem Handlers.Pure.synchronous {h : Handlers} (hpure : h.Pure) : h.synchronous.Pure where
  parser p hp := by
    obtain ⟨q, hq, rfl⟩ := Option.map_eq_some_iff.1 hp
    have hqp := hpure.parser q hq
    cases q with
    | direct f => exact hqp
    | async f => exact hqp.1
  serializer := hpure.serializer

theorem Kind.Pure.synchronous (h : kind.Pure) : kind.synchronous.Pure := by
  cases kind with
  | custom name handlers => exact Handlers.Pure.synchronous h
  | transformed base effect =>
      cases effect with
      | transform handlers => exact Handlers.Pure.synchronous h
      | preprocess handlers => exact Handlers.Pure.synchronous h
      | refine message check => cases check <;> exact h
      | _ => exact h
  | _ => trivial

theorem Kind.Regular.synchronous (h : kind.Regular) : kind.synchronous.Regular := by
  cases kind with
  | transformed base effect =>
      cases effect with
      | preprocess handlers =>
          intro v x hv hx
          rw [Handlers.bind_synchronous] at hx
          exact h v x hv hx
      | recover fallback => exact h
      | _ => trivial
  | _ => trivial

/-! ### Demands -/

/-- A demand of synchronous forms. -/
def Demand.synchronous : Demand → Demand
  | .answer outcome => .answer outcome
  | .all parts assembly => .all (parts.map fun p => (p.1.synchronous, p.2)) assembly
  | .first members input => .first (members.map Schema.synchronous) input
  | .one s input finish => .one s.synchronous input finish

/-- **References stand for synchronous forms**, under the same configuration. -/
structure World.Twin (w w' : World) : Prop where
  targets : ∀ r, w'.target? r = (w.target? r).map Schema.synchronous
  config : w'.config = w.config

variable {w w' : World}

/-- A member is the union itself as before. -/
theorem World.Twin.refersBack (h : w.Twin w') (ids : List NodeId) (s : Schema) :
    refersBack w' ids s.synchronous = Schemata.refersBack w ids s := by
  simp only [Schemata.refersBack, Schema.kind_synchronous]
  cases s.kind with
  | recursive r =>
      simp only [Kind.synchronous, h.targets]
      cases w.target? r with
      | none => rfl
      | some t =>
          simp only [Option.map_some, Schema.kind_synchronous]
          cases t.kind <;> simp [Kind.synchronous]
  | _ => rfl

theorem Kind.isReference_synchronous (kind : Kind) (r : Reference) :
    kind.synchronous.isReference r = kind.isReference r := by
  cases kind <;> rfl

theorem Effect.demand_synchronous (effect : Effect) (base : Schema) (v : Value) :
    effect.synchronous.demand base.synchronous v = (effect.demand base v).synchronous := by
  cases effect with
  | transform h =>
      simp only [Effect.synchronous, Effect.demand, Handlers.synchronous]
      cases h.parser with
      | none => rfl
      | some p => simp [Demand.synchronous]
  | preprocess h =>
      simp only [Effect.synchronous, Effect.demand, Handlers.bind_synchronous]
      cases h.parser.bind (Parser.outcome · v) <;> rfl
  | refine message check => simp [Effect.synchronous, Effect.demand, Demand.synchronous]
  | _ => rfl

/-- **The synchronous form demands the same.** -/
theorem World.Twin.demand (h : w.Twin w') (kind : Kind) (v : Value) :
    kind.synchronous.demand w' v = (kind.demand w v).synchronous := by
  cases kind with
  | array s => cases v <;> simp [Kind.synchronous, Kind.demand, Demand.synchronous]
  | dict s => cases v <;> simp [Kind.synchronous, Kind.demand, Demand.synchronous]
  | object fields own =>
      cases v with
      | object entries =>
          have hkeys : Entries.keys (fields.map fun f => (f.1, f.2.synchronous)) =
              Entries.keys fields := by simp
          simp only [Kind.synchronous, synchronousFields_eq_map, Kind.demand, hkeys,
            policyOf_congr h.config]
          split
          · rfl
          · have hschemas : (fields.map fun f => (f.1, f.2.synchronous)).map Prod.snd =
                (fields.map Prod.snd).map Schema.synchronous := by
              rw [List.map_map, List.map_map]
              rfl
            rw [Demand.synchronous, hschemas, List.zip_map_left]
            rfl
      | _ => rfl
  | tuple items =>
      cases v with
      | array values =>
          simp only [Kind.synchronous, synchronousAll_eq_map, Kind.demand, List.length_map]
          split
          · rw [Demand.synchronous, List.zip_map_left]
            rfl
          · rfl
      | _ => rfl
  | option s | null s | nullable s => cases v <;> rfl
  | union members =>
      simp only [Kind.synchronous, synchronousAll_eq_map, Kind.demand, Demand.synchronous,
        List.map_map, Schema.id_comp_synchronous, List.filter_map]
      congr 2
      exact List.filter_congr fun s _ => by simp [h.refersBack]
  | jsonString s =>
      simp only [Kind.synchronous, Kind.demand]
      cases v.document? <;> rfl
  | custom name handlers =>
      simp only [Kind.synchronous, Kind.demand, Handlers.bind_synchronous]
      rfl
  | transformed base effect => exact effect.demand_synchronous base v
  | recursive r =>
      simp only [Kind.synchronous, Kind.demand, h.targets]
      cases w.target? r with
      | none => rfl
      | some t =>
          simp only [Option.map_some, Schema.kind_synchronous, Kind.isReference_synchronous]
          split <;> rfl
  | _ => rfl

/-- **The synchronous form parses values with the same outcomes.** -/
theorem World.Parses.synchronous (h : w.Twin w') {kind : Kind} {v : Value} {o : Option Value}
    (hparses : w.Parses kind v o) : w'.Parses kind.synchronous v o := by
  induction hparses with
  | answer hd => exact .answer (by rw [h.demand, hd]; rfl)
  | @all kind v parts assembly as hd hlength _ ih =>
      have hd' : kind.synchronous.demand w' v =
          .all (parts.map fun p => (p.1.synchronous, p.2)) assembly := by rw [h.demand, hd]; rfl
      refine .all hd' (by simpa using hlength) fun p a hp => ?_
      rw [List.zip_map_left] at hp
      obtain ⟨⟨q, b⟩, hq, heq⟩ := List.mem_map.1 hp
      cases heq
      have hq := ih q b hq
      rwa [← Schema.kind_synchronous] at hq
  | @notAll kind v parts assembly p hd hp _ ih =>
      have hd' : kind.synchronous.demand w' v =
          .all (parts.map fun p => (p.1.synchronous, p.2)) assembly := by rw [h.demand, hd]; rfl
      refine .notAll hd' (List.mem_map_of_mem hp) ?_
      rwa [← Schema.kind_synchronous] at ih
  | @first kind v x a before after s hd _ _ ihbefore ih =>
      have hd' : kind.synchronous.demand w' v = .first (before.map Schema.synchronous ++
          s.synchronous :: after.map Schema.synchronous) x := by
        rw [h.demand, hd, Demand.synchronous, List.map_append, List.map_cons]
      refine .first hd' (fun t ht => ?_) (by rwa [Schema.kind_synchronous])
      obtain ⟨u, hu, rfl⟩ := List.mem_map.1 ht
      rw [Schema.kind_synchronous]
      exact ihbefore u hu
  | @notFirst kind v x members hd _ ih =>
      have hd' : kind.synchronous.demand w' v = .first (members.map Schema.synchronous) x := by
        rw [h.demand, hd]; rfl
      refine .notFirst hd' fun t ht => ?_
      obtain ⟨u, hu, rfl⟩ := List.mem_map.1 ht
      rw [Schema.kind_synchronous]
      exact ih u hu
  | @one kind v x s finish o hd _ ih =>
      have hd' : kind.synchronous.demand w' v = .one s.synchronous x finish := by
        rw [h.demand, hd]; rfl
      exact .one hd' (by rwa [Schema.kind_synchronous])

end

/-! ### Liveness -/

theorem Handlers.references_synchronous (h : Handlers) :
    h.synchronous.references = h.references := by
  simp only [Handlers.references, Handlers.synchronous]
  cases h.parser with
  | none => rfl
  | some p => cases p <;> rfl

theorem Effect.references_synchronous (effect : Effect) :
    effect.synchronous.references = effect.references := by
  cases effect with
  | transform h => exact h.references_synchronous
  | preprocess h => exact h.references_synchronous
  | _ => rfl

section

variable (follow : Reference → Marking)

mutual

/-- **The synchronous form holds the same nodes.** -/
theorem Schema.mark_synchronous : ∀ s : Schema, s.synchronous.mark follow = s.mark follow
  | .node id kind metadata origin => by
      funext marked
      simp only [Schema.synchronous, Schema.mark, kind.mark_synchronous,
        markOrigin_synchronous origin]

theorem markOrigin_synchronous : ∀ o : Option Schema,
    markOrigin follow (synchronousOrigin o) = markOrigin follow o
  | none => rfl
  | some s => by
      funext marked
      simp only [synchronousOrigin, markOrigin, s.mark_synchronous]

theorem Kind.mark_synchronous : ∀ kind : Kind, kind.synchronous.mark follow = kind.mark follow
  | .array s | .dict s | .option s | .null s | .nullable s | .jsonString s => by
      funext marked
      simp only [Kind.synchronous, Kind.mark, s.mark_synchronous]
  | .object fields own => by
      funext marked
      simp only [Kind.synchronous, Kind.mark, markFields_synchronous fields]
  | .tuple items => by
      funext marked
      simp only [Kind.synchronous, Kind.mark, markAll_synchronous items]
  | .union members => by
      funext marked
      simp only [Kind.synchronous, Kind.mark, markAll_synchronous members]
  | .custom name handlers => by
      funext marked
      simp only [Kind.synchronous, Kind.mark, handlers.references_synchronous]
  | .transformed base effect => by
      funext marked
      simp only [Kind.synchronous, Kind.mark, base.mark_synchronous,
        effect.references_synchronous]
  | .recursive _ | .never | .unknown | .unit | .string | .bool | .int | .float | .json
  | .literal _ => rfl

theorem markFields_synchronous : ∀ fields : List (String × Schema),
    markFields follow (synchronousFields fields) = markFields follow fields
  | [] => rfl
  | (_, s) :: rest => by
      funext marked
      simp only [synchronousFields, markFields, s.mark_synchronous,
        markFields_synchronous rest]

theorem markAll_synchronous : ∀ schemas : List Schema,
    markAll follow (synchronousAll schemas) = markAll follow schemas
  | [] => rfl
  | s :: rest => by
      funext marked
      simp only [synchronousAll, markAll, s.mark_synchronous, markAll_synchronous rest]

end

end

/-! ### Scenes -/

/-- A binding to the synchronous form. -/
def Binding.synchronous : Binding → Binding
  | .live s => .live s.synchronous
  | .unset => .unset
  | .gone => .gone

/-- The world of the synchronous forms, in which nothing has been used. -/
def World.synchronous (w : World) : World :=
  { World.initial with
    nextNode := w.nextNode
    nextReference := w.nextReference
    config := w.config
    bindings := fun r => (w.bindings r).synchronous }

/-- **The scene of the synchronous forms.** -/
def Scene.synchronous (σ : Scene) : Scene :=
  ⟨σ.world.synchronous, σ.nodes.map Schema.synchronous⟩

section

variable {w w' : World} {σ τ : Scene}

theorem World.twin_synchronous (w : World) : w.Twin w.synchronous where
  targets r := by
    simp only [World.target?, World.synchronous]
    cases w.bindings r <;> rfl
  config := rfl

/-- The form depends on what the world has built, and not on what has been used. -/
theorem World.synchronous_congr (hnode : w'.nextNode = w.nextNode)
    (hreference : w'.nextReference = w.nextReference) (hconfig : w'.config = w.config)
    (hbindings : w'.bindings = w.bindings) : w'.synchronous = w.synchronous := by
  simp only [World.synchronous, hnode, hreference, hconfig, hbindings]

theorem updateAt_synchronous (f : Reference → Binding) (r : Reference) (b : Binding) :
    (fun r' => (updateAt f r b r').synchronous) =
      updateAt (fun r' => (f r').synchronous) r b.synchronous := by
  funext r'
  simp only [updateAt]
  split <;> rfl

theorem updateAt_const {α : Type} (a : α) (n : Nat) : updateAt (fun _ => a) n a = fun _ => a := by
  funext m
  simp only [updateAt, ite_self]

/-- The same schemas are let go. -/
theorem World.release_synchronous (w : World) (roots : List Schema) :
    (w.release roots).synchronous = w.synchronous.release (roots.map Schema.synchronous) := by
  have hbound : ∀ fuel, w.synchronous.markBound fuel = w.markBound fuel := by
    intro fuel
    induction fuel with
    | zero => rfl
    | succ fuel ih =>
        funext r marked
        simp only [World.markBound, ih, w.twin_synchronous.targets]
        cases w.target? r with
        | none => rfl
        | some s => exact congrFun (s.mark_synchronous _) marked
  have hheld : w.synchronous.held (roots.map Schema.synchronous) = w.held roots := by
    rw [World.held, World.held, hbound, ← synchronousAll_eq_map, markAll_synchronous]
    rfl
  have hstale : w.synchronous.isStale (w.held roots) = w.isStale (w.held roots) := by
    funext r
    simp only [World.isStale, w.twin_synchronous.targets]
    cases w.target? r <;> simp
  have fold : ∀ (stale : List Reference) (f : Reference → Binding),
      (fun r => (stale.foldl (fun f r => updateAt f r .gone) f r).synchronous) =
        stale.foldl (fun f r => updateAt f r .gone) fun r => (f r).synchronous := by
    intro stale
    induction stale with
    | nil => exact fun f => rfl
    | cons r rest ih =>
        intro f
        rw [List.foldl_cons, ih, updateAt_synchronous]
        rfl
  have hrelease : w.synchronous.release (roots.map Schema.synchronous) =
      { w.synchronous with
        bindings := ((List.range w.nextReference).filter (w.isStale (w.held roots))).foldl
          (fun f r => updateAt f r .gone) w.synchronous.bindings } := by
    simp only [World.release, hheld, hstale]
    rfl
  rw [hrelease]
  simp only [World.release, World.synchronous, fold]

theorem Kind.Formed.synchronous {kind : Kind} (h : kind.Formed) : kind.synchronous.Formed := by
  cases kind with
  | object fields own =>
      simp only [Kind.synchronous, Kind.Formed, synchronousFields_eq_map, Entries.keys_map]
      exact h
  | union members =>
      simp only [Kind.synchronous, Kind.Formed, synchronousAll_eq_map, ne_eq, List.map_eq_nil_iff]
      exact h
  | transformed base effect =>
      cases effect with
      | variant external internal =>
          have hbase : base.kind = .literal external := h
          simp only [Kind.synchronous, Effect.synchronous, Kind.Formed, Schema.kind_synchronous,
            hbase]
      | _ => trivial
  | _ => trivial

theorem Schema.children_synchronous_subset {kind : Kind} {nodes : List Schema}
    (h : ∀ t ∈ kind.children, t ∈ nodes) :
    ∀ t ∈ kind.synchronous.children, t ∈ nodes.map Schema.synchronous := by
  intro t ht
  rw [Kind.children_synchronous] at ht
  obtain ⟨u, hu, rfl⟩ := List.mem_map.1 ht
  exact List.mem_map_of_mem (h u hu)

/-- A copy of a synchronous form is the synchronous form of the copy. -/
theorem Scene.Step.withMetadata_synchronous {s t : Schema} {update : Metadata → Metadata}
    (hs : s ∈ σ.nodes) (hrun : s.withMetadata update σ.world = .ok (t, w)) :
    Scene.Step .building σ.synchronous (Scene.synchronous ⟨w, t :: σ.nodes⟩) := by
  cases hrun
  have hcopy : s.synchronous.withMetadata update σ.synchronous.world =
      .ok ((Schema.node σ.world.nextNode s.kind (update s.metadata) (some s)).synchronous,
        ({ σ.world with nextNode := σ.world.nextNode + 1 } : World).synchronous) := by
    have hcells : s.synchronous.withMetadata update σ.synchronous.world =
        .ok ((Schema.node σ.world.nextNode s.kind (update s.metadata) (some s)).synchronous,
          { σ.synchronous.world with
            nextNode := σ.world.nextNode + 1
            parseCells := updateAt (fun _ => .empty) σ.world.nextNode .empty
            serializeCells := updateAt (fun _ => .empty) σ.world.nextNode .empty
            asyncCells := updateAt (fun _ => .empty) σ.world.nextNode .empty }) := by
      cases s
      rfl
    rw [hcells, updateAt_const, updateAt_const, updateAt_const]
    rfl
  exact .withMetadata .building (List.mem_map_of_mem hs) hcopy

/-- **Each step of building makes the same step with synchronous forms.** -/
theorem Scene.Step.synchronous (h : Scene.Step .building σ τ) :
    Scene.Step .building σ.synchronous τ.synchronous := by
  cases h with
  | @fresh _ kind s w hchildren hformed hrun =>
      cases hrun
      exact .fresh (Schema.children_synchronous_subset hchildren) hformed.synchronous rfl
  | @withPolicy _ s t fields own policy w hs hkind hrun =>
      have hkind' : s.synchronous.kind = .object (synchronousFields fields) own := by
        rw [Schema.kind_synchronous, hkind]
        rfl
      have hpolicy : s.synchronous.withPolicy policy σ.synchronous.world =
          .ok (t.synchronous, w.synchronous) := by
        simp only [Schema.withPolicy, hkind, hkind'] at hrun ⊢
        cases hrun
        cases s
        rfl
      exact .withPolicy (List.mem_map_of_mem hs) hkind' hpolicy
  | reference hrun =>
      cases hrun
      exact .reference rfl
  | @bind _ r s w hr hunset hs hrun =>
      have hunset' : σ.synchronous.world.bindings r = .unset :=
        congrArg Binding.synchronous hunset
      have hbind : bindReference r (.live s.synchronous) σ.synchronous.world =
          .ok ((), w.synchronous) := by
        cases hrun
        rw [bindReference, modify_apply]
        simp only [World.synchronous, updateAt_synchronous]
        rfl
      exact .bind hr hunset' (List.mem_map_of_mem hs) hbind
  | configure config => exact .configure config
  | @release _ roots =>
      rw [Scene.synchronous, Scene.synchronous, World.release_synchronous]
      exact .release _
  | withMetadata _ hs hrun => exact Scene.Step.withMetadata_synchronous hs hrun

/-- **A use of the graph fills cells, or makes a copy.** -/
theorem Scene.Step.uses (h : Scene.Step .using σ τ) (hs : σ.world.Sound σ.nodes) :
    (∃ w, σ.world.Later σ.nodes w ∧ τ = ⟨w, σ.nodes⟩) ∨
      ∃ s t update w, s ∈ σ.nodes ∧ Schema.withMetadata s update σ.world = .ok (t, w) ∧
        τ = ⟨w, t :: σ.nodes⟩ := by
  cases h with
  | withMetadata _ hm hrun => exact .inr ⟨_, _, _, _, hm, hrun, rfl⟩
  | isAsync hm hrun =>
      obtain ⟨w', hw', hrun'⟩ := Schema.isAsync_gives hs hm σ.world hs.later
      rw [hrun] at hrun'
      cases hrun'
      exact .inl ⟨_, hw', rfl⟩
  | parseOperation hm hrun =>
      obtain ⟨w', hw', hrun'⟩ := Schema.parseOperation_gives hs hm σ.world hs.later
      rw [hrun] at hrun'
      cases hrun'
      exact .inl ⟨_, hw', rfl⟩
  | serializeOperation hm hrun =>
      obtain ⟨w', hw', hrun'⟩ := Schema.serializeOperation_gives hs hm σ.world hs.later
      rw [hrun] at hrun'
      cases hrun'
      exact .inl ⟨_, hw', rfl⟩

/-- What using a graph leads to has synchronous forms that are built. -/
theorem Scene.Settled.built_synchronous (h : σ.Settled) :
    Relation.ReflTransGen (Scene.Step .building) Scene.initial σ.synchronous := by
  obtain ⟨σ₀, hbuild, -, huse⟩ := h
  have hstart : Relation.ReflTransGen (Scene.Step .building) Scene.initial σ₀.synchronous :=
    hbuild.lift Scene.synchronous fun _ _ hstep => hstep.synchronous
  have hsound : ∀ {ρ : Scene}, Relation.ReflTransGen (Scene.Step .using) σ₀ ρ →
      ρ.world.Sound ρ.nodes := fun hρ =>
    Scene.Reachable.sound ((Scene.Leads.of_step hbuild).trans (Scene.Leads.of_step hρ))
  induction huse with
  | refl => exact hstart
  | tail hlead hstep ih =>
      rcases hstep.uses (hsound hlead) with ⟨w, hw, rfl⟩ | ⟨s, t, update, w, hs, hrun, rfl⟩
      · have hsame := World.synchronous_congr hw.ahead.nextNode hw.ahead.nextReference
          hw.ahead.config hw.ahead.bindings
        rw [Scene.synchronous, hsame]
        exact ih
      · exact ih.tail (Scene.Step.withMetadata_synchronous hs hrun)

/-- Every reference of a synchronous form stands for a schema. -/
theorem Scene.Resolved.synchronous (h : σ.Resolved) : σ.synchronous.Resolved := by
  intro s hs r hr
  obtain ⟨t, ht, rfl⟩ := List.mem_map.1 hs
  obtain ⟨u, hu⟩ := h t ht r (t.kind_of_synchronous_recursive hr)
  exact ⟨u.synchronous, by rw [Scene.synchronous, σ.world.twin_synchronous.targets, hu]; rfl⟩

/-- **The synchronous form of a settled scene is settled.** -/
theorem Scene.Settled.synchronous (h : σ.Settled) : σ.synchronous.Settled :=
  ⟨σ.synchronous, h.built_synchronous, h.invariants.resolved.synchronous, .refl⟩

end

end Schemata
