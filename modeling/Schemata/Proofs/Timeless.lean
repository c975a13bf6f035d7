/-
**Schemas without the time that their functions take.**

An asynchronous function is asked a number of times before it does its work.  Leaving these numbers
out of a schema leaves everything else as it is: the nodes with their identities, metadata and
origins, what the functions do, and what they announce.  Two graphs are the same up to time when
nothing else tells them apart.  Such graphs correspond node by node, so their nodes come to the same
results.

Main definitions:

* `Schemata.Schema.timeless`, `Schemata.Kind.timeless` — the schema, its functions taking no time;
* `Schemata.Scene.SameUpToTime` — **graphs that differ in waiting times only**.

Main results:

* `Schemata.Kind.like_of_timeless` — kinds that differ in waiting times only are alike;
* `Schemata.Scene.SameUpToTime.sameResults` — **results do not depend on waiting times**.
-/

import Schemata.Proofs.Correspondence

set_option relaxedAutoImplicit false
set_option autoImplicit false

namespace Schemata

/-! ### Leaving waiting times out -/

/-- The parse function without its waiting time. -/
def Parser.timeless : Parser → Parser
  | .direct f => .direct f
  | .async f => .async { f with waits := 0 }

/-- The functions without their waiting times. -/
def Handlers.timeless (h : Handlers) : Handlers := { h with parser := h.parser.map Parser.timeless }

/-- The test without its waiting time. -/
def Check.timeless : Check → Check
  | .direct test => .direct test
  | .async test => .async { test with waits := 0 }

/-- The effect without the waiting time of its function. -/
def Effect.timeless : Effect → Effect
  | .transform h => .transform h.timeless
  | .preprocess h => .preprocess h.timeless
  | .refine message check => .refine message check.timeless
  | effect => effect

mutual

/-- **The schema, its functions taking no time.** -/
def Schema.timeless : Schema → Schema
  | .node id kind metadata origin => .node id kind.timeless metadata (originTimeless origin)

/-- What a copy keeps, its functions taking no time. -/
def originTimeless : Option Schema → Option Schema
  | none => none
  | some s => some s.timeless

/-- The kind, its functions taking no time. -/
def Kind.timeless : Kind → Kind
  | .array s => .array s.timeless
  | .dict s => .dict s.timeless
  | .object fields own => .object (fieldsTimeless fields) own
  | .tuple items => .tuple (allTimeless items)
  | .option s => .option s.timeless
  | .null s => .null s.timeless
  | .nullable s => .nullable s.timeless
  | .union members => .union (allTimeless members)
  | .jsonString s => .jsonString s.timeless
  | .custom name handlers => .custom name handlers.timeless
  | .transformed base effect => .transformed base.timeless effect.timeless
  | .never => .never
  | .unknown => .unknown
  | .unit => .unit
  | .string => .string
  | .bool => .bool
  | .int => .int
  | .float => .float
  | .json => .json
  | .literal l => .literal l
  | .recursive r => .recursive r

/-- Fields whose functions take no time. -/
def fieldsTimeless : List (String × Schema) → List (String × Schema)
  | [] => []
  | (name, s) :: rest => (name, s.timeless) :: fieldsTimeless rest

/-- Schemas whose functions take no time. -/
def allTimeless : List Schema → List Schema
  | [] => []
  | s :: rest => s.timeless :: allTimeless rest

end

/-- What a reference is bound to, its functions taking no time. -/
def Binding.timeless : Binding → Binding
  | .live s => .live s.timeless
  | b => b

@[simp] theorem Schema.timeless_id (s : Schema) : s.timeless.id = s.id := by
  cases s
  rfl

@[simp] theorem Schema.timeless_kind (s : Schema) : s.timeless.kind = s.kind.timeless := by
  cases s
  rfl

theorem fieldsTimeless_eq_map (fields : List (String × Schema)) :
    fieldsTimeless fields = fields.map fun f => (f.1, f.2.timeless) := by
  induction fields with
  | nil => rfl
  | cons f rest ih => rw [fieldsTimeless, ih, List.map_cons]

theorem allTimeless_eq_map (schemas : List Schema) :
    allTimeless schemas = schemas.map Schema.timeless := by
  induction schemas with
  | nil => rfl
  | cons s rest ih => rw [allTimeless, ih, List.map_cons]

/-! ### Kinds that differ in waiting times only -/

theorem Handlers.like_timeless (h : Handlers) : h.Like h.timeless := by
  obtain ⟨_ | (f | f), q⟩ := h
  · exact ⟨.none, rfl⟩
  · exact ⟨.direct f, rfl⟩
  · exact ⟨.async rfl rfl, rfl⟩

theorem Effect.like_timeless (e : Effect) : e.Like e.timeless := by
  cases e with
  | transform h => exact .transform h.like_timeless
  | preprocess h => exact .preprocess h.like_timeless
  | refine message check =>
      cases check with
      | direct test => exact .refine message test
      | async test => exact .refineAsync message rfl
  | recover fallback => exact .recover fallback
  | variant external internal => exact .variant external internal
  | getOr supply => exact .getOr supply

theorem Handlers.Like.trans {h h' h'' : Handlers} (hl : h.Like h') (hl' : h'.Like h'') :
    h.Like h'' := by
  refine ⟨?_, hl.serializer.trans hl'.serializer⟩
  have hp := hl.parser
  have hp' := hl'.parser
  generalize h.parser = p at hp
  generalize h'.parser = p' at hp hp'
  generalize h''.parser = p'' at hp'
  cases hp with
  | none => exact hp'
  | direct f => exact hp'
  | async hb ha =>
      cases hp' with
      | async hb' ha' => exact .async (hb.trans hb') (ha.trans ha')

theorem Effect.Like.trans {e e' e'' : Effect} (h : e.Like e') (h' : e'.Like e'') : e.Like e'' := by
  cases h with
  | transform hl =>
      cases h' with
      | transform hl' => exact .transform (hl.trans hl')
  | preprocess hl =>
      cases h' with
      | preprocess hl' => exact .preprocess (hl.trans hl')
  | refineAsync message ht =>
      cases h' with
      | refineAsync _ ht' => exact .refineAsync message (ht.trans ht')
  | refine | recover | variant | getOr => exact h'

/-- Kinds that are alike by two relations are alike by their composition. -/
theorem Kind.Like.trans {R S T : Schema → Schema → Prop} {kind kind' kind'' : Kind}
    (h : kind.Like R kind') (h' : kind'.Like S kind'') (hT : ∀ s t u, R s t → S t u → T s u) :
    kind.Like T kind'' := by
  cases h with
  | @leaf kind hl =>
      cases h' with
      | leaf => exact .leaf hl
      | _ => cases hl
  | custom name hl =>
      cases h' with
      | leaf hl' => cases hl'
      | custom _ hl' => exact .custom name (hl.trans hl')
  | array hs =>
      cases h' with
      | leaf hl' => cases hl'
      | array hs' => exact .array (hT _ _ _ hs hs')
  | dict hs =>
      cases h' with
      | leaf hl' => cases hl'
      | dict hs' => exact .dict (hT _ _ _ hs hs')
  | object own hs =>
      cases h' with
      | leaf hl' => cases hl'
      | object _ hs' =>
          exact .object own (forall₂_comp hs hs' fun _ _ _ hf hg =>
            ⟨hf.1.trans hg.1, hT _ _ _ hf.2 hg.2⟩)
  | tuple hs =>
      cases h' with
      | leaf hl' => cases hl'
      | tuple hs' => exact .tuple (forall₂_comp hs hs' hT)
  | option hs =>
      cases h' with
      | leaf hl' => cases hl'
      | option hs' => exact .option (hT _ _ _ hs hs')
  | null hs =>
      cases h' with
      | leaf hl' => cases hl'
      | null hs' => exact .null (hT _ _ _ hs hs')
  | nullable hs =>
      cases h' with
      | leaf hl' => cases hl'
      | nullable hs' => exact .nullable (hT _ _ _ hs hs')
  | union hs =>
      cases h' with
      | leaf hl' => cases hl'
      | union hs' => exact .union (forall₂_comp hs hs' hT)
  | jsonString hs =>
      cases h' with
      | leaf hl' => cases hl'
      | jsonString hs' => exact .jsonString (hT _ _ _ hs hs')
  | transformed hs he =>
      cases h' with
      | leaf hl' => cases hl'
      | transformed hs' he' => exact .transformed (hT _ _ _ hs hs') (he.trans he')

/-- A kind differs from what is left without waiting times in these only. -/
theorem Kind.like_timeless (kind : Kind) :
    kind.Like (fun s t => t = s.timeless) kind.timeless := by
  have each : ∀ schemas : List Schema,
      List.Forall₂ (fun s t => t = s.timeless) schemas (allTimeless schemas) := fun schemas => by
    rw [allTimeless_eq_map]
    exact List.forall₂_map_right_iff.2 (List.forall₂_same.2 fun _ _ => rfl)
  cases kind with
  | custom name handlers => exact .custom name handlers.like_timeless
  | array s => exact .array rfl
  | dict s => exact .dict rfl
  | object fields own =>
      refine .object own ?_
      rw [fieldsTimeless_eq_map]
      exact List.forall₂_map_right_iff.2 (List.forall₂_same.2 fun _ _ => ⟨rfl, rfl⟩)
  | tuple items => exact .tuple (each items)
  | option s => exact .option rfl
  | null s => exact .null rfl
  | nullable s => exact .nullable rfl
  | union members => exact .union (each members)
  | jsonString s => exact .jsonString rfl
  | transformed base effect => exact .transformed rfl effect.like_timeless
  | _ => exact .leaf trivial

/-- **Kinds that differ in waiting times only are alike.** -/
theorem Kind.like_of_timeless {kind kind' : Kind} (h : kind.timeless = kind'.timeless) :
    kind.Like (fun s t => s.timeless = t.timeless) kind' := by
  have hk := kind.like_timeless
  rw [h] at hk
  exact hk.trans kind'.like_timeless.symm fun s t u hs hu => hs.symm.trans hu

theorem Schema.kind_like_of_timeless {s t : Schema} (h : s.timeless = t.timeless) :
    s.kind.Like (fun s t => s.timeless = t.timeless) t.kind :=
  Kind.like_of_timeless (by rw [← s.timeless_kind, ← t.timeless_kind, h])

theorem Schema.id_of_timeless {s t : Schema} (h : s.timeless = t.timeless) : s.id = t.id := by
  rw [← s.timeless_id, ← t.timeless_id, h]

namespace Scene

/-! ### Graphs that differ in waiting times only -/

/-- **Graphs that differ in waiting times only.** -/
structure SameUpToTime (σ τ : Scene) : Prop where
  nodes : σ.nodes.map Schema.timeless = τ.nodes.map Schema.timeless
  bindings : ∀ r, (σ.world.bindings r).timeless = (τ.world.bindings r).timeless
  config : σ.world.config = τ.world.config

variable {σ τ : Scene} {s t : Schema}

theorem ids_of_timeless {l k : List Schema}
    (h : List.Forall₂ (fun s t => s.timeless = t.timeless) l k) :
    l.map Schema.id = k.map Schema.id := by
  induction h with
  | nil => rfl
  | cons hx _ ih => rw [List.map_cons, List.map_cons, ih, Schema.id_of_timeless hx]

/-- A reference stands for the same schema up to time. -/
theorem SameUpToTime.target (h : SameUpToTime σ τ) (r : Reference) :
    Option.Rel (fun s t => s.timeless = t.timeless) (σ.world.target? r) (τ.world.target? r) := by
  have hb := h.bindings r
  rw [World.target?, World.target?]
  generalize σ.world.bindings r = b at hb
  generalize τ.world.bindings r = b' at hb
  cases b with
  | live s =>
      cases b' with
      | live t => exact .some (by simpa [Binding.timeless] using hb)
      | _ => cases hb
  | _ =>
      cases b' with
      | live t => cases hb
      | _ => exact .none

/-- The nodes of two graphs that are the same up to time. -/
def Simultaneous (σ τ : Scene) (s t : Schema) : Prop :=
  s ∈ σ.nodes ∧ t ∈ τ.nodes ∧ s.timeless = t.timeless

/-- Unions have the members that are the union itself at the same places. -/
theorem SameUpToTime.refersBack (h : SameUpToTime σ τ) (hst : s.timeless = t.timeless)
    (ids : List NodeId) : refersBack σ.world ids s = refersBack τ.world ids t := by
  have hk := Schema.kind_like_of_timeless hst
  rw [Schemata.refersBack, Schemata.refersBack]
  by_cases hrec : ∃ r, s.kind = .recursive r
  · obtain ⟨r, hr⟩ := hrec
    rw [hr] at hk
    rw [hr, hk.recursive]
    dsimp only
    have hrel := h.target r
    generalize σ.world.target? r = target at hrel
    generalize τ.world.target? r = target' at hrel
    cases hrel with
    | none => rfl
    | @some u u' huu =>
        have hku := Schema.kind_like_of_timeless huu
        dsimp only
        -- the test compares the identities of the members, and these are not touched
        generalize u.kind = kind at hku
        generalize u'.kind = kind' at hku
        cases hku with
        | union hm =>
            dsimp only
            rw [ids_of_timeless hm]
        | _ => rfl
  · have hrec' : ¬∃ r, t.kind = .recursive r := by
      rintro ⟨r, hr⟩
      have hk' := hk.symm
      rw [hr] at hk'
      exact hrec ⟨r, hk'.recursive⟩
    split
    · rename_i r hr
      exact absurd ⟨r, hr⟩ hrec
    · split
      · rename_i r hr
        exact absurd ⟨r, hr⟩ hrec'
      · rfl

/-- **Graphs that differ in waiting times only correspond node by node.** -/
theorem SameUpToTime.corresponds (h : SameUpToTime σ τ) (hσ : σ.world.Hosts σ.nodes)
    (hτ : τ.world.Hosts τ.nodes) : Corresponds σ τ (Simultaneous σ τ) where
  left s t hst := hst.1
  right s t hst := hst.2.1
  kinds s t hst := (Schema.kind_like_of_timeless hst.2.2).within
    (fun x hx => (hσ.below s hst.1 x hx).1) fun y hy => (hτ.below t hst.2.1 y hy).1
  targets _ _ _ r _ := optionRel_within (h.target r) (hσ.targets r) (hτ.targets r)
  bound _ _ _ r _ := by
    have hb := h.bindings r
    rw [World.isSet, World.isSet]
    generalize σ.world.bindings r = b at hb
    generalize τ.world.bindings r = b' at hb
    cases b <;> cases b' <;> first | rfl | cases hb
  config := h.config
  tests s t hst members members' hkind hkind' := by
    have hk := Schema.kind_like_of_timeless hst.2.2
    rw [hkind, hkind'] at hk
    cases hk with
    | leaf hl => cases hl
    | union hm =>
        rw [ids_of_timeless hm]
        exact hm.imp fun x y hxy => h.refersBack hxy _

/-- **Results do not depend on waiting times.** -/
theorem SameUpToTime.sameResults (h : SameUpToTime σ τ) (hσ : σ.Called) (hτ : τ.Called)
    (hs : s ∈ σ.nodes) (ht : t ∈ τ.nodes) (hst : s.timeless = t.timeless) :
    SameResults σ s τ t :=
  (h.corresponds hσ.current.sound.hosts hτ.current.sound.hosts).sameResults hσ.current hτ.current
    ⟨hs, ht, hst⟩

end Scene

end Schemata
