/-
**Kinds that are alike.**

Two kinds are alike when they differ in their children only, which are related, and in how long
their functions take.  Such kinds have the same names and show the same tags, however deep the
difference lies.

Main definitions:

* `Schemata.Handlers.Like`, `Schemata.Effect.Like` — functions up to the time that they take;
* `Schemata.Kind.Like` — **kinds that differ in their children and in waiting times only**;
* `Schemata.World.Depends` — what running a node may lead to next.

Main results:

* `Schemata.Schema.structuralName_like`, `Schemata.Kind.expectedName_like` — names;
* `Schemata.Schema.tag?_like`, `Schemata.tags_like` — tags.
-/

import Schemata.Proofs.StagedSimulation

set_option relaxedAutoImplicit false
set_option autoImplicit false

namespace Schemata

/-! ### Functions, up to the time that they take -/

/-- Parse functions that differ in how long they take. -/
inductive Parser.Like : Option Parser → Option Parser → Prop
  | none : Parser.Like none none
  | direct (f : Action) : Parser.Like (some (.direct f)) (some (.direct f))
  | async {f f' : AsyncAction} : f.body = f'.body → f.announce = f'.announce →
      Parser.Like (some (.async f)) (some (.async f'))

/-- Functions that differ in how long they take. -/
structure Handlers.Like (h h' : Handlers) : Prop where
  parser : Parser.Like h.parser h'.parser
  serializer : h.serializer = h'.serializer

/-- Effects that differ in how long they take. -/
inductive Effect.Like : Effect → Effect → Prop
  | transform {h h' : Handlers} : h.Like h' → Effect.Like (.transform h) (.transform h')
  | preprocess {h h' : Handlers} : h.Like h' → Effect.Like (.preprocess h) (.preprocess h')
  | refine (message : String) (test : Test) :
      Effect.Like (.refine message (.direct test)) (.refine message (.direct test))
  | refineAsync (message : String) {test test' : AsyncTest} : test.test = test'.test →
      Effect.Like (.refine message (.async test)) (.refine message (.async test'))
  | recover (fallback : Fallback) : Effect.Like (.recover fallback) (.recover fallback)
  | variant (external internal : Literal) :
      Effect.Like (.variant external internal) (.variant external internal)
  | getOr (supply : Supply) : Effect.Like (.getOr supply) (.getOr supply)

theorem Parser.Like.refl (p : Option Parser) : Parser.Like p p := by
  rcases p with _ | (f | f)
  · exact .none
  · exact .direct f
  · exact .async rfl rfl

theorem Handlers.Like.refl (h : Handlers) : h.Like h := ⟨.refl _, rfl⟩

theorem Effect.Like.refl (e : Effect) : e.Like e := by
  cases e with
  | transform h => exact .transform (.refl h)
  | preprocess h => exact .preprocess (.refl h)
  | refine message check =>
      cases check with
      | direct test => exact .refine message test
      | async test => exact .refineAsync message rfl
  | recover fallback => exact .recover fallback
  | variant external internal => exact .variant external internal
  | getOr supply => exact .getOr supply

theorem Handlers.Like.symm {h h' : Handlers} (hl : h.Like h') : h'.Like h := by
  refine ⟨?_, hl.serializer.symm⟩
  have hp := hl.parser
  generalize h.parser = p at hp
  generalize h'.parser = p' at hp
  cases hp with
  | none => exact .none
  | direct f => exact .direct f
  | async hb ha => exact .async hb.symm ha.symm

theorem Effect.Like.symm {e e' : Effect} (h : e.Like e') : e'.Like e := by
  cases h with
  | transform h => exact .transform h.symm
  | preprocess h => exact .preprocess h.symm
  | refine message test => exact .refine message test
  | refineAsync message h => exact .refineAsync message h.symm
  | recover fallback => exact .recover fallback
  | variant external internal => exact .variant external internal
  | getOr supply => exact .getOr supply

theorem Handlers.Like.references {h h' : Handlers} (hl : h.Like h') :
    h.references = h'.references := by
  obtain ⟨p, q⟩ := h
  obtain ⟨p', q'⟩ := h'
  obtain ⟨hp, hq⟩ := hl
  dsimp only at hp hq
  subst hq
  cases hp with
  | none => rfl
  | direct f => rfl
  | async hb ha => simp only [Handlers.references, hb]

theorem Effect.Like.references {e e' : Effect} (h : e.Like e') : e.references = e'.references := by
  cases h with
  | transform h => exact h.references
  | preprocess h => exact h.references
  | _ => rfl

/-! ### Kinds -/

/-- Kinds without children and without functions. -/
def Kind.Leaf : Kind → Prop
  | .never | .unknown | .unit | .string | .bool | .int | .float | .json | .literal _
  | .recursive _ => True
  | _ => False

/-- **Kinds that differ in their children and in waiting times only.** -/
inductive Kind.Like (R : Schema → Schema → Prop) : Kind → Kind → Prop
  | leaf {kind : Kind} : kind.Leaf → Like R kind kind
  | custom (name : String) {h h' : Handlers} : h.Like h' → Like R (.custom name h) (.custom name h')
  | array {s s' : Schema} : R s s' → Like R (.array s) (.array s')
  | dict {s s' : Schema} : R s s' → Like R (.dict s) (.dict s')
  | object {fields fields' : List (String × Schema)} (own : Option UnknownKeys) :
      List.Forall₂ (fun f g => f.1 = g.1 ∧ R f.2 g.2) fields fields' →
      Like R (.object fields own) (.object fields' own)
  | tuple {items items' : List Schema} : List.Forall₂ R items items' →
      Like R (.tuple items) (.tuple items')
  | option {s s' : Schema} : R s s' → Like R (.option s) (.option s')
  | null {s s' : Schema} : R s s' → Like R (.null s) (.null s')
  | nullable {s s' : Schema} : R s s' → Like R (.nullable s) (.nullable s')
  | union {members members' : List Schema} : List.Forall₂ R members members' →
      Like R (.union members) (.union members')
  | jsonString {s s' : Schema} : R s s' → Like R (.jsonString s) (.jsonString s')
  | transformed {s s' : Schema} {e e' : Effect} : R s s' → e.Like e' →
      Like R (.transformed s e) (.transformed s' e')

/-- The references that a kind stands for or that its functions use. -/
def Kind.references : Kind → List Reference
  | .recursive r => [r]
  | kind => kind.captured

/-- A node below, or the schema that a reference stands for which the node itself or one of its
functions uses. -/
def World.Depends (w : World) (s t : Schema) : Prop :=
  t ∈ s.children ∨ ∃ r ∈ s.kind.references, w.target? r = some t

section

variable {R : Schema → Schema → Prop} {kind kind' : Kind}

theorem Kind.Like.symm (h : kind.Like R kind') : kind'.Like (fun s t => R t s) kind := by
  cases h with
  | leaf h => exact .leaf h
  | custom name h => exact .custom name h.symm
  | array h => exact .array h
  | dict h => exact .dict h
  | object own h => exact .object own ((h.imp fun _ _ hf => ⟨hf.1.symm, hf.2⟩).flip)
  | tuple h => exact .tuple h.flip
  | option h => exact .option h
  | null h => exact .null h
  | nullable h => exact .nullable h
  | union h => exact .union h.flip
  | jsonString h => exact .jsonString h
  | transformed h he => exact .transformed h he.symm

/-- A kind is like itself, if its children are. -/
theorem Kind.Like.refl (h : ∀ t ∈ kind.children, R t t) : kind.Like R kind := by
  cases kind with
  | custom name handlers => exact .custom name (.refl handlers)
  | array s => exact .array (h s (List.mem_singleton_self s))
  | dict s => exact .dict (h s (List.mem_singleton_self s))
  | object fields own =>
      exact .object own (List.forall₂_same.2 fun f hf => ⟨rfl, h f.2 (List.mem_map_of_mem hf)⟩)
  | tuple items => exact .tuple (List.forall₂_same.2 h)
  | option s => exact .option (h s (List.mem_singleton_self s))
  | null s => exact .null (h s (List.mem_singleton_self s))
  | nullable s => exact .nullable (h s (List.mem_singleton_self s))
  | union members => exact .union (List.forall₂_same.2 h)
  | jsonString s => exact .jsonString (h s (List.mem_singleton_self s))
  | transformed base effect =>
      exact .transformed (h base (List.mem_singleton_self base)) (.refl effect)
  | _ => exact .leaf trivial

theorem forall₂_imp_mem {α β : Type} {Q S : α → β → Prop} {l : List α} {k : List β}
    (h : List.Forall₂ Q l k) (hS : ∀ a ∈ l, ∀ b, Q a b → S a b) : List.Forall₂ S l k := by
  induction h with
  | nil => exact .nil
  | @cons a b _ _ hab _ ih =>
      exact .cons (hS a (List.mem_cons_self ..) b hab)
        (ih fun x hx => hS x (List.mem_cons_of_mem _ hx))

/-- Kinds that are alike by one relation are so by another one that holds for their children. -/
theorem Kind.Like.imp {S : Schema → Schema → Prop} (h : kind.Like R kind')
    (hS : ∀ t ∈ kind.children, ∀ t', R t t' → S t t') : kind.Like S kind' := by
  cases h with
  | leaf h => exact .leaf h
  | custom name h => exact .custom name h
  | array h => exact .array (hS _ (List.mem_singleton_self _) _ h)
  | dict h => exact .dict (hS _ (List.mem_singleton_self _) _ h)
  | object own h =>
      exact .object own (forall₂_imp_mem h fun f hf g hfg =>
        ⟨hfg.1, hS f.2 (List.mem_map_of_mem hf) g.2 hfg.2⟩)
  | tuple h => exact .tuple (forall₂_imp_mem h hS)
  | option h => exact .option (hS _ (List.mem_singleton_self _) _ h)
  | null h => exact .null (hS _ (List.mem_singleton_self _) _ h)
  | nullable h => exact .nullable (hS _ (List.mem_singleton_self _) _ h)
  | union h => exact .union (forall₂_imp_mem h hS)
  | jsonString h => exact .jsonString (hS _ (List.mem_singleton_self _) _ h)
  | transformed h he => exact .transformed (hS _ (List.mem_singleton_self _) _ h) he

theorem Kind.Like.references (h : kind.Like R kind') : kind.references = kind'.references := by
  cases h with
  | custom name h => exact h.references
  | transformed _ he => exact he.references
  | _ => rfl

/-- A reference is like a reference to the same place only. -/
theorem Kind.Like.recursive {r : Reference} (h : Kind.Like R (.recursive r) kind') :
    kind' = .recursive r := by
  cases h
  rfl

/-- An object is like an object with its policy only. -/
theorem Kind.Like.object_inv {fields : List (String × Schema)} {own : Option UnknownKeys}
    (h : Kind.Like R (.object fields own) kind') : ∃ fields', kind' = .object fields' own ∧
      List.Forall₂ (fun f g => f.1 = g.1 ∧ R f.2 g.2) fields fields' := by
  cases h with
  | object own hfields => exact ⟨_, rfl, hfields⟩
  | leaf h => cases h

/-! ### Names and tags -/

theorem Schema.structuralName_kind (s : Schema) : s.structuralName = s.kind.structuralName := by
  cases s
  rfl

theorem Schema.tag?_kind (side : Side) (s : Schema) : s.tag? side = s.kind.tag? side := by
  cases s
  rfl

mutual

/-- **Nodes that are alike have the same name.** -/
theorem Schema.structuralName_like (hR : ∀ s s', R s s' → s.kind.Like R s'.kind) :
    ∀ s s' : Schema, R s s' →
    s.structuralName = s'.structuralName
  | .node _ kind _ _, s', h => by
      rw [Schema.structuralName_kind s']
      exact Kind.structuralName_like hR kind s'.kind (hR _ _ h)

theorem Kind.structuralName_like (hR : ∀ s s', R s s' → s.kind.Like R s'.kind) :
    ∀ kind kind' : Kind, kind.Like R kind' →
    kind.structuralName = kind'.structuralName
  | .array s, _, h => by
      cases h with
      | leaf h => cases h
      | array h => simp only [Kind.structuralName, Schema.structuralName_like hR s _ h]
  | .dict s, _, h => by
      cases h with
      | leaf h => cases h
      | dict h => simp only [Kind.structuralName, Schema.structuralName_like hR s _ h]
  | .object fields _, _, h => by
      cases h with
      | leaf h => cases h
      | object _ h => simp only [Kind.structuralName, fieldNames_like hR fields _ h]
  | .tuple items, _, h => by
      cases h with
      | leaf h => cases h
      | tuple h => simp only [Kind.structuralName, schemaNames_like hR items _ h]
  | .option s, _, h => by
      cases h with
      | leaf h => cases h
      | option h => simp only [Kind.structuralName, Schema.structuralName_like hR s _ h]
  | .null s, _, h => by
      cases h with
      | leaf h => cases h
      | null h => simp only [Kind.structuralName, Schema.structuralName_like hR s _ h]
  | .nullable s, _, h => by
      cases h with
      | leaf h => cases h
      | nullable h => simp only [Kind.structuralName, Schema.structuralName_like hR s _ h]
  | .union members, _, h => by
      cases h with
      | leaf h => cases h
      | union h => simp only [Kind.structuralName, schemaNames_like hR members _ h]
  | .jsonString s, _, h => by
      cases h with
      | leaf h => cases h
      | jsonString h => simp only [Kind.structuralName, Schema.structuralName_like hR s _ h]
  | .transformed s _, _, h => by
      cases h with
      | leaf h => cases h
      | transformed h _ => simp only [Kind.structuralName, Schema.structuralName_like hR s _ h]
  | .custom _ _, _, h => by
      cases h with
      | leaf h => cases h
      | custom name _ => rfl
  | .never, _, h | .unknown, _, h | .unit, _, h | .string, _, h | .bool, _, h | .int, _, h
  | .float, _, h | .json, _, h | .literal _, _, h | .recursive _, _, h => by
      cases h
      rfl

theorem fieldNames_like (hR : ∀ s s', R s s' → s.kind.Like R s'.kind) :
    ∀ fields fields' : List (String × Schema),
    List.Forall₂ (fun f g => f.1 = g.1 ∧ R f.2 g.2) fields fields' →
      fieldNames fields = fieldNames fields'
  | [], _, h => by
      cases h
      rfl
  | (name, s) :: rest, _, h => by
      cases h with
      | @cons _ g _ _ hf hrest =>
          obtain ⟨name', s'⟩ := g
          obtain ⟨rfl, hs⟩ := hf
          rw [fieldNames, fieldNames, Schema.structuralName_like hR s s' hs,
            fieldNames_like hR rest _ hrest]

theorem schemaNames_like (hR : ∀ s s', R s s' → s.kind.Like R s'.kind) :
    ∀ schemas schemas' : List Schema, List.Forall₂ R schemas schemas' →
    schemaNames schemas = schemaNames schemas'
  | [], _, h => by
      cases h
      rfl
  | s :: rest, _, h => by
      cases h with
      | cons hs hrest =>
          rw [schemaNames, schemaNames, Schema.structuralName_like hR s _ hs,
            schemaNames_like hR rest _ hrest]

end

section

variable (hR : ∀ s s', R s s' → s.kind.Like R s'.kind)

include hR

theorem Kind.expectedName_like (h : kind.Like R kind') : kind.expectedName = kind'.expectedName := by
  rw [Kind.expectedName, Kind.expectedName, Kind.structuralName_like hR kind kind' h]

omit hR in
theorem Kind.literalTag?_like (side : Side) (h : kind.Like R kind') :
    kind.literalTag? side = kind'.literalTag? side := by
  cases h with
  | transformed _ he => cases he <;> rfl
  | _ => rfl

theorem fieldTag?_like (side : Side) {fields fields' : List (String × Schema)}
    (h : List.Forall₂ (fun f g => f.1 = g.1 ∧ R f.2 g.2) fields fields') :
    fieldTag? side fields = fieldTag? side fields' := by
  induction h with
  | nil => rfl
  | @cons f g _ _ hf _ ih =>
      obtain ⟨name, s⟩ := f
      obtain ⟨name', s'⟩ := g
      obtain ⟨rfl, hs⟩ := hf
      rw [fieldTag?, fieldTag?, Kind.literalTag?_like side (hR s s' hs), ih]

mutual

/-- **Nodes that are alike show the same tag.** -/
theorem Schema.tag?_like (side : Side) : ∀ s s' : Schema, R s s' → s.tag? side = s'.tag? side
  | .node _ kind _ _, s', h => by
      rw [Schema.tag?_kind side s']
      exact Kind.tag?_like side kind s'.kind (hR _ _ h)

theorem Kind.tag?_like (side : Side) : ∀ kind kind' : Kind, kind.Like R kind' →
    kind.tag? side = kind'.tag? side
  | .transformed s effect, _, h => by
      cases h with
      | leaf h => cases h
      | transformed h he =>
          -- a literal tag comes first, and the tag of the schema below after it
          simp only [Kind.tag?, Kind.literalTag?_like (R := R) side (.transformed h he)]
          split
          · rfl
          · rw [Schema.tag?_like side s _ h]
            cases he <;> rfl
  | .object fields _, _, h => by
      cases h with
      | leaf h => cases h
      | object _ h => exact fieldTag?_like hR side h
  | .array _, _, h | .dict _, _, h | .tuple _, _, h | .option _, _, h | .null _, _, h
  | .nullable _, _, h | .union _, _, h | .jsonString _, _, h | .custom _ _, _, h
  | .never, _, h | .unknown, _, h | .unit, _, h | .string, _, h | .bool, _, h | .int, _, h
  | .float, _, h | .json, _, h | .literal _, _, h | .recursive _, _, h => by
      cases h <;> rfl

end

theorem tags_like (side : Side) {members members' : List Schema}
    (h : List.Forall₂ R members members') :
    members.map (Schema.tag? side) = members'.map (Schema.tag? side) := by
  induction h with
  | nil => rfl
  | cons hs _ ih => rw [List.map_cons, List.map_cons, Schema.tag?_like hR side _ _ hs, ih]

omit hR in
theorem omittedFields_congr {fields fields' : List (String × Schema)}
    (h : List.Forall₂ (fun f g => f.1 = g.1 ∧ isOmittable f.2 = isOmittable g.2) fields fields') :
    omittedFields fields = omittedFields fields' := by
  induction h with
  | nil => rfl
  | @cons f g _ _ hf _ ih =>
      simp only [omittedFields, List.filter_cons, hf.2] at ih ⊢
      split
      · rw [List.map_cons, List.map_cons, hf.1, ih]
      · exact ih

theorem isOmittable_like {s s' : Schema} (h : R s s') : isOmittable s = isOmittable s' := by
  have hk := hR s s' h
  rw [isOmittable, isOmittable]
  generalize s.kind = kind at hk
  generalize s'.kind = kind' at hk
  cases hk <;> rfl

theorem omittedFields_like {fields fields' : List (String × Schema)}
    (h : List.Forall₂ (fun f g => f.1 = g.1 ∧ R f.2 g.2) fields fields') :
    omittedFields fields = omittedFields fields' :=
  omittedFields_congr (h.imp fun _ _ hf => ⟨hf.1, isOmittable_like hR hf.2⟩)

end

end

end Schemata
