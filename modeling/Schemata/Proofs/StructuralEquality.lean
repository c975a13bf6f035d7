/-
**Structural equality is equality of behaviour.**

Structural equality compares what can be seen of schemas: kinds, the schemas below, names of fields,
policies and literals.  Everything that the compilers decide is determined by this, as long as
nothing hides behind what is compared: neither functions nor references, and no literals but
primitive ones.  Such schemas come to alike results on every value, in both directions, when their
objects are compiled under the same configuration.

What structural equality does not see is the sign of a zero, since equal literals need not be the
same.  No result depends on it but for the literals that errors show as expected.

Main definitions:

* `Schemata.Schema.Transparent` — no functions, no references, and no literals but primitive ones;
* `Schemata.World.CompilesUnder` — the configuration under which the objects are compiled;
* `Schemata.Kind.EqualBy` — kinds that are equal but for their children, which are related;
* `Schemata.Scene.BehaveAlike` — **alike results, names and shortcuts**.

Main results:

* `Schemata.Scene.Arises.answer_transparent` — what is transparent does not wait;
* `Schemata.World.Hosts.equalBy` — what structural equality says of two nodes;
* `Schemata.Kind.EqualBy.directParser`, `Schemata.Kind.EqualBy.serializer` — operations of kinds
  that are equal;
* `Schemata.Scene.Arises.structurally_equal_behave_alike` — **structural equality**.
-/

import Schemata.Proofs.AlikeResults
import Schemata.Proofs.ObjectFields
import Schemata.Schema.Equality

set_option relaxedAutoImplicit false
set_option autoImplicit false

namespace Schemata

/-! ### Schemas behind which nothing hides -/

/-- The kind has no functions, is no reference, and has no literals but primitive ones. -/
def Kind.Transparent : Kind → Prop
  | .custom _ _ | .recursive _ => False
  | .literal l => l.isPrimitive = true
  | .transformed _ (.variant external internal) =>
      external.isPrimitive = true ∧ internal.isPrimitive = true
  | .transformed _ _ => False
  | _ => True

/-- **No functions, no references, and no literals but primitive ones**, in the schema and below. -/
def Schema.Transparent (s : Schema) : Prop := ∀ t, s.Contains t → t.kind.Transparent

/-- **The objects of a schema that leave their policy open are compiled under a configuration**: the
operation that stands in the cell of the node, or that is going to, has its policy. -/
def World.CompilesUnder (w : World) (config : Config) (s : Schema) : Prop :=
  ∀ o, s.Contains o → o.kind.IsOpen → (w.planned o).policy? = some config.unknownKeys

section

variable {w : World} {nodes : List Schema} {s t : Schema} {config : Config}

theorem Schema.Transparent.kind (h : s.Transparent) : s.kind.Transparent := h s .refl

theorem Schema.Transparent.below (h : s.Transparent) (ht : t ∈ s.children) : t.Transparent :=
  fun u hu => h u (.head ht hu)

theorem World.CompilesUnder.below (h : w.CompilesUnder config s) (ht : t ∈ s.children) :
    w.CompilesUnder config t := fun o ho => h o (.head ht ho)

theorem Kind.Transparent.not_isAsync {kind : Kind} (h : kind.Transparent) :
    kind.isAsync = false := by
  cases kind with
  | custom => cases h
  | transformed base effect =>
      cases effect with
      | variant => rfl
      | _ => cases h
  | _ => rfl

/-- Nodes of the same kind are transparent together. -/
theorem Schema.Transparent.of_kind (h : s.Transparent) (hkind : t.kind = s.kind) :
    t.Transparent := by
  intro u hu
  rcases hu.cases_head with rfl | ⟨x, hx, hxu⟩
  · exact hkind ▸ h.kind
  · rw [Schema.children, hkind] at hx
    exact h u (.head hx hxu)

/-- An open object takes its policy from the configuration under which it is compiled. -/
theorem World.CompilesUnder.unknownKeys (h : w.CompilesUnder config s) (hopen : s.kind.IsOpen)
    {w₁ : World} {id : NodeId} {waits : Bool} {below : Schema → ParseOperation}
    (hplan : w.planned s = s.kind.parser w₁ id waits below) :
    w₁.config.unknownKeys = config.unknownKeys := by
  have hpolicy := h s .refl hopen
  rw [hplan] at hpolicy
  generalize s.kind = kind at hopen hpolicy
  cases kind with
  | object fields own =>
      cases own with
      | some policy => cases hopen
      | none => cases waits <;> exact Option.some.inj hpolicy
  | _ => cases hopen

/-- What a node contains are nodes. -/
theorem World.Hosts.contains (h : w.Hosts nodes) (hs : s ∈ nodes) (hst : s.Contains t) :
    t ∈ nodes := by
  induction hst with
  | refl => exact hs
  | tail _ hxt ih => exact (h.below _ ih _ hxt).1

/-- What has not been compiled yet is compiled under the configuration of now. -/
theorem World.Sound.compilesUnder_of_empty (h : w.Sound nodes)
    (hshape : w.Shaped World.Before nodes) (hs : s ∈ nodes)
    (hempty : ∀ o, s.Contains o → w.parseCells o.id = .empty) : w.CompilesUnder w.config s := by
  intro o ho hopen
  obtain ⟨w₁, id, -, hnow, hplan⟩ := h.planned_eq_parser hshape (h.hosts.contains hs ho)
  obtain rfl := hnow (hempty o ho)
  rw [hplan]
  generalize o.kind = kind at hopen
  generalize (w₁.planned o).isAsync = waits
  cases kind with
  | object fields own =>
      cases own with
      | some policy => cases hopen
      | none => cases waits <;> rfl
  | _ => cases hopen

end

/-! ### What is transparent does not wait -/

/-- Of no transparent node it is known that it waits. -/
def World.SparesTransparent (w : World) (nodes : List Schema) : Prop :=
  ∀ s ∈ nodes, s.Transparent → w.knownAsync? s.id ≠ some true

section

variable {w : World} {nodes : List Schema} {s : Schema}

theorem World.SparesTransparent.answer (h : w.SparesTransparent nodes) (hosts : w.Hosts nodes)
    (hs : s ∈ nodes) (ht : s.Transparent) : w.answer s = false := by
  rw [Bool.eq_false_iff, ne_eq, World.answer_iff hosts hs]
  intro hhits
  induction hhits with
  | known hk => exact h _ hs ht hk
  | own _ ha => simp [ht.kind.not_isAsync] at ha
  | step _ hleads _ ih =>
      rcases World.leads_cases hleads with hchild | ⟨r, hr, -⟩
      · exact ih (hosts.below _ hs _ hchild).1 (ht.below hchild)
      · have hkind := ht.kind
        rw [hr] at hkind
        cases hkind

end

namespace Scene

variable {phase : Phase} {σ τ : Scene} {s : Schema}

/-- **No step makes a transparent node wait.** -/
theorem Change.spares (h : Change phase σ τ) (hs : σ.world.Sound σ.nodes)
    (hspares : σ.world.SparesTransparent σ.nodes) : τ.world.SparesTransparent τ.nodes := by
  cases h with
  | later hl =>
      -- what is new is as planned
      intro s hm ht hk
      have hanswer := hspares.answer hs.hosts hm ht
      rcases World.knownAsync_cases hk with ha | ⟨c, hc, hwaits⟩
      · rw [← hl.ahead.async.planned s hm _ ha] at hanswer
        cases hanswer
      · rw [hl.ahead.parse.planned s hm c hc, hs.planned_isAsync hm, hanswer] at hwaits
        cases hwaits
  | @node _ _ kind metadata origin parse serialize async _ _ hi =>
      intro s hm ht hk
      rcases List.mem_cons.1 hm with rfl | hm
      · -- what is known of a copy is known of a node of the same kind
        rcases World.knownAsync_cases hk with ha | ⟨c, hc, hwaits⟩
        · obtain ⟨t, htm, hkind, ha⟩ := hi.async _ ((updateAt_same ..).symm.trans ha)
          exact hspares t htm (ht.of_kind hkind) (World.knownAsync_of_async ha)
        · obtain ⟨t, htm, hkind, hc⟩ := hi.parse _ ((updateAt_same ..).symm.trans hc)
          exact hspares t htm (ht.of_kind hkind) (hwaits ▸ hs.knownAsync_of_parse htm hc)
      · have hother : s.id ≠ σ.world.nextNode := Nat.ne_of_lt (hs.hosts.known s hm)
        refine hspares s hm ht ?_
        simpa only [World.knownAsync?, World.withNode, updateAt_other hother] using hk
  | settings _ hp _ ha _ _ =>
      intro s hm ht hk
      exact hspares s hm ht (by rwa [World.knownAsync?, hp, ha] at hk)

theorem Arises.spares (h : σ.Arises) : σ.world.SparesTransparent σ.nodes := by
  induction h with
  | refl => exact fun s hm => by cases hm
  | tail hbefore hnext ih =>
      have hsound := (Arises.invariants hbefore).1
      rcases hnext with ⟨phase, hstep⟩ | hcall
      · exact (hstep.change hsound).spares hsound ih
      · exact (hcall.change hsound).spares hsound ih

/-- **What is transparent does not wait**, whatever has been asked and compiled before. -/
theorem Arises.answer_transparent (h : σ.Arises) (hs : s ∈ σ.nodes) (ht : s.Transparent) :
    σ.world.answer s = false := h.spares.answer h.invariants.1.hosts hs ht

end Scene

/-! ### Kinds that are equal -/

/-- **Kinds that are equal but for their children**, which are related, and for the signs of zeros
in their literals. -/
inductive Kind.EqualBy (R : Schema → Schema → Prop) : Kind → Kind → Prop
  | leaf {kind : Kind} : kind.Leaf → kind.Transparent → EqualBy R kind kind
  | literal {l l' : Literal} : l.Alike l' → EqualBy R (.literal l) (.literal l')
  | array {s s' : Schema} : R s s' → EqualBy R (.array s) (.array s')
  | dict {s s' : Schema} : R s s' → EqualBy R (.dict s) (.dict s')
  | object {fields fields' : List (String × Schema)} (own : Option UnknownKeys) :
      List.Forall₂ (fun f g => f.1 = g.1 ∧ R f.2 g.2) fields fields' →
      EqualBy R (.object fields own) (.object fields' own)
  | tuple {items items' : List Schema} : List.Forall₂ R items items' →
      EqualBy R (.tuple items) (.tuple items')
  | option {s s' : Schema} : R s s' → EqualBy R (.option s) (.option s')
  | null {s s' : Schema} : R s s' → EqualBy R (.null s) (.null s')
  | nullable {s s' : Schema} : R s s' → EqualBy R (.nullable s) (.nullable s')
  | union {members members' : List Schema} : List.Forall₂ R members members' →
      EqualBy R (.union members) (.union members')
  | jsonString {s s' : Schema} : R s s' → EqualBy R (.jsonString s) (.jsonString s')
  | variant {s s' : Schema} {external external' internal internal' : Literal} : R s s' →
      external.Alike external' → internal.Alike internal' →
      EqualBy R (.transformed s (.variant external internal))
        (.transformed s' (.variant external' internal'))

section

variable {α β : Type} {Q S : α → β → Prop} {l : List α} {k : List β}

/-- Lists side by side, with what is known of the members of both. -/
theorem forall₂_imp_both (h : List.Forall₂ Q l k) (hS : ∀ a ∈ l, ∀ b ∈ k, Q a b → S a b) :
    List.Forall₂ S l k := by
  have hright : List.Forall₂ (fun b a => b ∈ k ∧ Q a b) k l :=
    forall₂_imp_mem h.flip fun b hb _ hab => ⟨hb, hab⟩
  exact forall₂_imp_mem hright.flip fun a ha b hab => hS a ha b hab.1 hab.2

end

section

variable {w : World} {nodes : List Schema} {R S : Schema → Schema → Prop} {kind kind' : Kind}
  {s t : Schema}

namespace Kind.EqualBy

/-- A transparent kind is equal to itself, if its children are. -/
theorem refl (hkind : kind.Transparent) (h : ∀ t ∈ kind.children, R t t) : kind.EqualBy R kind := by
  cases kind with
  | custom => cases hkind
  | recursive => cases hkind
  | array s => exact .array (h s (List.mem_singleton_self s))
  | dict s => exact .dict (h s (List.mem_singleton_self s))
  | object fields own =>
      exact .object own (List.forall₂_same.2 fun f hf => ⟨rfl, h f.2 (List.mem_map_of_mem hf)⟩)
  | tuple items => exact .tuple (List.forall₂_same.2 h)
  | option s => exact .option (h s (List.mem_singleton_self s))
  | null s => exact .null (h s (List.mem_singleton_self s))
  | nullable s => exact .nullable (h s (List.mem_singleton_self s))
  | union members => exact .union (List.forall₂_same.2 h)
  | jsonString s => exact .jsonString (h s (List.mem_singleton_self s))
  | transformed base effect =>
      cases effect with
      | variant => exact .variant (h base (List.mem_singleton_self base)) (.refl _) (.refl _)
      | _ => cases hkind
  | _ => exact .leaf trivial hkind

/-- Kinds that are equal by one relation are so by another one that holds for their children. -/
theorem imp (h : kind.EqualBy R kind')
    (hS : ∀ s ∈ kind.children, ∀ t ∈ kind'.children, R s t → S s t) : kind.EqualBy S kind' := by
  cases h with
  | leaf h ht => exact .leaf h ht
  | literal h => exact .literal h
  | array h => exact .array (hS _ (List.mem_singleton_self _) _ (List.mem_singleton_self _) h)
  | dict h => exact .dict (hS _ (List.mem_singleton_self _) _ (List.mem_singleton_self _) h)
  | object own h =>
      exact .object own (forall₂_imp_both h fun f hf g hg hfg =>
        ⟨hfg.1, hS f.2 (List.mem_map_of_mem hf) g.2 (List.mem_map_of_mem hg) hfg.2⟩)
  | tuple h => exact .tuple (forall₂_imp_both h hS)
  | option h => exact .option (hS _ (List.mem_singleton_self _) _ (List.mem_singleton_self _) h)
  | null h => exact .null (hS _ (List.mem_singleton_self _) _ (List.mem_singleton_self _) h)
  | nullable h =>
      exact .nullable (hS _ (List.mem_singleton_self _) _ (List.mem_singleton_self _) h)
  | union h => exact .union (forall₂_imp_both h hS)
  | jsonString h =>
      exact .jsonString (hS _ (List.mem_singleton_self _) _ (List.mem_singleton_self _) h)
  | variant h hx hi =>
      exact .variant (hS _ (List.mem_singleton_self _) _ (List.mem_singleton_self _) h) hx hi

/-- Objects that are equal leave their policy open together. -/
theorem isOpen (h : kind.EqualBy R kind') (hopen : kind.IsOpen) : kind'.IsOpen := by
  cases h with
  | leaf => exact hopen
  | object own => cases own <;> exact hopen
  | _ => cases hopen

end Kind.EqualBy

/-! ### What structural equality says -/

theorem forall₂_of_equalFields : ∀ {fields fields' : List (String × Schema)},
    equalFields fields fields' = true →
      List.Forall₂ (fun f g => f.1 = g.1 ∧ f.2.structurallyEqual g.2 = true) fields fields'
  | [], [], _ => .nil
  | [], _ :: _, h | _ :: _, [], h => by simp [equalFields] at h
  | (a, s) :: rest, (b, t) :: rest', h => by
      simp only [equalFields, Bool.and_eq_true, beq_iff_eq] at h
      exact .cons h.1 (forall₂_of_equalFields h.2)

theorem forall₂_of_equalSchemas : ∀ {schemas schemas' : List Schema},
    equalSchemas schemas schemas' = true →
      List.Forall₂ (fun s t => s.structurallyEqual t = true) schemas schemas'
  | [], [], _ => .nil
  | [], _ :: _, h | _ :: _, [], h => by simp [equalSchemas] at h
  | s :: rest, t :: rest', h => by
      simp only [equalSchemas, Bool.and_eq_true] at h
      exact .cons h.1 (forall₂_of_equalSchemas h.2)

/-- **What the comparison of kinds looks at.** -/
theorem Kind.equalBy_of_structurallyEqual (hkind : kind.Transparent)
    (h : kind.structurallyEqual kind' = true) :
    kind.EqualBy (fun s t => s.structurallyEqual t = true) kind' := by
  fun_cases Kind.structurallyEqual kind kind' with
  | case1 | case2 | case3 | case4 | case5 | case6 | case7 | case8 => exact .leaf trivial trivial
  | case9 => cases hkind
  | case10 l l' =>
      rw [Kind.structurallyEqual] at h
      exact .literal (Literal.alike_of_equal hkind h)
  | case11 s t =>
      rw [Kind.structurallyEqual] at h
      exact .array h
  | case12 s t =>
      rw [Kind.structurallyEqual] at h
      exact .dict h
  | case13 s t =>
      rw [Kind.structurallyEqual] at h
      exact .option h
  | case14 s t =>
      rw [Kind.structurallyEqual] at h
      exact .null h
  | case15 s t =>
      rw [Kind.structurallyEqual] at h
      exact .nullable h
  | case16 s t =>
      rw [Kind.structurallyEqual] at h
      exact .jsonString h
  | case17 fields own fields' own' =>
      simp only [Kind.structurallyEqual, Bool.and_eq_true, beq_iff_eq] at h
      obtain ⟨rfl, h⟩ := h
      exact .object own (forall₂_of_equalFields h)
  | case18 items items' =>
      rw [Kind.structurallyEqual] at h
      exact .tuple (forall₂_of_equalSchemas h)
  | case19 members members' =>
      rw [Kind.structurallyEqual] at h
      exact .union (forall₂_of_equalSchemas h)
  | case20 => cases hkind
  | case21 s e t f =>
      simp only [Kind.structurallyEqual, Bool.and_eq_true] at h
      obtain ⟨heffect, h⟩ := h
      cases e with
      | variant external internal =>
          cases f with
          | variant external' internal' =>
              simp only [Effect.alike, Bool.and_eq_true] at heffect
              exact .variant h (Literal.alike_of_equal hkind.1 heffect.1)
                (Literal.alike_of_equal hkind.2 heffect.2)
          | _ => exact absurd heffect (by simp [Effect.alike, Effect.label])
      | _ => cases hkind
  -- kinds with different constructors
  | case22 => simp_all [Kind.structurallyEqual]

theorem Schema.structurallyEqual_self (s : Schema) : s.structurallyEqual s = true := by
  cases s
  simp [Schema.structurallyEqual]

theorem Schema.structurallyEqual_cases (h : s.structurallyEqual t = true) :
    s.id = t.id ∨ s.kind.structurallyEqual t.kind = true := by
  cases s
  cases t
  simp only [Schema.structurallyEqual, Bool.or_eq_true, beq_iff_eq, Bool.and_eq_true] at h
  exact h.imp_right And.right

/-- **What structural equality says of two nodes**, the same node included. -/
theorem World.Hosts.equalBy (h : w.Hosts nodes) (hs : s ∈ nodes) (ht : t ∈ nodes)
    (hkind : s.kind.Transparent) (heq : s.structurallyEqual t = true) :
    s.kind.EqualBy (fun s t => s.structurallyEqual t = true) t.kind := by
  rcases Schema.structurallyEqual_cases heq with hid | hequal
  · obtain rfl := h.identity s hs t ht hid
    exact .refl hkind fun u _ => u.structurallyEqual_self
  · exact Kind.equalBy_of_structurallyEqual hkind hequal

end

/-! ### Names and tags -/

theorem optionRel_refl {α : Type} {Q : α → α → Prop} (h : ∀ a, Q a a) (o : Option α) :
    Option.Rel Q o o := by
  cases o with
  | none => exact .none
  | some a => exact .some (h a)

/-- **What can be read off two nodes**: the same names, tags that are alike, and whether they may be
left out.  Neither of them is a reference. -/
structure Schema.ShownAlike (s t : Schema) : Prop where
  name : s.structuralName = t.structuralName
  literalTag : ∀ side,
    Option.Rel Literal.Alike (s.kind.literalTag? side) (t.kind.literalTag? side)
  tag : ∀ side, Option.Rel Tag.Alike (s.tag? side) (t.tag? side)
  omittable : isOmittable s = isOmittable t
  left : ∀ r, s.kind ≠ .recursive r
  right : ∀ r, t.kind ≠ .recursive r

section

variable {R : Schema → Schema → Prop} {kind kind' : Kind} {s t : Schema}
  {fields fields' : List (String × Schema)} {schemas schemas' : List Schema}

theorem fieldNames_congr
    (h : List.Forall₂ (fun f g => f.1 = g.1 ∧ f.2.structuralName = g.2.structuralName) fields
      fields') : fieldNames fields = fieldNames fields' := by
  induction h with
  | nil => rfl
  | @cons f g _ _ hf _ ih =>
      obtain ⟨name, s⟩ := f
      obtain ⟨name', t⟩ := g
      obtain ⟨rfl, hst⟩ := hf
      rw [fieldNames, fieldNames, hst, ih]

theorem schemaNames_congr
    (h : List.Forall₂ (fun s t => s.structuralName = t.structuralName) schemas schemas') :
    schemaNames schemas = schemaNames schemas' := by
  induction h with
  | nil => rfl
  | cons hst _ ih => rw [schemaNames, schemaNames, hst, ih]

theorem primitiveOnly_alike {l l' : Literal} (h : l.Alike l') :
    Option.Rel Literal.Alike (primitiveOnly l) (primitiveOnly l') := by
  cases h with
  | refl => exact optionRel_refl .refl _
  | zero a b => exact .some (.zero a b)

/-- The first field with a literal is the same. -/
theorem fieldTag?_alike (side : Side)
    (h : List.Forall₂ (fun f g => f.1 = g.1 ∧
      Option.Rel Literal.Alike (f.2.kind.literalTag? side) (g.2.kind.literalTag? side)) fields
      fields') :
    Option.Rel Tag.Alike (fieldTag? side fields) (fieldTag? side fields') := by
  induction h with
  | nil => exact .none
  | @cons f g _ _ hf _ ih =>
      obtain ⟨name, s⟩ := f
      obtain ⟨name', t⟩ := g
      obtain ⟨rfl, htag⟩ := hf
      simp only [fieldTag?]
      generalize s.kind.literalTag? side = o at htag
      generalize t.kind.literalTag? side = o' at htag
      cases htag with
      | none => exact ih
      | some hl => exact .some ⟨rfl, hl⟩

namespace Kind.EqualBy

theorem structuralName (h : kind.EqualBy R kind')
    (hR : ∀ s t, R s t → s.structuralName = t.structuralName) :
    kind.structuralName = kind'.structuralName := by
  cases h with
  | leaf => rfl
  | literal h => exact h.text
  | object own h =>
      rw [Kind.structuralName, Kind.structuralName,
        fieldNames_congr (h.imp fun _ _ hfg => ⟨hfg.1, hR _ _ hfg.2⟩)]
  | tuple h | union h =>
      rw [Kind.structuralName, Kind.structuralName, schemaNames_congr (h.imp hR)]
  | array h | dict h | option h | null h | nullable h | jsonString h | variant h =>
      rw [Kind.structuralName, Kind.structuralName, hR _ _ h]

theorem literalTag? (h : kind.EqualBy R kind') (side : Side) :
    Option.Rel Literal.Alike (kind.literalTag? side) (kind'.literalTag? side) := by
  cases h with
  | leaf => exact optionRel_refl .refl _
  | literal h => exact primitiveOnly_alike h
  | variant _ hx hi =>
      cases side with
      | input => exact primitiveOnly_alike hx
      | output => exact primitiveOnly_alike hi
  | _ => exact .none

theorem tag? (h : kind.EqualBy R kind') (side : Side)
    (hR : ∀ s t, R s t →
      Option.Rel Literal.Alike (s.kind.literalTag? side) (t.kind.literalTag? side)) :
    Option.Rel Tag.Alike (kind.tag? side) (kind'.tag? side) := by
  have htag := h.literalTag? side
  cases h with
  | leaf => exact optionRel_refl (fun t => ⟨rfl, .refl _⟩) _
  | literal h =>
      simp only [Kind.literalTag?] at htag
      rw [Kind.tag?, Kind.tag?]
      generalize primitiveOnly _ = o at htag
      generalize primitiveOnly _ = o' at htag
      cases htag with
      | none => exact .none
      | some hl => exact .some ⟨rfl, hl⟩
  | object own h =>
      exact fieldTag?_alike side (h.imp fun _ _ hfg => ⟨hfg.1, hR _ _ hfg.2⟩)
  | variant h hx hi =>
      rw [Kind.tag?, Kind.tag?]
      generalize Kind.literalTag? side _ = o at htag
      generalize Kind.literalTag? side _ = o' at htag
      cases htag with
      | none => exact .none
      | some hl => exact .some ⟨rfl, hl⟩
  | _ => exact .none

/-- A kind that is equal to another one is no reference. -/
theorem not_recursive (h : kind.EqualBy R kind') (r : Reference) : kind ≠ .recursive r := by
  rintro rfl
  cases h with
  | leaf _ ht => cases ht

theorem not_recursive_right (h : kind.EqualBy R kind') (r : Reference) : kind' ≠ .recursive r := by
  rintro rfl
  cases h with
  | leaf _ ht => cases ht

theorem isOmittable (h : s.kind.EqualBy R t.kind) :
    Schemata.isOmittable s = Schemata.isOmittable t := by
  rw [Schemata.isOmittable, Schemata.isOmittable]
  generalize s.kind = kind at h
  generalize t.kind = kind' at h
  cases h <;> rfl

/-- **What can be read off nodes that are equal**, if it can be read off their children. -/
theorem shownAlike (h : s.kind.EqualBy Schema.ShownAlike t.kind) : s.ShownAlike t where
  name := by
    rw [Schema.structuralName_kind, Schema.structuralName_kind t]
    exact h.structuralName fun _ _ hst => hst.name
  literalTag := h.literalTag?
  tag side := by
    rw [Schema.tag?_kind, Schema.tag?_kind side t]
    exact h.tag? side fun _ _ hst => hst.literalTag side
  omittable := h.isOmittable
  left := h.not_recursive
  right := h.not_recursive_right

end Kind.EqualBy

end

/-! ### Operations -/

theorem refersBack_of_not_recursive {w : World} {ids : List NodeId} {s : Schema}
    (h : ∀ r, s.kind ≠ .recursive r) : refersBack w ids s = false := by
  rw [Bool.eq_false_iff]
  intro hback
  obtain ⟨r, -, -, hr, -⟩ := refersBack_eq_true hback
  exact h r hr

section

variable {W : World → Prop} {m : Machine} {w w' : World} {id id' : NodeId}
  {R : Schema → Schema → Prop} {kind kind' : Kind}

/-- **Kinds that are equal parse alike**, if their children do and objects have the same policy. -/
theorem Kind.EqualBy.directParser {below below' : Schema → ParseOperation}
    (h : kind.EqualBy R kind') (hR : ∀ s t, R s t → s.ShownAlike t)
    (hops : ∀ s t, R s t → OperationsAlike W m (below s).atOnce (below' t).atOnce)
    (hpolicy : kind.IsOpen → w.config.unknownKeys = w'.config.unknownKeys) :
    OperationsAlike W m (kind.directParser w id below) (kind'.directParser w' id' below') := by
  have hexpected : kind.expectedName = kind'.expectedName := by
    rw [Kind.expectedName, Kind.expectedName, h.structuralName fun _ _ hst => (hR _ _ hst).name]
  cases h with
  | @leaf kind hleaf ht =>
      cases kind with
      | unknown | json => exact .noop_self
      | literal l => exact .literal (.refl l) .parsing
      | never | unit | string | bool | int | float => exact .scalar _ .parsing _
      | recursive => cases ht
      | _ => cases hleaf
  | literal h => exact .literal h .parsing
  | array h =>
      simp only [Kind.directParser, hexpected]
      exact .array (hops _ _ h) .parsing _
  | dict h =>
      simp only [Kind.directParser, hexpected]
      exact .dict (hops _ _ h) .parsing _
  | object own h =>
      have hown : policyOf w own = policyOf w' own := by
        cases own with
        | none => exact hpolicy trivial
        | some policy => rfl
      simp only [Kind.directParser, hexpected, hown]
      exact .parseObject (forall₂_map h fun _ _ hfg => ⟨hfg.1, hops _ _ hfg.2⟩) _ _
  | tuple h =>
      simp only [Kind.directParser, hexpected]
      exact .tuple (forall₂_map h hops) .parsing _
  | option h | null h | nullable h => exact .unlessNoop (hops _ _ h) (.unlessNull (hops _ _ h))
  | union h =>
      refine .parseUnion (forall₂_map h fun s t hst => ?_)
        (forall₂_map h fun s t hst => (hR s t hst).tag .input)
      rw [memberParser, memberParser, refersBack_of_not_recursive (hR s t hst).left,
        refersBack_of_not_recursive (hR s t hst).right]
      exact hops s t hst
  | jsonString h =>
      simp only [Kind.directParser, hexpected]
      exact .decodeText (hops _ _ h) _
  | variant h _ hi =>
      simp only [Kind.directParser, Effect.parseAround, hi.toValue]
      exact .thenConstant (hops _ _ h) _

/-- **Kinds that are equal serialize alike**, if their children do. -/
theorem Kind.EqualBy.serializer {below below' : Schema → Compiled Operation}
    (h : kind.EqualBy R kind') (hR : ∀ s t, R s t → s.ShownAlike t)
    (hops : ∀ s t, R s t → OperationsAlike W m (below s).operation (below' t).operation) :
    OperationsAlike W m (kind.serializer w id below).operation
      (kind'.serializer w' id' below').operation := by
  have hexpected : kind.expectedName = kind'.expectedName := by
    rw [Kind.expectedName, Kind.expectedName, h.structuralName fun _ _ hst => (hR _ _ hst).name]
  cases h with
  | @leaf kind hleaf ht =>
      cases kind with
      | unknown | json | unit | string | bool | int | float => exact .noop_self
      | literal l => exact .literal (.refl l) .serializing
      | never => exact .scalar _ .serializing _
      | recursive => cases ht
      | _ => cases hleaf
  | literal h => exact .literal h .serializing
  | array h =>
      simp only [Kind.serializer, hexpected]
      exact .unlessNoop (hops _ _ h) (.array (hops _ _ h) .serializing _)
  | dict h =>
      simp only [Kind.serializer, hexpected]
      exact .unlessNoop (hops _ _ h) (.dict (hops _ _ h) .serializing _)
  | object own h =>
      have homitted := omittedFields_congr
        (h.imp fun _ _ hfg => ⟨hfg.1, (hR _ _ hfg.2).omittable⟩)
      simp only [Kind.serializer, hexpected, homitted]
      exact .objectSerializer (forall₂_map h fun _ _ hfg => ⟨hfg.1, hops _ _ hfg.2⟩) _ _
  | tuple h =>
      have hitems := forall₂_map h hops
      simp only [Kind.serializer, hexpected]
      exact .unlessAllNoop hitems (.tuple hitems .serializing _)
  | option h | null h | nullable h => exact .unlessNoop (hops _ _ h) (.unlessNull (hops _ _ h))
  | union h =>
      refine .serializeUnion (forall₂_map h fun s t hst => ?_)
        (forall₂_map h fun s t hst => (hR s t hst).tag .output)
      rw [memberSerializer, memberSerializer, refersBack_of_not_recursive (hR s t hst).left,
        refersBack_of_not_recursive (hR s t hst).right]
      exact hops s t hst
  | jsonString h => exact .encodeText (hops _ _ h)
  | variant h hx hi =>
      simp only [Kind.serializer, Effect.serializeAround, hx.toValue]
      exact .exchange (hops _ _ h) hi _

end

/-! ### Nodes -/

/-- Where nothing waits, an operation does nothing if it does when it is run at once. -/
theorem ParseOperation.isNoop_atOnce {op : ParseOperation}
    (h : op.isAsync = false) : op.isNoop = op.atOnce.isNoop := by
  cases op with
  | direct op => rfl
  | _ => cases h

/-- **Nodes that show the same and have alike operations.** -/
structure World.NodesAlike (w : World) (W : World → Prop) (m : Machine) (s t : Schema) : Prop where
  shown : s.ShownAlike t
  parse : OperationsAlike W m (w.planned s).atOnce (w.planned t).atOnce
  serialize : OperationsAlike W m (w.serializePlan s).operation (w.serializePlan t).operation

/-- **Nodes that are structurally equal are alike**, one level after the other. -/
theorem Scene.Arises.nodesAlike {σ : Scene} (h : σ.Arises) (W : World → Prop) (m : Machine)
    (config : Config) : ∀ s ∈ σ.nodes, ∀ t ∈ σ.nodes, s.Transparent → t.Transparent →
      σ.world.CompilesUnder config s → σ.world.CompilesUnder config t →
      s.structurallyEqual t = true → σ.world.NodesAlike W m s t := by
  obtain ⟨hsound, hshape⟩ := h.invariants
  suffices hall : ∀ s ∈ σ.nodes, s ∈ σ.nodes → ∀ t ∈ σ.nodes, s.Transparent → t.Transparent →
      σ.world.CompilesUnder config s → σ.world.CompilesUnder config t →
      s.structurallyEqual t = true → σ.world.NodesAlike W m s t from
    fun s hs => hall s hs hs
  refine hsound.hosts.induction fun s _ ih hs t ht hsees htees hsc htc heq => ?_
  have hequal : s.kind.EqualBy (σ.world.NodesAlike W m) t.kind :=
    (hsound.hosts.equalBy hs ht hsees.kind heq).imp fun x hx y hy hxy =>
      ih x hx (hsound.hosts.below s hs x hx).1 y (hsound.hosts.below t ht y hy).1
        (hsees.below hx) (htees.below hy) (hsc.below hx) (htc.below hy) hxy
  have hshown : ∀ x y, σ.world.NodesAlike W m x y → x.ShownAlike y := fun _ _ hxy => hxy.shown
  refine
    { shown := (hequal.imp fun x _ y _ hxy => hxy.shown).shownAlike
      parse := ?_
      serialize := ?_ }
  · obtain ⟨w₁, id, -, -, hplan⟩ := hsound.planned_eq_parser hshape hs
    obtain ⟨w₁', id', -, -, hplan'⟩ := hsound.planned_eq_parser hshape ht
    rw [hsound.planned_isAsync hs, h.answer_transparent hs hsees] at hplan
    rw [hsound.planned_isAsync ht, h.answer_transparent ht htees] at hplan'
    have hpolicy : s.kind.IsOpen → w₁.config.unknownKeys = w₁'.config.unknownKeys := fun hopen =>
      (hsc.unknownKeys hopen hplan).trans (htc.unknownKeys (hequal.isOpen hopen) hplan').symm
    rw [hplan, hplan']
    exact hequal.directParser hshown (fun _ _ hxy => hxy.parse) hpolicy
  · obtain ⟨w₁, o, -, -, -, hplan⟩ := hsound.serializePlan_shape hshape (.refl _) hs
    obtain ⟨w₁', o', -, -, -, hplan'⟩ := hsound.serializePlan_shape hshape (.refl _) ht
    rw [hplan, hplan']
    exact hequal.serializer hshown fun _ _ hxy => hxy.serialize

namespace Scene

variable {σ : Scene} {a b : Schema} {config : Config}

/-! ### Structural equality -/

/-- **Two schemas behave alike.**  On every value both come to an end, with alike results: the same
value, or errors that are equal and say the same, and differ at most in the sign of a zero that was
expected.  They have the same name, and their operations do nothing together. -/
structure BehaveAlike (σ : Scene) (a b : Schema) : Prop where
  parse : ∀ fuel v, ∃ r r' w w', a.parse fuel v σ.world = .ok (r, w) ∧
    b.parse fuel v σ.world = .ok (r', w') ∧ SameOr Error.Alike r r'
  serialize : ∀ fuel v, ∃ r r' w w', a.serialize fuel v σ.world = .ok (r, w) ∧
    b.serialize fuel v σ.world = .ok (r', w') ∧ SameOr Error.Alike r r'
  name : a.structuralName = b.structuralName
  parseNoop : ∃ c c' w w', a.parseOperation σ.world = .ok (c, w) ∧
    b.parseOperation σ.world = .ok (c', w') ∧ c.operation.isNoop = c'.operation.isNoop
  serializeNoop : ∃ c c' w w', a.serializeOperation σ.world = .ok (c, w) ∧
    b.serializeOperation σ.world = .ok (c', w') ∧ c.operation.isNoop = c'.operation.isNoop

/-- **Structural equality is equality of behaviour.**  Take two schemas in any scene without
functions, references and literals other than primitive ones, whose objects are compiled under the
same configuration.  If they are structurally equal, they behave alike. -/
theorem Arises.structurally_equal_behave_alike (hσ : σ.Arises) (ha : a ∈ σ.nodes)
    (hb : b ∈ σ.nodes) (hasees : a.Transparent) (hbsees : b.Transparent)
    (hac : σ.world.CompilesUnder config a) (hbc : σ.world.CompilesUnder config b)
    (heq : a.structurallyEqual b = true) : σ.BehaveAlike a b := by
  obtain ⟨hsound, -⟩ := hσ.invariants
  have hcompiles := hsound.compiles fun _ ht => ht
  have halike : ∀ fuel, σ.world.NodesAlike (σ.world.Later σ.nodes) (machine fuel) a b := fun fuel =>
    hσ.nodesAlike _ (machine fuel) config a ha b hb hasees hbsees hac hbc heq
  refine
    { parse := fun fuel v => ?_
      serialize := fun fuel v => ?_
      name := (halike 0).shown.name
      parseNoop := ?_
      serializeNoop := ?_ }
  · obtain ⟨r, r', hr, hr', hrr⟩ := (halike fuel).parse.run v
    obtain ⟨w, -, hrun⟩ := Schema.parseOn_gives hcompiles ha hr _ hsound.later
    obtain ⟨w', -, hrun'⟩ := Schema.parseOn_gives hcompiles hb hr' _ hsound.later
    exact ⟨r, r', w, w', hrun, hrun', hrr⟩
  · obtain ⟨r, r', hr, hr', hrr⟩ := (halike fuel).serialize.run v
    obtain ⟨w, -, hrun⟩ := Schema.serializeOn_gives hcompiles ha hr _ hsound.later
    obtain ⟨w', -, hrun'⟩ := Schema.serializeOn_gives hcompiles hb hr' _ hsound.later
    exact ⟨r, r', w, w', hrun, hrun', hrr⟩
  · obtain ⟨w, hrun, -⟩ := Schema.parseOperation_done hsound ha hsound.later
    obtain ⟨w', hrun', -⟩ := Schema.parseOperation_done hsound hb hsound.later
    refine ⟨_, _, w, w', hrun, hrun', ?_⟩
    have hdirect : ∀ s ∈ σ.nodes, s.Transparent →
        (σ.world.planned s).isNoop = (σ.world.planned s).atOnce.isNoop := fun s hs hsees =>
      ParseOperation.isNoop_atOnce
        ((hsound.planned_isAsync hs).trans (hσ.answer_transparent hs hsees))
    exact (hdirect a ha hasees).trans ((halike 0).parse.noop.trans (hdirect b hb hbsees).symm)
  · obtain ⟨w, hrun, -⟩ := Schema.serializeOperation_done hsound ha hsound.later
    obtain ⟨w', hrun', -⟩ := Schema.serializeOperation_done hsound hb hsound.later
    exact ⟨_, _, w, w', hrun, hrun', (halike 0).serialize.noop⟩

/-! ### The two zeros -/

/-- Zero. -/
def plusZero : Schema := .node 0 (.literal (.number (.finite false 0))) Metadata.empty none

/-- Zero, with the other sign. -/
def minusZero : Schema := .node 1 (.literal (.number (.finite true 0))) Metadata.empty none

/-- An object that counts to zero. -/
def plusCount : Schema := .node 2 (.object [("count", plusZero)] none) Metadata.empty none

/-- An object that counts to the other zero. -/
def minusCount : Schema := .node 3 (.object [("count", minusZero)] none) Metadata.empty none

/-- The scene of both. -/
def zeros : Scene := ⟨made 4 0, [minusCount, plusCount, minusZero, plusZero]⟩

theorem zeros_arises : zeros.Arises := by
  have h₁ : Step .building initial ⟨made 1 0, [plusZero]⟩ :=
    .made (fun t ht => by cases ht) trivial
  have h₂ : Step .building ⟨made 1 0, [plusZero]⟩ ⟨made 2 0, [minusZero, plusZero]⟩ :=
    .made (fun t ht => by cases ht) trivial
  have h₃ : Step .building ⟨made 2 0, [minusZero, plusZero]⟩
      ⟨made 3 0, [plusCount, minusZero, plusZero]⟩ :=
    .made (fun t ht => by simp_all [Kind.children]) (by simp [Kind.Formed, Entries.keys])
  have h₄ : Step .building ⟨made 3 0, [plusCount, minusZero, plusZero]⟩ zeros :=
    .made (fun t ht => by simp_all [Kind.children]) (by simp [Kind.Formed, Entries.keys])
  exact .tail (.tail (.tail (.single (.inl ⟨_, h₁⟩)) (.inl ⟨_, h₂⟩)) (.inl ⟨_, h₃⟩))
    (.inl ⟨_, h₄⟩)

/-- The objects behave alike; only their errors tell them apart, by the sign of the zero. -/
theorem structurally_equal_behave_alike_zeros :
    zeros.Arises ∧ plusCount.structurallyEqual minusCount = true ∧
      zeros.BehaveAlike plusCount minusCount ∧
      ∃ e e' w w', plusCount.parse 1 (.object []) zeros.world = .ok (.error e, w) ∧
        minusCount.parse 1 (.object []) zeros.world = .ok (.error e', w') ∧ e ≠ e' := by
  obtain ⟨hsound, hshape⟩ := zeros_arises.invariants
  have hplus : plusCount ∈ zeros.nodes := by simp [zeros]
  have hminus : minusCount ∈ zeros.nodes := List.mem_cons_self ..
  have hsees : ∀ s ∈ zeros.nodes, s.Transparent := by
    intro s hs t ht
    have hmem := hsound.hosts.contains hs ht
    simp only [zeros, List.mem_cons, List.not_mem_nil, or_false] at hmem
    rcases hmem with rfl | rfl | rfl | rfl <;> trivial
  have hcompiles : ∀ s ∈ zeros.nodes, zeros.world.CompilesUnder Config.default s := fun s hs =>
    hsound.compilesUnder_of_empty hshape hs fun _ _ => rfl
  have hequal : plusCount.structurallyEqual minusCount = true := by
    simp [plusCount, minusCount, plusZero, minusZero, Schema.structurallyEqual,
      Kind.structurallyEqual, equalFields, Literal.equal, Binary64.same, Binary64.numEq,
      Metadata.equal, Metadata.empty, Value.equal, Value.entriesIn]
  refine ⟨zeros_arises, hequal, zeros_arises.structurally_equal_behave_alike hplus hminus
    (hsees _ hplus) (hsees _ hminus) (hcompiles _ hplus) (hcompiles _ hminus) hequal,
    _, _, _, _, rfl, rfl, ?_⟩
  intro heq
  cases heq

end Scene

end Schemata
