/-
**What the source text of a schema tells.**

The source text names the constructor of every node, its literals, names and policies, and its
metadata as calls at the end.  Two schemas with the same text are built alike, but for one thing: a
variant is written with its two literals, and the metadata of the literal schema below it are not.
With these left out, schemas with the same text are structurally equal.

Main definitions:

* `Schemata.Schema.shown` — **the schema without what its text hides**;
* `Schemata.Schema.Exact` — literals and metadata hold documents and numbers that exist;
* `Schemata.Kind.Arguments` — what stands in the text of a kind after its name.

Main results:

* `Schemata.Kind.arguments_of_source` — the text of a kind begins with its name;
* `Schemata.Kind.source_tells` — what stands in the text of a kind tells the kind;
* `Schemata.Scene.Arises.text_determines_schema` — **the source text of a schema tells what it
  shows**;
* `Schemata.Scene.variant_hides_description` — the text of a variant does not tell everything.
-/

import Schemata.Proofs.LiteralTexts

set_option relaxedAutoImplicit false
set_option autoImplicit false

namespace Schemata

/-! ### What a text shows -/

/-- The schema without metadata. -/
def Schema.withoutMetadata : Schema → Schema
  | .node id kind _ origin => .node id kind .empty origin

mutual

/-- **The schema without what its text hides**: metadata of literals below variants. -/
def Schema.shown : Schema → Schema
  | .node id kind metadata origin => .node id kind.shown metadata origin

/-- The kind without what its text hides. -/
def Kind.shown : Kind → Kind
  | .array s => .array s.shown
  | .dict s => .dict s.shown
  | .object fields own => .object (shownFields fields) own
  | .tuple items => .tuple (shownSchemas items)
  | .option s => .option s.shown
  | .null s => .null s.shown
  | .nullable s => .nullable s.shown
  | .union members => .union (shownSchemas members)
  | .jsonString s => .jsonString s.shown
  | .transformed base (.variant external internal) =>
      .transformed base.withoutMetadata (.variant external internal)
  | .transformed base effect => .transformed base.shown effect
  | kind => kind

/-- Fields without what their texts hide. -/
def shownFields : List (String × Schema) → List (String × Schema)
  | [] => []
  | (name, s) :: rest => (name, s.shown) :: shownFields rest

/-- Schemas without what their texts hide. -/
def shownSchemas : List Schema → List Schema
  | [] => []
  | s :: rest => s.shown :: shownSchemas rest

end

@[simp] theorem Schema.shown_metadata (s : Schema) : s.shown.metadata = s.metadata := by
  cases s
  rfl

@[simp] theorem Schema.shown_kind (s : Schema) : s.shown.kind = s.kind.shown := by cases s; rfl

theorem shownFields_eq_map (fields : List (String × Schema)) :
    shownFields fields = fields.map fun f => (f.1, f.2.shown) := by
  induction fields with
  | nil => rfl
  | cons f rest ih => rw [shownFields, ih, List.map_cons]

theorem shownSchemas_eq_map (schemas : List Schema) :
    shownSchemas schemas = schemas.map Schema.shown := by
  induction schemas with
  | nil => rfl
  | cons s rest ih => rw [shownSchemas, ih, List.map_cons]

/-! ### The texts of kinds -/

/-- The text of a schema. -/
def Schema.HasText (s : Schema) (p : List Char) : Prop := ∃ a, s.source = .ok a ∧ p = a.toList

/-- The text of a field, a pair of name and schema. -/
def FieldHasText (f : String × Schema) (p : List Char) : Prop :=
  ∃ a, f.2.source = .ok a ∧
    p = '(' :: ((Text.quoted f.1).toList ++ ',' :: ' ' :: (a.toList ++ [')']))

/-- Texts in brackets, with commas between them. -/
def bracketed (ps : List (List Char)) : List Char := '[' :: ([',', ' '].intercalate ps ++ [']'])

/-- **What stands in the text of a kind after its name** and the bracket. -/
inductive Kind.Arguments : Kind → List Char → Prop
  | never : Arguments .never [')']
  | unknown : Arguments .unknown [')']
  | unit : Arguments .unit [')']
  | string : Arguments .string [')']
  | bool : Arguments .bool [')']
  | int : Arguments .int [')']
  | float : Arguments .float [')']
  | json : Arguments .json [')']
  | literal (l : Literal) : Arguments (.literal l) (l.source.toList ++ [')'])
  | array {s : Schema} {p : List Char} : s.HasText p → Arguments (.array s) (p ++ [')'])
  | dict {s : Schema} {p : List Char} : s.HasText p → Arguments (.dict s) (p ++ [')'])
  | option {s : Schema} {p : List Char} : s.HasText p → Arguments (.option s) (p ++ [')'])
  | null {s : Schema} {p : List Char} : s.HasText p → Arguments (.null s) (p ++ [')'])
  | nullable {s : Schema} {p : List Char} : s.HasText p → Arguments (.nullable s) (p ++ [')'])
  | jsonString {s : Schema} {p : List Char} : s.HasText p → Arguments (.jsonString s) (p ++ [')'])
  | noFields (own : Option UnknownKeys) : Arguments (.object [] own)
      ('V' :: ("ec::<(&str, Schema)>::new())".toList ++ (policySource own).toList))
  | object {fields : List (String × Schema)} {ps : List (List Char)} (own : Option UnknownKeys) :
      fields ≠ [] → List.Forall₂ FieldHasText fields ps →
      Arguments (.object fields own) (bracketed ps ++ ')' :: (policySource own).toList)
  | tuple {items : List Schema} {ps : List (List Char)} : List.Forall₂ Schema.HasText items ps →
      Arguments (.tuple items) (bracketed ps ++ [')'])
  | union {members : List Schema} {ps : List (List Char)} :
      List.Forall₂ Schema.HasText members ps → Arguments (.union members) (bracketed ps ++ [')'])
  | variant (base : Schema) (external internal : Literal) :
      Arguments (.transformed base (.variant external internal))
        (external.source.toList ++ ',' :: ' ' :: (internal.source.toList ++ [')']))

section

variable {s : Schema} {k : Kind} {a : String}

/-- A computation that gives its result goes on from a result. -/
theorem except_of_bind_ok {ε α β : Type} {x : Except ε α} {f : α → Except ε β} {b : β}
    (h : x >>= f = .ok b) : ∃ a, x = .ok a ∧ f a = .ok b := by
  cases x with
  | error e => cases h
  | ok a => exact ⟨a, rfl, h⟩

/-- The text of a schema is that of its kind, and the calls that attach its metadata. -/
theorem Schema.of_source (h : s.source = .ok a) :
    ∃ b, s.kind.source = .ok b ∧ a.toList = b.toList ++ s.metadata.source.toList := by
  obtain ⟨id, kind, metadata, origin⟩ := s
  rw [Schema.source] at h
  obtain ⟨b, hkind, htext⟩ := except_of_bind_ok h
  cases htext
  exact ⟨b, hkind, String.toList_append⟩

theorem schemaSources_ok : ∀ {schemas : List Schema} {texts : List String},
    schemaSources schemas = .ok texts →
      List.Forall₂ Schema.HasText schemas (texts.map String.toList)
  | [], texts, h => by
      cases h
      exact .nil
  | s :: rest, texts, h => by
      rw [schemaSources] at h
      obtain ⟨a, hs, h⟩ := except_of_bind_ok h
      obtain ⟨others, hrest, h⟩ := except_of_bind_ok h
      cases h
      exact .cons ⟨a, hs, rfl⟩ (schemaSources_ok hrest)

theorem toList_fieldText (name text : String) : ("(" ++ name ++ ", " ++ text ++ ")").toList =
    '(' :: (name.toList ++ ',' :: ' ' :: (text.toList ++ [')'])) := by
  simp [String.toList_append]

theorem fieldSources_ok : ∀ {fields : List (String × Schema)} {texts : List String},
    fieldSources fields = .ok texts →
      List.Forall₂ FieldHasText fields (texts.map String.toList)
  | [], texts, h => by
      cases h
      exact .nil
  | (name, s) :: rest, texts, h => by
      rw [fieldSources] at h
      obtain ⟨a, hs, h⟩ := except_of_bind_ok h
      obtain ⟨others, hrest, h⟩ := except_of_bind_ok h
      cases h
      exact .cons ⟨a, hs, toList_fieldText ..⟩ (fieldSources_ok hrest)

theorem call_ok {name : String} {argument : Except DefinitionError String}
    (h : call name argument = .ok a) :
    ∃ b, argument = .ok b ∧ a.toList = name.toList ++ '(' :: (b.toList ++ [')']) := by
  obtain ⟨b, hargument, htext⟩ := except_of_bind_ok h
  cases htext
  exact ⟨b, hargument, by simp [String.toList_append]⟩

theorem toList_bracketed {opening name : String} (h : opening.toList = name.toList ++ ['(', '['])
    (texts : List String) : (opening ++ ", ".intercalate texts ++ "])").toList =
      name.toList ++ '(' :: (bracketed (texts.map String.toList) ++ [')']) := by
  simp [h, bracketed, String.toList_append, String.toList_intercalate]

theorem toList_bracketed_append {opening name : String}
    (h : opening.toList = name.toList ++ ['(', '[']) (texts : List String) (rest : String) :
    (opening ++ ", ".intercalate texts ++ "])" ++ rest).toList =
      name.toList ++ '(' :: (bracketed (texts.map String.toList) ++ ')' :: rest.toList) := by
  rw [String.toList_append, toList_bracketed h]
  simp

/-- **The text of a kind begins with its name.** -/
theorem Kind.arguments_of_source (h : k.source = .ok a) :
    ∃ p, a.toList = k.label.toList ++ '(' :: p ∧ k.Arguments p := by
  have hwrapped : ∀ {name : String} {s : Schema}, call name s.source = .ok a →
      ∃ p, a.toList = name.toList ++ '(' :: (p ++ [')']) ∧ s.HasText p := by
    intro name s hcall
    obtain ⟨b, hb, htext⟩ := call_ok hcall
    exact ⟨b.toList, htext, b, hb, rfl⟩
  cases k with
  | never => cases h; exact ⟨_, rfl, .never⟩
  | unknown => cases h; exact ⟨_, rfl, .unknown⟩
  | unit => cases h; exact ⟨_, rfl, .unit⟩
  | string => cases h; exact ⟨_, rfl, .string⟩
  | bool => cases h; exact ⟨_, rfl, .bool⟩
  | int => cases h; exact ⟨_, rfl, .int⟩
  | float => cases h; exact ⟨_, rfl, .float⟩
  | json => cases h; exact ⟨_, rfl, .json⟩
  | literal l =>
      cases h
      exact ⟨_, by simp [label, String.toList_append], .literal l⟩
  | array s =>
      obtain ⟨p, htext, hp⟩ := hwrapped h
      exact ⟨_, htext, .array hp⟩
  | dict s =>
      obtain ⟨p, htext, hp⟩ := hwrapped h
      exact ⟨_, htext, .dict hp⟩
  | option s =>
      obtain ⟨p, htext, hp⟩ := hwrapped h
      exact ⟨_, htext, .option hp⟩
  | null s =>
      obtain ⟨p, htext, hp⟩ := hwrapped h
      exact ⟨_, htext, .null hp⟩
  | nullable s =>
      obtain ⟨p, htext, hp⟩ := hwrapped h
      exact ⟨_, htext, .nullable hp⟩
  | jsonString s =>
      obtain ⟨p, htext, hp⟩ := hwrapped h
      exact ⟨_, htext, .jsonString hp⟩
  | object fields own =>
      cases fields with
      | nil =>
          cases h
          exact ⟨_, by simp [label, String.toList_append], .noFields own⟩
      | cons f fields =>
          rw [source] at h
          obtain ⟨texts, hfields, htext⟩ := except_of_bind_ok h
          cases htext
          exact ⟨_, toList_bracketed_append (by simp [label]) texts _,
            .object own (List.cons_ne_nil _ _) (fieldSources_ok hfields)⟩
  | tuple items =>
      rw [source] at h
      obtain ⟨texts, hitems, htext⟩ := except_of_bind_ok h
      cases htext
      exact ⟨_, toList_bracketed (by simp [label]) texts, .tuple (schemaSources_ok hitems)⟩
  | union members =>
      rw [source] at h
      obtain ⟨texts, hmembers, htext⟩ := except_of_bind_ok h
      cases htext
      exact ⟨_, toList_bracketed (by simp [label]) texts, .union (schemaSources_ok hmembers)⟩
  | transformed base effect =>
      cases effect with
      | variant external internal =>
          cases h
          exact ⟨_, by simp [label, Effect.label, String.toList_append],
            .variant base external internal⟩
      | _ => cases h
  | custom name handlers => cases h
  | recursive r => cases h

end

/-! ### Data that exist -/

/-- The literals of the effect exist. -/
def Effect.Exact : Effect → Prop
  | .variant external internal => external.Exact ∧ internal.Exact
  | _ => True

/-- The literals of the kind exist. -/
def Kind.Exact : Kind → Prop
  | .literal l => l.Exact
  | .transformed _ effect => effect.Exact
  | _ => True

/-- **The data of a node exist**: numbers that 53 bits can hold, and what can stand in a
document. -/
structure Schema.Exact (s : Schema) : Prop where
  kind : s.kind.Exact
  metadata : s.metadata.Proper

/-! ### Kinds -/

/-- What the texts of two schemas tell, whatever follows them. -/
def Schema.Tells (s t : Schema) : Prop :=
  ∀ p q r r', s.HasText p → t.HasText q → Ends r → Ends r' → p ++ r = q ++ r' →
    s.shown.Equal t.shown ∧ r = r'

@[simp] theorem Schema.withoutMetadata_kind (s : Schema) : s.withoutMetadata.kind = s.kind := by
  cases s
  rfl

@[simp] theorem Schema.withoutMetadata_metadata (s : Schema) :
    s.withoutMetadata.metadata = .empty := by
  cases s
  rfl

section

variable {k l : Kind} {p q r r' : List Char} {ps qs : List (List Char)}

theorem Kind.Arguments.label_closed (h : k.Arguments p) : '(' ∉ k.label.toList := by
  cases h <;> simp [label, Effect.label]

theorem Kind.Arguments.starts (h : k.Arguments p) (rest : List Char) :
    Starts (k.label.toList ++ rest) := by
  cases h <;> simp [label, Effect.label, Starts, closes]

theorem Schema.HasText.starts {s : Schema} (h : s.HasText p) : Starts p := by
  obtain ⟨a, ha, rfl⟩ := h
  obtain ⟨b, hb, htext⟩ := Schema.of_source ha
  obtain ⟨args, hlabel, hargs⟩ := Kind.arguments_of_source hb
  rw [htext, hlabel, List.append_assoc]
  exact hargs.starts _

theorem starts_of_fieldHasText {f : String × Schema} (h : FieldHasText f p) : Starts p := by
  obtain ⟨a, -, rfl⟩ := h
  exact ⟨_, _, rfl, rfl⟩

/-- Every text of a list of parts is that of one of them. -/
theorem forall_of_forall₂ {α : Type} {P : α → List Char → Prop} {Q : List Char → Prop}
    {as : List α} (h : List.Forall₂ P as ps) (hP : ∀ a p, P a p → Q p) : ∀ p ∈ ps, Q p := by
  induction h with
  | nil => exact fun _ hp => absurd hp List.not_mem_nil
  | cons hab _ ih =>
      intro p hp
      rcases List.mem_cons.1 hp with rfl | hp
      · exact hP _ _ hab
      · exact ih p hp

/-- A schema in brackets. -/
theorem wrapped_tells {s t : Schema} (h : s.Tells t) (hs : s.HasText p) (ht : t.HasText q)
    (heq : p ++ [')'] ++ r = q ++ [')'] ++ r') : s.shown.Equal t.shown ∧ r = r' := by
  rw [List.append_assoc, List.append_assoc] at heq
  have hends : ∀ r, Ends ([')'] ++ r) := fun _ => rfl
  obtain ⟨hequal, hr⟩ := h p q _ _ hs ht (hends r) (hends r') heq
  exact ⟨hequal, List.append_cancel_left hr⟩

/-- A list of schemas in brackets. -/
theorem schemas_tell {items items' : List Schema}
    (h : ∀ s ∈ items, ∀ t ∈ items', s.Tells t) (hs : List.Forall₂ Schema.HasText items ps)
    (ht : List.Forall₂ Schema.HasText items' qs) (heq : bracketed ps ++ r = bracketed qs ++ r') :
    List.Forall₂ Schema.Equal (shownSchemas items) (shownSchemas items') ∧ r = r' := by
  simp only [bracketed, List.cons_append, List.append_assoc, List.nil_append, List.cons.injEq,
    true_and] at heq
  have htells : TellsParts Schema.HasText Schema.HasText
      (fun s t => s.shown.Equal t.shown) items items' :=
    fun s hs t ht p q hp hq r r' hr hr' heq => h s hs t ht p q r r' hp hq hr hr' heq
  obtain ⟨hall, hr⟩ := bracketed_tells rfl (by decide) hs ht
    (forall_of_forall₂ hs fun _ _ h => h.starts) (forall_of_forall₂ ht fun _ _ h => h.starts)
    htells heq
  rw [shownSchemas_eq_map, shownSchemas_eq_map]
  exact ⟨List.forall₂_map_left_iff.2 (List.forall₂_map_right_iff.2 hall), hr⟩

/-- A list of fields in brackets. -/
theorem fields_tell {fields fields' : List (String × Schema)}
    (h : ∀ f ∈ fields, ∀ g ∈ fields', f.2.Tells g.2) (hs : List.Forall₂ FieldHasText fields ps)
    (ht : List.Forall₂ FieldHasText fields' qs) (heq : bracketed ps ++ r = bracketed qs ++ r') :
    List.Forall₂ (fun f g => f.1 = g.1 ∧ f.2.Equal g.2) (shownFields fields)
      (shownFields fields') ∧ r = r' := by
  simp only [bracketed, List.cons_append, List.append_assoc, List.nil_append, List.cons.injEq,
    true_and] at heq
  have htells : TellsParts FieldHasText FieldHasText
      (fun f g => f.1 = g.1 ∧ f.2.shown.Equal g.2.shown) fields fields' := by
    rintro f hf g hg _ _ ⟨a, ha, rfl⟩ ⟨b, hb, rfl⟩ r r' hr hr' heq
    simp only [List.cons_append, List.append_assoc, List.nil_append, List.cons.injEq,
      true_and] at heq
    obtain ⟨hname, hrest⟩ := Text.quoted_tells heq
    simp only [List.cons.injEq, true_and] at hrest
    have hends : ∀ r, Ends (')' :: r) := fun _ => rfl
    obtain ⟨hequal, hr⟩ := h f hf g hg _ _ _ _ ⟨a, ha, rfl⟩ ⟨b, hb, rfl⟩ (hends r) (hends r') hrest
    exact ⟨⟨hname, hequal⟩, (List.cons.inj hr).2⟩
  obtain ⟨hall, hr⟩ := bracketed_tells rfl (by decide) hs ht
    (forall_of_forall₂ hs fun _ _ => starts_of_fieldHasText)
    (forall_of_forall₂ ht fun _ _ => starts_of_fieldHasText) htells heq
  rw [shownFields_eq_map, shownFields_eq_map]
  exact ⟨List.forall₂_map_left_iff.2 (List.forall₂_map_right_iff.2 hall), hr⟩

/-- The text does not begin with a call that sets a policy. -/
def WithoutPolicy (r : List Char) : Prop := Unnamed "strict" r ∧ Unnamed "strip" r

/-- **The call that sets a policy**, if there is one. -/
theorem policySource_tells {own own' : Option UnknownKeys} (hr : WithoutPolicy r)
    (hr' : WithoutPolicy r')
    (h : (policySource own).toList ++ r = (policySource own').toList ++ r') :
    own = own' ∧ r = r' := by
  have hcall : ∀ (policy : UnknownKeys) {r r' : List Char}, WithoutPolicy r' →
      (policySource (some policy)).toList ++ r ≠ r' := by
    rintro policy r _ hr rfl
    cases policy with
    | strip => exact hr.2 (by simp [policySource])
    | strict => exact hr.1 (by simp [policySource])
  cases own with
  | none =>
      cases own' with
      | none => exact ⟨rfl, h⟩
      | some policy => exact (hcall policy hr h.symm).elim
  | some policy =>
      cases own' with
      | none => exact (hcall policy hr' h).elim
      | some policy' =>
          cases policy <;> cases policy'
          · exact ⟨rfl, List.append_cancel_left h⟩
          · simp [policySource] at h
          · simp [policySource] at h
          · exact ⟨rfl, List.append_cancel_left h⟩

/-- **What stands in the text of a kind tells the kind.** -/
theorem Kind.source_tells (hk : k.Arguments p) (hl : l.Arguments q) (hlabel : k.label = l.label)
    (hke : k.Exact) (hle : l.Exact) (hkf : k.Formed) (hlf : l.Formed)
    (hchildren : ∀ s ∈ k.children, ∀ t ∈ l.children, s.Tells t) (hr : WithoutPolicy r)
    (hr' : WithoutPolicy r') (h : p ++ r = q ++ r') :
    k.shown.Copied Schema.Equal l.shown ∧ r = r' := by
  have hone : ∀ {s t : Schema}, k.children = [s] → l.children = [t] → s.Tells t := by
    intro s t hs ht
    exact hchildren s (hs ▸ List.mem_singleton_self s) t (ht ▸ List.mem_singleton_self t)
  cases hk with
  | never => cases hl with
    | never => exact ⟨.never, List.append_cancel_left h⟩
    | _ => simp [label, Effect.label] at hlabel
  | unknown => cases hl with
    | unknown => exact ⟨.unknown, List.append_cancel_left h⟩
    | _ => simp [label, Effect.label] at hlabel
  | unit => cases hl with
    | unit => exact ⟨.unit, List.append_cancel_left h⟩
    | _ => simp [label, Effect.label] at hlabel
  | string => cases hl with
    | string => exact ⟨.string, List.append_cancel_left h⟩
    | _ => simp [label, Effect.label] at hlabel
  | bool => cases hl with
    | bool => exact ⟨.bool, List.append_cancel_left h⟩
    | _ => simp [label, Effect.label] at hlabel
  | int => cases hl with
    | int => exact ⟨.int, List.append_cancel_left h⟩
    | _ => simp [label, Effect.label] at hlabel
  | float => cases hl with
    | float => exact ⟨.float, List.append_cancel_left h⟩
    | _ => simp [label, Effect.label] at hlabel
  | json => cases hl with
    | json => exact ⟨.json, List.append_cancel_left h⟩
    | _ => simp [label, Effect.label] at hlabel
  | literal x => cases hl with
    | literal y =>
        rw [List.append_assoc, List.append_assoc] at h
        have hends : ∀ r, Ends ([')'] ++ r) := fun _ => rfl
        obtain ⟨hequal, hrest⟩ := Literal.source_tells hke hle (hends r) (hends r') h
        exact ⟨.literal hequal, List.append_cancel_left hrest⟩
    | _ => simp [label, Effect.label] at hlabel
  | array hs => cases hl with
    | array ht =>
        obtain ⟨hequal, hrest⟩ := wrapped_tells (hone rfl rfl) hs ht h
        exact ⟨.array hequal, hrest⟩
    | _ => simp [label, Effect.label] at hlabel
  | dict hs => cases hl with
    | dict ht =>
        obtain ⟨hequal, hrest⟩ := wrapped_tells (hone rfl rfl) hs ht h
        exact ⟨.dict hequal, hrest⟩
    | _ => simp [label, Effect.label] at hlabel
  | option hs => cases hl with
    | option ht =>
        obtain ⟨hequal, hrest⟩ := wrapped_tells (hone rfl rfl) hs ht h
        exact ⟨.option hequal, hrest⟩
    | _ => simp [label, Effect.label] at hlabel
  | null hs => cases hl with
    | null ht =>
        obtain ⟨hequal, hrest⟩ := wrapped_tells (hone rfl rfl) hs ht h
        exact ⟨.null hequal, hrest⟩
    | _ => simp [label, Effect.label] at hlabel
  | nullable hs => cases hl with
    | nullable ht =>
        obtain ⟨hequal, hrest⟩ := wrapped_tells (hone rfl rfl) hs ht h
        exact ⟨.nullable hequal, hrest⟩
    | _ => simp [label, Effect.label] at hlabel
  | jsonString hs => cases hl with
    | jsonString ht =>
        obtain ⟨hequal, hrest⟩ := wrapped_tells (hone rfl rfl) hs ht h
        exact ⟨.jsonString hequal, hrest⟩
    | _ => simp [label, Effect.label] at hlabel
  | noFields own => cases hl with
    | noFields own' =>
        simp only [List.cons_append, List.append_assoc, List.cons.injEq, true_and,
          List.append_cancel_left_eq] at h
        obtain ⟨rfl, hrest⟩ := policySource_tells hr hr' h
        exact ⟨.object own .nil, hrest⟩
    | object own' hne ht => cases (List.cons.inj h).1
    | _ => simp [label, Effect.label] at hlabel
  | object own hne hs => cases hl with
    | noFields own' => cases (List.cons.inj h).1
    | object own' hne' ht =>
        rw [List.append_assoc, List.append_assoc] at h
        obtain ⟨hfields, hpolicy⟩ := fields_tell (fun f hf g hg =>
          hchildren f.2 (List.mem_map_of_mem hf) g.2 (List.mem_map_of_mem hg)) hs ht h
        obtain ⟨rfl, hrest⟩ := policySource_tells hr hr' (List.cons.inj hpolicy).2
        exact ⟨.object own hfields, hrest⟩
    | _ => simp [label, Effect.label] at hlabel
  | tuple hs => cases hl with
    | tuple ht =>
        rw [List.append_assoc, List.append_assoc] at h
        obtain ⟨hitems, hrest⟩ := schemas_tell hchildren hs ht h
        exact ⟨.tuple hitems, List.append_cancel_left hrest⟩
    | _ => simp [label, Effect.label] at hlabel
  | union hs => cases hl with
    | union ht =>
        rw [List.append_assoc, List.append_assoc] at h
        obtain ⟨hmembers, hrest⟩ := schemas_tell hchildren hs ht h
        exact ⟨.union hmembers, List.append_cancel_left hrest⟩
    | _ => simp [label, Effect.label] at hlabel
  | variant base external internal => cases hl with
    | variant base' external' internal' =>
        simp only [List.append_assoc, List.cons_append, List.nil_append] at h
        have hcomma : ∀ r, Ends (',' :: r) := fun _ => rfl
        have hbracket : ∀ r, Ends (')' :: r) := fun _ => rfl
        obtain ⟨hexternal, hrest⟩ :=
          Literal.source_tells hke.1 hle.1 (hcomma _) (hcomma _) h
        simp only [List.cons.injEq, true_and] at hrest
        obtain ⟨hinternal, hrest⟩ :=
          Literal.source_tells hke.2 hle.2 (hbracket _) (hbracket _) hrest
        -- below the variants are their literals, with whatever metadata
        have hbase : base.withoutMetadata.Equal base'.withoutMetadata := by
          refine Schema.equal_iff.2 (.inr ⟨?_, ?_⟩)
          · simpa using Metadata.equal_refl Metadata.empty_proper
          · rw [Schema.withoutMetadata_kind, Schema.withoutMetadata_kind, hkf, hlf]
            exact .literal hexternal
        exact ⟨.transformed hbase (.variant hexternal hinternal), (List.cons.inj hrest).2⟩
    | _ => simp [label, Effect.label] at hlabel

end

/-! ### Schemas -/

section

variable {w : World} {nodes : List Schema}

/-- **The texts of nodes tell what they show**, by the order in which nodes are made. -/
theorem World.Hosts.source_tells (h : w.Hosts nodes) (hexact : ∀ s ∈ nodes, s.Exact) :
    ∀ s ∈ nodes, ∀ t ∈ nodes, s.Tells t := by
  intro s hs
  induction hid : s.id using Nat.strong_induction_on generalizing s with
  | h n ih =>
      rintro t ht _ _ r r' ⟨a, ha, rfl⟩ ⟨b, hb, rfl⟩ hr hr' heq
      obtain ⟨c, hc, hac⟩ := Schema.of_source ha
      obtain ⟨d, hd, hbd⟩ := Schema.of_source hb
      obtain ⟨p, hcp, hp⟩ := Kind.arguments_of_source hc
      obtain ⟨q, hdq, hq⟩ := Kind.arguments_of_source hd
      rw [hac, hbd, hcp, hdq] at heq
      simp only [List.append_assoc, List.cons_append] at heq
      -- the name of the kind ends at the first bracket
      have hcut := congrArg (Numeral.cut '(') heq
      rw [Numeral.cut_append hp.label_closed, Numeral.cut_append hq.label_closed] at hcut
      obtain ⟨hlabel, hrest⟩ := Prod.mk.inj hcut
      have hpolicy : ∀ {r : List Char} (m : Metadata), Ends r →
          WithoutPolicy (m.source.toList ++ r) := fun m hr =>
        ⟨Metadata.unnamed_source (by decide) (by decide) (by decide) (by decide) hr m,
          Metadata.unnamed_source (by decide) (by decide) (by decide) (by decide) hr m⟩
      obtain ⟨hkind, hrest⟩ := Kind.source_tells hp hq (String.toList_inj.1 hlabel)
        (hexact s hs).kind (hexact t ht).kind (h.formed s hs) (h.formed t ht)
        (fun c hc d hd => ih c.id (hid ▸ (h.below s hs c hc).2) c (h.below s hs c hc).1 rfl d
          (h.below t ht d hd).1)
        (hpolicy _ hr) (hpolicy _ hr') hrest
      obtain ⟨hmetadata, hrest⟩ := Metadata.source_tells (hexact s hs).metadata
        (hexact t ht).metadata hr hr' hrest
      refine ⟨Schema.equal_iff.2 (.inr ⟨?_, by simpa using hkind⟩), hrest⟩
      rw [Schema.shown_metadata, Schema.shown_metadata, hmetadata]
      exact Metadata.equal_refl (hexact t ht).metadata

end

namespace Scene

/-- **The source text of a schema tells what it shows.**  Of the nodes of a scene, two that have the
same text are structurally equal when the metadata of literals below variants are left out, and
structurally equal as they stand when there are no such metadata. -/
theorem Arises.text_determines_schema {σ : Scene} (h : σ.Arises) (hexact : ∀ s ∈ σ.nodes, s.Exact) :
    ∀ s ∈ σ.nodes, ∀ t ∈ σ.nodes, ∀ text, s.source = .ok text → t.source = .ok text →
      s.shown.structurallyEqual t.shown = true ∧
        (s.shown = s → t.shown = t → s.structurallyEqual t = true) := by
  intro s hs t ht text hst htt
  have htells := h.invariants.1.hosts.source_tells hexact s hs t ht
  obtain ⟨hequal, -⟩ := htells _ _ [] [] ⟨text, hst, rfl⟩ ⟨text, htt, rfl⟩ trivial trivial rfl
  refine ⟨hequal, fun hshown hshown' => ?_⟩
  rwa [hshown, hshown'] at hequal

/-! ### A description that a variant hides -/

/-- A letter. -/
def wireLetter : Schema := .node 0 (.literal (.string "a")) Metadata.empty none

/-- The letter with a description. -/
def wireLetterDescribed : Schema :=
  .node 1 (.literal (.string "a")) ⟨none, some "d", none, []⟩ (some wireLetter)

/-- A variant of the letter with a description. -/
def variantOfDescribed : Schema :=
  .node 2 (.transformed wireLetterDescribed (.variant (.string "a") (.bool true)))
    Metadata.empty none

/-- A variant of the letter. -/
def variantOfLetter : Schema :=
  .node 3 (.transformed wireLetter (.variant (.string "a") (.bool true))) Metadata.empty none

/-- The scene of both variants. -/
def twoVariants : Scene where
  world := { copiedOnce with nextNode := 4 }
  nodes := [variantOfLetter, variantOfDescribed, wireLetterDescribed, wireLetter]

theorem twoVariants_arises : twoVariants.Arises := by
  have h₁ : Step .building initial ⟨made 1 0, [wireLetter]⟩ :=
    .made (fun t ht => by cases ht) trivial
  have hcopy : wireLetter.withMetadata (fun m => { m with description := some "d" }) (made 1 0) =
      .ok (wireLetterDescribed, copiedOnce) := rfl
  have h₂ : Step .building ⟨made 1 0, [wireLetter]⟩
      ⟨copiedOnce, [wireLetterDescribed, wireLetter]⟩ :=
    .withMetadata _ (List.mem_singleton_self _) hcopy
  have hformed : (Kind.transformed wireLetterDescribed
      (.variant (.string "a") (.bool true))).Formed := rfl
  have hformed' : (Kind.transformed wireLetter (.variant (.string "a") (.bool true))).Formed := rfl
  have h₃ : Step .building ⟨copiedOnce, [wireLetterDescribed, wireLetter]⟩
      ⟨{ copiedOnce with nextNode := 3 }, [variantOfDescribed, wireLetterDescribed, wireLetter]⟩ :=
    .fresh (fun t ht => by simp_all [Kind.children]) hformed rfl
  have h₄ : Step .building
      ⟨{ copiedOnce with nextNode := 3 }, [variantOfDescribed, wireLetterDescribed, wireLetter]⟩
      twoVariants :=
    .fresh (fun t ht => by simp_all [Kind.children]) hformed' rfl
  exact built_arises (.tail (.tail (.tail (.single h₁) h₂) h₃) h₄)

theorem twoVariants_exact : ∀ s ∈ twoVariants.nodes, s.Exact := by
  intro s hs
  simp only [twoVariants, List.mem_cons, List.not_mem_nil, or_false] at hs
  rcases hs with rfl | rfl | rfl | rfl
  · exact ⟨⟨trivial, trivial⟩, Metadata.empty_proper⟩
  · exact ⟨⟨trivial, trivial⟩, Metadata.empty_proper⟩
  · exact ⟨trivial, List.nodup_nil, trivial⟩
  · exact ⟨trivial, Metadata.empty_proper⟩

/-- **The text of a variant does not tell everything**: a description of the literal is lost. -/
theorem variant_hides_description :
    twoVariants.Arises ∧ (∀ s ∈ twoVariants.nodes, s.Exact) ∧
      variantOfDescribed ∈ twoVariants.nodes ∧ variantOfLetter ∈ twoVariants.nodes ∧
      (∃ text, variantOfDescribed.source = .ok text ∧ variantOfLetter.source = .ok text) ∧
      variantOfDescribed.structurallyEqual variantOfLetter = false := by
  refine ⟨twoVariants_arises, twoVariants_exact, by simp [twoVariants], by simp [twoVariants],
    ⟨_, rfl, rfl⟩, ?_⟩
  simp [variantOfDescribed, variantOfLetter, wireLetterDescribed, wireLetter,
    Schema.structurallyEqual, Kind.structurallyEqual, Metadata.equal, Metadata.empty]

/-- Without that description the variants are equal. -/
theorem text_determines_schema_twoVariants :
    twoVariants.Arises ∧ (∀ s ∈ twoVariants.nodes, s.Exact) ∧
      variantOfDescribed.shown.structurallyEqual variantOfLetter.shown = true := by
  have htells := Arises.text_determines_schema twoVariants_arises twoVariants_exact
    variantOfDescribed (by simp [twoVariants]) variantOfLetter (by simp [twoVariants]) _ rfl rfl
  exact ⟨twoVariants_arises, twoVariants_exact, htells.1⟩

end Scene

end Schemata
