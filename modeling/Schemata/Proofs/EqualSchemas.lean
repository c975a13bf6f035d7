/-
**Structural equality is an equivalence.**

The comparison of two schemas takes the short way when they are the same node, looks up free entries
of metadata whatever their order, compares fields in their order, counts all not-a-numbers as one,
and knows effects with functions by their names.  On the nodes of a scene all this adds up to an
equivalence.  It says of two nodes that they could have been made by the same constructor from equal
parts, so a copy that is made like this, in whatever world, is equal to the first one.

No cell takes part: whatever is compiled, asked or built in between, a node stays what it is, and no
other node ever has its identity.

Main definitions:

* `Schemata.Effect.Copied`, `Schemata.Kind.Copied` — the same constructor around related parts;
* `Schemata.Schema.Proper` — literals and metadata hold values whose objects have distinct keys;
* `Schemata.Scene.Rebuilt` — **made by the same constructor from equal parts**, each in a world of
  its own;
* `Schemata.Scene.Compares` — what the comparison of two identities says in a scene.

Main results:

* `Schemata.Schema.equal_iff` — what the comparison looks at;
* `Schemata.World.Hosts.equal_symm`, `Schemata.World.Hosts.equal_trans` — the laws on nodes;
* `Schemata.Scene.Rebuilt.equal` — copies are equal;
* `Schemata.Scene.Arises.structurallyEqual_equivalence` — **structural equality**.
-/

import Schemata.Proofs.DiscriminatedUnion
import Schemata.Proofs.Reconfiguration
import Schemata.Proofs.Reordering
import Schemata.Proofs.StructuralEquality
import Schemata.Proofs.ValueSchemas

set_option relaxedAutoImplicit false
set_option autoImplicit false

namespace Schemata

/-! ### The same constructor -/

/-- Schemas that are structurally equal. -/
abbrev Schema.Equal (s t : Schema) : Prop := s.structurallyEqual t = true

/-- **The same effect**, with whatever functions. -/
inductive Effect.Copied : Effect → Effect → Prop
  | transform (h h' : Handlers) : Copied (.transform h) (.transform h')
  | preprocess (h h' : Handlers) : Copied (.preprocess h) (.preprocess h')
  | refine (message : String) {check check' : Check} : check.isAsync = check'.isAsync →
      Copied (.refine message check) (.refine message check')
  | recover (fallback fallback' : Fallback) : Copied (.recover fallback) (.recover fallback')
  | variant {external external' internal internal' : Literal} :
      external.equal external' = true → internal.equal internal' = true →
      Copied (.variant external internal) (.variant external' internal')
  | getOr (supply supply' : Supply) : Copied (.getOr supply) (.getOr supply')

/-- **The same constructor around related parts**: literals that are equal, the same names and
policies, and whatever functions and references. -/
inductive Kind.Copied (R : Schema → Schema → Prop) : Kind → Kind → Prop
  | never : Copied R .never .never
  | unknown : Copied R .unknown .unknown
  | unit : Copied R .unit .unit
  | string : Copied R .string .string
  | bool : Copied R .bool .bool
  | int : Copied R .int .int
  | float : Copied R .float .float
  | json : Copied R .json .json
  | recursive (r r' : Reference) : Copied R (.recursive r) (.recursive r')
  | literal {l l' : Literal} : l.equal l' = true → Copied R (.literal l) (.literal l')
  | array {s s' : Schema} : R s s' → Copied R (.array s) (.array s')
  | dict {s s' : Schema} : R s s' → Copied R (.dict s) (.dict s')
  | object {fields fields' : List (String × Schema)} (own : Option UnknownKeys) :
      List.Forall₂ (fun f g => f.1 = g.1 ∧ R f.2 g.2) fields fields' →
      Copied R (.object fields own) (.object fields' own)
  | tuple {items items' : List Schema} : List.Forall₂ R items items' →
      Copied R (.tuple items) (.tuple items')
  | option {s s' : Schema} : R s s' → Copied R (.option s) (.option s')
  | null {s s' : Schema} : R s s' → Copied R (.null s) (.null s')
  | nullable {s s' : Schema} : R s s' → Copied R (.nullable s) (.nullable s')
  | union {members members' : List Schema} : List.Forall₂ R members members' →
      Copied R (.union members) (.union members')
  | jsonString {s s' : Schema} : R s s' → Copied R (.jsonString s) (.jsonString s')
  | custom (name : String) (h h' : Handlers) : Copied R (.custom name h) (.custom name h')
  | transformed {s s' : Schema} {e e' : Effect} : R s s' → e.Copied e' →
      Copied R (.transformed s e) (.transformed s' e')

section

variable {e e' : Effect} {k k' : Kind} {s t : Schema}

/-- **Effects are alike when they are the same effect.**  The comparison by labels tells apart what
is no refinement and no variant. -/
theorem Effect.alike_iff : e.alike e' = true ↔ e.Copied e' := by
  constructor
  · intro h
    cases e <;> cases e' <;> simp [alike, label] at h
    case transform => exact .transform ..
    case preprocess => exact .preprocess ..
    case refine =>
        obtain ⟨rfl, hasync⟩ := h
        exact .refine _ hasync
    case recover => exact .recover ..
    case variant => exact .variant h.1 h.2
    case getOr => exact .getOr ..
  · intro h
    cases h with
    | refine message hasync => simp [alike, hasync]
    | variant hexternal hinternal => simp [alike, hexternal, hinternal]
    | _ => rfl

theorem equalFields_of_forall₂ {fields fields' : List (String × Schema)}
    (h : List.Forall₂ (fun f g => f.1 = g.1 ∧ f.2.Equal g.2) fields fields') :
    equalFields fields fields' = true := by
  induction h with
  | nil => simp [equalFields]
  | @cons f g _ _ hfg _ ih =>
      obtain ⟨a, s⟩ := f
      obtain ⟨b, t⟩ := g
      obtain ⟨hname, hequal⟩ := hfg
      rw [equalFields, beq_iff_eq.2 hname, hequal, ih]
      rfl

theorem equalSchemas_of_forall₂ {schemas schemas' : List Schema}
    (h : List.Forall₂ Schema.Equal schemas schemas') : equalSchemas schemas schemas' = true := by
  induction h with
  | nil => simp [equalSchemas]
  | cons hst _ ih =>
      rw [equalSchemas, hst, ih]
      rfl

/-- **What the comparison of kinds looks at.** -/
theorem Kind.structurallyEqual_iff :
    k.structurallyEqual k' = true ↔ k.Copied Schema.Equal k' := by
  constructor
  · intro h
    cases k <;> cases k' <;>
      simp only [structurallyEqual, Bool.and_eq_true, Bool.false_eq_true] at h
    case never | unknown | unit | string | bool | int | float | json => constructor
    case recursive => exact .recursive ..
    case literal => exact .literal h
    case array => exact .array h
    case dict => exact .dict h
    case option => exact .option h
    case null => exact .null h
    case nullable => exact .nullable h
    case jsonString => exact .jsonString h
    case object =>
        obtain ⟨hown, hfields⟩ := h
        obtain rfl := eq_of_beq hown
        exact .object _ (forall₂_of_equalFields hfields)
    case tuple => exact .tuple (forall₂_of_equalSchemas h)
    case union => exact .union (forall₂_of_equalSchemas h)
    case custom =>
        obtain rfl := eq_of_beq h
        exact .custom ..
    case transformed => exact .transformed h.2 (Effect.alike_iff.1 h.1)
  · intro h
    cases h with
    | literal h | array h | dict h | option h | null h | nullable h | jsonString h =>
        simpa [structurallyEqual] using h
    | object own h => simpa [structurallyEqual] using equalFields_of_forall₂ h
    | tuple h | union h => simpa [structurallyEqual] using equalSchemas_of_forall₂ h
    | custom name => simp [structurallyEqual]
    | transformed h he => simpa [structurallyEqual] using ⟨Effect.alike_iff.2 he, h⟩
    | _ => simp [structurallyEqual]

/-- **What the comparison of schemas looks at**: whether they are one node, and otherwise their
metadata and their kinds. -/
theorem Schema.equal_iff : s.Equal t ↔
    s.id = t.id ∨ (s.metadata.equal t.metadata = true ∧ s.kind.Copied Schema.Equal t.kind) := by
  cases s
  cases t
  simp [Equal, structurallyEqual, id, metadata, kind, Kind.structurallyEqual_iff]

end

/-! ### Literals, metadata and effects -/

/-- The literal holds a value whose objects have distinct keys. -/
def Literal.Proper : Literal → Prop
  | .composite v => v.WellFormed
  | _ => True

/-- The literals of the effect are proper. -/
def Effect.Proper : Effect → Prop
  | .variant external internal => external.Proper ∧ internal.Proper
  | _ => True

/-- The literals of the kind are proper. -/
def Kind.Proper : Kind → Prop
  | .literal l => l.Proper
  | .transformed _ effect => effect.Proper
  | _ => True

/-- The free entries have distinct keys, and so have the objects in their values. -/
def Metadata.Proper (m : Metadata) : Prop := (Value.object m.custom).WellFormed

/-- **The data of a node are proper**: what can stand in a document, which no constructor can be
given anything else than. -/
structure Schema.Proper (s : Schema) : Prop where
  kind : s.kind.Proper
  metadata : s.metadata.Proper

namespace Binary64

/-- Of the numbers as literals, not-a-number equals itself too. -/
theorem same_refl (x : Binary64) : x.same x = true := by
  cases x <;> simp [same, numEq]

theorem same_trans {x y z : Binary64} (h : x.same y = true) (h' : y.same z = true) :
    x.same z = true :=
  same_of_same h ((same_comm z y).trans h')

end Binary64

namespace Literal

variable {l l' l'' : Literal}

theorem equal_refl (h : l.Proper) : l.equal l = true := by
  cases l with
  | composite v => exact Value.equal_self h
  | number x => exact x.same_refl
  | _ => simp [equal]

theorem equal_symm (hl : l.Proper) (hl' : l'.Proper) (h : l.equal l' = true) :
    l'.equal l = true := by
  cases l <;> cases l' <;> try cases h
  case composite => exact Value.equal_symm hl hl' h
  case number => exact (Binary64.same_comm _ _).trans h
  all_goals simp_all [equal]

theorem equal_trans (h : l.equal l' = true) (h' : l'.equal l'' = true) : l.equal l'' = true := by
  cases l <;> cases l' <;> try cases h
  all_goals cases l'' <;> try cases h'
  case composite => exact Value.equal_trans h h'
  case number => exact Binary64.same_trans h h'
  all_goals simp_all [equal]

end Literal

namespace Effect.Copied

variable {e e' e'' : Effect}

theorem refl (h : e.Proper) : e.Copied e := by
  cases e with
  | transform => exact .transform ..
  | preprocess => exact .preprocess ..
  | refine message check => exact .refine message rfl
  | recover => exact .recover ..
  | variant => exact .variant (Literal.equal_refl h.1) (Literal.equal_refl h.2)
  | getOr => exact .getOr ..

theorem symm (he : e.Proper) (he' : e'.Proper) (h : e.Copied e') : e'.Copied e := by
  cases h with
  | transform => exact .transform ..
  | preprocess => exact .preprocess ..
  | refine message hasync => exact .refine message hasync.symm
  | recover => exact .recover ..
  | variant hexternal hinternal =>
      exact .variant (Literal.equal_symm he.1 he'.1 hexternal)
        (Literal.equal_symm he.2 he'.2 hinternal)
  | getOr => exact .getOr ..

theorem trans (h : e.Copied e') (h' : e'.Copied e'') : e.Copied e'' := by
  cases h with
  | transform => cases h'; exact .transform ..
  | preprocess => cases h'; exact .preprocess ..
  | refine message hasync => cases h' with
    | refine _ hasync' => exact .refine message (hasync.trans hasync')
  | recover => cases h'; exact .recover ..
  | variant hexternal hinternal => cases h' with
    | variant hexternal' hinternal' =>
        exact .variant (Literal.equal_trans hexternal hexternal')
          (Literal.equal_trans hinternal hinternal')
  | getOr => cases h'; exact .getOr ..

end Effect.Copied

namespace Metadata

variable {m n o : Metadata}

theorem equal_iff : m.equal n = true ↔ m.name = n.name ∧ m.description = n.description ∧
    m.deprecation = n.deprecation ∧ (Value.object m.custom).equal (.object n.custom) = true := by
  simp [equal, and_assoc]

theorem empty_proper : empty.Proper := ⟨List.nodup_nil, trivial⟩

theorem equal_refl (h : m.Proper) : m.equal m = true :=
  equal_iff.2 ⟨rfl, rfl, rfl, Value.equal_self h⟩

theorem equal_symm (hm : m.Proper) (hn : n.Proper) (h : m.equal n = true) : n.equal m = true := by
  obtain ⟨hname, hdescription, hdeprecation, hcustom⟩ := equal_iff.1 h
  exact equal_iff.2 ⟨hname.symm, hdescription.symm, hdeprecation.symm,
    Value.equal_symm hm hn hcustom⟩

theorem equal_trans (h : m.equal n = true) (h' : n.equal o = true) : m.equal o = true := by
  obtain ⟨hname, hdescription, hdeprecation, hcustom⟩ := equal_iff.1 h
  obtain ⟨hname', hdescription', hdeprecation', hcustom'⟩ := equal_iff.1 h'
  exact equal_iff.2 ⟨hname.trans hname', hdescription.trans hdescription',
    hdeprecation.trans hdeprecation', Value.equal_trans hcustom hcustom'⟩

end Metadata

/-! ### Kinds -/

section

variable {α β γ : Type} {Q : α → β → Prop} {P : β → γ → Prop} {S : α → γ → Prop}
  {l : List α} {l' : List β} {l'' : List γ}

/-- Lists side by side with lists side by side, with what is known of the members of all. -/
theorem forall₂_comp_mem (h : List.Forall₂ Q l l') (h' : List.Forall₂ P l' l'')
    (hS : ∀ a ∈ l, ∀ b ∈ l', ∀ c ∈ l'', Q a b → P b c → S a c) : List.Forall₂ S l l'' :=
  forall₂_comp (forall₂_imp_both h fun _ ha _ hb hab => And.intro ha (And.intro hb hab))
    (forall₂_imp_both h' fun _ _ _ hc hbc => And.intro hc hbc)
    fun a b c ⟨ha, hb, hab⟩ ⟨hc, hbc⟩ => hS a ha b hb c hc hab hbc

end

namespace Kind.Copied

variable {R S T : Schema → Schema → Prop} {k k' k'' : Kind}

theorem refl (hk : k.Proper) (h : ∀ t ∈ k.children, R t t) : k.Copied R k := by
  cases k with
  | literal => exact .literal (Literal.equal_refl hk)
  | object fields own =>
      exact .object own (List.forall₂_same.2 fun f hf => ⟨rfl, h f.2 (List.mem_map_of_mem hf)⟩)
  | tuple => exact .tuple (List.forall₂_same.2 h)
  | union => exact .union (List.forall₂_same.2 h)
  | transformed base effect => exact .transformed (h base (List.mem_singleton_self _)) (.refl hk)
  | _ => constructor <;> exact h _ (List.mem_singleton_self _)

theorem symm (hk : k.Proper) (hk' : k'.Proper) (h : k.Copied R k')
    (hS : ∀ s ∈ k.children, ∀ t ∈ k'.children, R s t → S t s) : k'.Copied S k := by
  cases h with
  | literal h => exact .literal (Literal.equal_symm hk hk' h)
  | recursive => exact .recursive ..
  | custom name => exact .custom ..
  | object own h =>
      exact .object own (forall₂_imp_both h fun f hf g hg hfg =>
        ⟨hfg.1.symm, hS f.2 (List.mem_map_of_mem hf) g.2 (List.mem_map_of_mem hg) hfg.2⟩).flip
  | tuple h => exact .tuple (forall₂_imp_both h hS).flip
  | union h => exact .union (forall₂_imp_both h hS).flip
  | transformed h he =>
      exact .transformed (hS _ (List.mem_singleton_self _) _ (List.mem_singleton_self _) h)
        (he.symm hk hk')
  | array h | dict h | option h | null h | nullable h | jsonString h =>
      constructor
      exact hS _ (List.mem_singleton_self _) _ (List.mem_singleton_self _) h
  | _ => constructor

theorem trans (h : k.Copied R k') (h' : k'.Copied S k'')
    (hT : ∀ s ∈ k.children, ∀ t ∈ k'.children, ∀ u ∈ k''.children, R s t → S t u → T s u) :
    k.Copied T k'' := by
  cases h with
  | literal h => cases h' with
    | literal h' => exact .literal (Literal.equal_trans h h')
  | recursive => cases h'; exact .recursive ..
  | custom => cases h'; exact .custom ..
  | object own h => cases h' with
    | object _ h' =>
        exact .object own (forall₂_comp_mem h h' fun f hf g hg i hi hfg hgi =>
          ⟨hfg.1.trans hgi.1, hT f.2 (List.mem_map_of_mem hf) g.2 (List.mem_map_of_mem hg) i.2
            (List.mem_map_of_mem hi) hfg.2 hgi.2⟩)
  | tuple h => cases h' with
    | tuple h' => exact .tuple (forall₂_comp_mem h h' hT)
  | union h => cases h' with
    | union h' => exact .union (forall₂_comp_mem h h' hT)
  | transformed h he => cases h' with
    | transformed h' he' =>
        exact .transformed (hT _ (List.mem_singleton_self _) _ (List.mem_singleton_self _) _
          (List.mem_singleton_self _) h h') (he.trans he')
  | array h | dict h | option h | null h | nullable h | jsonString h =>
      cases h'
      constructor
      exact hT _ (List.mem_singleton_self _) _ (List.mem_singleton_self _) _
        (List.mem_singleton_self _) h ‹_›
  | _ => cases h'; constructor

end Kind.Copied

/-! ### The laws on nodes -/

namespace World.Hosts

variable {w : World} {nodes : List Schema} {a b c : Schema}

/-- **What equality says of two nodes**, with the short way for one node no exception. -/
theorem equal_iff (h : w.Hosts nodes) (hproper : ∀ s ∈ nodes, s.Proper) (ha : a ∈ nodes)
    (hb : b ∈ nodes) : a.Equal b ↔
      a.metadata.equal b.metadata = true ∧ a.kind.Copied Schema.Equal b.kind := by
  rw [Schema.equal_iff]
  refine ⟨fun hab => ?_, .inr⟩
  rcases hab with hid | hab
  · obtain rfl := h.identity a ha b hb hid
    exact ⟨Metadata.equal_refl (hproper a ha).metadata,
      .refl (hproper a ha).kind fun t _ => t.structurallyEqual_self⟩
  · exact hab

/-- **Equality of nodes is symmetric.** -/
theorem equal_symm (h : w.Hosts nodes) (hproper : ∀ s ∈ nodes, s.Proper) :
    ∀ a ∈ nodes, ∀ b ∈ nodes, a.Equal b → b.Equal a := by
  refine h.induction fun a ha ih b hb hab => ?_
  obtain ⟨hmetadata, hkind⟩ := (h.equal_iff hproper ha hb).1 hab
  refine (h.equal_iff hproper hb ha).2
    ⟨Metadata.equal_symm (hproper a ha).metadata (hproper b hb).metadata hmetadata,
      hkind.symm (hproper a ha).kind (hproper b hb).kind fun s hs t ht => ?_⟩
  exact ih s hs t (h.below b hb t ht).1

/-- **Equality of nodes is transitive.** -/
theorem equal_trans (h : w.Hosts nodes) (hproper : ∀ s ∈ nodes, s.Proper) :
    ∀ a ∈ nodes, ∀ b ∈ nodes, ∀ c ∈ nodes, a.Equal b → b.Equal c → a.Equal c := by
  refine h.induction fun a ha ih b hb c hc hab hbc => ?_
  obtain ⟨hmetadata, hkind⟩ := (h.equal_iff hproper ha hb).1 hab
  obtain ⟨hmetadata', hkind'⟩ := (h.equal_iff hproper hb hc).1 hbc
  refine (h.equal_iff hproper ha hc).2
    ⟨Metadata.equal_trans hmetadata hmetadata', hkind.trans hkind' fun s hs t ht u hu => ?_⟩
  exact ih s hs t (h.below b hb t ht).1 u (h.below c hc u hu).1

end World.Hosts

/-! ### Free entries -/

namespace Entries

variable {α : Type} {entries : List (String × α)} {key k : String} {value : α}

theorem find?_insert : find? k (insert key value entries) =
    if k = key then some value else find? k entries := by
  induction entries with
  | nil => simp [insert, find?, eq_comm]
  | cons e rest ih =>
      obtain ⟨name, v⟩ := e
      rw [insert]
      by_cases hname : name = key
      · subst hname
        by_cases hk : k = name
        · simp [find?, hk]
        · simp [find?, hk, Ne.symm hk]
      · rw [if_neg hname, find?, find?, ih]
        by_cases hk : name = k
        · subst hk
          rw [if_pos rfl, if_neg hname, if_pos rfl]
        · rw [if_neg hk, if_neg hk]

theorem mem_keys_insert : k ∈ keys (insert key value entries) ↔ k = key ∨ k ∈ keys entries := by
  rw [← not_iff_not, ← find?_eq_none_iff, find?_insert, not_or, ← find?_eq_none_iff]
  by_cases hk : k = key <;> simp [hk]

theorem nodup_insert (h : (keys entries).Nodup) : (keys (insert key value entries)).Nodup := by
  induction entries with
  | nil => simp [insert]
  | cons e rest ih =>
      obtain ⟨name, v⟩ := e
      obtain ⟨hnot, hrest⟩ := List.nodup_cons.1 h
      rw [insert]
      by_cases hname : name = key
      · subst hname
        rw [if_pos rfl]
        exact List.nodup_cons.2 ⟨hnot, hrest⟩
      · rw [if_neg hname]
        refine List.nodup_cons.2 ⟨fun hmem => ?_, ih hrest⟩
        exact (mem_keys_insert.1 hmem).elim hname hnot

namespace Reordered

variable {entries entries' : List (String × Value)} {a a' : Value}

/-- **Putting a value in**, in the place of an old one or at the end. -/
theorem insert (h : Reordered entries entries') (key : String) (ha : a.Reordered a') :
    Reordered (Entries.insert key a entries) (Entries.insert key a' entries') where
  left := nodup_insert h.left
  right := nodup_insert h.right
  find k := by
    rw [find?_insert, find?_insert]
    by_cases hk : k = key
    · rw [if_pos hk, if_pos hk]
      exact .some ha
    · rw [if_neg hk, if_neg hk]
      exact h.find k

/-- Entries of which each key finds the same are equal objects. -/
theorem equal (h : Reordered entries entries') :
    (Value.object entries).equal (.object entries') = true := by
  refine Value.equal_object h.right h.length_eq fun e he => ?_
  obtain ⟨a', ha'⟩ := h.exists_mem he
  exact ⟨a', ha', (h.of_mem he ha').equal⟩

end Reordered

end Entries

/-! ### Copies -/

/-- The computation gives this, in some world. -/
def MadeBy {α : Type} (x : Run α) (a : α) : Prop := ∃ w w', x w = .ok (a, w')

section

variable {α β : Type} {kind : Kind} {metadata : Metadata} {origin : Option Schema} {s t : Schema}

theorem MadeBy.of_bind {x : Run α} {f : α → Run β} {b : β} (h : MadeBy (x >>= f) b) :
    ∃ a, MadeBy x a ∧ MadeBy (f a) b := by
  obtain ⟨w, w'', h⟩ := h
  obtain ⟨a, w', hx, hf⟩ := of_bind_ok h
  exact ⟨a, ⟨w, w', hx⟩, w', w'', hf⟩

theorem MadeBy.of_pure {a b : α} (h : MadeBy (pure a) b) : b = a := by
  obtain ⟨w, w', h⟩ := h
  cases h
  rfl

theorem MadeBy.of_freshWith (h : MadeBy (Schema.freshWith kind metadata origin) s) :
    s.kind = kind ∧ s.metadata = metadata := by
  obtain ⟨w, w', h⟩ := h
  cases h
  exact ⟨rfl, rfl⟩

theorem MadeBy.of_withMetadata {update : Metadata → Metadata}
    (h : MadeBy (t.withMetadata update) s) : s.kind = t.kind ∧ s.metadata = update t.metadata := by
  obtain ⟨w, w', h⟩ := h
  cases h
  exact ⟨rfl, rfl⟩

end

namespace Scene

/-- **Made by the same constructor from equal parts**, each in a world of its own: whatever is
compiled, asked, configured or built there.  Parts that the constructor looks into are nodes of a
scene. -/
inductive Rebuilt (σ : Scene) : Schema → Schema → Prop
  | fresh {kind kind' : Kind} {s s' : Schema} : kind.Copied Schema.Equal kind' →
      MadeBy (Schema.fresh kind) s → MadeBy (Schema.fresh kind') s' → Rebuilt σ s s'
  | ofFields {fields fields' : List (String × Schema)} {s s' : Schema} :
      List.Forall₂ (fun f g => f.1 = g.1 ∧ f.2.Equal g.2) fields fields' →
      MadeBy (Schema.ofFields fields) (.ok s) → MadeBy (Schema.ofFields fields') (.ok s') →
      Rebuilt σ s s'
  | ofMembers {members members' : List Schema} {s s' : Schema} :
      List.Forall₂ Schema.Equal members members' →
      MadeBy (Schema.ofMembers members) (.ok s) → MadeBy (Schema.ofMembers members') (.ok s') →
      Rebuilt σ s s'
  | variant {external external' internal internal' : Literal} {s s' : Schema} :
      external.equal external' = true → internal.equal internal' = true →
      MadeBy (Schema.variant external internal) s →
      MadeBy (Schema.variant external' internal') s' → Rebuilt σ s s'
  | asVariant {t t' s s' : Schema} {internal internal' : Literal} : t ∈ σ.nodes → t' ∈ σ.nodes →
      t.Equal t' → internal.equal internal' = true → MadeBy (t.asVariant internal) s →
      MadeBy (t'.asVariant internal') s' → Rebuilt σ s s'
  | ofValue (v : Value) {s s' : Schema} : MadeBy (Schema.ofValue v) s →
      MadeBy (Schema.ofValue v) s' → Rebuilt σ s s'
  | recursive {build build' : Schema → Run Schema} {s s' : Schema} :
      (∀ p p', p.Equal p' → ∀ t t', MadeBy (build p) t → MadeBy (build' p') t' → t.Equal t') →
      MadeBy (Schema.recursive build) s → MadeBy (Schema.recursive build') s' → Rebuilt σ s s'
  | setName {t t' s s' : Schema} (name : String) : t ∈ σ.nodes → t' ∈ σ.nodes → t.Equal t' →
      MadeBy (t.setName name) s → MadeBy (t'.setName name) s' → Rebuilt σ s s'
  | describe {t t' s s' : Schema} (text : String) : t ∈ σ.nodes → t' ∈ σ.nodes → t.Equal t' →
      MadeBy (t.describe text) s → MadeBy (t'.describe text) s' → Rebuilt σ s s'
  | setDeprecation {t t' s s' : Schema} (text : String) : t ∈ σ.nodes → t' ∈ σ.nodes →
      t.Equal t' → MadeBy (t.setDeprecation text) s → MadeBy (t'.setDeprecation text) s' →
      Rebuilt σ s s'
  | setMetadata {t t' s s' : Schema} (key : String) {v v' : Value} : t ∈ σ.nodes →
      t' ∈ σ.nodes → t.Equal t' → v.Reordered v' → MadeBy (t.setMetadata key v) s →
      MadeBy (t'.setMetadata key v') s' → Rebuilt σ s s'
  | withPolicy {t t' s s' : Schema} (policy : UnknownKeys) : t ∈ σ.nodes → t' ∈ σ.nodes →
      t.Equal t' → MadeBy (t.withPolicy policy) s → MadeBy (t'.withPolicy policy) s' →
      Rebuilt σ s s'

end Scene

section

variable {kind kind' : Kind} {metadata metadata' : Metadata} {origin origin' : Option Schema}
  {s s' t t' : Schema}

/-- Nodes with equal metadata around equal parts. -/
theorem freshWith_equal (hkind : kind.Copied Schema.Equal kind')
    (hmetadata : metadata.equal metadata' = true)
    (h : MadeBy (Schema.freshWith kind metadata origin) s)
    (h' : MadeBy (Schema.freshWith kind' metadata' origin') s') : s.Equal s' := by
  obtain ⟨hk, hm⟩ := h.of_freshWith
  obtain ⟨hk', hm'⟩ := h'.of_freshWith
  exact Schema.equal_iff.2 (.inr ⟨by rwa [hm, hm'], by rwa [hk, hk']⟩)

theorem fresh_equal (hkind : kind.Copied Schema.Equal kind') (h : MadeBy (Schema.fresh kind) s)
    (h' : MadeBy (Schema.fresh kind') s') : s.Equal s' :=
  freshWith_equal hkind (Metadata.equal_refl Metadata.empty_proper) h h'

theorem variant_equal {external external' internal internal' : Literal}
    (hexternal : external.equal external' = true) (hinternal : internal.equal internal' = true)
    (h : MadeBy (Schema.variant external internal) s)
    (h' : MadeBy (Schema.variant external' internal') s') : s.Equal s' := by
  obtain ⟨base, hbase, h⟩ := h.of_bind
  obtain ⟨base', hbase', h'⟩ := h'.of_bind
  have hbases := fresh_equal (.literal hexternal) hbase hbase'
  exact fresh_equal (.transformed hbases (.variant hexternal hinternal)) h h'

/-- Whatever placeholders they are given, what is built around equal ones is equal. -/
theorem recursive_equal {build build' : Schema → Run Schema}
    (hbuild : ∀ p p', p.Equal p' → ∀ t t', MadeBy (build p) t → MadeBy (build' p') t' → t.Equal t')
    (h : MadeBy (Schema.recursive build) s) (h' : MadeBy (Schema.recursive build') s') :
    s.Equal s' := by
  -- the placeholder, what is built around it, and the binding, which gives that back
  have parts : ∀ {build : Schema → Run Schema} {s : Schema}, MadeBy (Schema.recursive build) s →
      ∃ r p, MadeBy (Schema.fresh (.recursive r)) p ∧ MadeBy (build p) s := by
    intro build s h
    obtain ⟨⟨r, p⟩, hp, h⟩ := h.of_bind
    obtain ⟨_, _, hp⟩ := hp.of_bind
    obtain ⟨_, hp, hpure⟩ := hp.of_bind
    cases hpure.of_pure
    obtain ⟨t, ht, h⟩ := h.of_bind
    obtain ⟨_, _, h⟩ := h.of_bind
    obtain rfl := h.of_pure
    exact ⟨r, p, hp, ht⟩
  obtain ⟨r, p, hp, h⟩ := parts h
  obtain ⟨r', p', hp', h'⟩ := parts h'
  exact hbuild p p' (fresh_equal (.recursive r r') hp hp') s s' h h'

mutual

/-- The schemas made of one value are equal. -/
theorem ofValue_equal : ∀ {v : Value} {s s' : Schema}, MadeBy (Schema.ofValue v) s →
    MadeBy (Schema.ofValue v) s' → s.Equal s'
  | .null, _, _, h, h' | .bool _, _, _, h, h' | .number _, _, _, h, h'
  | .string _, _, _, h, h' => by
      simp only [Schema.ofValue] at h h'
      refine fresh_equal (.literal (Literal.equal_refl ?_)) h h'
      trivial
  | .array items, _, _, h, h' => by
      rw [Schema.ofValue] at h h'
      obtain ⟨ts, hts, h⟩ := h.of_bind
      obtain ⟨ts', hts', h'⟩ := h'.of_bind
      exact fresh_equal (.tuple (ofItems_equal hts hts')) h h'
  | .object entries, _, _, h, h' => by
      rw [Schema.ofValue] at h h'
      obtain ⟨fields, hfields, h⟩ := h.of_bind
      obtain ⟨fields', hfields', h'⟩ := h'.of_bind
      exact fresh_equal (.object none (ofEntries_equal hfields hfields')) h h'

theorem ofItems_equal : ∀ {items : List Value} {ts ts' : List Schema},
    MadeBy (Schema.ofItems items) ts → MadeBy (Schema.ofItems items) ts' →
      List.Forall₂ Schema.Equal ts ts'
  | [], _, _, h, h' => by
      rw [Schema.ofItems] at h h'
      rw [h.of_pure, h'.of_pure]
      exact .nil
  | v :: rest, _, _, h, h' => by
      rw [Schema.ofItems] at h h'
      obtain ⟨s, hs, h⟩ := h.of_bind
      obtain ⟨s', hs', h'⟩ := h'.of_bind
      obtain ⟨ts, hts, h⟩ := h.of_bind
      obtain ⟨ts', hts', h'⟩ := h'.of_bind
      rw [h.of_pure, h'.of_pure]
      exact .cons (ofValue_equal hs hs') (ofItems_equal hts hts')

theorem ofEntries_equal : ∀ {entries : List (String × Value)}
    {fields fields' : List (String × Schema)}, MadeBy (Schema.ofEntries entries) fields →
      MadeBy (Schema.ofEntries entries) fields' →
      List.Forall₂ (fun f g => f.1 = g.1 ∧ f.2.Equal g.2) fields fields'
  | [], _, _, h, h' => by
      rw [Schema.ofEntries] at h h'
      rw [h.of_pure, h'.of_pure]
      exact .nil
  | (name, v) :: rest, _, _, h, h' => by
      rw [Schema.ofEntries] at h h'
      obtain ⟨s, hs, h⟩ := h.of_bind
      obtain ⟨s', hs', h'⟩ := h'.of_bind
      obtain ⟨fields, hfields, h⟩ := h.of_bind
      obtain ⟨fields', hfields', h'⟩ := h'.of_bind
      rw [h.of_pure, h'.of_pure]
      exact .cons ⟨rfl, ofValue_equal hs hs'⟩ (ofEntries_equal hfields hfields')

end

end

/-! ### Copies of nodes -/

section

variable {w : World} {nodes : List Schema} {s s' t t' : Schema}

namespace World.Hosts

variable (h : w.Hosts nodes) (hproper : ∀ s ∈ nodes, s.Proper) (ht : t ∈ nodes) (ht' : t' ∈ nodes)
  (hequal : t.Equal t')

include h hproper ht ht' hequal

theorem asVariant_equal {internal internal' : Literal}
    (hinternal : internal.equal internal' = true) (hs : MadeBy (t.asVariant internal) s)
    (hs' : MadeBy (t'.asVariant internal') s') : s.Equal s' := by
  have hkind := ((h.equal_iff hproper ht ht').1 hequal).2
  rw [Schema.asVariant] at hs hs'
  generalize t.kind = kind at hs hkind
  generalize t'.kind = kind' at hs' hkind
  cases hkind with
  | literal hexternal =>
      exact fresh_equal (.transformed hequal (.variant hexternal hinternal)) hs hs'
  | _ =>
      rw [hs.of_pure, hs'.of_pure]
      exact hequal

theorem withPolicy_equal {policy : UnknownKeys} (hs : MadeBy (t.withPolicy policy) s)
    (hs' : MadeBy (t'.withPolicy policy) s') : s.Equal s' := by
  obtain ⟨hmetadata, hkind⟩ := (h.equal_iff hproper ht ht').1 hequal
  rw [Schema.withPolicy] at hs hs'
  generalize t.kind = kind at hs hkind
  generalize t'.kind = kind' at hs' hkind
  cases hkind with
  | object own hfields => exact freshWith_equal (.object _ hfields) hmetadata hs hs'
  | _ =>
      rw [hs.of_pure, hs'.of_pure]
      exact hequal

/-- **Copies with metadata that are updated alike.** -/
theorem withMetadata_equal {update update' : Metadata → Metadata}
    (hupdate : ∀ m n : Metadata, m.Proper → n.Proper → m.equal n = true →
      (update m).equal (update' n) = true)
    (hs : MadeBy (t.withMetadata update) s) (hs' : MadeBy (t'.withMetadata update') s') :
    s.Equal s' := by
  obtain ⟨hmetadata, hkind⟩ := (h.equal_iff hproper ht ht').1 hequal
  obtain ⟨hk, hm⟩ := hs.of_withMetadata
  obtain ⟨hk', hm'⟩ := hs'.of_withMetadata
  refine Schema.equal_iff.2 (.inr ⟨?_, by rwa [hk, hk']⟩)
  rw [hm, hm']
  exact hupdate _ _ (hproper t ht).metadata (hproper t' ht').metadata hmetadata

end World.Hosts

/-- **Copies are equal.** -/
theorem Scene.Rebuilt.equal {σ : Scene} (hrebuilt : σ.Rebuilt s s')
    (h : σ.world.Hosts σ.nodes) (hproper : ∀ t ∈ σ.nodes, t.Proper) : s.Equal s' := by
  cases hrebuilt with
  | fresh hkind hs hs' => exact fresh_equal hkind hs hs'
  | ofFields hfields hs hs' =>
      have made : ∀ {fields : List (String × Schema)} {s : Schema},
          MadeBy (Schema.ofFields fields) (.ok s) →
          MadeBy (Schema.fresh (.object fields none)) s := by
        intro fields s hs
        rw [Schema.ofFields] at hs
        split at hs
        · cases hs.of_pure
        · obtain ⟨t, ht, hs⟩ := hs.of_bind
          cases hs.of_pure
          exact ht
      exact fresh_equal (.object none hfields) (made hs) (made hs')
  | ofMembers hmembers hs hs' =>
      have made : ∀ {members : List Schema} {s : Schema},
          MadeBy (Schema.ofMembers members) (.ok s) → MadeBy (Schema.fresh (.union members)) s := by
        intro members s hs
        rw [Schema.ofMembers] at hs
        split at hs
        · cases hs.of_pure
        · obtain ⟨t, ht, hs⟩ := hs.of_bind
          cases hs.of_pure
          exact ht
      exact fresh_equal (.union hmembers) (made hs) (made hs')
  | variant hexternal hinternal hs hs' => exact variant_equal hexternal hinternal hs hs'
  | asVariant ht ht' hequal hinternal hs hs' =>
      exact h.asVariant_equal hproper ht ht' hequal hinternal hs hs'
  | ofValue v hs hs' => exact ofValue_equal hs hs'
  | recursive hbuild hs hs' => exact recursive_equal hbuild hs hs'
  | setName name ht ht' hequal hs hs' =>
      refine h.withMetadata_equal hproper ht ht' hequal (fun m n _ _ hmn => ?_) hs hs'
      exact Metadata.equal_iff.2 ⟨rfl, (Metadata.equal_iff.1 hmn).2⟩
  | describe text ht ht' hequal hs hs' =>
      refine h.withMetadata_equal hproper ht ht' hequal (fun m n _ _ hmn => ?_) hs hs'
      obtain ⟨hname, -, hrest⟩ := Metadata.equal_iff.1 hmn
      exact Metadata.equal_iff.2 ⟨hname, rfl, hrest⟩
  | setDeprecation text ht ht' hequal hs hs' =>
      refine h.withMetadata_equal hproper ht ht' hequal (fun m n _ _ hmn => ?_) hs hs'
      obtain ⟨hname, hdescription, -, hcustom⟩ := Metadata.equal_iff.1 hmn
      exact Metadata.equal_iff.2 ⟨hname, hdescription, rfl, hcustom⟩
  | setMetadata key ht ht' hequal hv hs hs' =>
      refine h.withMetadata_equal hproper ht ht' hequal (fun m n hm hn hmn => ?_) hs hs'
      obtain ⟨hname, hdescription, hdeprecation, hcustom⟩ := Metadata.equal_iff.1 hmn
      have hentries : Entries.Reordered m.custom n.custom :=
        Value.Reordered.of_object ⟨hm, hn, hcustom⟩
      exact Metadata.equal_iff.2 ⟨hname, hdescription, hdeprecation, (hentries.insert key hv).equal⟩
  | withPolicy policy ht ht' hequal hs hs' => exact h.withPolicy_equal hproper ht ht' hequal hs hs'

end

namespace Scene

variable {σ τ : Scene}

/-! ### The equivalence -/

/-- **What the comparison of two identities says** in a scene. -/
def Compares (σ : Scene) (i j : NodeId) (r : Bool) : Prop :=
  ∃ a ∈ σ.nodes, ∃ b ∈ σ.nodes, a.id = i ∧ b.id = j ∧ a.structurallyEqual b = r

/-- **Structural equality is an equivalence** on the schemas of any scene, whatever their kinds and
whatever has been compiled, as long as their literals and metadata hold what can stand in a
document.  Every copy made by the same constructor from equal parts is equal to the schema, in
whatever world either was made.  And whatever comes next, the comparison says of the schemas what it
said. -/
theorem Arises.structurallyEqual_equivalence (hσ : σ.Arises) (hproper : ∀ s ∈ σ.nodes, s.Proper) :
    (∀ a ∈ σ.nodes, a.Equal a) ∧
    (∀ a ∈ σ.nodes, ∀ b ∈ σ.nodes, a.Equal b → b.Equal a) ∧
    (∀ a ∈ σ.nodes, ∀ b ∈ σ.nodes, ∀ c ∈ σ.nodes, a.Equal b → b.Equal c → a.Equal c) ∧
    (∀ a b, σ.Rebuilt a b → a.Equal b) ∧
    (∀ τ, σ.Continues τ → ∀ a ∈ σ.nodes, ∀ b ∈ σ.nodes, ∀ r,
      τ.Compares a.id b.id r ↔ a.structurallyEqual b = r) := by
  have hosts := hσ.invariants.1.hosts
  refine ⟨fun a _ => a.structurallyEqual_self, hosts.equal_symm hproper, hosts.equal_trans hproper,
    fun a b hab => hab.equal hosts hproper, fun τ hτ a ha b hb r => ?_⟩
  obtain ⟨hτ, hnodes⟩ := hσ.continues hτ
  have identity := hτ.invariants.1.hosts.identity
  constructor
  · rintro ⟨a', ha', b', hb', hida, hidb, hr⟩
    obtain rfl := identity a' ha' a (hnodes ha) hida
    obtain rfl := identity b' hb' b (hnodes hb) hidb
    exact hr
  · intro hr
    exact ⟨a, hnodes ha, b, hnodes hb, rfl, rfl, hr⟩

/-! ### Two not-a-numbers -/

/-- Not-a-number as a literal. -/
def noNumber : Schema := .node 0 (.literal (.number .nan)) Metadata.empty none

/-- The same literal with two free entries. -/
def noNumberNoted : Schema :=
  .node 1 (.literal (.number .nan)) ⟨none, none, none, [("a", .null), ("b", .null)]⟩ (some noNumber)

/-- The same literal with the entries in the other order. -/
def noNumberNotedBack : Schema :=
  .node 2 (.literal (.number .nan)) ⟨none, none, none, [("b", .null), ("a", .null)]⟩ (some noNumber)

/-- The world with a copy. -/
def copiedOnce : World :=
  { World.initial with
    nextNode := 2
    parseCells := updateAt World.initial.parseCells 1 .empty
    serializeCells := updateAt World.initial.serializeCells 1 .empty
    asyncCells := updateAt World.initial.asyncCells 1 .empty }

/-- The scene of the literals. -/
def noNumbers : Scene where
  world :=
    { copiedOnce with
      nextNode := 3
      parseCells := updateAt copiedOnce.parseCells 2 .empty
      serializeCells := updateAt copiedOnce.serializeCells 2 .empty
      asyncCells := updateAt copiedOnce.asyncCells 2 .empty }
  nodes := [noNumberNotedBack, noNumberNoted, noNumber]

theorem noNumbers_arises : noNumbers.Arises := by
  have h₁ : Step .building initial ⟨made 1 0, [noNumber]⟩ :=
    .made (fun t ht => by cases ht) trivial
  have hcopy : noNumber.withMetadata (fun m => { m with custom := [("a", .null), ("b", .null)] })
      (made 1 0) = .ok (noNumberNoted, copiedOnce) := rfl
  have hback : noNumber.withMetadata (fun m => { m with custom := [("b", .null), ("a", .null)] })
      copiedOnce = .ok (noNumberNotedBack, noNumbers.world) := rfl
  have h₂ : Step .building ⟨made 1 0, [noNumber]⟩ ⟨copiedOnce, [noNumberNoted, noNumber]⟩ :=
    .withMetadata _ (List.mem_singleton_self _) hcopy
  have h₃ : Step .building ⟨copiedOnce, [noNumberNoted, noNumber]⟩ noNumbers :=
    .withMetadata _ (List.mem_cons_of_mem _ (List.mem_singleton_self _)) hback
  exact .tail (.tail (.single (.inl ⟨_, h₁⟩)) (.inl ⟨_, h₂⟩)) (.inl ⟨_, h₃⟩)

/-- The order of the entries does not matter, and not-a-number equals itself. -/
theorem structurallyEqual_equivalence_noNumbers :
    noNumbers.Arises ∧ noNumberNoted.Equal noNumberNotedBack ∧
      noNumberNotedBack.Equal noNumberNoted := by
  have hproper : ∀ s ∈ noNumbers.nodes, s.Proper := by
    intro s hs
    simp only [noNumbers, List.mem_cons, List.not_mem_nil, or_false] at hs
    rcases hs with rfl | rfl | rfl <;>
      exact ⟨trivial, by simp [Metadata.Proper, Schema.metadata, noNumber, noNumberNoted,
        noNumberNotedBack, Metadata.empty, Value.WellFormed, Value.WellFormedEntries]⟩
  have hequal : noNumberNoted.Equal noNumberNotedBack := by
    refine Schema.equal_iff.2 (.inr ⟨?_, .literal rfl⟩)
    simp [noNumberNoted, noNumberNotedBack, Schema.metadata, Metadata.equal, Value.equal,
      Value.entriesIn, Entries.find?]
  obtain ⟨-, hsymm, -⟩ := noNumbers_arises.structurallyEqual_equivalence hproper
  exact ⟨noNumbers_arises, hequal, hsymm _ (by simp [noNumbers]) _ (by simp [noNumbers]) hequal⟩

end Scene

end Schemata
