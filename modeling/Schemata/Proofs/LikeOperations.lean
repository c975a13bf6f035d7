/-
**Kinds that are alike are compiled to the same.**

The operation of a kind is put together from the operations of its children, from what its own
functions do, and from what is read off the world while it is compiled: the policy of objects, the
members that are the union itself, and whether a reference can be followed.  Two kinds that are
alike have operations that come to the same, if their children do and if that is the same.

Main definitions:

* `Schemata.OperationsLike`, `Schemata.ParsersLike` — operations that come to the same, and are left
  out together.

Main results:

* `Schemata.Kind.Like.parser`, `Schemata.Kind.Like.serializer` — **operations of kinds that are
  alike**, references apart.
-/

import Schemata.Proofs.Likeness

set_option relaxedAutoImplicit false
set_option autoImplicit false

namespace Schemata

/-- **Operations that come to the same on every value**, and that are left out together where an
operation that does nothing is. -/
structure OperationsLike (W W' : World → Prop) (m m' : Machine) (op op' : Operation) : Prop where
  noop : op.isNoop = op'.isNoop
  run : RunsLike W W' m m' op op'

/-- **Parse operations that come to the same**, at once and in steps. -/
structure ParsersLike (W W' : World → Prop) (P : Reference → Prop)
    (L : ParseOperation → ParseOperation → Prop) (m m' : Machine) (op op' : ParseOperation) :
    Prop where
  once : OperationsLike W W' m m' op.atOnce op'.atOnce
  stage : StagesLike W W' (Task.Like P L) m m' op op'

section

variable {W W' : World → Prop} {P : Reference → Prop} {L : ParseOperation → ParseOperation → Prop}
  {m m' : Machine} {op op' : Operation} {ops ops' : List Operation}

theorem ParsersLike.direct (h : OperationsLike W W' m m' op op') :
    ParsersLike W W' P L m m' (.direct op) (.direct op') := ⟨h, .direct h.run⟩

/-- Operations that wait fail alike when nothing may wait. -/
theorem ParsersLike.of_isAsync {p p' : ParseOperation} (hp : p.isAsync = true)
    (hp' : p'.isAsync = true) (h : StagesLike W W' (Task.Like P L) m m' p p') :
    ParsersLike W W' P L m m' p p' where
  once := by
    rw [ParseOperation.atOnce_of_isAsync hp, ParseOperation.atOnce_of_isAsync hp']
    exact ⟨rfl, .fail _⟩
  stage := h

/-! ### Shortcuts -/

theorem OperationsLike.all_isNoop (h : List.Forall₂ (OperationsLike W W' m m') ops ops') :
    ops.all Operation.isNoop = ops'.all Operation.isNoop :=
  all_eq_of_forall₂ (h.imp fun _ _ hop => hop.noop)

/-- **The shortcut of composites is taken alike.** -/
theorem OperationsLike.unlessAllNoop (hops : List.Forall₂ (OperationsLike W W' m m') ops ops')
    (h : OperationsLike W W' m m' op op') :
    OperationsLike W W' m m' (unlessAllNoop ops op) (unlessAllNoop ops' op') := by
  rw [Schemata.unlessAllNoop, Schemata.unlessAllNoop, all_isNoop hops]
  split
  · exact ⟨rfl, .noop⟩
  · exact h

theorem OperationsLike.unlessNoop {inner inner' : Operation}
    (hinner : OperationsLike W W' m m' inner inner') (h : OperationsLike W W' m m' op op') :
    OperationsLike W W' m m' (Schemata.unlessAllNoop [inner] op)
      (Schemata.unlessAllNoop [inner'] op') := .unlessAllNoop (.cons hinner .nil) h

/-- The shortcut of objects is taken alike. -/
theorem OperationsLike.objectSerializer {fields fields' : List (String × Operation)}
    (h : List.Forall₂ (fun f g => f.1 = g.1 ∧ OperationsLike W W' m m' f.2 g.2) fields fields')
    (expected : Thunk String) (omitted : List String) :
    OperationsLike W W' m m' (objectSerializer expected fields omitted)
      (objectSerializer expected fields' omitted) := by
  have hnoop : (fields.all fun f => f.2.isNoop) = fields'.all fun f => f.2.isNoop :=
    all_eq_of_forall₂ (h.imp fun _ _ hf => hf.2.noop)
  rw [Schemata.objectSerializer, Schemata.objectSerializer, hnoop]
  split
  · exact ⟨rfl, .noop⟩
  · exact ⟨rfl, .serializeObject (h.imp fun _ _ hf => ⟨hf.1, hf.2.run⟩) expected omitted⟩

/-! ### Effects -/

section

variable (hm : MachinesAlike W W' P (Task.Like P L) m m') {h h' : Handlers} {e e' : Effect}

include hm

/-- An effect around a base that does not wait. -/
theorem Effect.Like.parseAround (he : e.Like e') (href : ∀ r ∈ e.references, P r)
    (hop : OperationsLike W W' m m' op op') :
    OperationsLike W W' m m' (e.parseAround op) (e'.parseAround op') := by
  cases he with
  | @transform h h' hl =>
      obtain ⟨p, q⟩ := h
      obtain ⟨p', q'⟩ := h'
      cases hl.parser with
      | none => exact ⟨rfl, .fail _⟩
      | async => exact ⟨rfl, .fail _⟩
      | direct f =>
          exact ⟨rfl, .thenApply hm (fun r hr => href r (List.mem_append_left _ hr)) hop.run _⟩
  | @preprocess h h' hl =>
      obtain ⟨p, q⟩ := h
      obtain ⟨p', q'⟩ := h'
      cases hl.parser with
      | none => exact ⟨rfl, .fail _⟩
      | async => exact ⟨rfl, .fail _⟩
      | direct f =>
          exact ⟨rfl, .applyFirst hm (fun r hr => href r (List.mem_append_left _ hr)) hop.run _⟩
  | refine message test => exact ⟨rfl, .thenCheck hm hop.run message test⟩
  | refineAsync => exact ⟨rfl, .fail _⟩
  | recover fallback => exact ⟨rfl, .recover hop.run fallback⟩
  | variant external internal => exact ⟨rfl, .thenConstant hop.run _⟩
  | getOr supply => exact ⟨rfl, .orSupply hm hop.run supply⟩

/-- An effect that waits, or around a base that does. -/
theorem Effect.Like.stageAround (he : e.Like e') (href : ∀ r ∈ e.references, P r)
    {p p' : ParseOperation} (hop : StagesLike W W' (Task.Like P L) m m' p p') (hL : L p p') :
    StagesLike W W' (Task.Like P L) m m' (e.stageAround p) (e'.stageAround p') := by
  have hT := Task.Like.congruent P L
  cases he with
  | @transform h h' hl =>
      obtain ⟨q, _⟩ := h
      obtain ⟨q', _⟩ := h'
      cases hl.parser with
      | none => exact .ready (.fail _)
      | direct f =>
          have hf : ∀ r ∈ f.references, P r := fun r hr => href r (List.mem_append_left _ hr)
          exact .thenApply hm hT hop hf (.apply hf)
      | @async f f' hbody hannounce =>
          have hf : ∀ r ∈ f.body.references, P r := fun r hr => href r (List.mem_append_left _ hr)
          exact .thenApplyAsync hm hT hop hannounce (fun v => hbody ▸ .call _ _ v hf)
            (.applyAsync hbody hannounce hf)
  | @preprocess h h' hl =>
      obtain ⟨q, _⟩ := h
      obtain ⟨q', _⟩ := h'
      cases hl.parser with
      | none => exact .ready (.fail _)
      | direct f =>
          exact .applyFirst hm hop fun r hr => href r (List.mem_append_left _ hr)
      | @async f f' hbody hannounce =>
          have hf : ∀ r ∈ f.body.references, P r := fun r hr => href r (List.mem_append_left _ hr)
          exact .applyAsyncFirst hm hT hannounce (fun v => hbody ▸ .call _ _ v hf) (.parse hL)
  | refine message test => exact .thenCheck hm hT hop (.check message test)
  | refineAsync message htest => exact .thenCheckAsync hT hop (.checkAsync htest)
  | recover fallback => exact .recover hT hop fallback
  | variant external internal => exact .thenConstant hT hop (.constant _)
  | getOr supply => exact .orSupply hm hT hop (.orSupply supply)

/-- An effect in front of a base. -/
theorem Effect.Like.serializeAround (he : e.Like e') (href : ∀ r ∈ e.references, P r)
    {c c' : Compiled Operation} (hop : OperationsLike W W' m m' c.operation c'.operation)
    (id id' : NodeId) :
    OperationsLike W W' m m' (e.serializeAround id c).operation
      (e'.serializeAround id' c').operation := by
  cases he with
  | @transform h h' hl =>
      have hs := hl.serializer
      obtain ⟨_, _ | f⟩ := h <;> obtain ⟨_, _ | f'⟩ := h' <;> cases hs
      · exact ⟨rfl, .fail _⟩
      · exact ⟨rfl, .applyFirst hm (fun r hr => href r (List.mem_append_right _ hr)) hop.run _⟩
  | @preprocess h h' hl =>
      have hs := hl.serializer
      obtain ⟨_, _ | f⟩ := h <;> obtain ⟨_, _ | f'⟩ := h' <;> cases hs
      · exact ⟨rfl, .fail _⟩
      · exact ⟨rfl, .thenApply hm (fun r hr => href r (List.mem_append_right _ hr)) hop.run _⟩
  | refine message test => exact ⟨rfl, .checkFirst hm hop.run message test⟩
  | refineAsync => exact hop
  | recover => exact hop
  | variant external internal => exact ⟨rfl, .exchange hop.run _ _⟩
  | getOr => exact hop

/-- A leaf with functions of its own. -/
theorem Handlers.Like.customOperation (hl : h.Like h') (href : ∀ r ∈ h.references, P r)
    (name : String) :
    OperationsLike W W' m m' (customOperation name h) (customOperation name h') := by
  obtain ⟨p, q⟩ := h
  obtain ⟨p', q'⟩ := h'
  cases hl.parser with
  | none => exact ⟨rfl, .fail _⟩
  | async => exact ⟨rfl, .fail _⟩
  | direct f => exact ⟨rfl, .apply hm (fun r hr => href r (List.mem_append_left _ hr)) _⟩

end

/-! ### Kinds -/

section

variable {R : Schema → Schema → Prop} {kind kind' : Kind} {w w' : World} {id id' : NodeId}

/-- Lists made of lists side by side, of which some elements are told apart alike. -/
theorem forall₂_map_ite {α β : Type} {Q : α → β → Prop} {l l' : List Schema}
    {test test' : Schema → Bool}
    {a : α} {b : β} {f : Schema → α} {g : Schema → β} (h : List.Forall₂ R l l')
    (htest : List.Forall₂ (fun s s' => test s = test' s') l l') (hab : Q a b)
    (hf : ∀ s ∈ l, ∀ s', R s s' → Q (f s) (g s')) :
    List.Forall₂ Q (l.map fun s => if test s then a else f s)
      (l'.map fun s => if test' s then b else g s) := by
  induction h with
  | nil => exact .nil
  | @cons s s' _ _ hs _ ih =>
      cases htest with
      | cons hst htest =>
          refine .cons ?_ (ih htest fun t ht => hf t (List.mem_cons_of_mem _ ht))
          dsimp only
          rw [hst]
          split
          · exact hab
          · exact hf s (List.mem_cons_self ..) s' hs

/-- The members of a union that are the union itself stand at the same places. -/
def Kind.SameTests (w w' : World) (kind kind' : Kind) : Prop :=
  ∀ members members', kind = .union members → kind' = .union members' →
    List.Forall₂ (fun s s' => refersBack w (members.map Schema.id) s =
      refersBack w' (members'.map Schema.id) s') members members'

/-- Objects have the same policy. -/
def Kind.SamePolicy (w w' : World) (kind : Kind) : Prop :=
  ∀ fields own, kind = .object fields own → policyOf w own = policyOf w' own

section

variable (hm : MachinesAlike W W' P (Task.Like P L) m m')
  (hR : ∀ s s', R s s' → s.kind.Like R s'.kind) (hk : kind.Like R kind')
  (href : ∀ r ∈ kind.references, P r) (htests : kind.SameTests w w' kind')

include hm hR hk href htests

section

variable {below below' : Schema → ParseOperation} (hpolicy : kind.SamePolicy w w')
  (hbelow : ∀ t ∈ kind.children, ∀ t', R t t' → ParsersLike W W' P L m m' (below t) (below' t'))
  (hnot : ∀ r, kind ≠ .recursive r)

include hpolicy hbelow hnot

/-- The operation of a kind that does not wait. -/
theorem Kind.Like.directParser :
    OperationsLike W W' m m' (kind.directParser w id below)
      (kind'.directParser w' id' below') := by
  have hname := Kind.expectedName_like hR hk
  cases hk with
  | @leaf kind hleaf =>
      cases kind with
      | unknown | json => exact ⟨rfl, .noop⟩
      | never | unit | string | bool | int | float => exact ⟨rfl, .scalar _ _ _⟩
      | literal l => exact ⟨rfl, .literal _ l⟩
      | recursive r => exact absurd rfl (hnot r)
      | _ => cases hleaf
  | custom name hl => exact hl.customOperation hm href name
  | array hs =>
      simp only [Kind.directParser, hname]
      exact ⟨rfl, .array (hbelow _ (List.mem_singleton_self _) _ hs).once.run _ _⟩
  | dict hs =>
      simp only [Kind.directParser, hname]
      exact ⟨rfl, .dict (hbelow _ (List.mem_singleton_self _) _ hs).once.run _ _⟩
  | @object fields _ own hfields =>
      simp only [Kind.directParser, hname, hpolicy fields own rfl]
      refine ⟨rfl, .parseObject
        (forall₂_map (forall₂_imp_mem hfields fun f hf g hfg => ?_) fun _ _ h => h) _ _⟩
      exact ⟨hfg.1, (hbelow f.2 (List.mem_map_of_mem hf) g.2 hfg.2).once.run⟩
  | tuple hitems =>
      simp only [Kind.directParser, hname]
      exact ⟨rfl, .tuple (forall₂_map (forall₂_imp_mem hitems hbelow) fun _ _ h => h.once.run) _ _⟩
  | option hs | null hs | nullable hs =>
      have hs := (hbelow _ (List.mem_singleton_self _) _ hs).once
      exact .unlessNoop hs ⟨rfl, .unlessNull hs.run⟩
  | @union members members' hmembers =>
      simp only [Kind.directParser, tags_like hR .input hmembers]
      refine ⟨rfl, .parseUnion ?_ _⟩
      have hall := forall₂_map_ite hmembers (htests members members' rfl rfl)
        (ParsersLike.direct (P := P) (L := L) ⟨rfl, RunsLike.fail (selfMemberError .parsing)⟩) hbelow
      rw [show (members.map fun s => (memberParser w (members.map Schema.id) below s).atOnce) =
          (members.map (memberParser w (members.map Schema.id) below)).map ParseOperation.atOnce by
        rw [List.map_map]; rfl,
        show (members'.map fun s => (memberParser w' (members'.map Schema.id) below' s).atOnce) =
          (members'.map (memberParser w' (members'.map Schema.id) below')).map
            ParseOperation.atOnce by
        rw [List.map_map]; rfl]
      exact forall₂_map hall fun _ _ h => h.once.run
  | jsonString hs =>
      simp only [Kind.directParser, hname]
      exact ⟨rfl, .decodeText (hbelow _ (List.mem_singleton_self _) _ hs).once.run _⟩
  | transformed hs he =>
      exact he.parseAround hm href (hbelow _ (List.mem_singleton_self _) _ hs).once

/-- The operation of a kind that waits. -/
theorem Kind.Like.stagedParser
    (hL : ∀ t ∈ kind.children, ∀ t', R t t' → L (below t) (below' t')) :
    StagesLike W W' (Task.Like P L) m m' (kind.stagedParser w id below)
      (kind'.stagedParser w' id' below') := by
  have hname := Kind.expectedName_like hR hk
  have hT := Task.Like.congruent P L
  cases hk with
  | @leaf kind hleaf =>
      cases kind with
      | unknown | json => exact .ready .noop
      | never | unit | string | bool | int | float => exact .ready (.scalar _ _ _)
      | literal l => exact .ready (.literal _ l)
      | recursive r => exact absurd rfl (hnot r)
      | _ => cases hleaf
  | @custom name h h' hl =>
      have hcustom := hl.customOperation hm href name
      obtain ⟨p, q⟩ := h
      obtain ⟨p', q'⟩ := h'
      cases hl.parser with
      | none | direct => exact .ready hcustom.run
      | @async f f' hbody hannounce =>
          have hf : ∀ r ∈ f.body.references, P r := fun r hr => href r (List.mem_append_left _ hr)
          exact .applyAsync hm hannounce fun v => hbody ▸ .call _ _ v hf
  | array hs =>
      simp only [Kind.stagedParser, hname]
      exact .array hT (hbelow _ (List.mem_singleton_self _) _ hs).stage _
  | dict hs =>
      simp only [Kind.stagedParser, hname]
      exact .dict hT (hbelow _ (List.mem_singleton_self _) _ hs).stage _
  | @object fields _ own hfields =>
      simp only [Kind.stagedParser, hname, hpolicy fields own rfl]
      refine .object hT (forall₂_map (forall₂_imp_mem hfields fun f hf g hfg => ?_) fun _ _ h => h) _ _
      exact ⟨hfg.1, (hbelow f.2 (List.mem_map_of_mem hf) g.2 hfg.2).stage⟩
  | tuple hitems =>
      simp only [Kind.stagedParser, hname]
      exact .tuple hT (forall₂_map (forall₂_imp_mem hitems hbelow) fun _ _ h => h.stage) _
  | option hs | null hs | nullable hs =>
      exact .unlessNull (hbelow _ (List.mem_singleton_self _) _ hs).stage
  | @union members members' hmembers =>
      refine .union hT ((forall₂_map_ite hmembers (htests members members' rfl rfl)
        (ParsersLike.direct ⟨rfl, RunsLike.fail (selfMemberError .parsing)⟩) hbelow).imp
          fun _ _ h => h.stage)
  | jsonString hs =>
      simp only [Kind.stagedParser, hname]
      exact .decodeText (hbelow _ (List.mem_singleton_self _) _ hs).stage _
  | transformed hs he =>
      exact he.stageAround hm href (hbelow _ (List.mem_singleton_self _) _ hs).stage
        (hL _ (List.mem_singleton_self _) _ hs)

/-- **Parse operations of kinds that are alike.** -/
theorem Kind.Like.parser (waits : Bool)
    (hL : ∀ t ∈ kind.children, ∀ t', R t t' → L (below t) (below' t')) :
    ParsersLike W W' P L m m' (kind.parser w id waits below) (kind'.parser w' id' waits below') := by
  cases waits with
  | false => exact .direct (hk.directParser hm hR href htests hpolicy hbelow hnot)
  | true =>
      exact .of_isAsync (Kind.stagedParser_isAsync ..) (Kind.stagedParser_isAsync ..)
        (hk.stagedParser hm hR href htests hpolicy hbelow hnot hL)

end

/-- **Serialize operations of kinds that are alike.** -/
theorem Kind.Like.serializer {below below' : Schema → Compiled Operation}
    (hbelow : ∀ t ∈ kind.children, ∀ t', R t t' →
      OperationsLike W W' m m' (below t).operation (below' t').operation)
    (hnot : ∀ r, kind ≠ .recursive r) :
    OperationsLike W W' m m' (kind.serializer w id below).operation
      (kind'.serializer w' id' below').operation := by
  have hname := Kind.expectedName_like hR hk
  cases hk with
  | @leaf kind hleaf =>
      cases kind with
      | never => exact ⟨rfl, .scalar _ _ _⟩
      | unknown | json | unit | string | bool | int | float => exact ⟨rfl, .noop⟩
      | literal l => exact ⟨rfl, .literal _ l⟩
      | recursive r => exact absurd rfl (hnot r)
      | _ => cases hleaf
  | @custom name h h' hl =>
      have hs := hl.serializer
      obtain ⟨_, _ | f⟩ := h <;> obtain ⟨_, _ | f'⟩ := h' <;> cases hs
      · exact ⟨rfl, .fail _⟩
      · exact ⟨rfl, .apply hm (fun r hr => href r (List.mem_append_right _ hr)) _⟩
  | array hs =>
      simp only [Kind.serializer, hname]
      have hs := hbelow _ (List.mem_singleton_self _) _ hs
      exact .unlessNoop hs ⟨rfl, .array hs.run _ _⟩
  | dict hs =>
      simp only [Kind.serializer, hname]
      have hs := hbelow _ (List.mem_singleton_self _) _ hs
      exact .unlessNoop hs ⟨rfl, .dict hs.run _ _⟩
  | @object fields _ own hfields =>
      simp only [Kind.serializer, hname, omittedFields_like hR hfields]
      refine .objectSerializer
        (forall₂_map (forall₂_imp_mem hfields fun f hf g hfg => ?_) fun _ _ h => h) _ _
      exact ⟨hfg.1, hbelow f.2 (List.mem_map_of_mem hf) g.2 hfg.2⟩
  | tuple hitems =>
      simp only [Kind.serializer, hname]
      have hall := forall₂_map (f := fun s => (below s).operation) (g := fun s => (below' s).operation)
        (forall₂_imp_mem hitems hbelow) fun _ _ h => h
      exact .unlessAllNoop hall ⟨rfl, .tuple (hall.imp fun _ _ h => h.run) _ _⟩
  | option hs | null hs | nullable hs =>
      have hs := hbelow _ (List.mem_singleton_self _) _ hs
      exact .unlessNoop hs ⟨rfl, .unlessNull hs.run⟩
  | @union members members' hmembers =>
      simp only [Kind.serializer, tags_like hR .output hmembers]
      refine ⟨rfl, .serializeUnion ?_ _⟩
      exact forall₂_map_ite hmembers (htests members members' rfl rfl) (.fail _)
        fun s hs s' hss => (hbelow s hs s' hss).run
  | jsonString hs => exact ⟨rfl, .encodeText (hbelow _ (List.mem_singleton_self _) _ hs).run⟩
  | transformed hs he =>
      exact he.serializeAround hm href (hbelow _ (List.mem_singleton_self _) _ hs) id id'

end

end

end

end Schemata
