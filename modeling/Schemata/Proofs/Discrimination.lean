/-
**A member whose tag a value does not carry is certain to fail.**

The tag of a schema is read off its kind, through refinements and transforms, and off the first
field of an object that has one.  A value that does not carry it is refused wherever the tag was
found: by the literal itself, or by the literal in the field under that name, whose value the fields
parsed before it have not taken away.

Main definitions:

* `Schemata.Fails` — an operation that never succeeds on a value.

Main results:

* `Schemata.Literal.accepts_iff_equal` — primitive literals accept what is equal to them;
* `Schemata.World.Sound.fails_of_not_admitted` — **the certain failure**.
-/

import Schemata.Proofs.Lookup
import Schemata.Proofs.Steadiness

set_option relaxedAutoImplicit false
set_option autoImplicit false

namespace Schemata

/-! ### Literals and tags -/

theorem Binary64.same_comm (x y : Binary64) : x.same y = y.same x := by
  cases x with
  | nan => cases y <;> rfl
  | infinity a =>
      cases y with
      | infinity b => exact Bool.beq_comm
      | _ => rfl
  | finite a m =>
      cases y with
      | finite b n =>
          change (m == n && (a == b || m == 0)) = (n == m && (b == a || n == 0))
          by_cases hmn : m = n
          · subst hmn
            cases a <;> cases b <;> rfl
          · rw [beq_eq_false_iff_ne.2 hmn, beq_eq_false_iff_ne.2 (Ne.symm hmn)]
            rfl
      | _ => rfl

/-- **A primitive literal accepts what is equal to it.** -/
theorem Literal.accepts_iff_equal {l : Literal} (hl : l.isPrimitive = true) (v : Value) :
    l.accepts v = l.equal (Literal.ofValue v) := by
  cases l with
  | composite a => cases hl
  | number x =>
      cases v with
      | number n => exact Binary64.same_comm _ _
      | _ => rfl
  | _ => cases v <;> rfl

theorem primitiveOnly_eq_some {l l' : Literal} (h : primitiveOnly l = some l') :
    l' = l ∧ l.isPrimitive = true := by
  rw [primitiveOnly] at h
  split at h
  · rename_i hl
    exact ⟨(Option.some.inj h).symm, hl⟩
  · cases h

/-- A literal that a kind shows is its tag, on the value itself. -/
theorem Kind.tag?_of_literalTag? {side : Side} {kind : Kind} {l : Literal}
    (h : kind.literalTag? side = some l) : kind.tag? side = some ⟨none, l⟩ := by
  cases kind with
  | literal l' =>
      rw [Kind.literalTag?] at h
      simp [Kind.tag?, h]
  | transformed base effect => simp only [Kind.tag?, h]
  | _ => cases h

/-- The tag of an object stands in one of its fields. -/
theorem fieldTag?_eq_some {side : Side} {g : Tag} : ∀ {fields : List (String × Schema)},
    fieldTag? side fields = some g →
      ∃ name s l, (name, s) ∈ fields ∧ s.kind.literalTag? side = some l ∧ g = ⟨some name, l⟩
  | [], h => by cases h
  | (name, s) :: rest, h => by
      rw [fieldTag?] at h
      split at h
      · rename_i l hl
        cases h
        exact ⟨name, s, l, List.mem_cons_self .., hl, rfl⟩
      · obtain ⟨name', s', l, hm, hl, hg⟩ := fieldTag?_eq_some h
        exact ⟨name', s', l, List.mem_cons_of_mem _ hm, hl, hg⟩

/-! ### Operations that fail -/

/-- Whatever the computation gives is an error. -/
def GivesError {α : Type} (c : Run (Except Error α)) : Prop :=
  ∀ w r w', c w = .ok (r, w') → ∃ e, r = .error e

/-- **The operation never succeeds on the value.** -/
def Fails (m : Machine) (op : Operation) (v : Value) : Prop := GivesError (op.run m v)

section

variable {α β : Type} {m : Machine} {base : Operation} {v : Value}

theorem GivesError.pure (e : Error) : GivesError (pure (.error e) : Run (Except Error α)) := by
  intro w r w' h
  cases h
  exact ⟨e, rfl⟩

/-- What fails at first fails as a whole, when an error is handed on. -/
theorem GivesError.bind {c : Run (Except Error α)} {f : Except Error α → Run (Except Error β)}
    (hc : GivesError c) (hf : ∀ e, GivesError (f (.error e))) : GivesError (c >>= f) := by
  intro w r w'' h
  obtain ⟨a, w', h₁, h₂⟩ := of_bind_ok h
  obtain ⟨e, rfl⟩ := hc w a w' h₁
  exact hf e w' r w'' h₂

/-- What fails afterwards, whatever came first, fails as a whole. -/
theorem GivesError.bind_right {c : Run α} {f : α → Run (Except Error β)}
    (hf : ∀ a, GivesError (f a)) : GivesError (c >>= f) := by
  intro w r w'' h
  obtain ⟨a, w', -, h₂⟩ := of_bind_ok h
  exact hf a w' r w'' h₂

theorem Fails.fail (e : Error) : Fails m (.fail e) v := .pure e

theorem Fails.thenApply (h : Fails m base v) (direction : Direction) (f : Action) :
    Fails m (.thenApply direction base f) v := GivesError.bind h fun e => .pure e

theorem Fails.thenCheck (h : Fails m base v) (message : String) (test : Test) :
    Fails m (.thenCheck message test base) v := GivesError.bind h fun e => .pure e

theorem Fails.thenConstant (h : Fails m base v) (value : Value) :
    Fails m (.thenConstant value base) v := GivesError.bind h fun e => .pure e

theorem Fails.orSupply (h : Fails m base v) (supply : Supply) :
    Fails m (.orSupply supply base) v := GivesError.bind h fun e => .pure e

theorem Fails.literal {l : Literal} (h : l.accepts v = false) (direction : Direction) :
    Fails m (.literal direction l) v := by
  rw [Fails, Operation.run, h]
  exact .pure _

/-- **A field that refuses its value makes the fields fail**; the fields before it take other keys
out. -/
theorem runFields_givesError {name : String} {field : Runner} :
    ∀ {fields : List (String × Runner)} {entries : List (String × Value)},
      (Entries.keys fields).Nodup → (Entries.keys entries).Nodup → (name, field) ∈ fields →
      GivesError (field ((Entries.find? name entries).getD .null)) →
      GivesError (runFields fields entries)
  | [], _, _, _, hm, _ => by cases hm
  | (name', field') :: rest, entries, hf, he, hm, h => by
      obtain ⟨hnot, hrest⟩ := List.nodup_cons.1 hf
      rcases List.mem_cons.1 hm with heq | hlater
      · cases heq
        exact GivesError.bind h fun e => .pure _
      · have hne : name ≠ name' := by
          rintro rfl
          exact hnot (Entries.mem_keys_of_mem hlater)
        have hrest : GivesError (runFields rest (Entries.remove name' entries)) :=
          runFields_givesError hrest (Entries.remove_nodup he) hlater
            (by rwa [Entries.find?_remove he hne])
        refine .bind_right fun r => ?_
        cases r with
        | error e => exact .pure _
        | ok a => exact hrest.bind fun e => .pure _

theorem Fails.parseObject {fields : List (String × Operation)} (name : String) (op : Operation)
    (hfields : (Entries.keys fields).Nodup) (hm : (name, op) ∈ fields)
    (hv : ∀ entries, v = .object entries → (Entries.keys entries).Nodup ∧
      Fails m op ((Entries.find? name entries).getD .null))
    (expected : Thunk String) (policy : UnknownKeys) :
    Fails m (.parseObject expected fields policy) v := by
  cases v with
  | object entries =>
      obtain ⟨he, hop⟩ := hv entries rfl
      have hkeys : Entries.keys (fieldRunners m fields) = Entries.keys fields := by
        rw [fieldRunners_eq_map, Entries.keys, List.map_map]
        rfl
      refine GivesError.bind (runFields_givesError (by rwa [hkeys]) he ?_ hop) fun e => .pure _
      rw [fieldRunners_eq_map]
      exact List.mem_map_of_mem (f := fun f => (f.1, f.2.run m)) hm
  | _ => exact GivesError.pure _

end

/-! ### The certain failure -/

/-- An object has distinct keys. -/
def Value.HasDistinctKeys : Value → Prop
  | .object entries => (Entries.keys entries).Nodup
  | _ => True

/-- A value is fit for a tag in a field when its keys are distinct. -/
def Tag.Legible (g : Tag) (v : Value) : Prop := g.field ≠ none → v.HasDistinctKeys

theorem Value.WellFormed.legible {v : Value} (h : v.WellFormed) (g : Tag) : g.Legible v := by
  intro _
  cases v with
  | object entries => exact h.1
  | _ => trivial

/-- Whether parsing fails when the base fails on the very same value. -/
def Effect.FailsWithBase : Effect → Prop
  | .preprocess _ => False
  | .recover _ => False
  | _ => True

/-- **Induction on what shows a tag.**  What holds of a literal that does not accept a value, and
goes over from a field to an object and from a base to an effect around it, holds of every schema
whose tag the value does not carry. -/
theorem World.Hosts.refused {w : World} {nodes : List Schema} (h : w.Hosts nodes)
    (F : Schema → Value → Prop)
    (hliteral : ∀ s ∈ nodes, ∀ l v, s.kind = .literal l → l.accepts v = false → F s v)
    (hobject : ∀ s ∈ nodes, ∀ fields policy v, s.kind = .object fields policy →
      v.HasDistinctKeys → (∀ entries, v = .object entries →
        ∃ f ∈ fields, F f.2 ((Entries.find? f.1 entries).getD .null)) → F s v)
    (heffect : ∀ s ∈ nodes, ∀ base effect v, s.kind = .transformed base effect →
      effect.FailsWithBase → F base v → F s v) :
    ∀ s ∈ nodes, ∀ g, s.tag? .input = some g → ∀ v : Value, g.Legible v →
      g.admits v = false → F s v := by
  refine h.induction fun s hs ih => ?_
  intro g hg v hv hadmits
  have hformed := h.formed s hs
  have htag : s.kind.tag? .input = some g := by
    cases s
    exact hg
  rw [Schema.children] at ih
  cases hkind : s.kind with
  | literal l =>
      rw [hkind] at htag
      obtain ⟨l', hl, rfl⟩ := Option.map_eq_some_iff.1 htag
      obtain ⟨rfl, hprim⟩ := primitiveOnly_eq_some hl
      exact hliteral s hs _ v hkind ((Literal.accepts_iff_equal hprim v).trans hadmits)
  | object fields policy =>
      rw [hkind] at htag ih
      obtain ⟨name, t, l, hm, hl, rfl⟩ := fieldTag?_eq_some htag
      refine hobject s hs fields policy v hkind (hv (by simp)) fun entries hentries =>
        ⟨_, hm, ?_⟩
      subst hentries
      have ht : t.tag? .input = some ⟨none, l⟩ := by
        cases t
        exact Kind.tag?_of_literalTag? hl
      exact ih t (List.mem_map_of_mem (f := Prod.snd) hm) _ ht _ (fun h => absurd rfl h) hadmits
  | transformed base effect =>
      rw [hkind] at htag ih hformed
      have hbase : ∀ g, base.tag? .input = some g → g.Legible v → g.admits v = false → F base v :=
        fun g hg => ih base (List.mem_singleton_self base) g hg v
      refine heffect s hs base effect v hkind ?_ ?_
      · cases effect with
        | preprocess _ => cases htag
        | recover _ => cases htag
        | _ => trivial
      · cases effect with
        | variant external internal =>
            -- the base is the literal outside, which is its own tag
            cases hl : primitiveOnly external with
            | none => simp [Kind.tag?, Kind.literalTag?, hl, Effect.showsTag] at htag
            | some l =>
                have hgl : g = ⟨none, l⟩ := by
                  simpa [Kind.tag?, Kind.literalTag?, hl, eq_comm] using htag
                have hkind' : base.kind = .literal external := hformed
                have hshown : base.tag? .input = some ⟨none, l⟩ := by
                  obtain ⟨_, _, _, _⟩ := base
                  rw [Schema.kind_node] at hkind'
                  simp [Schema.tag?, hkind', Kind.tag?, hl]
                exact hbase ⟨none, l⟩ hshown (fun h => absurd rfl h) (hgl ▸ hadmits)
        | refine _ _ => exact hbase g htag hv hadmits
        | transform _ => exact hbase g htag hv hadmits
        | preprocess _ => cases htag
        | recover _ => cases htag
        | getOr _ => cases htag
  | _ => rw [hkind] at htag; cases htag

/-- What waits fails where nothing may wait. -/
theorem Fails.parser {kind : Kind} {w : World} {id : NodeId} {below : Schema → ParseOperation}
    {m : Machine} {v : Value} (h : Fails m (kind.directParser w id below) v) (waits : Bool) :
    Fails m (kind.parser w id waits below).atOnce v := by
  cases waits with
  | true =>
      rw [ParseOperation.atOnce_of_isAsync (Kind.parser_isAsync _ _ _ _ _)]
      exact .fail _
  | false => exact h

/-- **A planned operation fails on a value that does not carry the tag of its schema.** -/
theorem World.Sound.fails_of_not_admitted {w₀ : World} {nodes : List Schema} {m : Machine}
    (h : w₀.Sound nodes) (hshape : w₀.Shaped World.Before nodes) :
    ∀ s ∈ nodes, ∀ g, s.tag? .input = some g → ∀ v : Value, g.Legible v →
      g.admits v = false → Fails m (w₀.planned s).atOnce v := by
  have hplanned : ∀ s ∈ nodes, ∀ v,
      (∀ w₁ id, Fails m (s.kind.directParser w₁ id w₀.planned) v) →
        Fails m (w₀.planned s).atOnce v := by
    intro s hs v hfails
    obtain ⟨w₁, o, waits, -, -, -, hplan⟩ := h.parsePlan_shape hshape (.refl w₀) hs
    rw [World.planned, hplan]
    exact .parser (hfails w₁ o.id) waits
  refine h.hosts.refused (fun s v => Fails m (w₀.planned s).atOnce v) ?_ ?_ ?_
  · intro s hs l v hkind haccepts
    refine hplanned s hs v fun w₁ id => ?_
    rw [hkind]
    exact .literal haccepts _
  · intro s hs fields policy v hkind hv hfield
    have hformed := h.hosts.formed s hs
    refine hplanned s hs v fun w₁ id => ?_
    rw [hkind] at hformed ⊢
    cases v with
    | object entries =>
        obtain ⟨f, hf, hfails⟩ := hfield entries rfl
        refine .parseObject f.1 (w₀.planned f.2).atOnce ?_ ?_ ?_ _ _
        · rw [Entries.keys_map]
          exact hformed
        · exact List.mem_map_of_mem (f := fun f => (f.1, (w₀.planned f.2).atOnce)) hf
        · rintro entries' ⟨⟩
          exact ⟨hv, hfails⟩
    | _ => exact .pure _
  · intro s hs base effect v hkind heffect hbase
    refine hplanned s hs v fun w₁ id => ?_
    rw [hkind]
    change Fails m (effect.parseAround (w₀.planned base).atOnce) v
    cases effect with
    | transform handlers =>
        rw [Effect.parseAround]
        split
        · exact .thenApply hbase _ _
        · exact .fail _
        · exact .fail _
    | refine message check =>
        cases check with
        | direct test => exact .thenCheck hbase _ _
        | async test => exact .fail _
    | variant external internal => exact .thenConstant hbase _
    | getOr supply => exact .orSupply hbase _
    | preprocess _ => exact heffect.elim
    | recover _ => exact heffect.elim

end Schemata
