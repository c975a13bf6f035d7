/-
**A member whose tag a typed value does not carry is certain to fail to serialize.**

The tag that a member shows in the typed value is read off other wrappers than the one in raw input:
a stand-in for failures and a function behind serializing let it through, a function in front of
serializing hides it, and a variant shows its inner literal.  The serialize operations refuse a
value without the tag wherever the tag was found.  Of a field with a literal nothing is ever
skipped: the field is not optional, so it is not left out for null, and its operation does
something, so the object's does.

Main results:

* `Schemata.Kind.serializer_refuses` — literals and variants refuse what does not carry theirs;
* `Schemata.runPresentFields_givesError` — a field that refuses its value makes the fields fail;
* `Schemata.World.Sound.serialize_fails_of_not_admitted` — **the certain failure**.
-/

import Schemata.Proofs.Discrimination
import Schemata.Proofs.RoundTrip

set_option relaxedAutoImplicit false
set_option autoImplicit false

namespace Schemata

section

variable {m : Machine} {base : Operation} {v : Value}

/-! ### Operations that fail -/

theorem Fails.exchange {internal : Literal} (h : internal.accepts v = false) (external : Value)
    (base : Operation) : Fails m (.exchange internal external base) v := by
  rw [Fails, Operation.run, h]
  exact .pure _

/-- What a test does not let pass is an error, and what it lets pass is the value itself. -/
theorem checked_cases {direction : Direction} {message : String} {test : Test} {w w' : World}
    {r : Result} (h : checked direction message test v w = .ok (r, w')) :
    r = .ok v ∨ ∃ e, r = .error e := by
  obtain ⟨holds, w₁, -, hrest⟩ := of_bind_ok h
  cases holds with
  | true =>
      cases hrest
      exact .inl rfl
  | false =>
      cases hrest
      exact .inr ⟨_, rfl⟩

theorem Fails.checkFirst (h : Fails m base v) (message : String) (test : Test) :
    Fails m (.checkFirst message test base) v := by
  intro w r w' hrun
  rw [Operation.run] at hrun
  obtain ⟨a, w₁, hcheck, hrest⟩ := of_bind_ok hrun
  -- the base is run on the value that was tested
  rcases checked_cases hcheck with rfl | ⟨e, rfl⟩
  · exact h w₁ r w' hrest
  · cases hrest
    exact ⟨e, rfl⟩

/-- **A field that refuses its value makes the fields fail**, when it is not left out. -/
theorem runPresentFields_givesError {omitted : List String} {name : String} {field : Runner}
    {fields : List (String × Runner)} {entries : List (String × Value)}
    (hm : (name, field) ∈ fields) (homitted : name ∉ omitted)
    (h : GivesError (field ((Entries.find? name entries).getD .null))) :
    GivesError (runPresentFields omitted fields entries) := by
  induction fields with
  | nil => cases hm
  | cons f rest ih =>
      obtain ⟨name', field'⟩ := f
      rw [runPresentFields]
      rcases List.mem_cons.1 hm with heq | hlater
      · cases heq
        simp only [List.contains_eq_mem, homitted, decide_false, Bool.false_and]
        exact h.bind fun e => .pure _
      · split
        · exact ih hlater
        · refine .bind_right fun r => ?_
          cases r with
          | error e => exact .pure _
          | ok a => exact (ih hlater).bind fun e => .pure _

/-- An object refuses what one of its fields refuses, when that field does something and is not left
out. -/
theorem Fails.objectSerializer {ops : List (String × Operation)} {omitted : List String}
    {name : String} {op : Operation} (hm : (name, op) ∈ ops) (hidle : op.isNoop = false)
    (homitted : name ∉ omitted)
    (hv : ∀ entries, v = .object entries →
      Fails m op ((Entries.find? name entries).getD .null)) (expected : Thunk String) :
    Fails m (objectSerializer expected ops omitted) v := by
  have hsome : ops.all (fun f => f.2.isNoop) = false := by
    rw [List.all_eq_false]
    exact ⟨_, hm, by simp [hidle]⟩
  rw [Schemata.objectSerializer, hsome, Bool.and_false]
  cases v with
  | object entries =>
      refine GivesError.bind (runPresentFields_givesError ?_ homitted (hv entries rfl)) fun e =>
        .pure _
      rw [fieldRunners_eq_map]
      exact List.mem_map_of_mem (f := fun f => (f.1, f.2.run m)) hm
  | _ => exact GivesError.pure _

/-! ### Kinds -/

/-- **A kind that shows a literal refuses every typed value that is not the literal**, and does
something. -/
theorem Kind.serializer_refuses (kind : Kind) {l : Literal}
    (h : kind.literalTag? .output = some l) (w : World) (id : NodeId)
    (below : Schema → Compiled Operation) :
    (kind.serializer w id below).operation.isNoop = false ∧
      ∀ x, l.equal (Literal.ofValue x) = false →
        Fails m (kind.serializer w id below).operation x := by
  cases kind with
  | literal l' =>
      obtain ⟨rfl, hprim⟩ := primitiveOnly_eq_some h
      refine ⟨rfl, fun x hx => ?_⟩
      exact .literal ((Literal.accepts_iff_equal hprim x).trans hx) _
  | transformed base effect =>
      cases effect with
      | variant external internal =>
          obtain ⟨rfl, hprim⟩ := primitiveOnly_eq_some h
          refine ⟨rfl, fun x hx => ?_⟩
          exact .exchange ((Literal.accepts_iff_equal hprim x).trans hx) _ _
      | _ => cases h
  | _ => cases h

/-- A field whose kind shows a literal is not left out. -/
theorem not_mem_omittedFields {fields : List (String × Schema)} {name : String} {s : Schema}
    {side : Side} {l : Literal} (hnames : (Entries.keys fields).Nodup) (hm : (name, s) ∈ fields)
    (h : s.kind.literalTag? side = some l) : name ∉ omittedFields fields := by
  intro ho
  have homit := isOmittable_of_mem hnames hm ho
  rw [isOmittable] at homit
  split at homit
  · rename_i inner hkind
    rw [hkind] at h
    cases h
  · cases homit

end

/-! ### The certain failure -/

/-- **A planned operation fails on a typed value that does not carry the tag of its schema.** -/
theorem World.Sound.serialize_fails_of_not_admitted {w₀ : World} {nodes : List Schema} {m : Machine}
    (h : w₀.Sound nodes) (hshape : w₀.Shaped World.Before nodes) :
    ∀ s ∈ nodes, ∀ g, s.tag? .output = some g → ∀ v : Value, g.admits v = false →
      Fails m (w₀.serializePlan s).operation v := by
  -- the tag is read off the node below a wrapper, which was made earlier
  refine h.hosts.induction fun s hs ih => ?_
  intro g hg v hadmits
  have hbelow := h.hosts.below s hs
  obtain ⟨w₁, o, -, -, -, hplan⟩ := h.serializePlan_shape hshape (.refl w₀) hs
  have hformed := h.hosts.formed s hs
  have htag : s.kind.tag? .output = some g := by
    cases s
    exact hg
  rw [hplan]
  rw [Schema.children] at ih hbelow
  cases hkind : s.kind with
  | literal l =>
      rw [hkind] at htag
      obtain ⟨l', hl, rfl⟩ := Option.map_eq_some_iff.1 htag
      exact (Kind.serializer_refuses (.literal l) hl w₁ o.id _).2 v hadmits
  | object fields policy =>
      rw [hkind] at htag hformed hbelow
      obtain ⟨name, t, l, hm, hl, rfl⟩ := fieldTag?_eq_some htag
      have ht := (hbelow t (List.mem_map_of_mem (f := Prod.snd) hm)).1
      obtain ⟨w₂, o₂, -, -, -, hfield⟩ := h.serializePlan_shape hshape (.refl w₀) ht
      have hrefuses := Kind.serializer_refuses (m := m) t.kind hl w₂ o₂.id w₀.serializePlan
      rw [← hfield] at hrefuses
      refine Fails.objectSerializer (List.mem_map_of_mem
        (f := fun f => (f.1, (w₀.serializePlan f.2).operation)) hm) hrefuses.1
        (not_mem_omittedFields hformed hm hl) ?_ _
      rintro entries rfl
      exact hrefuses.2 _ hadmits
  | transformed base effect =>
      rw [hkind] at htag ih
      have hbase : base.tag? .output = some g → Fails m (w₀.serializePlan base).operation v :=
        fun htag => ih base (List.mem_singleton_self base) g htag v hadmits
      cases effect with
      | variant external internal =>
          cases hl : primitiveOnly internal with
          | none => simp [Kind.tag?, Kind.literalTag?, hl, Effect.showsTag] at htag
          | some l =>
              have hgl : g = ⟨none, l⟩ := by
                simpa [Kind.tag?, Kind.literalTag?, hl, eq_comm] using htag
              subst hgl
              exact (Kind.serializer_refuses (.transformed base (.variant external internal)) hl
                w₁ o.id _).2 v hadmits
      | refine message check =>
          cases check with
          | direct test => exact .checkFirst (hbase htag) _ _
          | async test => exact hbase htag
      | preprocess handlers =>
          simp only [Kind.serializer, Effect.serializeAround]
          split
          · exact .thenApply (hbase htag) _ _
          · exact .fail _
      | recover fallback => exact hbase htag
      | transform handlers => cases htag
      | getOr supply => cases htag
  | _ => rw [hkind] at htag; cases htag

end Schemata
