/-
**Serializing without shortcuts.**

Serializing skips every composite below which nothing is done, and with it the check that the value
is of the composite's own form.  The plain serialize operation of a kind takes no such shortcut:
each composite looks at its container, serializes the parts, and puts them together again.

A shortcut hands back whatever reaches it.  So the two operations do the same to a value that the
kind has made of its parts, as long as they do the same to the parts, and this holds without looking
at how the value came about.

Main definitions:

* `Schemata.Kind.plainSerializer` — **the serialize operation of a kind without shortcuts**;
* `Schemata.Kind.VariantsAccept` — literals that accept the values that stand for them.

Main results:

* `Schemata.runPresentFields_gives_back` — fields that do nothing, written in their order;
* `Schemata.Kind.serializer_matches` — **on what a kind makes, both operations end together**.
-/

import Schemata.Proofs.Inhabitance
import Schemata.Proofs.SideBySide

set_option relaxedAutoImplicit false
set_option autoImplicit false

namespace Schemata

/-! ### Operations -/

/-- **The serialize operation of a kind without shortcuts**, given the operations of the nodes
below. -/
def Kind.plainSerializer (w : World) (id : NodeId) (below : Schema → Compiled Operation)
    (kind : Kind) : Compiled Operation :=
  let expected := kind.expectedName
  match kind with
  | .array s => ⟨id, .array .serializing expected (below s).operation⟩
  | .dict s => ⟨id, .dict .serializing expected (below s).operation⟩
  | .object fields _ =>
      ⟨id, .serializeObject expected (fields.map fun f => (f.1, (below f.2).operation))
        (omittedFields fields)⟩
  | .tuple items => ⟨id, .tuple .serializing expected (items.map fun s => (below s).operation)⟩
  | .option s | .null s | .nullable s => ⟨id, .unlessNull (below s).operation⟩
  | kind => kind.serializer w id below

/-- It depends on the operations of the nodes below only. -/
theorem Kind.plainSerializer_congr {kind : Kind} {below below' : Schema → Compiled Operation}
    (h : ∀ t ∈ kind.children, below t = below' t) (w : World) (id : NodeId) :
    kind.plainSerializer w id below = kind.plainSerializer w id below' := by
  cases kind with
  | object fields policy =>
      have hfields : (fields.map fun f => (f.1, (below f.2).operation)) =
          fields.map fun f => (f.1, (below' f.2).operation) :=
        List.map_congr_left fun f hf => by rw [h f.2 (List.mem_map_of_mem hf)]
      simp only [Kind.plainSerializer, hfields]
  | tuple items =>
      have hitems : (items.map fun s => (below s).operation) =
          items.map fun s => (below' s).operation :=
        List.map_congr_left fun s hs => by rw [h s hs]
      simp only [Kind.plainSerializer, hitems]
  | array s | dict s | option s | null s | nullable s =>
      have hs : below s = below' s := h s (List.mem_singleton_self s)
      simp only [Kind.plainSerializer, hs]
  | _ => exact Kind.serializer_congr rfl id fun t ht => h t (Kind.embedded_subset w _ ht)

/-- The literals of a variant accept the values that stand for them.  All literals do but the
numbers that are not finite, for which null stands. -/
def Kind.VariantsAccept : Kind → Prop
  | .transformed _ (.variant external internal) =>
      external.accepts external.toValue = true ∧ internal.accepts internal.toValue = true
  | _ => True

section

variable {W : World → Prop} {m m' : Machine} {w w₁ : World} {kind : Kind}

/-! ### Composites below which nothing is done -/

/-- Fields that give back what stands under their names, none of them left out. -/
theorem runPresentFields_gives_back {ι : Type} {p : ι → Runner} {entries es : List (String × Value)}
    {fields : List (String × ι)}
    (h : List.Forall₂ (fun f e => f.1 = e.1 ∧ Gives W (p f.2 e.2) (.ok e.2)) fields es)
    (hentries : ∀ e ∈ es, Entries.find? e.1 entries = some e.2) :
    Gives W (runPresentFields [] (fields.map fun f => (f.1, p f.2)) entries) (.ok es) := by
  induction h with
  | nil => exact .pure _
  | @cons f e rest es hfe _ ih =>
      obtain ⟨name, i⟩ := f
      obtain ⟨name', a⟩ := e
      obtain ⟨rfl, ha⟩ := hfe
      have hfind : Entries.find? name entries = some a := hentries _ (List.mem_cons_self ..)
      have hrest := ih fun e he => hentries e (List.mem_cons_of_mem _ he)
      simp only [List.map_cons, runPresentFields, hfind, Option.getD_some, List.contains_nil,
        Bool.false_and, Bool.false_eq_true, if_false]
      exact ha.bind (hrest.bind (.pure _))

theorem serializeObject_gives_back {expected : Thunk String} {fields : List (String × Schema)}
    {es : List (String × Value)} {P : Schema → Operation} (hnames : (Entries.keys fields).Nodup)
    (hkeys : Entries.keys es = Entries.keys fields) (hidle : ∀ f ∈ fields, P f.2 = .noop) :
    Gives W ((Operation.serializeObject expected (fields.map fun f => (f.1, P f.2)) []).run m
      (.object es)) (.ok (.object es)) := by
  have hback : List.Forall₂ (fun f e => f.1 = e.1 ∧ Gives W ((P f.2).run m e.2) (.ok e.2))
      fields es := by
    refine Entries.forall₂_of_keys hkeys fun p hp => ?_
    rw [hidle p.1 (List.of_mem_zip hp).1]
    exact .pure _
  have hfind : ∀ e ∈ es, Entries.find? e.1 es = some e.2 := fun e he =>
    (Entries.find?_eq_some_iff (hkeys ▸ hnames)).2 he
  rw [Operation.run, fieldRunners_map]
  exact (runPresentFields_gives_back (p := fun s => (P s).run m) hback hfind).bind (.pure _)

/-- **The shortcut around operations that do nothing**, where the operation itself would give the
value back. -/
theorem Matches.shortcut {ops : List Operation} {op op' : Operation} {v : Value}
    (h : Matches W Succeed (op.run m v) (op'.run m' v))
    (hback : (∀ x ∈ ops, x = .noop) → Gives W (op.run m v) (.ok v)) :
    Matches W Succeed ((unlessAllNoop ops op).run m v) (op'.run m' v) := by
  rw [unlessAllNoop]
  split
  · rename_i hall
    have hidle : ∀ x ∈ ops, x = .noop := fun x hx =>
      Operation.eq_noop_of_isNoop (List.all_eq_true.1 hall x hx)
    exact h.of_gives (hback hidle) (.pure _)
  · exact h

/-- The shortcut around the fields of an object, none of which is left out. -/
theorem Matches.objectShortcut {expected : Thunk String} {fields : List (String × Schema)}
    {omitted : List String} {P : Schema → Operation} {op' : Operation}
    {es : List (String × Value)} (hnames : (Entries.keys fields).Nodup)
    (hkeys : Entries.keys es = Entries.keys fields)
    (h : Matches W Succeed
      ((Operation.serializeObject expected (fields.map fun f => (f.1, P f.2)) omitted).run m
        (.object es)) (op'.run m' (.object es))) :
    Matches W Succeed
      ((objectSerializer expected (fields.map fun f => (f.1, P f.2)) omitted).run m (.object es))
      (op'.run m' (.object es)) := by
  rw [objectSerializer]
  split
  · rename_i hall
    obtain ⟨hnone, hall⟩ := Bool.and_eq_true_iff.1 hall
    have homitted : omitted = [] := List.isEmpty_iff.1 hnone
    subst homitted
    have hidle : ∀ f ∈ fields, P f.2 = .noop := fun f hf =>
      Operation.eq_noop_of_isNoop (List.all_eq_true.1 hall _ (List.mem_map_of_mem hf))
    exact h.of_gives (serializeObject_gives_back hnames hkeys hidle) (.pure _)
  · exact h

/-! ### Kinds -/

/-- **On what a kind makes, its serialize operation and the plain one end together**, if those of
the nodes below do so on the parts, and for a variant on the literal outside.  What unions and
references do is not up to the value alone. -/
theorem Kind.serializer_matches (hW : LeavesLogsOpen W) (hw : W w) (hkind : kind.Descriptive)
    (hformed : kind.Formed) (haccepts : kind.VariantsAccept)
    (hunion : ∀ members, kind ≠ .union members) (hreference : ∀ r, kind ≠ .recursive r)
    {id : NodeId} {P Q : Schema → Compiled Operation}
    (hexternal : ∀ base external internal, kind = .transformed base (.variant external internal) →
      Matches W Succeed ((P base).operation.run m external.toValue)
        ((Q base).operation.run m' external.toValue)) {t : Value}
    (h : kind.Made (fun s a =>
      Matches W Succeed ((P s).operation.run m a) ((Q s).operation.run m' a)) t) :
    Matches W Succeed ((kind.serializer w₁ id P).operation.run m t)
      ((kind.plainSerializer w₁ id Q).operation.run m' t) := by
  cases kind with
  | never => exact h.elim
  | unknown | json | unit | string | bool | int | float => exact .pure ⟨t, rfl, rfl⟩
  | literal l =>
      have hgives := fun m : Machine => RoundTrips.literal_accepted (W := W) (m := m) h .serializing
      exact (hgives m).matches (hgives m') ⟨t, rfl, rfl⟩
  | array s =>
      obtain ⟨items, rfl, hitems⟩ := h
      refine Matches.shortcut (.array hitems) fun hidle => ?_
      rw [hidle _ (List.mem_singleton_self _)]
      exact array_gives_back hw .noop fun a _ => .pure _
  | dict s =>
      obtain ⟨entries, rfl, hentries⟩ := h
      refine Matches.shortcut (.dict hentries) fun hidle => ?_
      rw [hidle _ (List.mem_singleton_self _)]
      exact dict_gives_back hw .noop fun e _ => .pure _
  | object fields policy =>
      obtain ⟨es, rfl, hes⟩ := h
      have hkeys := Entries.keys_eq_of_forall₂ hes
      refine Matches.objectShortcut (P := fun s => (P s).operation) hformed hkeys
        (.serializeObject (P := fun s => (P s).operation) (Q := fun s => (Q s).operation) ?_)
      rintro ⟨name, s⟩ hf
      obtain ⟨a, ha, hmatches⟩ := Entries.exists_mem_of_forall₂ hes hf
      rw [(Entries.find?_eq_some_iff (hkeys ▸ hformed)).2 ha]
      exact hmatches
  | tuple schemas =>
      obtain ⟨items, rfl, hitems⟩ := h
      have hsize := hitems.length_eq
      refine Matches.shortcut (.tuple (P := fun s => (P s).operation)
        (Q := fun s => (Q s).operation) hsize fun x hx => List.forall₂_zip hitems hx)
          fun hidle => ?_
      have hnoop : schemas.map (fun s => (P s).operation) = schemas.map fun _ => .noop :=
        List.map_congr_left fun s hs => hidle _ (List.mem_map_of_mem hs)
      rw [hnoop]
      exact tuple_gives_back (P := fun _ => .noop) hw (fun _ => .noop) hsize fun x _ => .pure _
  | option s | null s | nullable s =>
      refine Matches.shortcut (.unlessNull fun hnull => h.resolve_left hnull) fun hidle => ?_
      rw [hidle _ (List.mem_singleton_self _)]
      by_cases hnull : t = .null
      · subst hnull
        exact .pure _
      · rw [unlessNull_run hnull]
        exact .pure _
  | union members => exact absurd rfl (hunion members)
  | jsonString s => exact .encodeText h
  | custom name handlers => exact hkind.elim
  | transformed base effect =>
      cases effect with
      | refine message check =>
          cases check with
          | direct test => exact .checkFirst hW h.2 h.1
          | async test => exact h.1
      | variant external internal =>
          subst h
          exact .exchange haccepts.2 (hexternal base external internal rfl)
      | _ => exact hkind.elim
  | recursive r => exact absurd rfl (hreference r)

end

end Schemata
