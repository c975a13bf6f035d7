/-
**Discriminated unions round-trip.**

A union is discriminated on one side when all members show a tag there, in one place, and no two
tags are the same.  A value then carries the tag of at most one member.  What a literal, a variant
or an object parses carries the tag that it shows in typed values, so the member that has parsed a
value is the only one that serializes it.  What this member writes it reads back, so it carries the
tag that the member shows in raw input, and the member is the only one that is tried first when it
is parsed again.  Whether the union round-trips is therefore decided by its members.

Main definitions:

* `Schemata.Schema.Discriminable` — literals, variants and objects, under refinements;
* `Schemata.Discriminates` — all members show a tag on a side, in one place, each another one;
* `Schemata.Schema.RoundTripsFrom` — what is parsed is serialized, and parsed again as the same.

Main results:

* `Schemata.Discriminates.selected_eq` — only one member admits a value;
* `Schemata.World.Sound.parsed_carries` — **what is parsed carries the tag of typed values**;
* `Schemata.Scene.Reachable.discriminated_union_roundTrips` — **the round trip**.
-/

import Schemata.Proofs.Determinism
import Schemata.Proofs.DirectMeaning
import Schemata.Proofs.Refusal

set_option relaxedAutoImplicit false
set_option autoImplicit false

namespace Schemata

/-! ### Equality of primitive literals -/

/-- Two numbers that are the same as a third one are the same. -/
theorem Binary64.same_of_same {x y z : Binary64} (hx : x.same z = true) (hy : y.same z = true) :
    x.same y = true := by
  cases z with
  | nan =>
      cases x with
      | nan =>
          cases y with
          | nan => rfl
          | _ => cases hy
      | _ => cases hx
  | infinity c =>
      cases x with
      | infinity a =>
          cases y with
          | infinity b =>
              simp only [same, numEq, beq_iff_eq] at hx hy ⊢
              rw [hx, hy]
          | _ => cases hy
      | _ => cases hx
  | finite c k =>
      cases x with
      | finite a m =>
          cases y with
          | finite b n =>
              simp only [same, numEq, Bool.and_eq_true, beq_iff_eq, Bool.or_eq_true] at hx hy ⊢
              obtain ⟨rfl, ha⟩ := hx
              obtain ⟨rfl, hb⟩ := hy
              refine ⟨rfl, ?_⟩
              -- signs count unless both numbers are zero
              rcases ha with rfl | hzero
              · exact hb.imp Eq.symm id
              · exact .inr hzero
          | _ => cases hy
      | _ => cases hx

/-- Two primitive literals that equal a third one are equal. -/
theorem Literal.equal_of_equal {a b c : Literal} (ha : a.isPrimitive = true)
    (hac : a.equal c = true) (hbc : b.equal c = true) : a.equal b = true := by
  cases a with
  | null =>
      cases c with
      | null =>
          cases b with
          | null => rfl
          | _ => cases hbc
      | _ => cases hac
  | bool p =>
      cases c with
      | bool r =>
          cases b with
          | bool q =>
              simp only [equal, beq_iff_eq] at hac hbc ⊢
              rw [hac, hbc]
          | _ => cases hbc
      | _ => cases hac
  | number x =>
      cases c with
      | number z =>
          cases b with
          | number y => exact Binary64.same_of_same hac hbc
          | _ => cases hbc
      | _ => cases hac
  | string p =>
      cases c with
      | string r =>
          cases b with
          | string q =>
              simp only [equal, beq_iff_eq] at hac hbc ⊢
              rw [hac, hbc]
          | _ => cases hbc
      | _ => cases hac
  | composite _ => cases ha

/-! ### Discriminated unions -/

mutual

/-- **Literals, variants and objects, optionally under refinements.** -/
def Schema.Discriminable : Schema → Prop
  | .node _ kind _ _ => kind.Discriminable

def Kind.Discriminable : Kind → Prop
  | .literal _ => True
  | .object _ _ => True
  | .transformed _ (.variant _ _) => True
  | .transformed base (.refine _ _) => base.Discriminable
  | _ => False

end

/-- **All members show a tag on a side, all in one place, and no two show the same.** -/
def Discriminates (side : Side) (members : List Schema) : Prop :=
  ∃ (place : Option String) (literals : List Literal),
    members.map (Schema.tag? side) = literals.map (fun l => some ⟨place, l⟩) ∧
      literals.Pairwise fun a b => a.equal b = false

/-- What a tag is read off is primitive. -/
theorem Kind.literalTag?_isPrimitive {side : Side} {kind : Kind} {l : Literal}
    (h : kind.literalTag? side = some l) : l.isPrimitive = true := by
  have honly : ∀ l', primitiveOnly l' = some l → l.isPrimitive = true := by
    intro l' hl
    obtain ⟨rfl, hprim⟩ := primitiveOnly_eq_some hl
    exact hprim
  cases kind with
  | literal l' => exact honly l' h
  | transformed base effect =>
      cases effect with
      | variant external internal =>
          cases side with
          | input => exact honly external h
          | output => exact honly internal h
      | _ => cases h
  | _ => cases h

mutual

/-- The literal of a tag is primitive. -/
theorem Schema.tag?_isPrimitive {side : Side} {g : Tag} :
    ∀ {s : Schema}, s.tag? side = some g → g.literal.isPrimitive = true
  | .node _ kind _ _, h => Kind.tag?_isPrimitive (show kind.tag? side = some g from h)

theorem Kind.tag?_isPrimitive {side : Side} {g : Tag} :
    ∀ {kind : Kind}, kind.tag? side = some g → g.literal.isPrimitive = true
  | .literal l, h => by
      obtain ⟨l', hl, rfl⟩ := Option.map_eq_some_iff.1 h
      exact Kind.literalTag?_isPrimitive (show (Kind.literal l).literalTag? side = some l' from hl)
  | .object fields policy, h => by
      obtain ⟨name, s, l, -, hl, rfl⟩ := fieldTag?_eq_some h
      exact Kind.literalTag?_isPrimitive hl
  | .transformed base effect, h => by
      rw [Kind.tag?] at h
      split at h
      · rename_i l hl
        cases h
        exact Kind.literalTag?_isPrimitive hl
      · split at h
        · exact Schema.tag?_isPrimitive h
        · cases h
  | .never, h | .unknown, h | .unit, h | .string, h | .bool, h | .int, h | .float, h | .json, h
  | .array _, h | .dict _, h | .tuple _, h | .option _, h | .null _, h | .nullable _, h
  | .union _, h | .jsonString _, h | .custom _ _, h | .recursive _, h => by cases h

end

/-- A value that carries two tags in one place carries one literal. -/
theorem Tag.admits_unique {place : Option String} {a b : Literal} {v : Value}
    (hprim : a.isPrimitive = true) (ha : (Tag.mk place a).admits v = true)
    (hb : (Tag.mk place b).admits v = true) : a.equal b = true := by
  cases place with
  | none => exact Literal.equal_of_equal hprim ha hb
  | some name =>
      cases v with
      | object entries => exact Literal.equal_of_equal hprim ha hb
      | _ => cases ha

/-- A filter that no two elements pass leaves the one that does. -/
theorem filter_eq_singleton {α : Type} {p : α → Bool} {l : List α} {a : α}
    (hl : l.Pairwise fun x y => ¬(p x = true ∧ p y = true)) (ha : a ∈ l) (hp : p a = true) :
    l.filter p = [a] := by
  induction l with
  | nil => cases ha
  | cons x rest ih =>
      obtain ⟨hx, hrest⟩ := List.pairwise_cons.1 hl
      rcases List.mem_cons.1 ha with rfl | ha
      · rw [List.filter_cons_of_pos hp, List.filter_eq_nil_iff.2]
        exact fun y hy hpy => hx y hy ⟨hp, hpy⟩
      · rw [List.filter_cons_of_neg, ih hrest ha]
        exact fun hpx => hx a ha ⟨hpx, hp⟩

namespace Discriminates

variable {side : Side} {members : List Schema} {s : Schema} {v : Value}

/-- Every member shows a tag. -/
theorem tagged (h : Discriminates side members) (hs : s ∈ members) :
    ∃ g, s.tag? side = some g := by
  obtain ⟨place, literals, htags, -⟩ := h
  have hm := List.mem_map_of_mem (f := Schema.tag? side) hs
  rw [htags] at hm
  obtain ⟨l, -, hl⟩ := List.mem_map.1 hm
  exact ⟨_, hl.symm⟩

/-- No value carries the tags of two members. -/
theorem exclusive (h : Discriminates side members) (v : Value) :
    members.Pairwise fun s t =>
      ¬(admitted v (s.tag? side) = true ∧ admitted v (t.tag? side) = true) := by
  obtain ⟨place, literals, htags, hliterals⟩ := h
  have hprim : ∀ l ∈ literals, l.isPrimitive = true := by
    intro l hl
    have hm := List.mem_map_of_mem (f := fun l => some (Tag.mk place l)) hl
    rw [← htags] at hm
    obtain ⟨s, -, hs⟩ := List.mem_map.1 hm
    exact Schema.tag?_isPrimitive hs
  have hpairs : (members.map (Schema.tag? side)).Pairwise fun g g' =>
      ¬(admitted v g = true ∧ admitted v g' = true) := by
    rw [htags, List.pairwise_map]
    refine hliterals.imp_of_mem fun ha hb hne hboth => ?_
    rw [Tag.admits_unique (hprim _ ha) hboth.1 hboth.2] at hne
    cases hne
  exact List.pairwise_map.1 hpairs

/-- **Only the member whose tag a value carries is selected.** -/
theorem selected_eq (h : Discriminates side members) (hs : s ∈ members)
    (hadmitted : admitted v (s.tag? side) = true) (run : Schema → Runner) :
    ∃ i, selected true (marked (members.map (Schema.tag? side)) v (members.map run)) =
      [(i, run s)] := by
  obtain ⟨l, hselected, hl⟩ := selected_marked true (Schema.tag? side) members v
  have hfilter := filter_eq_singleton (h.exclusive v) hs hadmitted
  simp only [beq_true] at hl
  rw [hfilter] at hl
  obtain ⟨⟨i, t⟩, rfl, ht⟩ := List.map_eq_singleton_iff.1 hl
  refine ⟨i, ?_⟩
  rw [hselected]
  cases ht
  rfl

variable {W : World → Prop} {a : Value}

/-- What the member with the tag parses, the union parses. -/
theorem parseMembers_gives (h : Discriminates .input members) (hs : s ∈ members)
    (hadmitted : admitted v (s.tag? .input) = true) (run : Schema → Runner)
    (hrun : Gives W (run s v) (.ok a)) :
    Gives W (parseMembers (members.map (Schema.tag? .input)) (members.map run) v) (.ok a) := by
  obtain ⟨i, hselected⟩ := h.selected_eq hs hadmitted run
  rw [parseMembers, hselected]
  have hpass : Gives W (tryEach v [(i, run s)]) (.ok a) := hrun.bind (.pure _)
  exact hpass.bind (.pure _)

/-- What the member with the tag serializes, the union serializes. -/
theorem serializeMembers_gives (h : Discriminates .output members) (hs : s ∈ members)
    (hadmitted : admitted v (s.tag? .output) = true) (run : Schema → Runner)
    (hrun : Gives W (run s v) (.ok a)) :
    Gives W (serializeMembers (members.map (Schema.tag? .output)) (members.map run) v) (.ok a) := by
  obtain ⟨i, hselected⟩ := h.selected_eq hs hadmitted run
  rw [serializeMembers, hselected]
  have hpass : Gives W (tryEach v [(i, run s)]) (.ok a) := hrun.bind (.pure _)
  exact hpass.bind (.pure _)

end Discriminates

/-! ### What members parse and write -/

section

variable {W : World → Prop} {m : Machine} {w w₀ : World} {nodes : List Schema} {s : Schema}

/-- A kind that shows a literal in typed values parses nothing but what the literal accepts. -/
theorem Kind.parsed_accepted {kind : Kind} {l : Literal} {v t : Value} {w₁ : World} {id : NodeId}
    {below : Schema → ParseOperation} (hw : W w) (hread : kind.LiteralsRead)
    (hbelow : ∀ t ∈ kind.children, Runs W m (below t).atOnce)
    (h : kind.literalTag? .output = some l)
    (hg : Gives W ((kind.directParser w₁ id below).run m v) (.ok t)) : l.accepts t = true := by
  cases kind with
  | literal l' =>
      obtain ⟨rfl, -⟩ := primitiveOnly_eq_some h
      obtain ⟨rfl, haccepts⟩ := RoundTrips.literal_gives hg hw
      exact haccepts
  | transformed base effect =>
      cases effect with
      | variant external internal =>
          obtain ⟨rfl, -⟩ := primitiveOnly_eq_some h
          have hbase := hbelow base (List.mem_singleton_self base)
          obtain ⟨a, -, hg⟩ := Gives.of_attempt hg hw (hbase v) (fun _ => .pure _) fun _ => ⟨_, rfl⟩
          cases hg.of_pure hw
          exact hread.2.accepts
      | _ => cases h
  | _ => cases h

/-- The fields of what is written are among those that are declared. -/
theorem runPresentFields_keys {omitted : List String} {fields : List (String × Runner)}
    {entries es : List (String × Value)} {w w' : World}
    (h : runPresentFields omitted fields entries w = .ok (.ok es, w')) :
    (Entries.keys es).Sublist (Entries.keys fields) := by
  induction fields generalizing es w with
  | nil =>
      cases h
      exact .slnil
  | cons f rest ih =>
      obtain ⟨name, field⟩ := f
      rw [runPresentFields] at h
      split at h
      · exact (ih h).cons _
      · obtain ⟨r, w₁, -, h⟩ := of_bind_ok h
        cases r with
        | error e => cases h
        | ok a =>
            obtain ⟨r, w₂, hrest, h⟩ := of_bind_ok h
            cases r with
            | error e => cases h
            | ok vs =>
                cases h
                exact (ih hrest).cons_cons _

/-- An object with distinct keys is written as one. -/
theorem objectSerializer_distinct {expected : Thunk String} {ops : List (String × Operation)}
    {omitted : List String} {t u : Value} (hw : W w) (hnames : (Entries.keys ops).Nodup)
    (ht : t.HasDistinctKeys)
    (hg : Gives W ((objectSerializer expected ops omitted).run m t) (.ok u)) :
    u.HasDistinctKeys := by
  rw [objectSerializer] at hg
  split at hg
  · cases hg.of_pure hw
    exact ht
  · obtain ⟨w', -, hrun⟩ := hg w hw
    cases t with
    | object entries =>
        obtain ⟨r, w₁, hfields, hrun⟩ := of_bind_ok hrun
        cases r with
        | error e => cases hrun
        | ok es =>
            cases hrun
            refine List.Nodup.sublist (runPresentFields_keys hfields) ?_
            rwa [fieldRunners_eq_map, Entries.keys_map]
    | _ => cases hrun

/-- What a typed value must show of the member that has parsed it. -/
structure Carries (s : Schema) (t : Value) : Prop where
  admitted : ∀ g, s.tag? .output = some g → g.admits t = true
  legible : ∀ g, s.tag? .input = some g → g.Legible t

/-- Literals and variants show their tag on the value itself. -/
theorem Schema.tag?_of_kind {side : Side} {g : Tag} (hg : s.tag? side = some g)
    (hkind : (∃ l, s.kind = .literal l) ∨
      ∃ base external internal, s.kind = .transformed base (.variant external internal)) :
    ∃ l, s.kind.literalTag? side = some l ∧ g = ⟨none, l⟩ := by
  have htag : s.kind.tag? side = some g := by
    cases s
    exact hg
  cases hl : s.kind.literalTag? side with
  | some l =>
      rw [Kind.tag?_of_literalTag? hl] at htag
      cases htag
      exact ⟨l, rfl, rfl⟩
  | none =>
      rcases hkind with ⟨l, hkind⟩ | ⟨base, external, internal, hkind⟩
      · rw [hkind] at htag hl
        rw [Kind.literalTag?] at hl
        simp [Kind.tag?, hl] at htag
      · rw [hkind] at htag hl
        simp [Kind.tag?, hl, Effect.showsTag] at htag

/-- What a literal or a variant parses carries its literal. -/
theorem Carries.of_accepts {t : Value}
    (hkind : (∃ l, s.kind = .literal l) ∨
      ∃ base external internal, s.kind = .transformed base (.variant external internal))
    (haccepts : ∀ l, s.kind.literalTag? .output = some l → l.accepts t = true) : Carries s t := by
  constructor
  · intro g hg
    obtain ⟨l, hl, rfl⟩ := Schema.tag?_of_kind hg hkind
    exact (Literal.accepts_iff_equal (Kind.literalTag?_isPrimitive hl) t).symm.trans (haccepts l hl)
  · intro g hg
    obtain ⟨l, -, rfl⟩ := Schema.tag?_of_kind hg hkind
    exact fun h => absurd rfl h

/-- A refinement shows the tag of what it refines. -/
theorem Carries.of_refine {base : Schema} {message : String} {check : Check} {t : Value}
    (hkind : s.kind = .transformed base (.refine message check)) (h : Carries base t) :
    Carries s t := by
  have htag : ∀ side, s.tag? side = base.tag? side := by
    intro side
    cases s
    rw [Schema.kind_node] at hkind
    rw [Schema.tag?, hkind]
    rfl
  exact ⟨fun g hg => h.admitted g (htag _ ▸ hg), fun g hg => h.legible g (htag _ ▸ hg)⟩

/-- What an object parses has the declared keys, and under each a value that its field has
parsed. -/
theorem Carries.of_fields {fields : List (String × Schema)} {policy : Option UnknownKeys}
    {es : List (String × Value)} (hkind : s.kind = .object fields policy)
    (hkeys : (Entries.keys es).Nodup)
    (hfields : ∀ name u l, (name, u) ∈ fields → u.kind.literalTag? .output = some l →
      ∃ a, (name, a) ∈ es ∧ l.accepts a = true) : Carries s (.object es) := by
  constructor
  · intro g hg
    have htag : fieldTag? .output fields = some g := by
      cases s
      rw [Schema.kind_node] at hkind
      rwa [Schema.tag?, hkind] at hg
    obtain ⟨name, u, l, hm, hl, rfl⟩ := fieldTag?_eq_some htag
    obtain ⟨a, ha, haccepts⟩ := hfields name u l hm hl
    change l.equal (Literal.ofValue ((Entries.find? name es).getD .null)) = true
    rw [(Entries.find?_eq_some_iff hkeys).2 ha]
    exact (Literal.accepts_iff_equal (Kind.literalTag?_isPrimitive hl) a).symm.trans haccepts
  · exact fun g _ _ => hkeys

/-- **What a literal, a variant or an object parses carries its tag of typed values.** -/
theorem World.Sound.parsed_carries (h : w₀.Sound nodes) (hshape : w₀.Shaped World.Before nodes)
    (fuel : Nat) : ∀ s ∈ nodes, s.Discriminable → (∀ t, w₀.Reaches s t → t.kind.LiteralsRead) →
      ∀ v t, Gives (w₀.Later nodes) ((w₀.planned s).atOnce.run (machine fuel) v) (.ok t) →
        Carries s t := by
  -- refinements are taken off, down to the literal, variant or object
  refine h.hosts.induction fun s hs ih => ?_
  intro hdisc hread v t hg
  have hshaped : ∀ u ∈ nodes, ∀ x a,
      Gives (w₀.Later nodes) ((w₀.planned u).atOnce.run (machine fuel) x) (.ok a) →
      ∃ w₁ id, Gives (w₀.Later nodes)
        ((u.kind.directParser w₁ id w₀.planned).run (machine fuel) x) (.ok a) := by
    intro u hu x a hg
    obtain ⟨w₁, o, -, -, -, hplan⟩ := h.planned_of_gives hshape hu h.later hg
    exact ⟨w₁, o.id, hplan ▸ hg⟩
  obtain ⟨w₁, id, hg⟩ := hshaped s hs v t hg
  have hbelow := h.hosts.below s hs
  have hformed := h.hosts.formed s hs
  have hlead : ∀ u ∈ s.kind.children, w₀.Leads s u := fun u hu => World.leads_of_child hu
  have hdisc : s.kind.Discriminable := by
    cases s
    exact hdisc
  have haccepts : ∀ l, s.kind.literalTag? .output = some l → l.accepts t = true := fun l hl =>
    Kind.parsed_accepted h.later (hread s .refl) (fun u _ => h.runs fuel _) hl hg
  rw [Schema.children] at hbelow ih
  cases hkind : s.kind with
  | literal l => exact .of_accepts (.inl ⟨l, hkind⟩) haccepts
  | object fields policy =>
      rw [hkind] at hg hbelow hformed hlead
      obtain ⟨es, rfl, hes⟩ :=
        RoundTrips.parseObject_taken (P := fun u => (w₀.planned u).atOnce) h.later
          (fun f _ => h.runs fuel _) hg
      refine .of_fields hkind (Entries.keys_eq_of_forall₂ hes ▸ hformed) ?_
      intro name u l hm hl
      have hu : u ∈ (Kind.object fields policy).children :=
        List.mem_map_of_mem (f := Prod.snd) hm
      obtain ⟨a, ha, x, hx⟩ := Entries.exists_mem_of_forall₂ hes hm
      obtain ⟨w₂, id₂, hx⟩ := hshaped u (hbelow u hu).1 x a hx
      exact ⟨a, ha, Kind.parsed_accepted h.later (hread u (.single (hlead u hu)))
        (fun _ _ => h.runs fuel _) hl hx⟩
  | transformed base effect =>
      rw [hkind] at hdisc
      cases effect with
      | variant external internal =>
          exact .of_accepts (.inr ⟨base, external, internal, hkind⟩) haccepts
      | refine message check =>
          rw [hkind] at hg ih hlead
          have hmem := List.mem_singleton_self base
          refine .of_refine hkind (ih base hmem hdisc
            (fun u hu => hread u (hu.head (hlead base hmem))) v t ?_)
          cases check with
          | async test => cases hg.of_pure h.later
          | direct test =>
              have hW := w₀.later_leavesLogsOpen nodes
              obtain ⟨a, ha, hg⟩ := Gives.of_attempt hg h.later (h.runs fuel _ v)
                (checked_steady hW .parsing message test) fun _ => ⟨_, rfl⟩
              obtain ⟨rfl, -⟩ := checked_passes hW h.later hg
              exact ha
      | _ => exact hdisc.elim
  | _ => rw [hkind] at hdisc; exact hdisc.elim

/-- **What is written of a value with legible tag has one.** -/
theorem World.Sound.written_legible (h : w₀.Sound nodes) (hshape : w₀.Shaped World.Before nodes)
    (fuel : Nat) : ∀ s ∈ nodes, s.Discriminable → ∀ g, s.tag? .input = some g → ∀ t u, g.Legible t →
      Gives (w₀.Later nodes) ((w₀.serializePlan s).operation.run (machine fuel) t) (.ok u) →
        g.Legible u := by
  refine h.hosts.induction fun s hs ih => ?_
  intro hdisc g htag t u ht hg
  obtain ⟨w₁, o, -, -, -, hplan⟩ := h.serializePlan_shape hshape (.refl w₀) hs
  rw [hplan] at hg
  have hformed := h.hosts.formed s hs
  have hdisc : s.kind.Discriminable := by
    cases s
    exact hdisc
  -- a tag on the value itself asks for nothing
  have hself : ∀ (hkind : (∃ l, s.kind = .literal l) ∨ ∃ base external internal,
      s.kind = .transformed base (.variant external internal)), g.Legible u := by
    intro hkind
    obtain ⟨l, -, rfl⟩ := Schema.tag?_of_kind htag hkind
    exact fun h => absurd rfl h
  rw [Schema.children] at ih
  cases hkind : s.kind with
  | literal l => exact hself (.inl ⟨l, hkind⟩)
  | object fields policy =>
      rw [hkind] at hg hformed
      intro hfield
      refine objectSerializer_distinct h.later ?_ (ht hfield) hg
      rwa [Entries.keys_map]
  | transformed base effect =>
      rw [hkind] at hdisc
      cases effect with
      | variant external internal => exact hself (.inr ⟨base, external, internal, hkind⟩)
      | refine message check =>
          rw [hkind] at hg ih
          have hbase : base.tag? .input = some g := by
            cases s
            rw [Schema.kind_node] at hkind
            rwa [Schema.tag?, hkind] at htag
          refine ih base (List.mem_singleton_self base) hdisc g hbase t u ht ?_
          cases check with
          | async test => exact hg
          | direct test =>
              have hW := w₀.later_leavesLogsOpen nodes
              obtain ⟨a, ha, hrest⟩ := Gives.of_attempt hg h.later
                (checked_steady hW .serializing message test t) (h.runs fuel _)
                fun _ => ⟨_, rfl⟩
              obtain ⟨rfl, -⟩ := checked_passes hW h.later ha
              exact hrest
      | _ => exact hdisc.elim
  | _ => rw [hkind] at hdisc; exact hdisc.elim

/-! ### The union -/

/-- Literals, variants and objects are no references. -/
theorem Schema.Discriminable.refersBack (h : s.Discriminable) (w : World) (ids : List NodeId) :
    refersBack w ids s = false := by
  have hkind : s.kind.Discriminable := by
    cases s
    exact h
  rw [Schemata.refersBack]
  split
  · rename_i r hr
    rw [hr] at hkind
    exact hkind.elim
  · rfl

/-- The parse operation of a union of such members runs the members' own operations. -/
theorem Schema.Discriminable.union_parser_run {members : List Schema}
    (h : ∀ u ∈ members, u.Discriminable) (w₁ : World) (id : NodeId)
    (below : Schema → ParseOperation) (v : Value) :
    ((Kind.union members).directParser w₁ id below).run m v =
      parseMembers (members.map (Schema.tag? .input))
        (members.map fun u => (below u).atOnce.run m) v := by
  rw [Kind.directParser, Operation.run, runners_eq_map, List.map_map]
  refine congrArg (parseMembers _ · v) (List.map_congr_left fun u hu => ?_)
  rw [Function.comp_apply, memberParser, (h u hu).refersBack]
  rfl

/-- The serialize operation of a union of such members runs the members' own operations. -/
theorem Schema.Discriminable.union_serializer_run {members : List Schema}
    (h : ∀ u ∈ members, u.Discriminable) (w₁ : World) (id : NodeId)
    (below : Schema → Compiled Operation) (v : Value) :
    ((Kind.union members).serializer w₁ id below).operation.run m v =
      serializeMembers (members.map (Schema.tag? .output))
        (members.map fun u => (below u).operation.run m) v := by
  rw [Kind.serializer, Operation.run, runners_eq_map, List.map_map]
  refine congrArg (serializeMembers _ · v) (List.map_congr_left fun u hu => ?_)
  rw [Function.comp_apply, memberSerializer, (h u hu).refersBack]
  rfl

/-- What a member parses carries its tag of raw input. -/
theorem World.Sound.admitted_of_parsed (h : w₀.Sound nodes) (hshape : w₀.Shaped World.Before nodes)
    (hs : s ∈ nodes) {g : Tag} (hg : s.tag? .input = some g) {x t : Value} (hx : g.Legible x)
    {fuel : Nat}
    (hgives : Gives (w₀.Later nodes) ((w₀.planned s).atOnce.run (machine fuel) x) (.ok t)) :
    g.admits x = true := by
  by_contra hnot
  rw [Bool.not_eq_true] at hnot
  obtain ⟨w', -, hrun⟩ := hgives w₀ h.later
  obtain ⟨e, he⟩ := h.fails_of_not_admitted hshape s hs g hg x hx hnot w₀ _ w' hrun
  cases he

end

/-- **What is parsed is serialized, and what is written is parsed as the same value.** -/
def Schema.RoundTripsFrom (s : Schema) (w : World) : Prop :=
  ∀ fuel v t w₁, s.parse fuel v w = .ok (.ok t, w₁) →
    ∃ fuel' u w₂ w₃, s.serialize fuel' t w₁ = .ok (.ok u, w₂) ∧
      s.parse fuel' u w₂ = .ok (.ok t, w₃)

namespace Scene

/-- **Discriminated unions round-trip.**  Let the members of a union be literals, variants or
objects, optionally under refinements, each of which round-trips on its own, and let them be
discriminated both in raw input and in typed values.  Whatever the union parses it serializes, and
it parses what it has written as the same value. -/
theorem Reachable.discriminated_union_roundTrips {σ : Scene} (hσ : σ.Reachable) {s : Schema}
    (hs : s ∈ σ.nodes) {members : List Schema} (hkind : s.kind = .union members)
    (hmembers : ∀ u ∈ members, u.Discriminable) (hinput : Discriminates .input members)
    (houtput : Discriminates .output members)
    (hread : ∀ u, σ.world.Reaches s u → u.kind.LiteralsRead)
    (hround : ∀ u ∈ members, u.RoundTripsFrom σ.world) {fuel : Nat} {v t : Value} {w₁ : World}
    (hparse : s.parse fuel v σ.world = .ok (.ok t, w₁)) :
    ∃ fuel' x w₂ w₃, s.serialize fuel' t w₁ = .ok (.ok x, w₂) ∧
      s.parse fuel' x w₂ = .ok (.ok t, w₃) := by
  have h := hσ.sound
  have hc : σ.world.Compiles (· ∈ σ.nodes) (σ.world.Later σ.nodes) := h.compiles fun _ hu => hu
  have hchildren : ∀ u ∈ members, u ∈ s.children := by
    intro u hu
    rwa [Schema.children, hkind]
  have hu : ∀ u ∈ members, u ∈ σ.nodes := fun u hu => (h.hosts.below s hs u (hchildren u hu)).1
  -- the union has parsed the value with one of its members
  have hgives := Schema.gives_of_parseOn hc hs (h.runs fuel _) h.later hparse
  obtain ⟨w₂, o, -, -, -, hplan⟩ := h.planned_of_gives hσ.shaped hs h.later hgives
  obtain ⟨w₃, o', -, -, -, hplan'⟩ := h.serializePlan_shape hσ.shaped (.refl σ.world) hs
  rw [hkind] at hplan hplan'
  rw [hplan, Schema.Discriminable.union_parser_run hmembers] at hgives
  obtain ⟨run, hrun, hgives⟩ := parseMembers_gives h.later
    (List.forall_mem_map.2 fun u _ => h.runs fuel _ v) hgives
  obtain ⟨u, hum, rfl⟩ := List.mem_map.1 hrun
  -- the member serializes it, and parses what it has written
  obtain ⟨w₄, hw₄, hparsed⟩ := Schema.parseOn_gives hc (hu u hum) hgives σ.world h.later
  obtain ⟨fuel', x, w₅, w₆, hwrite, hagain⟩ := hround u hum fuel v t w₄ hparsed
  have hw₅ := (h.serialize_steady fuel' (hu u hum) t).keeps hw₄ hwrite
  have hwritten := Schema.gives_of_serializeOn hc (hu u hum) (h.runs fuel' _) hw₄ hwrite
  have hreread := Schema.gives_of_parseOn hc (hu u hum) (h.runs fuel' _) hw₅ hagain
  -- the value carries the member's tag of typed values, and what is written that of raw input
  have hcarries := h.parsed_carries hσ.shaped fuel u (hu u hum) (hmembers u hum)
    (fun t ht => hread t (ht.head (World.leads_of_child (hchildren u hum)))) v t hgives
  obtain ⟨g, hg⟩ := houtput.tagged hum
  obtain ⟨g', hg'⟩ := hinput.tagged hum
  have hlegible := h.written_legible hσ.shaped fuel' u (hu u hum) (hmembers u hum) g' hg' t x
    (hcarries.legible g' hg') hwritten
  have hadmits : admitted t (u.tag? .output) = true := by
    rw [hg]
    exact hcarries.admitted g hg
  have hadmits' : admitted x (u.tag? .input) = true := by
    rw [hg']
    exact h.admitted_of_parsed hσ.shaped (hu u hum) hg' hlegible hreread
  have hserialized : Gives (σ.world.Later σ.nodes)
      ((σ.world.serializePlan s).operation.run (machine fuel') t) (.ok x) := by
    rw [hplan', Schema.Discriminable.union_serializer_run hmembers]
    exact houtput.serializeMembers_gives hum hadmits
      (fun u => (σ.world.serializePlan u).operation.run (machine fuel')) hwritten
  have hback : Gives (σ.world.Later σ.nodes)
      ((σ.world.planned s).atOnce.run (machine fuel') x) (.ok t) := by
    rw [hplan, Schema.Discriminable.union_parser_run hmembers]
    exact hinput.parseMembers_gives hum hadmits'
      (fun u => (σ.world.planned u).atOnce.run (machine fuel')) hreread
  have hw₁ := (h.parse_steady fuel hs v).keeps h.later hparse
  obtain ⟨w₇, hw₇, hserialize⟩ := Schema.serializeOn_gives hc hs hserialized w₁ hw₁
  obtain ⟨w₈, -, hparse'⟩ := Schema.parseOn_gives hc hs hback w₇ hw₇
  exact ⟨fuel', x, w₇, w₈, hserialize, hparse'⟩

/-! ### A word for true, and a word of its own -/

/-- The word outside. -/
def yes : Schema := .node 0 (.literal (.string "yes")) Metadata.empty none

/-- The word for true. -/
def affirmed : Schema :=
  .node 1 (.transformed yes (.variant (.string "yes") (.bool true))) Metadata.empty none

/-- A word that stays. -/
def maybe : Schema := .node 2 (.literal (.string "maybe")) Metadata.empty none

/-- One or the other. -/
def answered : Schema := .node 3 (.union [affirmed, maybe]) Metadata.empty none

/-- The scene of the union. -/
def answers : Scene := ⟨made 4 0, [answered, maybe, affirmed, yes]⟩

theorem answers_reachable : answers.Reachable := by
  have h₁ : Step .building initial ⟨made 1 0, [yes]⟩ :=
    .made (fun t ht => by cases ht) (by trivial)
  have h₂ : Step .building ⟨made 1 0, [yes]⟩ ⟨made 2 0, [affirmed, yes]⟩ :=
    .made (fun t ht => by simpa [Kind.children] using ht) rfl
  have h₃ : Step .building ⟨made 2 0, [affirmed, yes]⟩ ⟨made 3 0, [maybe, affirmed, yes]⟩ :=
    .made (fun t ht => by cases ht) (by trivial)
  have h₄ : Step .building ⟨made 3 0, [maybe, affirmed, yes]⟩ answers :=
    .made (fun t ht => by simp_all [Kind.children]; tauto) (by simp [Kind.Formed])
  exact .tail (.tail (.tail (.single ⟨_, h₁⟩) ⟨_, h₂⟩) ⟨_, h₃⟩) ⟨_, h₄⟩

theorem answers_read (u : Schema) (h : answers.world.Reaches answered u) : u.kind.LiteralsRead := by
  have hu : u ∈ [answered, maybe, affirmed, yes] :=
    answers_reachable.sound.hosts.reaches (List.mem_cons_self ..) h
  simp only [List.mem_cons, List.not_mem_nil, or_false] at hu
  rcases hu with rfl | rfl | rfl | rfl
  · trivial
  · exact ⟨.string "maybe", trivial, rfl⟩
  · exact ⟨⟨.string "yes", trivial, rfl⟩, ⟨.bool true, trivial, rfl⟩⟩
  · exact ⟨.string "yes", trivial, rfl⟩

/-- Each member parses its own word only. -/
theorem answers_word {u : Schema} {word : String} {fuel : Nat} {v t : Value} {w₁ : World}
    (hu : u ∈ answers.nodes) (htag : u.tag? .input = some ⟨none, .string word⟩)
    (h : u.parse fuel v answers.world = .ok (.ok t, w₁)) : v = .string word := by
  have hsound := answers_reachable.sound
  have hgives := Schema.gives_of_parseOn (hsound.compiles fun _ hu => hu) hu (hsound.runs fuel _)
    hsound.later h
  have hadmits := hsound.admitted_of_parsed answers_reachable.shaped hu htag
    (fun hfield => absurd rfl hfield) hgives
  cases v with
  | string x => rw [beq_iff_eq.1 (show (word == x) = true from hadmits)]
  | _ => cases hadmits

theorem answers_roundTrip : ∀ u ∈ [affirmed, maybe], u.RoundTripsFrom answers.world := by
  intro u hu fuel v t w₁ h
  simp only [List.mem_cons, List.not_mem_nil, or_false] at hu
  rcases hu with rfl | rfl
  · obtain rfl := answers_word (by simp [answers]) rfl h
    cases h
    exact ⟨fuel, _, _, _, rfl, rfl⟩
  · obtain rfl := answers_word (by simp [answers]) rfl h
    cases h
    exact ⟨fuel, _, _, _, rfl, rfl⟩

/-- The word for true is parsed as true, written as the word, and parsed as true again. -/
theorem discriminated_union_roundTrips_yes : ∃ w₁,
    answered.parse 1 (.string "yes") answers.world = .ok (.ok (.bool true), w₁) ∧
    ∃ fuel x w₂ w₃, answered.serialize fuel (.bool true) w₁ = .ok (.ok x, w₂) ∧
      answered.parse fuel x w₂ = .ok (.ok (.bool true), w₃) := by
  have hkind : answered.kind = .union [affirmed, maybe] := rfl
  have hparse : ∃ w₁, answered.parse 1 (.string "yes") answers.world =
      .ok (.ok (.bool true), w₁) := ⟨_, rfl⟩
  obtain ⟨w₁, hparse⟩ := hparse
  refine ⟨w₁, hparse, answers_reachable.discriminated_union_roundTrips (List.mem_cons_self ..) hkind
    ?_ ?_ ?_ answers_read answers_roundTrip hparse⟩
  · intro u hu
    simp only [List.mem_cons, List.not_mem_nil, or_false] at hu
    rcases hu with rfl | rfl <;> trivial
  · exact ⟨none, [.string "yes", .string "maybe"], rfl, by decide⟩
  · exact ⟨none, [.bool true, .string "maybe"], rfl, by decide⟩

end Scene

end Schemata
