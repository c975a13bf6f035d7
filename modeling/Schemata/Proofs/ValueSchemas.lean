/-
**Schemas made of values accept the shape of these values.**

The schema of a value has a literal for each scalar, a tuple for each array and an object for each
object.  The objects leave their policy open, so they take that of the configuration under which they
are compiled.  Nothing else matters: whatever has been built, called or configured meanwhile, such a
schema accepts exactly the values of the shape, and it gives back the value that it is made of.

Main definitions:

* `Schemata.Schema.Describes` — schemas that are made of a value;
* `Schemata.Scene.GrowsTo`, `Schemata.Scene.Continues` — scenes with more nodes, and whatever comes
  after a scene;
* `Schemata.Scene.AcceptsShape` — what parsing and serializing with such a schema comes to.

Main results:

* `Schemata.Scene.ofValue_builds` — the schema of a value is made of it;
* `Schemata.Scene.Arises.planned_fits`, `Schemata.Scene.Arises.serializePlan_keeps` — its operations
  decide the shape, and keep the value;
* `Schemata.Scene.Arises.ofValue_acceptsShape` — **the schema of a value accepts its shape**.
-/

import Schemata.Proofs.Correspondence
import Schemata.Proofs.StructuralEquality
import Schemata.Proofs.ValueShapes

set_option relaxedAutoImplicit false
set_option autoImplicit false

namespace Schemata

/-- Under the same keys, what stands side by side has the same name. -/
theorem Entries.forall₂_named {α β : Type} {Q : String × β → String × α → Prop}
    {fields : List (String × β)} {entries : List (String × α)} (hkeys : keys entries = keys fields)
    (h : List.Forall₂ Q fields entries) :
    List.Forall₂ (fun f e => f.1 = e.1 ∧ Q f e) fields entries :=
  forall₂_of_keys hkeys fun _ hp => (List.forall₂_iff_zip.1 h).2 hp

/-! ### Schemas of values -/

/-- **A schema is made of a value**: a literal of a scalar, a tuple of an array, and an object of an
object, which leaves its policy open. -/
inductive Schema.Describes : Schema → Value → Prop
  | scalar {s : Schema} {v : Value} : v.IsScalar → s.kind = .literal (Literal.ofValue v) →
      Describes s v
  | array {s : Schema} {ts : List Schema} {items : List Value} : s.kind = .tuple ts →
      List.Forall₂ Describes ts items → Describes s (.array items)
  | object {s : Schema} {fields : List (String × Schema)} {entries : List (String × Value)} :
      s.kind = .object fields none → Entries.keys entries = Entries.keys fields →
      List.Forall₂ (fun f e => Describes f.2 e.2) fields entries → Describes s (.object entries)

section

variable {w : World} {nodes : List Schema} {s t : Schema} {v : Value}

/-- What is below a schema that is made of a value is made of a part of it. -/
theorem Schema.Describes.child (h : s.Describes v) (ht : t ∈ s.children) : ∃ x, t.Describes x := by
  rw [Schema.children] at ht
  cases h with
  | scalar _ hkind =>
      rw [hkind] at ht
      cases ht
  | array hkind hall =>
      rw [hkind] at ht
      obtain ⟨x, -, hx⟩ := forall₂_exists_right hall ht
      exact ⟨x, hx⟩
  | object hkind _ hall =>
      rw [hkind] at ht
      obtain ⟨f, hf, rfl⟩ := List.mem_map.1 ht
      obtain ⟨e, -, hx⟩ := forall₂_exists_right hall hf
      exact ⟨e.2, hx⟩

theorem Schema.Describes.transparent (h : s.Describes v) : s.Transparent := by
  intro t ht
  have hdescribes : ∃ x, t.Describes x := by
    induction ht with
    | refl => exact ⟨v, h⟩
    | tail _ hxt ih => exact ih.elim fun _ hx => hx.child hxt
  obtain ⟨x, hx⟩ := hdescribes
  cases hx with
  | scalar hscalar hkind =>
      rw [hkind]
      cases x with
      | array | object => cases hscalar
      | _ => rfl
  | array hkind _ =>
      rw [hkind]
      trivial
  | object hkind _ _ =>
      rw [hkind]
      trivial

/-- A schema that is made of a value is no option. -/
theorem Schema.Describes.not_isOmittable (h : s.Describes v) : isOmittable s = false := by
  cases h with
  | scalar _ hkind => rw [isOmittable, hkind]
  | array hkind _ => rw [isOmittable, hkind]
  | object hkind _ _ => rw [isOmittable, hkind]

end

namespace Scene

variable {σ : Scene}

/-- **The operation of a schema that is made of a value decides the shape of the value.** -/
theorem Arises.planned_fits (h : σ.Arises) (W : World → Prop) (m : Machine) (config : Config) :
    ∀ s ∈ σ.nodes, ∀ v, s.Describes v → σ.world.CompilesUnder config s →
      (σ.world.planned s).atOnce.Fits W m config.unknownKeys v := by
  obtain ⟨hsound, hshape⟩ := h.invariants
  refine hsound.hosts.induction_within (N := (· ∈ σ.nodes)) (fun _ hs => hs)
    (fun _ _ hs => hsound.hosts.leads hs) fun s hs ih v hv hunder => ?_
  obtain ⟨w₁, id, -, -, hplan⟩ := hsound.planned_eq_parser hshape hs
  rw [hsound.planned_isAsync hs, h.answer_transparent hs hv.transparent] at hplan
  cases hv with
  | scalar hscalar hkind =>
      rw [hplan, hkind]
      exact Operation.literal_fits hscalar
  | @array _ ts items hkind hall =>
      have hchild : ∀ t ∈ ts, t ∈ s.children := fun t ht => by rwa [Schema.children, hkind]
      rw [hplan, hkind]
      refine Operation.tuple_fits _ ?_
      rw [List.forall₂_map_left_iff]
      exact forall₂_imp_both hall fun t ht v _ hv =>
        ih t (hchild t ht) v hv (hunder.below (hchild t ht))
  | @object _ fields entries hkind hkeys hall =>
      have hchild : ∀ f ∈ fields, f.2 ∈ s.children := fun f hf => by
        rw [Schema.children, hkind]
        exact List.mem_map_of_mem (f := Prod.snd) hf
      have hpolicy := hunder.unknownKeys (by rw [hkind]; trivial) hplan
      have hnames : (Entries.keys fields).Nodup := by
        have hformed := hsound.hosts.formed s hs
        rwa [hkind] at hformed
      rw [hplan, hkind, ← hpolicy]
      refine Operation.parseObject_fits _ (fun t => (σ.world.planned t).atOnce) hnames ?_
      rw [hpolicy]
      exact Entries.forall₂_named hkeys (forall₂_imp_both hall fun f hf e _ hfe =>
        ih f.2 (hchild f hf) e.2 hfe (hunder.below (hchild f hf)))

/-- **The operation of a schema that is made of a value serializes it to itself.** -/
theorem Arises.serializePlan_keeps (h : σ.Arises) (W : World → Prop) (m : Machine) :
    ∀ s ∈ σ.nodes, ∀ v : Value, v.WellFormed → s.Describes v →
      (σ.world.serializePlan s).operation.Keeps W m v := by
  obtain ⟨hsound, hshape⟩ := h.invariants
  refine hsound.hosts.induction fun s hs ih v hwell hv => ?_
  obtain ⟨w₁, o, -, -, -, hplan⟩ := hsound.serializePlan_shape hshape (.refl _) hs
  rw [hplan]
  cases hv with
  | scalar hscalar hkind =>
      rw [hkind]
      exact Operation.literal_keeps hscalar hwell
  | @array _ ts items hkind hall =>
      rw [hkind]
      refine Operation.tuple_keeps _ ?_
      rw [List.forall₂_map_left_iff]
      exact forall₂_imp_both hall fun t ht v hmem hv =>
        ih t (by rwa [Schema.children, hkind]) v (Value.wellFormedItems_iff.1 hwell v hmem) hv
  | @object _ fields entries hkind hkeys hall =>
      have homitted : omittedFields fields = [] := by
        rw [omittedFields, List.map_eq_nil_iff, List.filter_eq_nil_iff]
        intro f hf
        obtain ⟨e, -, hfe⟩ := forall₂_exists_right hall hf
        exact Bool.not_eq_true _ ▸ hfe.not_isOmittable
      rw [hkind]
      simp only [Kind.serializer, homitted]
      refine Operation.serializeObject_keeps _ hwell.1 ?_
      rw [List.forall₂_map_left_iff]
      refine Entries.forall₂_named hkeys (forall₂_imp_both hall fun f hf e hmem hfe =>
        ih f.2 ?_ e.2 (Value.wellFormedEntries_iff.1 hwell.2 e hmem) hfe)
      rw [Schema.children, hkind]
      exact List.mem_map_of_mem (f := Prod.snd) hf

/-! ### Building -/

/-- **A scene becomes another one that has more nodes**, while nothing else changes. -/
structure GrowsTo (σ τ : Scene) : Prop where
  steps : Relation.ReflTransGen (Step .building) σ τ
  nodes : σ.nodes ⊆ τ.nodes
  world : ∃ n, σ.world.nextNode ≤ n ∧ τ.world = { σ.world with nextNode := n }

theorem GrowsTo.refl (σ : Scene) : σ.GrowsTo σ :=
  ⟨.refl, List.Subset.refl _, σ.world.nextNode, Nat.le_refl _, rfl⟩

theorem GrowsTo.trans {σ τ ρ : Scene} (h : σ.GrowsTo τ) (h' : τ.GrowsTo ρ) : σ.GrowsTo ρ := by
  obtain ⟨n, hn, hτ⟩ := h.world
  obtain ⟨k, hk, hρ⟩ := h'.world
  rw [hτ] at hk hρ
  exact ⟨h.steps.trans h'.steps, List.Subset.trans h.nodes h'.nodes, k, Nat.le_trans hn hk, hρ⟩

theorem GrowsTo.nextNode_le {σ τ : Scene} (h : σ.GrowsTo τ) :
    σ.world.nextNode ≤ τ.world.nextNode := by
  obtain ⟨n, hn, hτ⟩ := h.world
  rw [hτ]
  exact hn

/-- Nothing in a schema had been there in a scene. -/
def IsNew (σ : Scene) (s : Schema) : Prop := ∀ t, s.Contains t → σ.world.nextNode ≤ t.id

/-- A new node around nodes that are new in an earlier scene. -/
theorem GrowsTo.fresh {σ τ : Scene} (h : σ.GrowsTo τ) (kind : Kind) (hformed : kind.Formed)
    (hbelow : ∀ t ∈ kind.children, t ∈ τ.nodes ∧ σ.IsNew t) :
    ∃ s ρ, Schema.fresh kind τ.world = .ok (s, ρ.world) ∧ σ.GrowsTo ρ ∧ s ∈ ρ.nodes ∧
      s.kind = kind ∧ σ.IsNew s := by
  refine ⟨.node τ.world.nextNode kind Metadata.empty none,
    ⟨{ τ.world with nextNode := τ.world.nextNode + 1 },
      .node τ.world.nextNode kind Metadata.empty none :: τ.nodes⟩, rfl, ?_, ?_, rfl, ?_⟩
  · refine h.trans ⟨.single (.fresh (fun t ht => (hbelow t ht).1) hformed rfl), ?_, _, ?_, rfl⟩
    · exact List.subset_cons_self _ _
    · exact Nat.le_succ _
  · exact List.mem_cons_self ..
  · intro t ht
    rcases ht.cases_head with rfl | ⟨u, hu, hut⟩
    · exact h.nextNode_le
    · exact (hbelow u hu).2 t hut

mutual

/-- **The schema of a value is made of the value**, out of new nodes. -/
theorem ofValue_builds : ∀ {v : Value}, v.WellFormed → ∀ σ : Scene,
    ∃ s τ, Schema.ofValue v σ.world = .ok (s, τ.world) ∧ σ.GrowsTo τ ∧ s ∈ τ.nodes ∧
      s.Describes v ∧ σ.IsNew s
  | .null, _, σ | .bool _, _, σ | .number _, _, σ | .string _, _, σ => by
      obtain ⟨s, τ, hrun, hgrows, hs, hkind, hnew⟩ := (GrowsTo.refl σ).fresh
        (.literal (Literal.ofValue _)) trivial fun t ht => by cases ht
      exact ⟨s, τ, hrun, hgrows, hs, .scalar trivial hkind, hnew⟩
  | .array items, h, σ => by
      obtain ⟨ts, τ, hitems, hgrows, hts, hall⟩ := ofItems_builds h σ
      obtain ⟨s, ρ, hrun, hgrows', hs, hkind, hnew⟩ := hgrows.fresh (.tuple ts) trivial hts
      refine ⟨s, ρ, ?_, hgrows', hs, .array hkind hall, hnew⟩
      rw [Schema.ofValue, bind_ok hitems, hrun]
  | .object entries, h, σ => by
      obtain ⟨fields, τ, hentries, hgrows, hfields, hkeys, hall⟩ := ofEntries_builds h.2 σ
      have hformed : (Kind.object fields none).Formed := by
        rw [Kind.Formed, ← hkeys]
        exact h.1
      obtain ⟨s, ρ, hrun, hgrows', hs, hkind, hnew⟩ := hgrows.fresh _ hformed fun t ht => by
        obtain ⟨f, hf, rfl⟩ := List.mem_map.1 ht
        exact hfields f hf
      refine ⟨s, ρ, ?_, hgrows', hs, .object hkind hkeys hall, hnew⟩
      rw [Schema.ofValue, bind_ok hentries, hrun]

theorem ofItems_builds : ∀ {items : List Value}, Value.WellFormedItems items → ∀ σ : Scene,
    ∃ ts τ, Schema.ofItems items σ.world = .ok (ts, τ.world) ∧ σ.GrowsTo τ ∧
      (∀ t ∈ ts, t ∈ τ.nodes ∧ σ.IsNew t) ∧ List.Forall₂ Schema.Describes ts items
  | [], _, σ => ⟨[], σ, rfl, .refl σ, fun _ ht => absurd ht List.not_mem_nil, .nil⟩
  | v :: rest, h, σ => by
      obtain ⟨s, τ, hv, hgrows, hs, hdescribes, hnew⟩ := ofValue_builds h.1 σ
      obtain ⟨ts, ρ, hrest, hgrows', hts, hall⟩ := ofItems_builds h.2 τ
      refine ⟨s :: ts, ρ, ?_, hgrows.trans hgrows', ?_, .cons hdescribes hall⟩
      · rw [Schema.ofItems, bind_ok hv, bind_ok hrest, pure_apply]
      · refine List.forall_mem_cons.2 ⟨⟨hgrows'.nodes hs, hnew⟩, fun t ht => ⟨(hts t ht).1, ?_⟩⟩
        exact fun u hu => Nat.le_trans hgrows.nextNode_le ((hts t ht).2 u hu)

theorem ofEntries_builds : ∀ {entries : List (String × Value)}, Value.WellFormedEntries entries →
    ∀ σ : Scene, ∃ fields τ, Schema.ofEntries entries σ.world = .ok (fields, τ.world) ∧
      σ.GrowsTo τ ∧ (∀ f ∈ fields, f.2 ∈ τ.nodes ∧ σ.IsNew f.2) ∧
      Entries.keys entries = Entries.keys fields ∧
      List.Forall₂ (fun f e => Schema.Describes f.2 e.2) fields entries
  | [], _, σ => ⟨[], σ, rfl, .refl σ, fun _ ht => absurd ht List.not_mem_nil, rfl, .nil⟩
  | (name, v) :: rest, h, σ => by
      obtain ⟨s, τ, hv, hgrows, hs, hdescribes, hnew⟩ := ofValue_builds h.1 σ
      obtain ⟨fields, ρ, hrest, hgrows', hfields, hkeys, hall⟩ := ofEntries_builds h.2 τ
      refine ⟨(name, s) :: fields, ρ, ?_, hgrows.trans hgrows', ?_, ?_, .cons hdescribes hall⟩
      · rw [Schema.ofEntries, bind_ok hv, bind_ok hrest, pure_apply]
      · refine List.forall_mem_cons.2 ⟨⟨hgrows'.nodes hs, hnew⟩, fun f hf => ⟨(hfields f hf).1, ?_⟩⟩
        exact fun u hu => Nat.le_trans hgrows.nextNode_le ((hfields f hf).2 u hu)
      · rw [Entries.keys_cons, Entries.keys_cons, hkeys]

end

/-! ### The law -/

/-- **Whatever comes after a scene**: steps of building and calls, in any order. -/
def Continues : Scene → Scene → Prop :=
  Relation.ReflTransGen fun σ τ => (∃ phase, Step phase σ τ) ∨ Call σ τ

/-- **A schema accepts the shape of a value**, and the value itself in both directions. -/
structure AcceptsShape (σ : Scene) (s : Schema) (policy : UnknownKeys) (v : Value) : Prop where
  accepts : ∀ fuel x, x.WellFormed → v.hasShape policy x = true →
    ∃ w, s.parse fuel x σ.world = .ok (.ok (v.fitted x), w)
  refuses : ∀ fuel x, x.WellFormed → v.hasShape policy x = false →
    ∃ e w, s.parse fuel x σ.world = .ok (.error e, w)
  parsesItself : ∀ fuel, ∃ w, s.parse fuel v σ.world = .ok (.ok v, w)
  serializesItself : ∀ fuel, ∃ w, s.serialize fuel v σ.world = .ok (.ok v, w)

section

variable {σ τ : Scene} {s : Schema} {v : Value} {config : Config}

theorem GrowsTo.continues (h : σ.GrowsTo τ) : σ.Continues τ := by
  have hsteps := h.steps
  clear h
  induction hsteps with
  | refl => exact .refl
  | tail _ hstep ih => exact ih.tail (.inl ⟨_, hstep⟩)

/-- Whatever comes after a scene that arises arises, and no node is lost. -/
theorem Arises.continues (hσ : σ.Arises) (h : σ.Continues τ) : τ.Arises ∧ σ.nodes ⊆ τ.nodes := by
  induction h with
  | refl => exact ⟨hσ, List.Subset.refl _⟩
  | tail _ hnext ih =>
      have hsound := ih.1.invariants.1
      refine ⟨ih.1.tail hnext, List.Subset.trans ih.2 ?_⟩
      rcases hnext with ⟨phase, hstep⟩ | hcall
      · exact ((hstep.change hsound).kept hsound).nodes
      · exact ((hcall.change hsound).kept hsound).nodes

/-- New nodes are compiled under the configuration of now. -/
theorem GrowsTo.compilesUnder (hσ : σ.Arises) (h : σ.GrowsTo τ) (hs : s ∈ τ.nodes)
    (hnew : σ.IsNew s) : τ.world.CompilesUnder σ.world.config s := by
  obtain ⟨hsound, hshape⟩ := (hσ.continues h.continues).1.invariants
  obtain ⟨n, -, hτ⟩ := h.world
  have hconfig : σ.world.config = τ.world.config := by rw [hτ]
  rw [hconfig]
  refine hsound.compilesUnder_of_empty hshape hs fun o ho => ?_
  rw [hτ]
  exact hσ.invariants.1.blank.parse o.id (hnew o ho)

/-- **A schema that is made of a value accepts its shape.** -/
theorem Arises.acceptsShape (h : σ.Arises) (hs : s ∈ σ.nodes) (hv : v.WellFormed)
    (hdescribes : s.Describes v) (hunder : σ.world.CompilesUnder config s) :
    σ.AcceptsShape s config.unknownKeys v := by
  obtain ⟨hsound, -⟩ := h.invariants
  have hcompiles := hsound.compiles fun _ ht => ht
  have hparse : ∀ fuel x, x.WellFormed → ∃ r w, s.parse fuel x σ.world = .ok (r, w) ∧
      r.toOption = v.fit? config.unknownKeys x := by
    intro fuel x hx
    obtain ⟨r, hr, ho⟩ := h.planned_fits (σ.world.Later σ.nodes) (machine fuel) config s hs v
      hdescribes hunder x hx
    obtain ⟨w, -, hrun⟩ := Schema.parseOn_gives hcompiles hs hr _ hsound.later
    exact ⟨r, w, hrun, ho⟩
  have haccepts : ∀ fuel x, x.WellFormed → v.hasShape config.unknownKeys x = true →
      ∃ w, s.parse fuel x σ.world = .ok (.ok (v.fitted x), w) := by
    intro fuel x hx hshape
    obtain ⟨r, w, hrun, ho⟩ := hparse fuel x hx
    rw [Value.fit?, if_pos hshape] at ho
    cases r with
    | error e => cases ho
    | ok a =>
        cases ho
        exact ⟨w, hrun⟩
  refine
    { accepts := haccepts
      refuses := fun fuel x hx hshape => ?_
      parsesItself := fun fuel => ?_
      serializesItself := fun fuel => ?_ }
  · obtain ⟨r, w, hrun, ho⟩ := hparse fuel x hx
    rw [Value.fit?, if_neg (by rw [hshape]; exact Bool.false_ne_true)] at ho
    cases r with
    | error e => exact ⟨e, w, hrun⟩
    | ok a => cases ho
  · obtain ⟨hshape, hfitted⟩ := Value.fits_self config.unknownKeys hv
    obtain ⟨w, hrun⟩ := haccepts fuel v hv hshape
    exact ⟨w, by rw [hrun, hfitted]⟩
  · have hkeeps := h.serializePlan_keeps (σ.world.Later σ.nodes) (machine fuel) s hs v hv hdescribes
    obtain ⟨w, -, hrun⟩ := Schema.serializeOn_gives hcompiles hs hkeeps _ hsound.later
    exact ⟨w, hrun⟩

/-- **The schema of a value accepts its shape.**  In any scene the schema can be made, out of new
nodes, which are going to be compiled under the configuration of that time as long as it is not
changed.  Whatever comes after, under the policy with which its objects are compiled the schema
accepts the values of this shape and no others, and gives what is left of them. -/
theorem Arises.ofValue_acceptsShape (hσ : σ.Arises) (hv : v.WellFormed) :
    ∃ s τ, Schema.ofValue v σ.world = .ok (s, τ.world) ∧ σ.GrowsTo τ ∧ s ∈ τ.nodes ∧
      τ.world.CompilesUnder σ.world.config s ∧
      ∀ ρ, τ.Continues ρ → ∀ config, ρ.world.CompilesUnder config s →
        ρ.AcceptsShape s config.unknownKeys v := by
  obtain ⟨s, τ, hrun, hgrows, hs, hdescribes, hnew⟩ := ofValue_builds hv σ
  refine ⟨s, τ, hrun, hgrows, hs, hgrows.compilesUnder hσ hs hnew, fun ρ hρ config hunder => ?_⟩
  obtain ⟨hτ, -⟩ := hσ.continues hgrows.continues
  obtain ⟨harises, hnodes⟩ := hτ.continues hρ
  exact harises.acceptsShape (hnodes hs) hv hdescribes hunder

end

/-! ### The shape of a leaf -/

/-- A leaf, without a next one. -/
def leaf : Value := .object [("kind", .string "leaf"), ("next", .null)]

/-- Nothing but the strict policy. -/
def strictly : Scene := ⟨{ World.initial with config := ⟨.strict⟩ }, []⟩

theorem strictly_arises : strictly.Arises := .single (.inl ⟨_, .configure ⟨.strict⟩⟩)

/-- A missing key is filled with null, and a key in excess is refused. -/
theorem ofValue_acceptsShape_leaf :
    strictly.Arises ∧ leaf.WellFormed ∧ ∃ (s : Schema) (τ : Scene),
      Schema.ofValue leaf strictly.world = .ok (s, τ.world) ∧
      (∃ w, s.parse 0 (.object [("kind", .string "leaf")]) τ.world = .ok (.ok leaf, w)) ∧
      (∃ e w, s.parse 0 (.object [("kind", .string "leaf"), ("last", .null)]) τ.world =
        .ok (.error e, w)) ∧
      ∃ w, s.serialize 0 leaf τ.world = .ok (.ok leaf, w) := by
  have hwell : leaf.WellFormed := by
    simp [leaf, Value.WellFormed, Value.WellFormedEntries, Entries.keys]
  obtain ⟨s, τ, hrun, -, -, hunder, hlaw⟩ := strictly_arises.ofValue_acceptsShape hwell
  have hshape := hlaw τ .refl _ hunder
  refine ⟨strictly_arises, hwell, s, τ, hrun, hshape.accepts 0 _ ?_ (by decide),
    hshape.refuses 0 _ ?_ (by decide), hshape.serializesItself 0⟩
  · simp [Value.WellFormed, Value.WellFormedEntries, Entries.keys]
  · simp [Value.WellFormed, Value.WellFormedEntries, Entries.keys]

end Scene

end Schemata
