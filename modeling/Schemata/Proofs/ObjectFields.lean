/-
**An object parses like looking its fields up, each on its own.**

Each field takes its value out of the entries, and the last entry moves into the place that became
free.  None of this can be seen: as long as the keys are distinct, a field finds the value that
stands under its name in the object that was given, and what is left in the end are the entries
under names that no field has.

So the fields are decided one by one, on their own values.  The first that fails decides the object,
whatever is in excess.  When none fails, a strict object fails with a key that it does not declare,
if there is one, and otherwise the object has the fields and nothing else, in their order.

Main definitions:

* `Schemata.Entries.valueAt` — the value under a key, null when it is missing;
* `Schemata.Fieldwise` — **what comes of an object, given what comes of its fields**;
* `Schemata.ParseOperation.policy?` — the policy in the operation of an object.

Main results:

* `Schemata.fieldPlaces_eq_map`, `Schemata.Entries.mem_removeAll_iff` — what fields find, and what
  they leave;
* `Schemata.stagePlaces_fieldwise` — starting the fields of an object;
* `Schemata.Scene.Arises.object_parses_fieldwise` — **objects, whether they wait or not**.
-/

import Schemata.Proofs.Composites
import Schemata.Proofs.Reconfiguration

set_option relaxedAutoImplicit false
set_option autoImplicit false

namespace Schemata

/-! ### What fields find and leave -/

namespace Entries

variable {α : Type} {k : String} {v : α} {names : List String}

/-- The value under a key, null when it is missing. -/
def valueAt (key : String) (entries : List (String × Value)) : Value :=
  (find? key entries).getD .null

/-- The entries without those under any of the names, taken out one after the other. -/
def removeAll (names : List String) (entries : List (String × α)) : List (String × α) :=
  names.foldl (fun left name => remove name left) entries

/-- **What is left when names are taken out are the entries under other keys.** -/
theorem mem_removeAll_iff {entries : List (String × α)} (h : (keys entries).Nodup) :
    (k, v) ∈ removeAll names entries ↔ (k, v) ∈ entries ∧ k ∉ names := by
  induction names generalizing entries with
  | nil => simp [removeAll]
  | cons name rest ih =>
      have hnodup : (keys (remove name entries)).Nodup := remove_nodup h
      have hrest := ih hnodup
      rw [mem_remove_iff h] at hrest
      rw [List.mem_cons, not_or, ← and_assoc]
      exact hrest

/-- Something is left exactly when a key is none of the names. -/
theorem removeAll_eq_nil_iff {entries : List (String × α)} (h : (keys entries).Nodup) :
    removeAll names entries = [] ↔ ∀ key ∈ keys entries, key ∈ names := by
  rw [List.eq_nil_iff_forall_not_mem]
  constructor
  · intro hnone key hkey
    obtain ⟨⟨_, v⟩, he, rfl⟩ := List.mem_map.1 hkey
    by_contra hnot
    exact hnone _ ((mem_removeAll_iff h).2 ⟨he, hnot⟩)
  · rintro hall ⟨key, v⟩ he
    obtain ⟨hmem, hnot⟩ := (mem_removeAll_iff h).1 he
    exact hnot (hall key (mem_keys_of_mem hmem))

end Entries

/-- **Each field finds the value under its name** in the entries that were given. -/
theorem fieldPlaces_eq_map {fields : List (String × Schema)} {entries : List (String × Value)}
    (hnames : (Entries.keys fields).Nodup) (hentries : (Entries.keys entries).Nodup) :
    fieldPlaces fields entries =
      fields.map fun f => ⟨.key f.1, f.2, Entries.valueAt f.1 entries⟩ := by
  induction fields generalizing entries with
  | nil => rfl
  | cons f rest ih =>
      obtain ⟨hnot, hrest⟩ := List.nodup_cons.1 hnames
      rw [fieldPlaces, ih hrest (Entries.remove_nodup hentries), List.map_cons]
      refine congrArg _ (List.map_congr_left fun g hg => ?_)
      -- the name that was taken out is none of those to come
      have hne : g.1 ≠ f.1 := fun heq => hnot (heq ▸ Entries.mem_keys_of_mem hg)
      rw [Entries.valueAt, Entries.valueAt, Entries.find?_remove hentries hne]

/-! ### What comes of an object -/

/-- **What comes of an object, given what comes of its fields**, on the values under their names in
the entries that were given. -/
structure Fieldwise (fields : List (String × Schema)) (policy : UnknownKeys) (expected : String)
    (field : Schema → Value → Result → Prop) (object : Value → Result → Prop) : Prop where
  /-- The first field that fails decides, whatever comes after it and whatever is in excess. -/
  failing : ∀ (entries : List (String × Value)) (before after : List (String × Schema))
    (name : String) (t : Schema) (e : Error), (Entries.keys entries).Nodup →
    fields = before ++ (name, t) :: after →
    (∀ f ∈ before, ∃ a, field f.2 (Entries.valueAt f.1 entries) (.ok a)) →
    field t (Entries.valueAt name entries) (.error e) →
    object (.object entries) (.error (e.prepend (.key name)))
  /-- When none fails, a strict object fails with a key that it does not declare. -/
  excess : ∀ entries : List (String × Value), (Entries.keys entries).Nodup → policy = .strict →
    (∀ f ∈ fields, ∃ a, field f.2 (Entries.valueAt f.1 entries) (.ok a)) →
    (∃ key ∈ Entries.keys entries, key ∉ Entries.keys fields) →
    ∃ key ∈ Entries.keys entries, key ∉ Entries.keys fields ∧
      object (.object entries) (.error (Error.atRoot (.excessField key) .parsing))
  /-- Otherwise the object has the fields, in the order of their declaration, and nothing else. -/
  complete : ∀ entries values : List (String × Value), (Entries.keys entries).Nodup →
    List.Forall₂ (fun f e => f.1 = e.1 ∧ field f.2 (Entries.valueAt f.1 entries) (.ok e.2))
      fields values →
    (policy = .strict → ∀ key ∈ Entries.keys entries, key ∈ Entries.keys fields) →
    object (.object entries) (.ok (.object values))
  /-- A value that is no object is of the wrong type. -/
  other : ∀ v : Value, (∀ entries, v ≠ .object entries) →
    object v (.error (Error.invalidType .parsing expected v))

theorem Fieldwise.imp {fields : List (String × Schema)} {policy : UnknownKeys} {expected : String}
    {field field' : Schema → Value → Result → Prop} {object object' : Value → Result → Prop}
    (h : Fieldwise fields policy expected field object)
    (hfield : ∀ f ∈ fields, ∀ v r, field' f.2 v r → field f.2 v r)
    (hobject : ∀ v r, object v r → object' v r) :
    Fieldwise fields policy expected field' object' where
  failing entries before after name t e hnodup hfields hbefore he := by
    have hmem : (name, t) ∈ fields := hfields ▸ List.mem_append_right _ (List.mem_cons_self ..)
    refine hobject _ _ (h.failing entries before after name t e hnodup hfields (fun f hf => ?_)
      (hfield _ hmem _ _ he))
    obtain ⟨a, ha⟩ := hbefore f hf
    exact ⟨a, hfield f (hfields ▸ List.mem_append_left _ hf) _ _ ha⟩
  excess entries hnodup hstrict hall hkey := by
    obtain ⟨key, hkey, hnot, hfails⟩ := h.excess entries hnodup hstrict (fun f hf => by
      obtain ⟨a, ha⟩ := hall f hf
      exact ⟨a, hfield f hf _ _ ha⟩) hkey
    exact ⟨key, hkey, hnot, hobject _ _ hfails⟩
  complete entries values hnodup hall hkeys := by
    refine hobject _ _ (h.complete entries values hnodup ?_ hkeys)
    exact ((List.forall₂_and_left _ _).2 ⟨fun f hf => hf, hall⟩).imp fun f e hfe =>
      ⟨hfe.2.1, hfield f hfe.1 _ _ hfe.2.2⟩
  other v hv := hobject _ _ (h.other v hv)

/-! ### Starting fields -/

section

variable {W : World → Prop}

/-- A key is in excess under a strict policy, when anything is left. -/
theorem excessError?_eq_none_iff {policy : UnknownKeys} {left : List (String × Value)} :
    excessError? policy left = none ↔ (policy = .strict → left = []) := by
  cases policy with
  | strip => exact iff_of_true rfl (fun h => by cases h)
  | strict => cases left <;> simp [excessError?]

/-- The first child that fails to start ends it. -/
theorem stageEach_gives_error {before after : List (Segment × Run (Except Error Staged))}
    {child : Segment × Run (Except Error Staged)} {e : Error}
    (hbefore : ∀ c ∈ before, ∃ a, Gives W c.2 (.ok a)) (he : Gives W child.2 (.error e)) :
    Gives W (stageEach (before ++ child :: after)) (.error (e.prepend child.1)) := by
  induction before with
  | nil => exact he.bind (.pure _)
  | cons c rest ih =>
      obtain ⟨⟨a, ha⟩, hrest⟩ := List.forall_mem_cons.1 hbefore
      exact ha.bind ((ih hrest).bind (.pure _))

/-- Children none of which fails to start. -/
theorem stageEach_gives_ok {children : List (Segment × Run (Except Error Staged))}
    (h : ∀ c ∈ children, ∃ a, Gives W c.2 (.ok a)) :
    ∃ as, Gives W (stageEach children) (.ok as) := by
  induction children with
  | nil => exact ⟨_, .pure _⟩
  | cons c rest ih =>
      obtain ⟨⟨a, ha⟩, hrest⟩ := List.forall_mem_cons.1 h
      obtain ⟨as, has⟩ := ih hrest
      exact ⟨_, ha.bind (has.bind (.pure _))⟩

/-- Children that are all ready. -/
theorem stageEach_gives_ready {children : List (Segment × Run (Except Error Staged))}
    {values : List Value}
    (h : List.Forall₂ (fun c v => Gives W c.2 (.ok (.ready v))) children values) :
    Gives W (stageEach children) (.ok (values.map Staged.ready)) := by
  induction h with
  | nil => exact .pure _
  | cons hv _ ih => exact hv.bind (ih.bind (.pure _))

/-- **Starting the fields of an object**, when each fails or is ready. -/
theorem stagePlaces_fieldwise {fields : List (String × Schema)} {policy : UnknownKeys}
    {expected : String} {start : Schema → Stager} {object : Value → Run (Except Error Staged)}
    (hnames : (Entries.keys fields).Nodup)
    (hobject : ∀ entries, object (.object entries) =
      stagePlaces ((fieldPlaces fields entries).map fun p => (p.segment, start p.schema p.input))
        (excessError? policy (Entries.removeAll (Entries.keys fields) entries))
        (.object (Entries.keys fields)))
    (hother : ∀ v, (∀ entries, v ≠ .object entries) →
      object v = return .error (Error.invalidType .parsing expected v)) :
    Fieldwise fields policy expected (fun t v r => Gives W (start t v) r.toStaged)
      fun v r => Gives W (object v) r.toStaged where
  failing entries before after name t e hnodup hfields hbefore he := by
    rw [hobject, stagePlaces, fieldPlaces_eq_map hnames hnodup, hfields, List.map_map,
      List.map_append, List.map_cons]
    refine Gives.bind (stageEach_gives_error (fun c hc => ?_) he) (.pure _)
    obtain ⟨f, hf, rfl⟩ := List.mem_map.1 hc
    obtain ⟨a, ha⟩ := hbefore f hf
    exact ⟨_, ha⟩
  excess entries hnodup hstrict hall hkey := by
    obtain ⟨key, hkey, hnot⟩ := hkey
    cases hleft : Entries.removeAll (Entries.keys fields) entries with
    | nil => exact absurd ((Entries.removeAll_eq_nil_iff hnodup).1 hleft key hkey) hnot
    | cons x rest =>
        obtain ⟨hmem, hnot⟩ :=
          (Entries.mem_removeAll_iff hnodup).1 (hleft ▸ List.mem_cons_self (a := x) (l := rest))
        refine ⟨x.1, Entries.mem_keys_of_mem hmem, hnot, ?_⟩
        rw [hobject, stagePlaces, fieldPlaces_eq_map hnames hnodup, List.map_map, hleft, hstrict]
        have hstarts : ∀ c ∈ fields.map fun f =>
            (Segment.key f.1, start f.2 (Entries.valueAt f.1 entries)),
            ∃ a, Gives W c.2 (.ok a) := by
          intro c hc
          obtain ⟨f, hf, rfl⟩ := List.mem_map.1 hc
          obtain ⟨a, ha⟩ := hall f hf
          exact ⟨_, ha⟩
        obtain ⟨as, has⟩ := stageEach_gives_ok hstarts
        exact has.bind (.pure _)
  complete entries values hnodup hall hkeys := by
    have hexcess : excessError? policy (Entries.removeAll (Entries.keys fields) entries) = none :=
      excessError?_eq_none_iff.2 fun hstrict =>
        (Entries.removeAll_eq_nil_iff hnodup).2 (hkeys hstrict)
    rw [hobject, stagePlaces, fieldPlaces_eq_map hnames hnodup, List.map_map, hexcess]
    have hready : List.Forall₂ (fun c v => Gives W c.2 (.ok (.ready v)))
        (fields.map fun f => (Segment.key f.1, start f.2 (Entries.valueAt f.1 entries)))
        (values.map Prod.snd) := by
      rw [List.forall₂_map_left_iff, List.forall₂_map_right_iff]
      exact hall.imp fun f e hfe => hfe.2
    refine (stageEach_gives_ready hready).bind ?_
    have hbuild : (Entries.keys fields).zip (values.map Prod.snd) = values := by
      rw [← Entries.keys_eq_of_forall₂ hall]
      simpa [Entries.keys, List.unzip_eq_map] using List.zip_unzip values
    simp only [afterStarts, assemble, readyValues?_ready, Assembly.build, hbuild]
    exact .pure _
  other v hv := by
    rw [hother v hv]
    exact .pure _

/-- A result that was given as an outcome was given as a result. -/
theorem Gives.of_toStaged {c : Run Result} {r : Result}
    (h : Gives W (do return (← c).toStaged) r.toStaged) : Gives W c r := by
  intro w hw
  obtain ⟨w₂, hw₂, hrun⟩ := h w hw
  obtain ⟨r', w₁, hfirst, hsecond⟩ := of_bind_ok hrun
  cases r <;> cases r' <;> cases hsecond <;> exact ⟨_, hw₂, hfirst⟩

end

/-! ### Compiled objects -/

/-- The policy in the operation of an object. -/
def ParseOperation.policy? : ParseOperation → Option UnknownKeys
  | .direct (.parseObject _ _ policy) => some policy
  | .object _ _ policy => some policy
  | _ => none

section

variable {W : World → Prop} {w w₁ : World} {nodes : List Schema} {s : Schema} {m : Machine}
  {fields : List (String × Schema)} {own : Option UnknownKeys}
  {below : Schema → ParseOperation}

/-- **The planned operation of a node** is built around those of the nodes below: in an earlier
world, or in this one when it has not been built yet. -/
theorem World.Sound.planned_eq_parser (h : w.Sound nodes) (hshape : w.Shaped World.Before nodes)
    (hs : s ∈ nodes) : ∃ w₁ id, w₁.Before w ∧ (w.parseCells s.id = .empty → w₁ = w) ∧
      w.planned s = s.kind.parser w₁ id (w.planned s).isAsync w.planned := by
  suffices hparser : ∃ w₁ id waits, w₁.Before w ∧ (w.parseCells s.id = .empty → w₁ = w) ∧
      w.planned s = s.kind.parser w₁ id waits w.planned by
    obtain ⟨w₁, id, waits, hbefore, hempty, hplan⟩ := hparser
    have hwaits : (w.planned s).isAsync = waits := by rw [hplan, Kind.parser_isAsync]
    exact ⟨w₁, id, hbefore, hempty, hwaits ▸ hplan⟩
  by_cases hempty : w.parseCells s.id = .empty
  · refine ⟨w, s.id, w.answer s, .refl w, fun _ => rfl, ?_⟩
    rw [World.planned, World.parsePlan_of_unfilled (by rw [hempty]; rfl)]
    refine Kind.parser_congr rfl rfl _ _ fun t ht => ?_
    rw [if_pos (h.hosts.below s hs t (Kind.embedded_subset _ _ ht)).2]
  · obtain ⟨w₁, o, waits, hbefore, -, -, hplan⟩ := h.parsePlan_shape hshape (.refl w) hs
    refine ⟨w₁, o.id, waits, hbefore, fun hcell => absurd hcell hempty, ?_⟩
    rw [World.planned, hplan]

/-- An object that waits, field by field. -/
theorem Kind.stagedParser_fieldwise (id : NodeId) (hnames : (Entries.keys fields).Nodup) :
    Fieldwise fields (policyOf w₁ own) (Kind.object fields own).structuralName
      (fun t v r => Gives W ((below t).stage m v) r.toStaged)
      fun v r => Gives W (((Kind.object fields own).stagedParser w₁ id below).stage m v)
        r.toStaged := by
  refine stagePlaces_fieldwise hnames (fun entries => ?_) fun v hv => ?_
  · exact Kind.stagedParser_places below rfl
  · cases v with
    | object entries => exact absurd rfl (hv entries)
    | _ => rfl

/-- An object that does not wait, field by field. -/
theorem Kind.directParser_fieldwise (id : NodeId) (hnames : (Entries.keys fields).Nodup) :
    Fieldwise fields (policyOf w₁ own) (Kind.object fields own).structuralName
      (fun t v r => Gives W ((below t).atOnce.run m v) r)
      fun v r => Gives W (((Kind.object fields own).directParser w₁ id below).run m v) r := by
  -- a field that does not wait starts with what it gives at once
  have hstart : Fieldwise fields (policyOf w₁ own) (Kind.object fields own).structuralName
      (fun t v r => Gives W ((ParseOperation.direct (below t).atOnce).stage m v) r.toStaged)
      fun v r => Gives W ((ParseOperation.direct
        ((Kind.object fields own).directParser w₁ id below)).stage m v) r.toStaged := by
    refine stagePlaces_fieldwise hnames (fun entries => ?_) fun v hv => ?_
    · change (ParseOperation.direct ((Kind.object fields own).directParser w₁ id fun t =>
        .direct (below t).atOnce)).stage m (.object entries) = _
      exact Kind.directParser_places _ (fun _ _ => rfl) rfl
    · cases v with
      | object entries => exact absurd rfl (hv entries)
      | _ => rfl
  exact hstart.imp (fun f _ v r hr => hr.bind (.pure _)) fun v r hr => hr.of_toStaged

end

namespace Scene

variable {σ : Scene} {s : Schema} {fields : List (String × Schema)} {own : Option UnknownKeys}
  {c : Compiled ParseOperation} {w₁ : World}

/-- **An object parses like looking its fields up, each on its own.**  In any scene the operation of
an object has a policy: its own, or else that of the configuration under which it was compiled.
With this policy, what comes of the object is decided by what its fields come to on the values under
their names in the entries that were given: their results when the object does not wait, and what
they start with when it does. -/
theorem Arises.object_parses_fieldwise (hσ : σ.Arises) (hs : s ∈ σ.nodes)
    (hkind : s.kind = .object fields own) (hcompile : s.parseOperation σ.world = .ok (c, w₁)) :
    ∃ policy, c.operation.policy? = some policy ∧ (∀ p, own = some p → policy = p) ∧
      (σ.world.parseCells s.id = .empty → policy = policyOf σ.world own) ∧
      ∀ fuel,
        (c.operation.isAsync = false →
          Fieldwise fields policy s.structuralName
            (fun t v r => ∃ w, t.parse fuel v σ.world = .ok (r, w))
            fun v r => ∃ w, s.parse fuel v σ.world = .ok (r, w)) ∧
        (c.operation.isAsync = true →
          Fieldwise fields policy s.structuralName
            (fun t v r => ∃ w, t.stage fuel v σ.world = .ok (r.toStaged, w))
            fun v r => ∃ w, s.stage fuel v σ.world = .ok (r.toStaged, w)) := by
  obtain ⟨hsound, hshape⟩ := hσ.invariants
  have hnames : (Entries.keys fields).Nodup := by
    have hformed := hsound.hosts.formed s hs
    rwa [hkind] at hformed
  have hfields : ∀ f ∈ fields, f.2 ∈ σ.nodes := fun f hf =>
    (hsound.hosts.below s hs f.2 (by
      rw [Schema.children, hkind]
      exact List.mem_map_of_mem (f := Prod.snd) hf)).1
  have hname : s.structuralName = (Kind.object fields own).structuralName := by
    rw [← hkind]
    cases s
    rfl
  have hcompiles := hsound.compiles fun _ ht => ht
  obtain ⟨_, hrun, -⟩ := Schema.parseOperation_done hsound hs hsound.later
  obtain rfl : c = σ.world.parsePlan s := by
    rw [hcompile] at hrun
    cases hrun
    rfl
  obtain ⟨w', id, -, hempty, hplan⟩ := hsound.planned_eq_parser hshape hs
  rw [hkind] at hplan
  refine ⟨policyOf w' own, ?_, ?_, fun hcell => by rw [hempty hcell], fun fuel =>
    ⟨fun hwaits => ?_, fun hwaits => ?_⟩⟩
  · change (σ.world.planned s).policy? = _
    rw [hplan]
    cases (σ.world.planned s).isAsync <;> rfl
  · rintro p rfl
    rfl
  · change (σ.world.planned s).isAsync = false at hwaits
    rw [hwaits] at hplan
    have hobject : Fieldwise fields (policyOf w' own) (Kind.object fields own).structuralName
        (fun t v r => Gives (σ.world.Later σ.nodes)
          ((σ.world.planned t).atOnce.run (machine fuel) v) r)
        fun v r => Gives (σ.world.Later σ.nodes)
          ((σ.world.planned s).atOnce.run (machine fuel) v) r := by
      rw [hplan]
      exact Kind.directParser_fieldwise id hnames
    rw [hname]
    refine hobject.imp (fun f hf v r hr => ?_) fun v r hr => ?_
    · obtain ⟨w, hr⟩ := hr
      exact Schema.gives_of_parseOn hcompiles (hfields f hf) (hsound.runs fuel _) hsound.later hr
    · obtain ⟨w, -, hr⟩ := Schema.parseOn_gives hcompiles hs hr _ hsound.later
      exact ⟨w, hr⟩
  · change (σ.world.planned s).isAsync = true at hwaits
    rw [hwaits] at hplan
    have hobject : Fieldwise fields (policyOf w' own) (Kind.object fields own).structuralName
        (fun t v r => Gives (σ.world.Later σ.nodes)
          ((σ.world.planned t).stage (machine fuel) v) r.toStaged)
        fun v r => Gives (σ.world.Later σ.nodes)
          ((σ.world.planned s).stage (machine fuel) v) r.toStaged := by
      rw [hplan]
      exact Kind.stagedParser_fieldwise id hnames
    rw [hname]
    refine hobject.imp (fun f hf v r hr => ?_) fun v r hr => ?_
    · obtain ⟨w, hr⟩ := hr
      exact Schema.gives_of_stageOn hcompiles (hfields f hf) (hsound.stages fuel _) hsound.later hr
    · obtain ⟨w, -, hr⟩ := Schema.stageOn_gives hcompiles hs hr _ hsound.later
      exact ⟨w, hr⟩

/-! ### A strict object -/

/-- Any text. -/
def title : Schema := .node 0 .string Metadata.empty none

/-- A strict object with one field. -/
def page : Schema := .node 1 (.object [("title", title)] (some .strict)) Metadata.empty none

/-- The scene of the object. -/
def pages : Scene := ⟨made 2 0, [page, title]⟩

theorem pages_arises : pages.Arises := by
  have h₁ : Step .building initial ⟨made 1 0, [title]⟩ :=
    .made (fun t ht => by cases ht) trivial
  have h₂ : Step .building ⟨made 1 0, [title]⟩ pages :=
    .made (fun t ht => by simpa [Kind.children] using ht) (by simp [Kind.Formed, Entries.keys])
  exact .tail (.single (.inl ⟨_, h₁⟩)) (.inl ⟨_, h₂⟩)

/-- A field that fails counts before the key that is in excess, which counts when none fails. -/
theorem object_parses_fieldwise_pages : ∃ (c : Compiled ParseOperation) (w₁ : World),
    page.parseOperation pages.world = .ok (c, w₁) ∧
    (∃ w, page.parse 1 (.object [("draft", .null), ("title", .null)]) pages.world =
      .ok (.error ((Error.invalidType .parsing "String" .null).prepend (.key "title")), w)) ∧
    (∃ w, page.parse 1 (.object [("draft", .null), ("title", .string "a")]) pages.world =
      .ok (.error (Error.atRoot (.excessField "draft") .parsing), w)) ∧
    ∃ w, page.parse 1 (.object [("title", .string "a")]) pages.world =
      .ok (.ok (.object [("title", .string "a")]), w) := by
  refine ⟨_, _, rfl, ?_⟩
  obtain ⟨policy, -, hown, -, hfields⟩ := pages_arises.object_parses_fieldwise (s := page)
    (List.mem_cons_self ..) rfl rfl
  obtain rfl := hown .strict rfl
  have hpage := (hfields 1).1 rfl
  refine ⟨?_, ?_, ?_⟩
  · exact hpage.failing _ [] [] "title" title _ (by decide) rfl (fun f hf => by cases hf) ⟨_, rfl⟩
  · have htitle : ∀ f ∈ [("title", title)], ∃ a w, f.2.parse 1 (Entries.valueAt f.1
        [("draft", .null), ("title", .string "a")]) pages.world = .ok (.ok a, w) := by
      intro f hf
      obtain rfl := List.mem_singleton.1 hf
      exact ⟨.string "a", _, rfl⟩
    obtain ⟨key, hkey, hnot, hfails⟩ := hpage.excess [("draft", .null), ("title", .string "a")]
      (by decide) rfl htitle ⟨"draft", by decide, by decide⟩
    simp only [Entries.keys, List.map_cons, List.map_nil, List.mem_cons, List.not_mem_nil,
      or_false] at hkey hnot
    obtain rfl := hkey.resolve_right hnot
    exact hfails
  · exact hpage.complete _ [("title", .string "a")] (by decide) (.cons ⟨rfl, _, rfl⟩ .nil)
      fun _ key hkey => hkey

end Scene

end Schemata
