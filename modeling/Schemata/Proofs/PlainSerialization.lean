/-
**Shortcuts do not change what is written.**

Each node has a plain serialize operation next to its own, built when and where its own is built but
without shortcuts.  Values that a schema has parsed are written alike by both, however the schema
refers to itself: a shortcut hands on what reaches it, and what reaches it is of its form already.

Unions are the exception.  A union writes a value with the first member that can, which need not be
the one that has parsed it, and a member that hands on whatever reaches it can do more with its
shortcuts than without.  So it takes a proviso: the members that are tried before the value's own
must do the same to it either way.

Main definitions:

* `Schemata.World.Plain` — the plain operations of all nodes;
* `Schemata.Schema.serializePlainly` — serializing without shortcuts;
* `Schemata.World.OthersAgree` — the proviso, for one union.

Main results:

* `Schemata.World.Region.member_of_gives` — what a union parses one of its members has parsed;
* `Schemata.World.Region.inhabitant_carries` — a value shows the tag of a schema that it inhabits;
* `Schemata.World.Region.serialize_matches` — what is parsed is written alike, with any fuel;
* `Schemata.Scene.Reachable.serialize_eq_serializePlainly` — **shortcuts do not change what is
  written of a value that has been parsed**.
-/

import Schemata.Proofs.DiscriminatedUnion
import Schemata.Proofs.Shortcuts

set_option relaxedAutoImplicit false
set_option autoImplicit false

namespace Schemata

/-! ### Plain operations -/

/-- **The plain operations of all nodes**: each is built like the node's own operation, in the same
world and for the same node, but without shortcuts. -/
def World.Plain (w : World) (nodes : List Schema) (plain : Schema → Compiled Operation) : Prop :=
  ∀ s ∈ nodes, ∃ w₁ o, w₁.Before w ∧ o ∈ nodes ∧ o.kind = s.kind ∧
    w.serializePlan s = s.kind.serializer w₁ o.id w.serializePlan ∧
    plain s = s.kind.plainSerializer w₁ o.id plain

/-- The plain operations, given the world in which each node is compiled and the node that it is
compiled for. -/
def plainFrom (compiled : Schema → World × Schema) (s : Schema) : Compiled Operation :=
  s.kind.plainSerializer (compiled s).1 (compiled s).2.id fun t =>
    if t.id < s.id then plainFrom compiled t else ⟨t.id, .noop⟩
termination_by s.id

/-- **There are such operations.** -/
theorem World.Sound.exists_plain {w : World} {nodes : List Schema} (h : w.Sound nodes)
    (hshape : w.Shaped World.Before nodes) : ∃ plain, w.Plain nodes plain := by
  have hcompiled : ∀ s : Schema, ∃ c : World × Schema, s ∈ nodes → c.1.Before w ∧ c.2 ∈ nodes ∧
      c.2.kind = s.kind ∧ w.serializePlan s = s.kind.serializer c.1 c.2.id w.serializePlan := by
    intro s
    by_cases hs : s ∈ nodes
    · obtain ⟨w₁, o, hplan⟩ := h.serializePlan_shape hshape (.refl w) hs
      exact ⟨(w₁, o), fun _ => hplan⟩
    · exact ⟨(w, s), fun hs' => absurd hs' hs⟩
  choose compiled hcompiled using hcompiled
  refine ⟨plainFrom compiled, fun s hs => ?_⟩
  obtain ⟨hbefore, ho, hkind, hplan⟩ := hcompiled s hs
  refine ⟨(compiled s).1, (compiled s).2, hbefore, ho, hkind, hplan, ?_⟩
  -- a node is made after those below it
  rw [plainFrom]
  refine Kind.plainSerializer_congr (fun t ht => ?_) _ _
  rw [if_pos (h.hosts.below s hs t ht).2]

/-- The machine whose references serialize without shortcuts. -/
def plainMachine (plain : Schema → Compiled Operation) : Nat → Machine
  | 0 => machine 0
  | fuel + 1 =>
      { machine (fuel + 1) with
        serialize := fun r v => do
          match (← get).target? r with
          | some s => (plain s).operation.run (plainMachine plain fuel) v
          | none => return .error (danglingError .serializing) }

/-- **Serialize without shortcuts.** -/
def Schema.serializePlainly (plain : Schema → Compiled Operation) (fuel : Nat) (s : Schema) :
    Runner := (plain s).operation.run (plainMachine plain fuel)

section

variable {w₀ : World} {nodes : List Schema} {N : Schema → Prop}
  {plain : Schema → Compiled Operation} {s u own : Schema} {r : Reference}
  {members : List Schema} {t : Value}

theorem World.Sound.plainMachine_deterministic (h : w₀.Sound nodes) (fuel : Nat) :
    (plainMachine plain fuel).Deterministic (w₀.Later nodes) := by
  have hc : w₀.Compiles (· ∈ nodes) (w₀.Later nodes) := h.compiles fun _ hs => hs
  induction fuel with
  | zero => exact h.machine_deterministic 0
  | succ fuel ih =>
      refine { h.machine_deterministic (fuel + 1) with serialize := fun r v => ?_ }
      exact hc.target_steady fun t _ => Operation.runs (w₀.later_leavesLogsOpen nodes) ih _ v

theorem Schema.serializePlainly_steady (h : w₀.Sound nodes) (s : Schema) (fuel : Nat) (v : Value) :
    Steady (w₀.Later nodes) (s.serializePlainly plain fuel v) :=
  Operation.runs (w₀.later_leavesLogsOpen nodes) (h.plainMachine_deterministic fuel) _ v

/-- Both ways to serialize a value end together, with the same value. -/
def World.WritesAlike (w₀ : World) (nodes : List Schema) (plain : Schema → Compiled Operation)
    (fuel : Nat) (s : Schema) (t : Value) : Prop :=
  Matches (w₀.Later nodes) Succeed ((w₀.serializePlan s).operation.run (machine fuel) t)
    (s.serializePlainly plain fuel t)

/-- A literal is written as it is. -/
theorem World.Plain.literal_matches (hplain : w₀.Plain nodes plain) (hs : s ∈ nodes) {l : Literal}
    (hkind : s.kind = .literal l) (haccepts : l.accepts t = true) (fuel : Nat) :
    w₀.WritesAlike nodes plain fuel s t := by
  obtain ⟨w₁, o, -, -, -, hown, hownPlain⟩ := hplain s hs
  rw [World.WritesAlike, Schema.serializePlainly, hown, hownPlain, hkind]
  have hwritten := fun m : Machine => RoundTrips.literal_accepted (W := w₀.Later nodes) (m := m)
    haccepts .serializing
  exact (hwritten _).matches (hwritten _) ⟨t, rfl, rfl⟩

/-! ### References -/

/-- **A reference writes alike** what its schema writes alike with less fuel. -/
theorem World.Region.follow_matches (h : w₀.Region nodes N) (hplain : w₀.Plain nodes plain)
    (hs : N s) (hkind : s.kind = .recursive r) (htarget : w₀.target? r = some u)
    (hother : u.kind ≠ .recursive r) {fuel : Nat}
    (hu : ∀ j < fuel, w₀.WritesAlike nodes plain j u t) : w₀.WritesAlike nodes plain fuel s t := by
  have hc := h.compiles
  obtain ⟨w₁, o, hbefore, ho, hkindo, hplan, hplanPlain⟩ := hplain s (h.member s hs)
  have hfollow : followOperation w₁ .serializing o.id r = .follow .serializing r :=
    followOperation_of_target h.sound.hosts hbefore ho (hkindo.trans hkind) htarget hother
  rw [World.WritesAlike, Schema.serializePlainly, hplan, hplanPlain, hkind]
  simp only [Kind.serializer, Kind.plainSerializer, hfollow, Operation.run]
  cases fuel with
  | zero => exact .halt _ _
  | succ fuel =>
      have hN : N u := h.leads s u hs (World.leads_of_target hkind htarget)
      refine Matches.congr (fun w hw => hc.serialize_target hw htarget fuel t) (fun w hw => ?_)
        ((hu fuel (Nat.lt_succ_self fuel)).bind_left (hc.serialize u hN))
      simp only [plainMachine, get_bind, hc.target hw r, htarget]
      rfl

/-! ### Members that are the union itself -/

/-- **A member that is the union itself** stands for a union of the very same members. -/
theorem World.Region.union_of_refersBack (h : w₀.Region nodes N) (hs : N s)
    (hkind : s.kind = .union members) (hown : own ∈ members)
    (hback : refersBack w₀ (members.map Schema.id) own = true) :
    ∃ r u, own.kind = .recursive r ∧ w₀.target? r = some u ∧ N u ∧ u.kind = .union members := by
  obtain ⟨r, u, others, hr, hu, hothers, hids⟩ := refersBack_eq_true hback
  have hchildren : ∀ x y, N x → y ∈ x.kind.children → N y := fun x y hx hy =>
    h.leads x y hx (World.leads_of_child hy)
  have hN : N u := h.leads own u (hchildren s own hs (by rw [hkind]; exact hown))
    (World.leads_of_target hr hu)
  have hsame : others = members := h.sound.hosts.eq_of_ids
    (fun x hx => h.member x (hchildren u x hN (by rw [hothers]; exact hx)))
    (fun x hx => h.member x (hchildren s x hs (by rw [hkind]; exact hx))) hids
  exact ⟨r, u, hr, hu, hN, hsame ▸ hothers⟩

/-- A bound member that was the union itself before is so still. -/
theorem World.Before.refersBack {w₁ : World} {ids : List NodeId} (h : w₁.Before w₀)
    (hbound : ∀ r, own.kind = .recursive r → ∃ u, w₀.target? r = some u)
    (hback : Schemata.refersBack w₁ ids own = true) : Schemata.refersBack w₀ ids own = true := by
  obtain ⟨r, u, others, hr, hu, hothers, hids⟩ := refersBack_eq_true hback
  obtain ⟨u', hu'⟩ := hbound r hr
  have hsame : w₁.target? r = some u' := by
    refine (h.live r u' hu').resolve_left fun hunset => ?_
    simp [World.target?, hunset] at hu
  rw [hu] at hsame
  cases hsame
  simp [Schemata.refersBack, hr, hu', hothers, hids]

/-- **What a union parses, one of its members has parsed** that is not the union itself. -/
theorem World.Region.member_of_gives (h : w₀.Region nodes N)
    (hkinds : ∀ s, N s → s.kind.Descriptive) (k : Nat) : ∀ {s : Schema} {v : Value}, N s →
      s.kind = .union members →
      Gives (w₀.Later nodes) ((w₀.planned s).atOnce.run (machine k) v) (.ok t) →
      ∃ own ∈ members, refersBack w₀ (members.map Schema.id) own = false ∧ ∃ j ≤ k, ∃ x,
        Gives (w₀.Later nodes) ((w₀.planned own).atOnce.run (machine j) x) (.ok t) := by
  have hnow : w₀.Later nodes w₀ := h.sound.later
  induction k using Nat.strongRecOn with
  | ind k ih =>
      intro s v hs hkind hgives
      have hmade := h.made_of_gives (hkinds s hs) hs hgives
      rw [hkind] at hmade
      obtain ⟨own, hown, x, hx⟩ := hmade
      cases hback : refersBack w₀ (members.map Schema.id) own with
      | false => exact ⟨own, hown, hback, k, le_refl k, x, hx⟩
      | true =>
          -- the member has used fuel to come back to the same members
          obtain ⟨r, u, hr, hu, hN, hkindu⟩ := h.union_of_refersBack hs hkind hown hback
          have hownN : N own := h.leads s own hs (World.leads_of_child (by
            rw [Schema.children, hkind]
            exact hown))
          obtain ⟨j, u', rfl, hu', -, hagain⟩ := h.target_of_gives hownN hr hx
          rw [hu] at hu'
          cases hu'
          obtain ⟨own', hown', hback', i, hi, hmember⟩ := ih j (Nat.lt_succ_self j) hN hkindu hagain
          exact ⟨own', hown', hback', i, by omega, hmember⟩

/-! ### Tags -/

/-- A value that inhabits a kind is accepted by the literal that the kind shows. -/
theorem World.Inhabits.accepted {kind : Kind} {l : Literal} (h : w₀.Inhabits kind t)
    (haccepts : kind.VariantsAccept) (hl : kind.literalTag? .output = some l) :
    l.accepts t = true := by
  cases kind with
  | literal l' =>
      obtain ⟨rfl, -⟩ := primitiveOnly_eq_some hl
      cases h with
      | literal h => exact h
      | absent hoptional | present hoptional => cases hoptional
  | transformed base effect =>
      cases effect with
      | variant external internal =>
          obtain ⟨rfl, -⟩ := primitiveOnly_eq_some hl
          cases h with
          | variant => exact haccepts.2
          | absent hoptional | present hoptional => cases hoptional
      | _ => cases hl
  | _ => cases hl

/-- A schema whose tag is carried may be tried. -/
theorem Carries.isAdmitted (h : Carries s t) : Schemata.admitted t (s.tag? .output) = true := by
  cases hg : s.tag? .output with
  | none => rfl
  | some g => exact h.admitted g hg

/-- **A value shows the tag of a schema that it inhabits.** -/
theorem World.Region.inhabitant_carries (h : w₀.Region nodes N)
    (hkinds : ∀ s, N s → s.kind.Descriptive) (haccepts : ∀ s, N s → s.kind.VariantsAccept) :
    ∀ s, N s → ∀ t, w₀.Inhabits s.kind t → Carries s t := by
  -- refinements are taken off, down to the literal, variant or object
  refine h.induction fun s hs ih => ?_
  intro t ht
  have hliteral : ∀ l, s.kind.literalTag? .output = some l → l.accepts t = true := fun l hl =>
    ht.accepted (haccepts s hs) hl
  have hchild : ∀ u ∈ s.kind.children, N u := fun u hu => h.leads s u hs (World.leads_of_child hu)
  have hformed := h.sound.hosts.formed s (h.member s hs)
  have hdescriptive := hkinds s hs
  rw [Schema.children] at ih
  cases hkind : s.kind with
  | literal l => exact .of_accepts (.inl ⟨l, hkind⟩) hliteral
  | object fields policy =>
      rw [hkind] at ht hformed hchild
      cases ht with
      | absent hoptional | present hoptional => cases hoptional
      | @object _ _ es hkeys hfields =>
          have hes := Entries.forall₂_of_keys (R := fun f e => w₀.Inhabits f.2.kind e.2) hkeys
            hfields
          refine .of_fields hkind (hkeys ▸ hformed) fun name u l hm hl => ?_
          have hN : N u := hchild u (List.mem_map_of_mem (f := Prod.snd) hm)
          obtain ⟨a, ha, hinhabits⟩ := Entries.exists_mem_of_forall₂ hes hm
          exact ⟨a, ha, hinhabits.accepted (haccepts u hN) hl⟩
  | transformed base effect =>
      rw [hkind] at hdescriptive ht ih
      cases effect with
      | variant external internal =>
          exact .of_accepts (.inr ⟨base, external, internal, hkind⟩) hliteral
      | refine message check =>
          cases ht with
          | absent hoptional | present hoptional => cases hoptional
          | refine hbase _ =>
              exact .of_refine hkind (ih base (List.mem_singleton_self base) t hbase)
      | _ => exact hdescriptive.elim
  | _ =>
      have hnone : ∀ side, s.tag? side = none := by
        intro side
        cases s
        rw [Schema.kind_node] at hkind
        rw [Schema.tag?, hkind]
        rfl
      constructor
      · intro g hg
        rw [hnone] at hg
        cases hg
      · intro g hg
        rw [hnone] at hg
        cases hg

/-! ### Unions -/

/-- **The members that are tried before a value's own do the same to it** with shortcuts as without:
they write the same value, or both times they refuse it, or both times they do not end.  A member
that is nothing but the union itself is not counted. -/
def World.OthersAgree (w : World) (plain : Schema → Compiled Operation) (u : Schema) : Prop :=
  ∀ members before own after, u.kind = .union members →
    u.kind.embedded w = before ++ own :: after →
    ∀ k v t w', own.parse k v w = .ok (.ok t, w') →
      ∀ e ∈ before, admitted t (e.tag? .output) = true → ∀ fuel,
        Option.Rel Agree (ending (e.serialize fuel t) w)
          (ending (e.serializePlainly plain fuel t) w)

/-- What serializing ends with is what the planned operation ends with. -/
theorem World.Region.ending_serialize (h : w₀.Region nodes N) (hs : N s) (fuel : Nat) (t : Value)
    {w : World} (hw : w₀.Later nodes w) :
    ending (s.serialize fuel t) w =
      ending ((w₀.serializePlan s).operation.run (machine fuel) t) w := by
  obtain ⟨u, hu, hop⟩ := h.compiles.serialize s hs w hw
  rw [Schema.serialize, Schema.serializeOn, ending_bind hop]
  exact (h.sound.runs fuel _ t).ending_eq hu hw

/-- The operation of a member that is tried on a value does the same with shortcuts as without.  One
that is the union itself either fails, or leads back to the same members with less fuel. -/
theorem World.Region.member_matches (h : w₀.Region nodes N) (hplain : w₀.Plain nodes plain)
    (hs : N s) (hkind : s.kind = .union members) {e : Schema} (he : e ∈ members) {fuel : Nat}
    (hself : ∀ j < fuel, ∀ u, N u → u.kind = .union members → w₀.WritesAlike nodes plain j u t)
    (hother : refersBack w₀ (members.map Schema.id) e = false →
      Option.Rel Agree (ending (e.serialize fuel t) w₀)
        (ending (e.serializePlainly plain fuel t) w₀)) (w₁ : World) :
    Matches (w₀.Later nodes) Agree
      ((memberSerializer w₁ (members.map Schema.id) w₀.serializePlan e).run (machine fuel) t)
      ((memberSerializer w₁ (members.map Schema.id) plain e).run (plainMachine plain fuel) t) := by
  have hN : N e := h.leads s e hs (World.leads_of_child (by rwa [Schema.children, hkind]))
  have hnow : w₀.Later nodes w₀ := h.sound.later
  cases hback₁ : refersBack w₁ (members.map Schema.id) e with
  | true =>
      simp only [memberSerializer, hback₁]
      exact .pure rfl
  | false =>
      simp only [memberSerializer, hback₁]
      cases hback₀ : refersBack w₀ (members.map Schema.id) e with
      | true =>
          -- the member was bound after the union had been compiled
          obtain ⟨r, u, hr, hu, huN, hkindu⟩ := h.union_of_refersBack hs hkind he hback₀
          have hne : u.kind ≠ .recursive r := by
            intro hloop
            rw [hkindu] at hloop
            cases hloop
          exact (h.follow_matches hplain hN hr hu hne fun j hj => hself j hj u huN hkindu).mono
            fun _ _ => Succeed.agree
      | false =>
          have hrel := hother hback₀
          rw [h.ending_serialize hN fuel t hnow] at hrel
          exact .of_rel (h.sound.runs fuel _ t)
            (Schema.serializePlainly_steady h.sound e fuel t) hnow hrel

/-- **A union writes a value alike**, if the member that has parsed it does. -/
theorem World.Region.union_matches (h : w₀.Region nodes N) (hplain : w₀.Plain nodes plain)
    (hagree : ∀ u, N u → w₀.OthersAgree plain u) (hown : own ∈ members)
    (hback : refersBack w₀ (members.map Schema.id) own = false) {k : Nat} {x : Value}
    (hparsed : Gives (w₀.Later nodes) ((w₀.planned own).atOnce.run (machine k) x) (.ok t))
    (hadmitted : admitted t (own.tag? .output) = true)
    (hmatches : ∀ fuel, w₀.WritesAlike nodes plain fuel own t) (fuel : Nat) :
    ∀ s, N s → s.kind = .union members → w₀.WritesAlike nodes plain fuel s t := by
  obtain ⟨before, after, hsplit⟩ := List.append_of_mem hown
  have hmem : ∀ e ∈ before, e ∈ members := fun e he => by
    rw [hsplit]
    exact List.mem_append_left _ he
  induction fuel using Nat.strongRecOn with
  | ind fuel ih =>
      intro s hs hkind
      have hownN : N own := h.leads s own hs (World.leads_of_child (by
        rwa [Schema.children, hkind]))
      obtain ⟨w₁, o, hbefore, -, -, hplan, hplanPlain⟩ := hplain s (h.member s hs)
      -- what has parsed the value was not the union itself when that was compiled
      have hback₁ : refersBack w₁ (members.map Schema.id) own = false := by
        by_contra hback₁
        rw [Bool.not_eq_false] at hback₁
        have hback₀ := hbefore.refersBack (fun r hr => by
          obtain ⟨_, u, -, hu, -⟩ := h.target_of_gives hownN hr hparsed
          exact ⟨u, hu⟩) hback₁
        rw [hback] at hback₀
        cases hback₀
      have hcounted : s.kind.embedded w₀ =
          (before.filter fun e => !refersBack w₀ (members.map Schema.id) e) ++ own ::
            after.filter fun e => !refersBack w₀ (members.map Schema.id) e := by
        rw [hkind, Kind.embedded]
        generalize members.map Schema.id = ids at hback
        rw [hsplit, List.filter_append, List.filter_cons_of_pos (by simp [hback])]
      have hothers : ∀ e ∈ before, admitted t (e.tag? .output) = true →
          Matches (w₀.Later nodes) Agree
            ((memberSerializer w₁ (members.map Schema.id) w₀.serializePlan e).run (machine fuel) t)
            ((memberSerializer w₁ (members.map Schema.id) plain e).run
              (plainMachine plain fuel) t) := by
        intro e he hadmitted
        refine h.member_matches hplain hs hkind (hmem e he) ih (fun hback => ?_) w₁
        obtain ⟨w', -, hrun⟩ := Schema.parseOn_gives h.compiles hownN hparsed w₀ h.sound.later
        exact hagree s hs members _ own _ hkind hcounted k x t w' hrun e
          (List.mem_filter.2 ⟨he, by simp [hback]⟩) hadmitted fuel
      rw [World.WritesAlike, Schema.serializePlainly, hplan, hplanPlain, hkind]
      simp only [Kind.serializer, Kind.plainSerializer, Operation.run, runners_eq_map, List.map_map]
      generalize members.map Schema.id = ids at hback₁ hothers
      rw [hsplit]
      refine serializeMembers_matches
        (p := fun e => (memberSerializer w₁ ids w₀.serializePlan e).run (machine fuel))
        (q := fun e => (memberSerializer w₁ ids plain e).run (plainMachine plain fuel))
        ?_ hadmitted hothers
      simp only [memberSerializer, hback₁]
      exact hmatches fuel

/-! ### Schemas -/

/-- **What has been parsed is written alike**, with any fuel. -/
theorem World.Region.serialize_matches (h : w₀.Region nodes N) (hplain : w₀.Plain nodes plain)
    (hkinds : ∀ s, N s → s.kind.Descriptive) (haccepts : ∀ s, N s → s.kind.VariantsAccept)
    (hagree : ∀ u, N u → w₀.OthersAgree plain u) (k : Nat) : ∀ s, N s → ∀ v t,
      Gives (w₀.Later nodes) ((w₀.planned s).atOnce.run (machine k) v) (.ok t) →
      ∀ fuel, w₀.WritesAlike nodes plain fuel s t := by
  have hW := w₀.later_leavesLogsOpen nodes
  have hnow : w₀.Later nodes w₀ := h.sound.later
  -- a reference spends fuel of the parse, and anything else parses with the nodes below
  induction k using Nat.strongRecOn with
  | ind k ih =>
      refine h.induction fun s hs below => ?_
      intro v t hgives fuel
      have hchild : ∀ u ∈ s.children, N u := fun u hu => h.leads s u hs (World.leads_of_child hu)
      by_cases hunion : ∃ members, s.kind = .union members
      · obtain ⟨members, hkind⟩ := hunion
        obtain ⟨own, hown, hback, j, hj, x, hx⟩ := h.member_of_gives hkinds k hs hkind hgives
        have hmem : own ∈ s.children := by rwa [Schema.children, hkind]
        have hcarries := h.inhabitant_carries hkinds haccepts own (hchild own hmem) t
          (h.planned_inhabits hkinds j own (hchild own hmem) x t hx)
        refine h.union_matches hplain hagree hown hback hx hcarries.isAdmitted ?_ fuel s hs hkind
        rcases Nat.lt_or_eq_of_le hj with hlt | rfl
        · exact ih j hlt own (hchild own hmem) x t hx
        · exact below own hmem x t hx
      · by_cases hreference : ∃ r, s.kind = .recursive r
        · obtain ⟨r, hkind⟩ := hreference
          obtain ⟨j, u, rfl, htarget, hu, hx⟩ := h.target_of_gives hs hkind hgives
          have hother : u.kind ≠ .recursive r := fun hself => by
            have hinhabits := h.planned_inhabits hkinds j u hu v t hx
            rw [hself] at hinhabits
            exact World.Inhabits.not_loop htarget hself hinhabits
          exact h.follow_matches hplain hs hkind htarget hother
            fun i _ => ih j (Nat.lt_succ_self j) u hu v t hx i
        · have hparts : s.kind.Made (fun u a => w₀.WritesAlike nodes plain fuel u a) t := by
            refine (h.made_of_gives (hkinds s hs) hs hgives).mono ?_
            rintro u hu a ⟨x, hx⟩
            exact below u hu x a hx fuel
          obtain ⟨w₂, o₂, -, -, -, hown, hownPlain⟩ := hplain s (h.member s hs)
          have hformed := h.sound.hosts.formed s (h.member s hs)
          rw [World.WritesAlike, Schema.serializePlainly, hown, hownPlain]
          refine Kind.serializer_matches hW hnow (hkinds s hs) hformed (haccepts s hs)
            (fun members hkind => hunion ⟨members, hkind⟩) (fun r hr => hreference ⟨r, hr⟩) ?_
              hparts
          intro base external internal hkind
          have hbase : base ∈ s.children := by
            rw [Schema.children, hkind]
            exact List.mem_singleton_self base
          have hliteral := haccepts s hs
          rw [hkind] at hformed hliteral
          exact hplain.literal_matches (h.member base (hchild base hbase)) hformed hliteral.1 fuel

end

namespace Scene

/-- **Shortcuts do not change what is written of a value that has been parsed.**  In every scene
that a history leads to, each node has plain operations next to its own.  Below a schema that runs
nothing but tests, let the literals of variants accept the values that stand for them, and let the
members that a union tries before a value's own do the same to it with shortcuts as without.  Then
whatever the schema parses it serializes as it does plainly, with any fuel, and does not refuse. -/
theorem Reachable.serialize_eq_serializePlainly {σ : Scene} (h : σ.Reachable) {s : Schema}
    (hs : s ∈ σ.nodes)
    (hkinds : ∀ u, σ.world.Reaches s u → u.kind.Descriptive ∧ u.kind.VariantsAccept) :
    (∃ plain, σ.world.Plain σ.nodes plain) ∧
    ∀ plain, σ.world.Plain σ.nodes plain →
      (∀ u, σ.world.Reaches s u → σ.world.OthersAgree plain u) →
      ∀ k v t w, s.parse k v σ.world = .ok (.ok t, w) → ∀ fuel,
        ending (s.serialize fuel t) w = ending (s.serializePlainly plain fuel t) w ∧
          ∀ e, ending (s.serialize fuel t) w ≠ some (.error e) := by
  have hregion := h.region hs
  have hnow : σ.world.Later σ.nodes σ.world := h.sound.later
  refine ⟨h.sound.exists_plain h.shaped, fun plain hplain hagree k v t w hparse fuel => ?_⟩
  have hw : σ.world.Later σ.nodes w := (h.sound.parse_steady k hs v).keeps hnow hparse
  have hgives := Schema.gives_of_parseOn hregion.compiles .refl (h.sound.runs k _) hnow hparse
  have hmatches := hregion.serialize_matches hplain (fun u hu => (hkinds u hu).1)
    (fun u hu => (hkinds u hu).2) hagree k s .refl v t hgives fuel
  rw [hregion.ending_serialize .refl fuel t hw]
  exact hmatches.ending_eq hw hw

/-! ### Digits, or lists of such -/

/-- A digit. -/
def digit : Schema := .node 0 .int Metadata.empty none

/-- Digits. -/
def digits : Schema := .node 1 (.array digit) Metadata.empty none

/-- A reference to what may be nested. -/
def deeper : Schema := .node 2 (.recursive 0) Metadata.empty none

/-- Lists of what may be nested. -/
def nested : Schema := .node 3 (.array deeper) Metadata.empty none

/-- Digits, or lists of such lists. -/
def digitLists : Schema := .node 4 (.union [digits, nested]) Metadata.empty none

/-- The scene of the lists. -/
def listed : Scene where
  world := { made 5 1 with bindings := updateAt (made 5 1).bindings 0 (.live digitLists) }
  nodes := [digitLists, nested, deeper, digits, digit]

theorem listed_reachable : listed.Reachable := by
  have h₁ : Step .building initial ⟨made 0 1, []⟩ := .reference rfl
  have h₂ : Step .building ⟨made 0 1, []⟩ ⟨made 1 1, [digit]⟩ :=
    .made (fun t ht => by cases ht) (by trivial)
  have h₃ : Step .building ⟨made 1 1, [digit]⟩ ⟨made 2 1, [digits, digit]⟩ :=
    .made (fun t ht => by simp_all [Kind.children]) (by trivial)
  have h₄ : Step .building ⟨made 2 1, [digits, digit]⟩ ⟨made 3 1, [deeper, digits, digit]⟩ :=
    .made (fun t ht => by cases ht) (by trivial)
  have h₅ : Step .building ⟨made 3 1, [deeper, digits, digit]⟩
      ⟨made 4 1, [nested, deeper, digits, digit]⟩ :=
    .made (fun t ht => by simp_all [Kind.children]) (by trivial)
  have h₆ : Step .building ⟨made 4 1, [nested, deeper, digits, digit]⟩
      ⟨made 5 1, [digitLists, nested, deeper, digits, digit]⟩ := by
    refine .made (fun t ht => ?_) (by simp [Kind.Formed])
    simp only [Kind.children, List.mem_cons, List.not_mem_nil, or_false] at ht
    rcases ht with rfl | rfl <;> simp
  have h₇ : Step .building ⟨made 5 1, [digitLists, nested, deeper, digits, digit]⟩ listed :=
    .bind Nat.zero_lt_one rfl (List.mem_cons_self ..) rfl
  exact .tail (.tail (.tail (.tail (.tail (.tail (.single ⟨_, h₁⟩) ⟨_, h₂⟩) ⟨_, h₃⟩) ⟨_, h₄⟩)
    ⟨_, h₅⟩) ⟨_, h₆⟩) ⟨_, h₇⟩

theorem listed_cases {u : Schema} (h : listed.world.Reaches digitLists u) :
    u = digitLists ∨ u = nested ∨ u = deeper ∨ u = digits ∨ u = digit := by
  have hu : u ∈ [digitLists, nested, deeper, digits, digit] :=
    listed_reachable.sound.hosts.reaches (List.mem_cons_self ..) h
  simpa using hu

theorem listed_kinds (u : Schema) (h : listed.world.Reaches digitLists u) :
    u.kind.Descriptive ∧ u.kind.VariantsAccept := by
  rcases listed_cases h with rfl | rfl | rfl | rfl | rfl <;> exact ⟨trivial, trivial⟩

/-- Of two members one comes before another one. -/
theorem eq_of_pair {a b own e : Schema} {before after : List Schema}
    (h : [a, b] = before ++ own :: after) (he : e ∈ before) : e = a ∧ own = b := by
  rcases before with _ | ⟨x, _ | ⟨y, rest⟩⟩
  · cases he
  · cases h
    exact ⟨List.mem_singleton.1 he, rfl⟩
  · have hlength := congrArg List.length h
    simp at hlength

/-- What an array parses is a list. -/
theorem Reachable.array_of_parse {σ : Scene} (h : σ.Reachable) {s item : Schema} (hs : s ∈ σ.nodes)
    (hkind : s.kind = .array item) {k : Nat} {v t : Value} {w : World}
    (hparse : s.parse k v σ.world = .ok (.ok t, w)) : ∃ items, t = .array items := by
  have hc : σ.world.Compiles (· ∈ σ.nodes) (σ.world.Later σ.nodes) :=
    h.sound.compiles fun _ hs => hs
  have hnow : σ.world.Later σ.nodes σ.world := h.sound.later
  have hgives := Schema.gives_of_parseOn hc hs (h.sound.runs k _) hnow hparse
  obtain ⟨w₁, o, -, -, -, hplan⟩ := h.sound.planned_of_gives h.shaped hs hnow hgives
  rw [hplan, hkind] at hgives
  obtain ⟨_, items, -, rfl, -⟩ := (RoundTrips.array_gives_iff hnow (h.sound.runs k _)).1 hgives
  exact ⟨items, rfl⟩

/-- The digits, which are tried first, hand on any list. -/
theorem digits_agree {plain : Schema → Compiled Operation}
    (hplain : listed.world.Plain listed.nodes plain) (items : List Value) (fuel : Nat) :
    Option.Rel Agree (ending (digits.serialize fuel (.array items)) listed.world)
      (ending (digits.serializePlainly plain fuel (.array items)) listed.world) := by
  obtain ⟨w, hshortcut⟩ : ∃ w, digits.serialize fuel (.array items) listed.world =
      .ok (.ok (.array items), w) := ⟨_, rfl⟩
  obtain ⟨_, _, -, -, -, -, hdigits⟩ := hplain digits (by simp [listed])
  obtain ⟨_, _, -, -, -, -, hdigit⟩ := hplain digit (by simp [listed])
  have hitem : (plain digit).operation = .noop := by
    rw [hdigit]
    rfl
  have hgives : Gives (fun _ => True) (digits.serializePlainly plain fuel (.array items))
      (.ok (.array items)) := by
    rw [Schema.serializePlainly, hdigits]
    refine array_gives_back (w := listed.world) trivial ?_ fun a _ => ?_
    · rw [hitem]
      exact .noop
    · rw [hitem]
      exact .pure _
  obtain ⟨_, -, hplainly⟩ := hgives listed.world trivial
  rw [ending_of_ok hshortcut, ending_of_ok hplainly]
  exact .some rfl

theorem listed_agree {plain : Schema → Compiled Operation}
    (hplain : listed.world.Plain listed.nodes plain) (u : Schema)
    (h : listed.world.Reaches digitLists u) : listed.world.OthersAgree plain u := by
  intro members before own after hkind hcounted k v t w hparse e he _ fuel
  obtain rfl : u = digitLists := by
    rcases listed_cases h with rfl | rfl | rfl | rfl | rfl
    · rfl
    all_goals cases hkind
  -- only the digits come before another member, the nested lists
  have hmembers : digitLists.kind.embedded listed.world = [digits, nested] := rfl
  rw [hmembers] at hcounted
  obtain ⟨rfl, rfl⟩ := eq_of_pair hcounted he
  obtain ⟨items, rfl⟩ := listed_reachable.array_of_parse (by simp [listed]) rfl hparse
  exact digits_agree hplain items fuel

/-- Two digits, each in a list of its own. -/
def pairOfLists : Value := .array [.array [.ofInt 1], .array [.ofInt 2]]

/-- Whether the pair is parsed as it is. -/
def pairParsed : Bool :=
  match digitLists.parse 3 pairOfLists listed.world with
  | .ok (.ok t, _) => t.equal pairOfLists
  | _ => false

theorem pair_parsed :
    ∃ t w, digitLists.parse 3 pairOfLists listed.world = .ok (.ok t, w) := by
  have hparsed : pairParsed = true := by decide +kernel
  rw [pairParsed] at hparsed
  split at hparsed
  · rename_i t w hparse
    exact ⟨t, w, hparse⟩
  · cases hparsed

/-- The pair of lists is parsed by the second member, and written alike. -/
theorem serialize_eq_serializePlainly_listed : ∃ t w plain,
    digitLists.parse 3 pairOfLists listed.world = .ok (.ok t, w) ∧
    listed.world.Plain listed.nodes plain ∧
    (∀ u, listed.world.Reaches digitLists u → listed.world.OthersAgree plain u) ∧
    ∀ fuel, ending (digitLists.serialize fuel t) w =
        ending (digitLists.serializePlainly plain fuel t) w ∧
      ∀ e, ending (digitLists.serialize fuel t) w ≠ some (.error e) := by
  have hboth := listed_reachable.serialize_eq_serializePlainly (s := digitLists)
    (List.mem_cons_self ..) listed_kinds
  obtain ⟨t, w, hparse⟩ := pair_parsed
  obtain ⟨plain, hplain⟩ := hboth.1
  exact ⟨t, w, plain, hparse, hplain, listed_agree hplain,
    hboth.2 plain hplain (listed_agree hplain) 3 pairOfLists t w hparse⟩

/-! ### Where shortcuts show -/

/-- The letter a. -/
def sign : Schema := .node 2 (.literal (.string "a")) Metadata.empty none

/-- The letter a outside for b inside. -/
def exchanged : Schema :=
  .node 3 (.transformed sign (.variant (.string "a") (.string "b"))) Metadata.empty none

/-- The letter a outside for what is no number, which null stands for. -/
def unnumbered : Schema :=
  .node 4 (.transformed sign (.variant (.string "a") (.number .nan))) Metadata.empty none

/-- Digits are tried before the letter. -/
def digitsOrLetter : Schema := .node 5 (.union [digits, exchanged]) Metadata.empty none

/-- Digits are tried after what is no number. -/
def unnumberedOrDigits : Schema := .node 6 (.union [unnumbered, digits]) Metadata.empty none

/-- The scene of both unions. -/
def mixed : Scene :=
  ⟨made 7 0, [unnumberedOrDigits, digitsOrLetter, unnumbered, exchanged, sign, digits, digit]⟩

theorem mixed_reachable : mixed.Reachable := by
  have h₁ : Step .building initial ⟨made 1 0, [digit]⟩ :=
    .made (fun t ht => by cases ht) (by trivial)
  have h₂ : Step .building ⟨made 1 0, [digit]⟩ ⟨made 2 0, [digits, digit]⟩ :=
    .made (fun t ht => by simp_all [Kind.children]) (by trivial)
  have h₃ : Step .building ⟨made 2 0, [digits, digit]⟩ ⟨made 3 0, [sign, digits, digit]⟩ :=
    .made (fun t ht => by cases ht) (by trivial)
  have h₄ : Step .building ⟨made 3 0, [sign, digits, digit]⟩
      ⟨made 4 0, [exchanged, sign, digits, digit]⟩ :=
    .made (fun t ht => by simp_all [Kind.children]) rfl
  have h₅ : Step .building ⟨made 4 0, [exchanged, sign, digits, digit]⟩
      ⟨made 5 0, [unnumbered, exchanged, sign, digits, digit]⟩ :=
    .made (fun t ht => by simp_all [Kind.children]) rfl
  have h₆ : Step .building ⟨made 5 0, [unnumbered, exchanged, sign, digits, digit]⟩
      ⟨made 6 0, [digitsOrLetter, unnumbered, exchanged, sign, digits, digit]⟩ := by
    refine .made (fun t ht => ?_) (by simp [Kind.Formed])
    simp only [Kind.children, List.mem_cons, List.not_mem_nil, or_false] at ht
    rcases ht with rfl | rfl <;> simp
  have h₇ : Step .building ⟨made 6 0, [digitsOrLetter, unnumbered, exchanged, sign, digits, digit]⟩
      mixed := by
    refine .made (fun t ht => ?_) (by simp [Kind.Formed])
    simp only [Kind.children, List.mem_cons, List.not_mem_nil, or_false] at ht
    rcases ht with rfl | rfl <;> simp
  exact .tail (.tail (.tail (.tail (.tail (.tail (.single ⟨_, h₁⟩) ⟨_, h₂⟩) ⟨_, h₃⟩) ⟨_, h₄⟩)
    ⟨_, h₅⟩) ⟨_, h₆⟩) ⟨_, h₇⟩

/-- The plain operations of both unions. -/
theorem mixed_plain {plain : Schema → Compiled Operation}
    (hplain : mixed.world.Plain mixed.nodes plain) : ∃ list letter number,
    list = .array .serializing (Kind.array digit).expectedName .noop ∧
    letter = .exchange (.string "b") (.string "a") (.literal .serializing (.string "a")) ∧
    number = .exchange (.number .nan) (.string "a") (.literal .serializing (.string "a")) ∧
    (plain digitsOrLetter).operation =
      .serializeUnion [list, letter] [none, some ⟨none, .string "b"⟩] ∧
    (plain unnumberedOrDigits).operation =
      .serializeUnion [number, list] [some ⟨none, .number .nan⟩, none] := by
  have hshape : ∀ s ∈ mixed.nodes, ∃ w₁ id, plain s = s.kind.plainSerializer w₁ id plain := by
    intro s hs
    obtain ⟨w₁, o, -, -, -, -, h⟩ := hplain s hs
    exact ⟨w₁, o.id, h⟩
  obtain ⟨_, _, hdigit⟩ := hshape digit (by simp [mixed])
  obtain ⟨_, _, hdigits⟩ := hshape digits (by simp [mixed])
  obtain ⟨_, _, hsign⟩ := hshape sign (by simp [mixed])
  obtain ⟨_, _, hexchanged⟩ := hshape exchanged (by simp [mixed])
  obtain ⟨_, _, hunnumbered⟩ := hshape unnumbered (by simp [mixed])
  obtain ⟨_, _, hfirst⟩ := hshape digitsOrLetter (by simp [mixed])
  obtain ⟨_, _, hsecond⟩ := hshape unnumberedOrDigits (by simp [mixed])
  refine ⟨_, _, _, rfl, rfl, rfl, ?_, ?_⟩
  · rw [hfirst]
    change Operation.serializeUnion [(plain digits).operation, (plain exchanged).operation] _ = _
    rw [hdigits, hexchanged]
    change Operation.serializeUnion [.array _ _ (plain digit).operation,
      .exchange _ _ (plain sign).operation] _ = _
    rw [hdigit, hsign]
    rfl
  · rw [hsecond]
    change Operation.serializeUnion [(plain unnumbered).operation, (plain digits).operation] _ = _
    rw [hdigits, hunnumbered]
    change Operation.serializeUnion [.exchange _ _ (plain sign).operation,
      .array _ _ (plain digit).operation] _ = _
    rw [hdigit, hsign]
    rfl

/-- Whether both unions parse the letter with their variants. -/
def lettersParsed : Bool :=
  match digitsOrLetter.parse 1 (.string "a") mixed.world,
    unnumberedOrDigits.parse 1 (.string "a") mixed.world with
  | .ok (.ok (.string b), _), .ok (.ok .null, _) => b == "b"
  | _, _ => false

theorem letters_parsed :
    (∃ w, digitsOrLetter.parse 1 (.string "a") mixed.world = .ok (.ok (.string "b"), w)) ∧
      ∃ w, unnumberedOrDigits.parse 1 (.string "a") mixed.world = .ok (.ok .null, w) := by
  have hparsed : lettersParsed = true := by decide +kernel
  rw [lettersParsed] at hparsed
  split at hparsed
  · rename_i b w w' hfirst hsecond
    rw [beq_iff_eq] at hparsed
    subst hparsed
    exact ⟨⟨w, hfirst⟩, w', hsecond⟩
  · cases hparsed

/-- What serializing ends with right after a parse is what it ends with before. -/
theorem ending_after_parse {s : Schema} (hs : s ∈ mixed.nodes) {v t : Value} {r : Result}
    {w : World} (hparse : s.parse 1 v mixed.world = .ok (r, w)) :
    ending (s.serialize 1 t) w = ending (s.serialize 1 t) mixed.world := by
  have hsound := mixed_reachable.sound
  have hw := (hsound.parse_steady 1 hs v).keeps hsound.later hparse
  exact (hsound.serialize_steady 1 hs t).ending_eq hw hsound.later

/-- No list carries the tag that is no number, so no member is tried before the digits. -/
theorem unnumbered_agree (plain : Schema → Compiled Operation) :
    mixed.world.OthersAgree plain unnumberedOrDigits := by
  intro members before own after _ hcounted k v t w hparse e he hadmitted fuel
  have hmembers : unnumberedOrDigits.kind.embedded mixed.world = [unnumbered, digits] := rfl
  rw [hmembers] at hcounted
  obtain ⟨rfl, rfl⟩ := eq_of_pair hcounted he
  obtain ⟨items, rfl⟩ := mixed_reachable.array_of_parse (by simp [mixed]) rfl hparse
  cases hadmitted

/-- **Shortcuts show where a union tries another member first, and where a literal does not accept
what stands for it.**  Digits hand on what another member has parsed, which plainly they refuse. -/
theorem serialize_ne_serializePlainly : mixed.Reachable ∧
    (∀ u ∈ mixed.nodes, u.kind.Descriptive) ∧
    (∃ plain, mixed.world.Plain mixed.nodes plain) ∧
    ∀ plain, mixed.world.Plain mixed.nodes plain →
      (∃ w, digitsOrLetter.parse 1 (.string "a") mixed.world = .ok (.ok (.string "b"), w) ∧
        ending (digitsOrLetter.serialize 1 (.string "b")) w = some (.ok (.string "b")) ∧
        ending (digitsOrLetter.serializePlainly plain 1 (.string "b")) w =
          some (.ok (.string "a"))) ∧
      mixed.world.OthersAgree plain unnumberedOrDigits ∧
      ∃ w, unnumberedOrDigits.parse 1 (.string "a") mixed.world = .ok (.ok .null, w) ∧
        ending (unnumberedOrDigits.serialize 1 .null) w = some (.ok .null) ∧
        ∃ e, ending (unnumberedOrDigits.serializePlainly plain 1 .null) w = some (.error e) := by
  refine ⟨mixed_reachable, fun u hu => ?_,
    mixed_reachable.sound.exists_plain mixed_reachable.shaped, fun plain hplain => ?_⟩
  · simp only [mixed, List.mem_cons, List.not_mem_nil, or_false] at hu
    rcases hu with rfl | rfl | rfl | rfl | rfl | rfl | rfl <;> trivial
  · obtain ⟨_, _, _, rfl, rfl, rfl, hfirst, hsecond⟩ := mixed_plain hplain
    obtain ⟨⟨w, hletter⟩, w', hnumber⟩ := letters_parsed
    refine ⟨⟨w, hletter, ?_, ?_⟩, unnumbered_agree plain, w', hnumber, ?_, ?_⟩
    · rw [ending_after_parse (by simp [mixed]) hletter]
      rfl
    · rw [Schema.serializePlainly, hfirst]
      rfl
    · rw [ending_after_parse (by simp [mixed]) hnumber]
      rfl
    · rw [Schema.serializePlainly, hsecond]
      exact ⟨_, rfl⟩

end Scene

end Schemata
