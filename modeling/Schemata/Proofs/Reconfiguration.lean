/-
**What is compiled keeps its configuration.**

An object without a policy of its own takes the one of the configuration, at the time when its node
is compiled.  The nodes below a node are compiled together with it, so a change of the configuration
does not reach them any more.  A reference is a leaf for the compiler: the schema that it stands for
is compiled when a value first leads there, and reads the configuration of that time.

So a compiled node gives what it would give under its old configuration as long as the objects
behind references have been compiled under the same policy.  Calls and changes of the configuration
may come in any order, and at any time: while the graph is being built as well.

Main definitions:

* `Schemata.World.Late` — the objects that a parse may lead to and that are not compiled together
  with the node;
* `Schemata.Scene.Arises` — scenes that steps of building and calls lead to, in any order;
* `Schemata.Scene.Reconfigures` — calls and changes of the configuration;
* `Schemata.Scene.Carries` — what such a history keeps of the plan.

Main results:

* `Schemata.Scene.Reconfigures.carries` — **the plan is kept** by calls and changes of the
  configuration;
* `Schemata.Scene.Arises.keeps_configuration` — **a compiled node keeps its configuration**.
-/

import Schemata.Proofs.Resemblance

set_option relaxedAutoImplicit false
set_option autoImplicit false

namespace Schemata

/-! ### What a parse may lead to -/

/-- An object that takes its policy from the configuration. -/
def Kind.IsOpen : Kind → Prop
  | .object _ none => True
  | _ => False

/-- A parse operation stands in the cell of the node. -/
def World.HasParser (w : World) (s : Schema) : Prop := ∃ c, w.parseCells s.id = .filled c

/-- A node below, or the node itself. -/
def Schema.Contains : Schema → Schema → Prop := Relation.ReflTransGen fun s t => t ∈ s.children

/-- **An object behind references**, which takes its policy from the configuration: a parse may lead
to it, but it is not below the node. -/
structure World.Late (w : World) (s o : Schema) : Prop where
  isOpen : o.kind.IsOpen
  reached : Relation.ReflTransGen w.Depends s o
  outside : ¬ s.Contains o

section

variable {w w' : World} {nodes nodes' : List Schema} {s t : Schema} {kind : Kind}

/-- What is below a compiled node was compiled with it, but for references. -/
theorem World.Shaped.hasParser_of_contains {Then : World → World → Prop} (hosts : w.Hosts nodes)
    (hshape : w.Shaped Then nodes) (hs : s ∈ nodes) (hc : w.HasParser s) (hst : s.Contains t)
    (ht : ∀ r, t.kind ≠ .recursive r) : w.HasParser t := by
  suffices h : t ∈ nodes ∧ w.HasParser t from h.2
  induction hst with
  | refl => exact ⟨hs, hc⟩
  | @tail x t _ hxt ih =>
      have hx : ∀ r, x.kind ≠ .recursive r := fun r hr => by
        rw [Schema.children, hr] at hxt
        cases hxt
      obtain ⟨hmem, c, hc⟩ := ih hx
      obtain ⟨w₁, _, _, _, _, _, _, hbelow⟩ := hshape.parse x hmem c hc
      refine ⟨(hosts.below x hmem t hxt).1, hbelow t ?_⟩
      rw [Schema.children] at hxt
      cases hk : x.kind with
      | union members =>
          rw [hk] at hxt
          -- a union leaves out the members that are the union itself, and these are references
          refine List.mem_filter.2 ⟨hxt, ?_⟩
          cases hb : refersBack w₁ (members.map Schema.id) t with
          | false => rfl
          | true =>
              obtain ⟨r, _, _, hr, _⟩ := refersBack_eq_true hb
              exact absurd hr (ht r)
      | _ => rwa [hk] at hxt

/-- A parse operation depends on the configuration only through the policy of an object. -/
theorem Kind.parser_config_congr (hb : w.bindings = w'.bindings) (id : NodeId) (waits : Bool)
    (hpolicy : kind.IsOpen → w.config.unknownKeys = w'.config.unknownKeys)
    {below below' : Schema → ParseOperation} (h : ∀ t ∈ kind.embedded w, below t = below' t) :
    kind.parser w id waits below = kind.parser w' id waits below' := by
  have hconfig : kind.parser w id waits below =
      kind.parser { w with config := w'.config } id waits below := by
    cases kind with
    | object fields own =>
        have hown : policyOf w own = policyOf { w with config := w'.config } own := by
          cases own with
          | none => exact hpolicy trivial
          | some policy => rfl
        simp only [Kind.parser, Kind.directParser, Kind.stagedParser, hown]
    | _ => rfl
  have hsame : ({ w with config := w'.config } : World).config = w'.config := rfl
  rw [hconfig]
  exact Kind.parser_congr hsame hb id waits h

/-- What a walk finds depends on the world only through the bindings and what is known. -/
theorem World.Hits.transfer (hleads : ∀ s ∈ nodes, ∀ t, w.Leads s t → w'.Leads s t ∧ t ∈ nodes)
    (hknown : ∀ s ∈ nodes, w'.knownAsync? s.id = w.knownAsync? s.id) (hs : s ∈ nodes)
    (h : w.Hits s) : w'.Hits s := by
  induction h with
  | known hk => exact .known ((hknown _ hs).trans hk)
  | own hn ha => exact .own ((hknown _ hs).trans hn) ha
  | step hn hst _ ih =>
      obtain ⟨hst', ht⟩ := hleads _ hs _ hst
      exact .step ((hknown _ hs).trans hn) hst' (ih ht)

/-- The answers depend on the world only through the bindings and what is known. -/
theorem World.Hosts.answer_congr (h : w.Hosts nodes) (h' : w'.Hosts nodes') (hsub : nodes ⊆ nodes')
    (hb : w'.bindings = w.bindings)
    (hknown : ∀ s ∈ nodes, w'.knownAsync? s.id = w.knownAsync? s.id) :
    ∀ s ∈ nodes, w'.answer s = w.answer s := by
  intro s hs
  have hleads : w'.Leads = w.Leads := World.leads_congr hb
  rw [Bool.eq_iff_iff, World.answer_iff h' (hsub hs), World.answer_iff h hs]
  constructor
  · refine World.Hits.transfer (fun x hx y hxy => ?_) (fun x hx => (hknown x hx).symm) hs
    rw [hleads] at hxy
    exact ⟨hxy, h.leads hx hxy⟩
  · refine World.Hits.transfer (fun x hx y hxy => ?_) hknown hs
    exact ⟨hleads ▸ hxy, h.leads hx hxy⟩

end

namespace Scene

variable {phase : Phase} {σ ρ τ : Scene} {s t : Schema} {N : Schema → Prop}

/-! ### Histories -/

/-- **Scenes that steps of building and calls lead to**, in any order. -/
def Arises (σ : Scene) : Prop :=
  Relation.ReflTransGen (fun σ τ => (∃ phase, Step phase σ τ) ∨ Call σ τ) initial σ

/-- Scenes that are only built are among them. -/
theorem built_arises (h : Relation.ReflTransGen (Step .building) initial σ) : σ.Arises := by
  induction h with
  | refl => exact .refl
  | tail _ hstep ih => exact ih.tail (.inl ⟨_, hstep⟩)

theorem Arises.invariants (h : σ.Arises) :
    σ.world.Sound σ.nodes ∧ σ.world.Shaped World.Before σ.nodes := by
  induction h with
  | refl => exact ⟨initial_sound, initial_shaped _⟩
  | tail _ hnext ih =>
      rcases hnext with ⟨phase, hstep⟩ | hcall
      · have hchange := hstep.change ih.1
        exact ⟨hchange.sound ih.1, hchange.shaped ih.1 ih.2⟩
      · have hchange := hcall.change ih.1
        exact ⟨hchange.sound ih.1, hchange.shaped ih.1 ih.2⟩

/-- **Calls and changes of the configuration**, in any order.  Objects among those that are `late`
are compiled only while the policy is the one of the first scene. -/
inductive Reconfigures (σ : Scene) (late : Schema → Prop) : Scene → Prop
  | start : Reconfigures σ late σ
  | configure {ρ : Scene} (config : Config) : Reconfigures σ late ρ →
      Reconfigures σ late ⟨{ ρ.world with config := config }, ρ.nodes⟩
  | call {ρ τ : Scene} : Reconfigures σ late ρ → Call ρ τ →
      (∀ o, late o → τ.world.HasParser o →
        ρ.world.HasParser o ∨ ρ.world.config.unknownKeys = σ.world.config.unknownKeys) →
      Reconfigures σ late τ

/-- Calls leave the configuration as it is. -/
theorem Calls.reconfigures (h : σ.Calls τ) (hσ : σ.world.Sound σ.nodes) (late : Schema → Prop) :
    σ.Reconfigures late τ ∧ τ.world.Sound τ.nodes ∧ τ.world.config = σ.world.config := by
  induction h with
  | refl => exact ⟨.start, hσ, rfl⟩
  | tail _ hcall ih =>
      obtain ⟨hbefore, hsound, hconfig⟩ := ih
      have hchange := hcall.change hsound
      exact ⟨.call hbefore hcall fun _ _ _ => .inr (congrArg Config.unknownKeys hconfig),
        hchange.sound hsound, hchange.settings_same.2.symm.trans hconfig⟩

/-! ### What is kept of the plan -/

/-- **What is kept of the plan.**  Answers and serialize operations are as planned; so are the parse
operations that have been compiled, for some of the nodes. -/
structure Carries (σ : Scene) (N : Schema → Prop) (τ : Scene) : Prop where
  sound : τ.world.Sound τ.nodes
  nodes : σ.nodes ⊆ τ.nodes
  bindings : τ.world.bindings = σ.world.bindings
  answers : ∀ s ∈ σ.nodes, τ.world.answer s = σ.world.answer s
  kept : ∀ s ∈ σ.nodes, ∀ c, σ.world.parseCells s.id = .filled c →
    τ.world.parseCells s.id = .filled c
  parse : ∀ s, N s → ∀ c, τ.world.parseCells s.id = .filled c → c = σ.world.parsePlan s
  serialize : ∀ s ∈ σ.nodes, τ.world.serializePlan s = σ.world.serializePlan s

/-- Nodes among which a parse stays. -/
structure Region (σ : Scene) (N : Schema → Prop) : Prop where
  member : ∀ s, N s → s ∈ σ.nodes
  depends : ∀ s, N s → ∀ t, σ.world.Depends s t → N t

theorem Region.below (hN : σ.Region N) (hs : N s) (ht : t ∈ s.children) : N t :=
  hN.depends s hs t (.inl ht)

/-- The nodes that a parse may lead to. -/
theorem region_depends (h : σ.world.Hosts σ.nodes) (hs : s ∈ σ.nodes) :
    σ.Region (Relation.ReflTransGen σ.world.Depends s) where
  member t ht := by
    induction ht with
    | refl => exact hs
    | tail _ hst ih =>
        rcases hst with hchild | ⟨r, -, hr⟩
        · exact (h.below _ ih _ hchild).1
        · exact h.targets r _ hr
  depends _ ht _ htu := ht.tail htu

/-- What a call leaves of the answers and of the serialize operations. -/
theorem Change.keeps_answers (h : Change .using σ τ) (hσ : σ.world.Sound σ.nodes) :
    (∀ s ∈ σ.nodes, τ.world.answer s = σ.world.answer s) ∧
      ∀ s ∈ σ.nodes, τ.world.serializePlan s = σ.world.serializePlan s := by
  have hτ := h.sound hσ
  cases h with
  | later hl => exact ⟨fun s hs => hl.ahead.answer hσ hs, hl.ahead.serializePlan hσ⟩
  | @node _ _ kind metadata origin p q a hbelow hformed hi =>
      have hother : ∀ s ∈ σ.nodes, s.id ≠ σ.world.nextNode := fun s hs =>
        Nat.ne_of_lt (hσ.hosts.known s hs)
      refine ⟨hσ.hosts.answer_congr hτ.hosts (List.subset_cons_self ..) rfl fun s hs => ?_,
        hσ.hosts.serializePlan_congr rfl fun s hs => updateAt_other (hother s hs)⟩
      simp only [World.knownAsync?, World.withNode, updateAt_other (hother s hs)]

theorem Carries.refl (hσ : σ.world.Sound σ.nodes) : σ.Carries N σ where
  sound := hσ
  nodes := List.Subset.refl _
  bindings := rfl
  answers _ _ := rfl
  kept _ _ _ hc := hc
  parse _ _ _ hc := (World.parsePlan_of_filled hc).symm
  serialize _ _ := rfl

namespace Carries

variable (h : σ.Carries N ρ) (hN : σ.Region N)

include h hN

/-- A node is planned as it was, if the operations that its own embeds are and it is not an object
under another policy. -/
theorem parsePlan_of_embedded (hs : N s)
    (hpolicy : s.kind.IsOpen →
      ρ.world.HasParser s ∨ ρ.world.config.unknownKeys = σ.world.config.unknownKeys)
    (hbelow : ∀ t ∈ s.kind.embedded ρ.world, ρ.world.planned t = σ.world.planned t) :
    ρ.world.parsePlan s = σ.world.parsePlan s := by
  have hmem := hN.member s hs
  cases hc : ρ.world.parseCells s.id with
  | filled c => rw [World.parsePlan_of_filled hc, h.parse s hs c hc]
  -- not compiled now, so not compiled in the first scene either: both plan it anew
  | empty | filling =>
      have hnone : (ρ.world.parseCells s.id).content? = none := by rw [hc]; rfl
      have hnone' : (σ.world.parseCells s.id).content? = none := by
        cases hc' : σ.world.parseCells s.id with
        | filled c => rw [h.kept s hmem c hc'] at hc; cases hc
        | empty | filling => rfl
      rw [World.parsePlan_of_unfilled hnone, World.parsePlan_of_unfilled hnone', h.answers s hmem]
      refine congrArg (Compiled.mk s.id)
        (Kind.parser_config_congr h.bindings _ _ (fun ho => ?_) fun t ht => ?_)
      · refine (hpolicy ho).resolve_left ?_
        rintro ⟨c, hfilled⟩
        rw [hfilled] at hc
        cases hc
      · rw [hbelow t ht]

/-- **The plan is the one of the first scene**, if no object is left to compile under another
policy. -/
theorem parsePlan (hpolicy : ∀ o, N o → o.kind.IsOpen →
      ρ.world.HasParser o ∨ ρ.world.config.unknownKeys = σ.world.config.unknownKeys)
    (hσ : σ.world.Hosts σ.nodes) : ∀ s, N s → ρ.world.parsePlan s = σ.world.parsePlan s := by
  suffices hall : ∀ s ∈ σ.nodes, N s → ρ.world.parsePlan s = σ.world.parsePlan s from
    fun s hs => hall s (hN.member s hs) hs
  refine hσ.induction fun s _ ih hs => ?_
  refine h.parsePlan_of_embedded hN hs (hpolicy s hs) fun t ht => ?_
  have hchild := Kind.embedded_subset _ _ ht
  exact congrArg Compiled.operation (ih t hchild (hN.below hs hchild))

/-- **What a call compiles is as planned in the first scene**, if no object is compiled under another
policy. -/
theorem parse_later {w : World} (hl : ρ.world.Later ρ.nodes w) (hσ : σ.world.Hosts σ.nodes)
    (hpolicy : ∀ o, N o → o.kind.IsOpen → w.HasParser o →
      ρ.world.HasParser o ∨ ρ.world.config.unknownKeys = σ.world.config.unknownKeys) :
    ∀ s, N s → ∀ c, w.parseCells s.id = .filled c → c = σ.world.parsePlan s := by
  suffices hall : ∀ s ∈ σ.nodes, N s → ∀ c, w.parseCells s.id = .filled c →
      c = σ.world.parsePlan s from fun s hs => hall s (hN.member s hs) hs
  refine hσ.induction fun s hmem ih hs c hc => ?_
  have hmem : s ∈ ρ.nodes := h.nodes hmem
  rcases hl.ahead.parse.closed s hmem c hc with hold | hbelow
  · exact h.parse s hs c hold
  -- the operation is new: it is built around what the nodes below hold now
  rw [hl.ahead.parse.planned s hmem c hc]
  refine h.parsePlan_of_embedded hN hs (fun ho => hpolicy s hs ho ⟨c, hc⟩) fun t ht => ?_
  have hchild := Kind.embedded_subset _ _ ht
  obtain ⟨b, hb⟩ := hbelow t ht
  have hplan := hl.ahead.parse.planned t (h.sound.hosts.below s hmem t hchild).1 b hb
  rw [World.planned, ← hplan, ih t hchild (hN.below hs hchild) b hb]

/-- What a call compiles is as planned; the cells of a node that it makes are cells of others. -/
theorem parse_call (hchange : Change .using ρ τ) (hσ : σ.world.Hosts σ.nodes)
    (hpolicy : ∀ o, N o → o.kind.IsOpen → τ.world.HasParser o →
      ρ.world.HasParser o ∨ ρ.world.config.unknownKeys = σ.world.config.unknownKeys) :
    ∀ s, N s → ∀ c, τ.world.parseCells s.id = .filled c → c = σ.world.parsePlan s := by
  cases hchange with
  | later hl => exact h.parse_later hN hl hσ hpolicy
  | node =>
      intro s hs c hc
      have hlt := h.sound.hosts.known s (h.nodes (hN.member s hs))
      exact h.parse s hs c ((updateAt_other (Nat.ne_of_lt hlt)).symm.trans hc)

end Carries

/-- **Calls and changes of the configuration keep the plan**, for nodes of which none is an object
that is compiled under another policy. -/
theorem Reconfigures.carries {late : Schema → Prop} (h : σ.Reconfigures late τ)
    (hσ : σ.world.Sound σ.nodes) (hN : σ.Region N)
    (hlate : ∀ o, N o → o.kind.IsOpen → σ.world.HasParser o ∨ late o) : σ.Carries N τ := by
  induction h with
  | start => exact .refl hσ
  | @configure ρ config _ ih =>
      have hstep : Step .building ρ ⟨{ ρ.world with config := config }, ρ.nodes⟩ := .configure config
      have hsound := (hstep.change ih.sound).sound ih.sound
      have hserialize : ∀ s ∈ ρ.nodes,
          ({ ρ.world with config := config } : World).serializePlan s = ρ.world.serializePlan s :=
        ih.sound.hosts.serializePlan_congr rfl fun _ _ => rfl
      exact
        { sound := hsound
          nodes := ih.nodes
          bindings := ih.bindings
          answers := fun s hs => (ih.sound.hosts.answer_congr hsound.hosts (List.Subset.refl _) rfl
            (fun _ _ => rfl) s (ih.nodes hs)).trans (ih.answers s hs)
          kept := ih.kept
          parse := ih.parse
          serialize := fun s hs => (hserialize s (ih.nodes hs)).trans (ih.serialize s hs) }
  | @call ρ τ _ hcall hpolicy ih =>
      have hchange := hcall.change ih.sound
      obtain ⟨hanswers, hserialize⟩ := hchange.keeps_answers ih.sound
      have hkept := hchange.kept ih.sound
      exact
        { sound := hchange.sound ih.sound
          nodes := List.Subset.trans ih.nodes hkept.nodes
          bindings := hchange.settings_same.1.symm.trans ih.bindings
          answers := fun s hs => (hanswers s (ih.nodes hs)).trans (ih.answers s hs)
          kept := fun s hs c hc => hkept.parse s (ih.nodes hs) c (ih.kept s hs c hc)
          parse := ih.parse_call hN hchange hσ.hosts fun o ho hopen hfilled => by
            rcases hlate o ho hopen with ⟨c, hc⟩ | hl
            · exact .inl ⟨c, ih.kept o (hN.member o ho) c hc⟩
            · exact hpolicy o hl hfilled
          serialize := fun s hs => (hserialize s (ih.nodes hs)).trans (ih.serialize s hs) }

/-! ### Results -/

/-- **Scenes with the same plan for the nodes that a parse may lead to resemble each other.** -/
theorem Carries.resembles {τ' : Scene} (hσ : σ.world.Sound σ.nodes)
    (hshape : σ.world.Shaped World.Before σ.nodes) (hN : σ.Region N) (h : σ.Carries N τ)
    (h' : σ.Carries N τ') (hplan : ∀ s, N s → τ.world.parsePlan s = σ.world.parsePlan s)
    (hplan' : ∀ s, N s → τ'.world.parsePlan s = σ.world.parsePlan s) :
    τ.world.Resembles τ'.world (fun s t => s = t ∧ N s)
      fun r => ∃ s, N s ∧ r ∈ s.kind.references := by
  have hbelow : ∀ {s : Schema} {w₁ : World}, N s → ∀ t ∈ s.kind.embedded w₁, t ∈ σ.nodes ∧ N t :=
    fun {s w₁} hs t ht =>
      have hNt := hN.below hs (Kind.embedded_subset w₁ _ ht)
      ⟨hN.member t hNt, hNt⟩
  refine
    { kinds := ?_
      references := fun s _ hst r hr => ⟨s, hst.2, hr⟩
      targets := ?_
      parse := ?_
      serialize := ?_ }
  · rintro s _ ⟨rfl, hs⟩
    exact .refl fun t ht => ⟨rfl, hN.below hs ht⟩
  · rintro r ⟨s, hs, hr⟩
    rw [World.target?_congr (h'.bindings.trans h.bindings.symm)]
    cases ht : τ.world.target? r with
    | none => exact .none
    | some t =>
        have ht : σ.world.target? r = some t := (World.target?_congr h.bindings r).symm.trans ht
        exact .some ⟨rfl, hN.depends s hs t (.inr ⟨r, hr, ht⟩)⟩
  · rintro s _ ⟨rfl, hs⟩
    obtain ⟨w₁, o, waits, -, -, -, hshape⟩ :=
      hσ.parsePlan_shape hshape (.refl _) (hN.member s hs)
    have hsame : ∀ {ρ : Scene}, (∀ s, N s → ρ.world.parsePlan s = σ.world.parsePlan s) →
        ρ.world.planned s = s.kind.parser w₁ o.id waits ρ.world.planned := by
      intro ρ hρ
      rw [World.planned, hρ s hs, hshape]
      exact Kind.parser_congr rfl rfl _ _ fun t ht =>
        congrArg Compiled.operation (hρ t (hbelow hs t ht).2).symm
    exact ⟨w₁, w₁, o.id, o.id, waits, hsame hplan, hsame hplan', .refl w₁ o.id s.kind,
      fun _ _ _ => rfl⟩
  · rintro s _ ⟨rfl, hs⟩
    obtain ⟨w₁, o, -, -, -, hshape⟩ :=
      hσ.serializePlan_shape hshape (.refl _) (hN.member s hs)
    have hsame : ∀ {ρ : Scene}, (∀ s ∈ σ.nodes, ρ.world.serializePlan s = σ.world.serializePlan s) →
        (ρ.world.serializePlan s).operation =
          (s.kind.serializer w₁ o.id ρ.world.serializePlan).operation := by
      intro ρ hρ
      rw [hρ s (hN.member s hs), hshape]
      exact congrArg Compiled.operation <|
        Kind.serializer_congr rfl _ fun t ht => (hρ t (hbelow hs t ht).1).symm
    exact ⟨w₁, w₁, o.id, o.id, hsame h.serialize, hsame h'.serialize, .refl w₁ o.id s.kind⟩

/-- **A compiled node keeps its configuration.**  All that is below it was compiled with it, but for
references.  After any calls and changes of the configuration it comes to the results to which it
comes after any calls alone, provided that the objects behind references are compiled under the same
policy. -/
theorem Arises.keeps_configuration (h : σ.Arises) (hs : s ∈ σ.nodes) (hc : σ.world.HasParser s) :
    (∀ t, s.Contains t → (∀ r, t.kind ≠ .recursive r) → σ.world.HasParser t) ∧
    ∀ τ τ₀, σ.Reconfigures (σ.world.Late s) τ →
      (∀ o, σ.world.Late s o → τ.world.HasParser o ∨
        τ.world.config.unknownKeys = σ.world.config.unknownKeys) →
      σ.Calls τ₀ → SameResults τ s τ₀ s := by
  obtain ⟨hsound, hshape⟩ := h.invariants
  have hwithin : ∀ t, s.Contains t → (∀ r, t.kind ≠ .recursive r) → σ.world.HasParser t :=
    fun t hst => hshape.hasParser_of_contains hsound.hosts hs hc hst
  refine ⟨hwithin, fun τ τ₀ hτ hend hτ₀ => ?_⟩
  have hN := region_depends hsound.hosts hs
  have hlate : ∀ o, Relation.ReflTransGen σ.world.Depends s o → o.kind.IsOpen →
      σ.world.HasParser o ∨ σ.world.Late s o := by
    intro o ho hopen
    -- an open object is below the node, and compiled with it, or it is behind a reference
    by_cases hin : s.Contains o
    · exact .inl (hwithin o hin fun r hr => by rw [hr] at hopen; cases hopen)
    · exact .inr ⟨hopen, ho, hin⟩
  obtain ⟨hτ₀, -, hconfig⟩ := hτ₀.reconfigures hsound (σ.world.Late s)
  have hcarries := hτ.carries hsound hN hlate
  have hcarries₀ := hτ₀.carries hsound hN hlate
  have hplan := hcarries.parsePlan hN (fun o ho hopen => ?_) hsound.hosts
  · have hplan₀ := hcarries₀.parsePlan hN
      (fun _ _ _ => .inr (congrArg Config.unknownKeys hconfig)) hsound.hosts
    have hlike := hcarries.resembles hsound hshape hN hcarries₀ hplan hplan₀
    refine sameResults_of_resembles hcarries.sound hcarries₀.sound hlike ?_ ?_ ⟨rfl, .refl⟩
    · exact fun x y hxy => hcarries.nodes (hN.member x hxy.2)
    · exact fun x y hxy => hcarries₀.nodes (hxy.1 ▸ hN.member x hxy.2)
  · rcases hlate o ho hopen with ⟨c, hc⟩ | hl
    · exact .inl ⟨c, hcarries.kept o (hN.member o ho) c hc⟩
    · exact hend o hl

/-! ### A list that is described -/

/-- A reference inside the object that it stands for. -/
def listEnd : Schema := .node 0 (.recursive 0) Metadata.empty none

/-- The reference, or nothing. -/
def listRest : Schema := .node 1 (.option listEnd) Metadata.empty none

/-- An object with such a field, to which the reference is bound. -/
def listHead : Schema := .node 2 (.object [("next", listRest)] none) Metadata.empty none

/-- The world in which it is bound. -/
def listWorld : World :=
  { made 3 1 with bindings := updateAt (made 3 1).bindings 0 (.live listHead) }

/-- A copy of the object. -/
def describedHead : Schema :=
  .node 3 listHead.kind { Metadata.empty with description := some "a list" } (some listHead)

/-- The scene of these nodes, under a strict configuration. -/
def strictLists : Scene where
  world := { worldAfter (listHead.describe "a list") listWorld with config := ⟨.strict⟩ }
  nodes := [describedHead, listHead, listRest, listEnd]

/-- The scene after the copy has been compiled. -/
def copyCompiled : Scene :=
  ⟨worldAfter describedHead.parseOperation strictLists.world, strictLists.nodes⟩

/-- The scene after the object has been compiled as well. -/
def bothCompiled : Scene := ⟨worldAfter listHead.parseOperation copyCompiled.world, strictLists.nodes⟩

/-- The scene with the configuration that is in force until another one is set. -/
def unconfigured (σ : Scene) : Scene := ⟨{ σ.world with config := Config.default }, σ.nodes⟩

/-- An item behind the first one, with a key that is not declared. -/
def excessBehind : Value := .object [("next", .object [("x", .null)])]

theorem strictLists_arises : strictLists.Arises := by
  have h₁ : Step .building initial ⟨made 0 1, []⟩ := .reference rfl
  have h₂ : Step .building ⟨made 0 1, []⟩ ⟨made 1 1, [listEnd]⟩ :=
    .made (fun t ht => by cases ht) trivial
  have h₃ : Step .building ⟨made 1 1, [listEnd]⟩ ⟨made 2 1, [listRest, listEnd]⟩ :=
    .made (fun t ht => by simpa [Kind.children] using ht) trivial
  have h₄ : Step .building ⟨made 2 1, [listRest, listEnd]⟩
      ⟨made 3 1, [listHead, listRest, listEnd]⟩ :=
    .made (fun t ht => by simp_all [Kind.children]) (by simp [Kind.Formed, Entries.keys])
  have h₅ : Step .building ⟨made 3 1, [listHead, listRest, listEnd]⟩
      ⟨listWorld, [listHead, listRest, listEnd]⟩ :=
    .bind Nat.zero_lt_one rfl (List.mem_cons_self ..) rfl
  have h₆ : Step .building ⟨listWorld, [listHead, listRest, listEnd]⟩
      ⟨worldAfter (listHead.describe "a list") listWorld,
        [describedHead, listHead, listRest, listEnd]⟩ :=
    .withMetadata .building (List.mem_cons_self ..)
      (show listHead.describe "a list" listWorld = .ok (describedHead, _) from rfl)
  have h₇ : Step .building ⟨worldAfter (listHead.describe "a list") listWorld,
        [describedHead, listHead, listRest, listEnd]⟩ strictLists := .configure ⟨.strict⟩
  exact .tail (.tail (.tail (.tail (.tail (.tail (.single (.inl ⟨_, h₁⟩)) (.inl ⟨_, h₂⟩))
    (.inl ⟨_, h₃⟩)) (.inl ⟨_, h₄⟩)) (.inl ⟨_, h₅⟩)) (.inl ⟨_, h₆⟩)) (.inl ⟨_, h₇⟩)

theorem copyCompiled_arises : copyCompiled.Arises :=
  strictLists_arises.tail (.inr (.use (.parseOperation (List.mem_cons_self ..) rfl)))

theorem bothCompiled_arises : bothCompiled.Arises :=
  copyCompiled_arises.tail
    (.inr (.use (.parseOperation (s := listHead) (by simp [copyCompiled, strictLists]) rfl)))

/-- When the object behind the reference has been compiled as well, nothing changes with the
configuration. -/
theorem keeps_configuration_lists :
    bothCompiled.Arises ∧ describedHead ∈ bothCompiled.nodes ∧
      bothCompiled.world.HasParser describedHead ∧
      SameResults (unconfigured bothCompiled) describedHead bothCompiled describedHead := by
  have hm : describedHead ∈ bothCompiled.nodes := List.mem_cons_self ..
  have hc : bothCompiled.world.HasParser describedHead := ⟨_, rfl⟩
  have hsound := bothCompiled_arises.invariants.1
  refine ⟨bothCompiled_arises, hm, hc,
    (Arises.keeps_configuration bothCompiled_arises hm hc).2 (unconfigured bothCompiled)
      bothCompiled (.configure _ .start) (fun o ho => .inl ?_) .refl⟩
  have hmem := (region_depends hsound.hosts hm).member o ho.reached
  have hopen := ho.isOpen
  simp only [bothCompiled, strictLists, List.mem_cons, List.not_mem_nil, or_false] at hmem
  rcases hmem with rfl | rfl | rfl | rfl
  · exact ⟨_, rfl⟩
  · exact ⟨_, rfl⟩
  · cases hopen
  · cases hopen

/-- **When it has not been compiled, it reads the configuration of the time when a value first leads
there.** -/
theorem configuration_read_late :
    copyCompiled.Arises ∧ describedHead ∈ copyCompiled.nodes ∧
      copyCompiled.world.HasParser describedHead ∧
      copyCompiled.Reconfigures (fun _ => False) (unconfigured copyCompiled) ∧
      copyCompiled.Calls copyCompiled ∧
      (unconfigured copyCompiled).Comes (fun fuel => describedHead.parse fuel excessBehind)
        (.ok (.object [("next", .object [("next", .null)])])) ∧
      copyCompiled.Comes (fun fuel => describedHead.parse fuel excessBehind)
        (.error ((Error.atRoot (.excessField "x") .parsing).prepend (.key "next"))) ∧
      ¬ SameResults (unconfigured copyCompiled) describedHead copyCompiled describedHead := by
  have hm : describedHead ∈ copyCompiled.nodes := List.mem_cons_self ..
  have hok : (unconfigured copyCompiled).Comes (fun fuel => describedHead.parse fuel excessBehind)
      (.ok (.object [("next", .object [("next", .null)])])) := ⟨5, _, rfl⟩
  have herror : copyCompiled.Comes (fun fuel => describedHead.parse fuel excessBehind)
      (.error ((Error.atRoot (.excessField "x") .parsing).prepend (.key "next"))) := ⟨5, _, rfl⟩
  refine ⟨copyCompiled_arises, hm, ⟨_, rfl⟩, .configure _ .start, .refl, hok, herror, fun hsame => ?_⟩
  have heq := parse_unique copyCompiled_arises.invariants.1 hm
    ((hsame.parse excessBehind _).1 hok) herror
  cases heq

end Scene

end Schemata
