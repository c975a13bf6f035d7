/-
**Errors point at what is to blame.**

In every scene that a history leads to, the error of a parse or of a serialization has a path that
leads into the value along the schema, and what it says of the value at fault is true of the value
that is found there.  This holds for schemas that hand the value on as it is; functions of the user
may say what they like, as long as they say it in their own words.

The proof goes through the planned operations by the identities of nodes, which fall towards the
nodes below, and through references by the fuel.

Main definitions:

* `Schemata.World.InOwnWords` — schemas whose functions fail in their own words.

Main results:

* `Schemata.World.InOwnWords.parse_blames`, `Schemata.World.InOwnWords.parseAsync_blames`,
  `Schemata.World.InOwnWords.serialize_blames` — the entry points;
* `Schemata.Scene.Reachable.errors_blame` — **every error points at what is to blame**.
-/

import Schemata.Proofs.StagedErrors

set_option relaxedAutoImplicit false
set_option autoImplicit false

namespace Schemata

/-- **The functions of the schemas `N`, which steps do not leave, fail in their own words.** -/
structure World.InOwnWords (w₀ : World) (nodes : List Schema) (N : Schema → Prop) : Prop
    extends World.Region w₀ nodes N where
  plain : ∀ s, N s → s.kind.FailsPlainly w₀

section

variable {w₀ : World} {nodes : List Schema} {N : Schema → Prop} {m : Machine} {s : Schema}
  {v : Value}

/-- The schema behind a reference is held against the same value. -/
theorem Kind.mem_alongside_of_target {r : Reference} {t : Schema} (hs : s.kind = .recursive r)
    (ht : w₀.target? r = some t) : t ∈ s.kind.alongside w₀ := by
  simp [hs, alongside, ht]

namespace World.InOwnWords

/-! ### Parsing -/

/-- References blame what there is to blame, when they are parsed and when a parse of them is
started. -/
structure Follows (w₀ : World) (nodes : List Schema) (N : Schema → Prop) (m : Machine) : Prop where
  parse : ∀ s r, N s → s.kind = .recursive r → ∀ v, v.WellFormed →
    Ensures (w₀.Later nodes) (m.parse r v) (OnError fun e => e.Blames w₀ .parsing s v)
  stage : ∀ s r, N s → s.kind = .recursive r → ∀ v, v.WellFormed →
    Ensures (w₀.Later nodes) (m.stage r v) (StagedOnly w₀ fun e => e.Blames w₀ .parsing s v)

/-- **Planned parse operations blame what there is to blame**, run and started. -/
theorem planned_blames (h : w₀.InOwnWords nodes N) (hplace : ∀ s, N s → s.kind.ReadsInPlace)
    (hm : m.Reports (w₀.Later nodes) w₀) (hfollow : Follows w₀ nodes N m) :
    ∀ s, N s → ∀ v, v.WellFormed →
      RunBlames (w₀.Later nodes) m w₀ .parsing (w₀.planned s).atOnce s v ∧
      StageBlames (w₀.Later nodes) m w₀ (w₀.planned s) s v := by
  refine h.toRegion.induction fun s hs ih => ?_
  intro v hv
  have hmem := h.member s hs
  have hformed := h.sound.hosts.formed s hmem
  have hbelow : ∀ t ∈ s.children, ∀ a, v.Holds a →
      RunBlames (w₀.Later nodes) m w₀ .parsing (w₀.planned t).atOnce t a ∧
      StageBlames (w₀.Later nodes) m w₀ (w₀.planned t) t a :=
    fun t ht a ha => ih t ht a (ha.wellFormed hv)
  obtain ⟨w₁, o, waits, -, -, -, hplan⟩ := h.sound.parsePlan_shape h.shaped (.refl w₀) hmem
  rw [World.planned, hplan]
  cases waits with
  | false =>
      have hdirect : RunBlames (w₀.Later nodes) m w₀ .parsing
          (s.kind.directParser w₁ o.id w₀.planned) s v :=
        Kind.directParser_blames hm hformed (h.plain s hs) (hplace s hs) hv
          (fun t ht a ha => (hbelow t ht a ha).1) fun r hr => hfollow.parse s r hs hr v hv
      exact ⟨hdirect, .direct hdirect⟩
  | true =>
      constructor
      · -- where nothing may wait it fails, at the value itself
        rw [ParseOperation.atOnce_of_isAsync (Kind.parser_isAsync _ _ _ _ _)]
        exact .fail trivial
      · exact Kind.stagedParser_blames hm hformed (h.plain s hs) (hplace s hs) hv
          (fun t ht a ha => (hbelow t ht a ha).2) fun r hr => hfollow.stage s r hs hr v hv

/-- **References blame what there is to blame**, with any fuel. -/
theorem machine_follows (h : w₀.InOwnWords nodes N) (hplace : ∀ s, N s → s.kind.ReadsInPlace)
    (fuel : Nat) : Follows w₀ nodes N (machine fuel) := by
  have hc := h.compiles
  induction fuel with
  | zero => exact ⟨fun _ _ _ _ _ _ => .halt _, fun _ _ _ _ _ _ => .halt _⟩
  | succ fuel ih =>
      have hplanned := h.planned_blames hplace (h.sound.machine_reports fuel) ih
      -- the error of a reference without a schema is at the value itself
      constructor
      · intro s r hs hr v hv
        refine hc.target_ensures (fun t ht => ?_) (.atRoot trivial)
        have htN := h.leads s t hs (World.leads_of_target hr ht)
        exact Schema.parseOn_ensures hc htN
          ((hplanned t htN v hv).1.alongside (Kind.mem_alongside_of_target hr ht))
      · intro s r hs hr v hv
        refine hc.target_ensures (fun t ht => ?_) (.atRoot trivial)
        have htN := h.leads s t hs (World.leads_of_target hr ht)
        exact Schema.stageOn_ensures hc htN
          ((hplanned t htN v hv).2.alongside (Kind.mem_alongside_of_target hr ht))

/-- **An error of a parse blames what is there.** -/
theorem parse_blames (h : w₀.InOwnWords nodes N) (hplace : ∀ s, N s → s.kind.ReadsInPlace)
    (fuel : Nat) (hs : N s) (hv : v.WellFormed) :
    Ensures (w₀.Later nodes) (s.parse fuel v) (OnError fun e => e.Blames w₀ .parsing s v) :=
  Schema.parseOn_ensures h.compiles hs
    (h.planned_blames hplace (h.sound.machine_reports fuel) (h.machine_follows hplace fuel) s hs v
      hv).1

/-- **An error of a parse that waits blames what is there**, whenever it comes. -/
theorem parseAsync_blames (h : w₀.InOwnWords nodes N) (hplace : ∀ s, N s → s.kind.ReadsInPlace)
    (fuel : Nat) (hs : N s) (hv : v.WellFormed) :
    Ensures (w₀.Later nodes) (s.parseAsync fuel v) (OnError fun e => e.Blames w₀ .parsing s v) := by
  have hm := h.sound.machine_reports fuel
  have hstage := Schema.stageOn_ensures h.compiles hs
    (h.planned_blames hplace hm (h.machine_follows hplace fuel) s hs v hv).2
  refine hstage.bind fun outcome houtcome => ?_
  cases outcome with
  | error e => exact .pure houtcome
  | ok staged => exact Task.drive_failsOnly hm fuel staged.toTask houtcome

/-! ### Serializing -/

/-- **Planned serialize operations blame what there is to blame.** -/
theorem serializePlan_blames (h : w₀.InOwnWords nodes N)
    (hplace : ∀ s, N s → s.kind.WritesInPlace ∧ s.kind.LiteralsRead)
    (hm : m.Reports (w₀.Later nodes) w₀)
    (href : ∀ s r, N s → s.kind = .recursive r → ∀ v,
      Ensures (w₀.Later nodes) (m.serialize r v) (OnError fun e => e.Blames w₀ .serializing s v)) :
    ∀ s, N s → ∀ v,
      RunBlames (w₀.Later nodes) m w₀ .serializing (w₀.serializePlan s).operation s v := by
  refine h.toRegion.induction fun s hs ih => ?_
  intro v
  have hmem := h.member s hs
  obtain ⟨w₁, o, -, -, -, hplan⟩ := h.sound.serializePlan_shape h.shaped (.refl w₀) hmem
  rw [hplan]
  refine Kind.serializer_blames hm (h.sound.hosts.formed s hmem) (h.plain s hs)
    (hplace s hs).1 (hplace s hs).2 ih (fun t ht l hl => ?_) fun r hr => href s r hs hr v
  -- a literal below has the operation of a literal
  have htmem := (h.sound.hosts.below s hmem t ht).1
  obtain ⟨w₂, o₂, -, -, -, hliteral⟩ := h.sound.serializePlan_shape h.shaped (.refl w₀) htmem
  rw [hliteral, hl]
  rfl

/-- **References blame what there is to blame** when they are serialized, with any fuel. -/
theorem machine_serialize_blames (h : w₀.InOwnWords nodes N)
    (hplace : ∀ s, N s → s.kind.WritesInPlace ∧ s.kind.LiteralsRead) :
    ∀ fuel s r, N s → s.kind = .recursive r → ∀ v,
      Ensures (w₀.Later nodes) ((machine fuel).serialize r v)
        (OnError fun e => e.Blames w₀ .serializing s v)
  | 0, _, _, _, _, _ => .halt _
  | fuel + 1, s, r, hs, hr, v => by
      have hc := h.compiles
      have hplanned := h.serializePlan_blames hplace (h.sound.machine_reports fuel)
        (h.machine_serialize_blames hplace fuel)
      refine hc.target_ensures (fun t ht => ?_) (.atRoot trivial)
      have htN := h.leads s t hs (World.leads_of_target hr ht)
      exact Schema.serializeOn_ensures hc htN
        ((hplanned t htN v).alongside (Kind.mem_alongside_of_target hr ht))

/-- **An error of a serialization blames what is there.** -/
theorem serialize_blames (h : w₀.InOwnWords nodes N)
    (hplace : ∀ s, N s → s.kind.WritesInPlace ∧ s.kind.LiteralsRead) (fuel : Nat) (hs : N s)
    (v : Value) :
    Ensures (w₀.Later nodes) (s.serialize fuel v)
      (OnError fun e => e.Blames w₀ .serializing s v) :=
  Schema.serializeOn_ensures h.compiles hs
    (h.serializePlan_blames hplace (h.sound.machine_reports fuel)
      (h.machine_serialize_blames hplace fuel) s hs v)

end World.InOwnWords

end

namespace Scene

/-- **Every error points at what is to blame.**  In every scene that a history leads to, below a
schema whose functions fail in their own words: the error of a parse, at once or later, has a path
that leads into the input and blames what is found there, if no documents are read from strings and
no functions come before parsing; and so has the error of a serialization, if no functions come
before serializing.  All errors, those inside the errors of unions too, are marked with the
direction. -/
theorem Reachable.errors_blame {σ : Scene} (h : σ.Reachable) {s : Schema} (hs : s ∈ σ.nodes)
    (hplain : ∀ t, σ.world.Reaches s t → t.kind.FailsPlainly σ.world) :
    ((∀ t, σ.world.Reaches s t → t.kind.ReadsInPlace) → ∀ fuel v e w, v.WellFormed →
      (s.parse fuel v σ.world = .ok (.error e, w) → e.Blames σ.world .parsing s v) ∧
      (s.parseAsync fuel v σ.world = .ok (.error e, w) → e.Blames σ.world .parsing s v)) ∧
    ((∀ t, σ.world.Reaches s t → t.kind.WritesInPlace ∧ t.kind.LiteralsRead) → ∀ fuel v e w,
      s.serialize fuel v σ.world = .ok (.error e, w) → e.Blames σ.world .serializing s v) := by
  have hwords : σ.world.InOwnWords σ.nodes (σ.world.Reaches s) :=
    ⟨h.region hs, hplain⟩
  have hnow : σ.world.Later σ.nodes σ.world := h.sound.later
  constructor
  · intro hplace fuel v e w hv
    constructor
    · intro hparse
      exact (hwords.parse_blames hplace fuel .refl hv _ _ _ hnow hparse).2
    · intro hparse
      exact (hwords.parseAsync_blames hplace fuel .refl hv _ _ _ hnow hparse).2
  · intro hplace fuel v e w hserialize
    exact (hwords.serialize_blames hplace fuel .refl v _ _ _ hnow hserialize).2

/-! ### Labels -/

/-- The one label there is. -/
def label : Schema := .node 0 (.literal (.string "a")) Metadata.empty none

/-- Labels. -/
def labels : Schema := .node 1 (.array label) Metadata.empty none

/-- A function that takes nothing but true. -/
def confirm : Action := .compute fun
  | .bool true => .ok (.bool true)
  | _ => .error (.message "not confirmed")

/-- A leaf that takes nothing but true. -/
def confirmation : Schema :=
  .node 2 (.custom "confirmation" ⟨some (.direct confirm), some confirm⟩) Metadata.empty none

/-- Something with labels that is confirmed. -/
def labelled : Schema :=
  .node 3 (.object [("confirmed", confirmation), ("labels", labels)] none) Metadata.empty none

/-- The scene of the labels. -/
def labelledThings : Scene := ⟨made 4 0, [labelled, confirmation, labels, label]⟩

theorem labelledThings_reachable : labelledThings.Reachable := by
  have h₁ : Step .building initial ⟨made 1 0, [label]⟩ :=
    .made (fun t ht => by cases ht) (by trivial)
  have h₂ : Step .building ⟨made 1 0, [label]⟩ ⟨made 2 0, [labels, label]⟩ :=
    .made (fun t ht => by simp_all [Kind.children]) (by trivial)
  have h₃ : Step .building ⟨made 2 0, [labels, label]⟩
      ⟨made 3 0, [confirmation, labels, label]⟩ :=
    .made (fun t ht => by cases ht) (by trivial)
  have h₄ : Step .building ⟨made 3 0, [confirmation, labels, label]⟩ labelledThings := by
    refine .made (fun t ht => ?_) (by simp [Kind.Formed, Entries.keys])
    simp only [Kind.children, List.map_cons, List.map_nil, List.mem_cons, List.not_mem_nil,
      or_false] at ht
    rcases ht with rfl | rfl <;> simp
  exact .tail (.tail (.tail (.single ⟨_, h₁⟩) ⟨_, h₂⟩) ⟨_, h₃⟩) ⟨_, h₄⟩

theorem confirm_failsPlainly (w : World) : confirm.FailsPlainly w := by
  refine Action.compute_failsPlainly fun v e h => ?_
  split at h
  · cases h
  · cases h
    exact ⟨_, rfl⟩

theorem labelled_kinds (t : Schema) (h : labelledThings.world.Reaches labelled t) :
    t.kind.FailsPlainly labelledThings.world ∧ t.kind.ReadsInPlace ∧ t.kind.WritesInPlace ∧
      t.kind.LiteralsRead := by
  have ht : t ∈ [labelled, confirmation, labels, label] :=
    labelledThings_reachable.sound.hosts.reaches (List.mem_cons_self ..) h
  simp only [List.mem_cons, List.not_mem_nil, or_false] at ht
  rcases ht with rfl | rfl | rfl | rfl
  · exact ⟨trivial, trivial, trivial, trivial⟩
  · refine ⟨⟨fun f hf => ?_, fun f hf => ?_, fun f hf => ?_⟩, trivial, trivial, trivial⟩
    · cases hf
      exact confirm_failsPlainly _
    · cases hf
    · cases hf
      exact confirm_failsPlainly _
  · exact ⟨trivial, trivial, trivial, trivial⟩
  · exact ⟨trivial, trivial, trivial, .string "a", trivial, rfl⟩

/-- A value with a label and something that is none. -/
def mislabelled : Value :=
  .object [("labels", .array [.string "a", .bool true]), ("confirmed", .bool true)]

/-- The error for it. -/
def mislabelledError (direction : Direction) : Error :=
  ((literalError direction (.string "a") (.bool true)).prepend (.index 1)).prepend (.key "labels")

/-- The item that is no label is blamed in both directions, now and later. -/
theorem errors_blame_labels :
    (mislabelledError .parsing).Blames labelledThings.world .parsing labelled mislabelled ∧
    (mislabelledError .serializing).Blames labelledThings.world .serializing labelled
      mislabelled ∧
    (∃ w, labelled.parse 1 mislabelled labelledThings.world =
      .ok (.error (mislabelledError .parsing), w)) ∧
    (∃ w, labelled.parseAsync 1 mislabelled labelledThings.world =
      .ok (.error (mislabelledError .parsing), w)) ∧
    ∃ w, labelled.serialize 1 mislabelled labelledThings.world =
      .ok (.error (mislabelledError .serializing), w) := by
  have hboth := labelledThings_reachable.errors_blame (s := labelled) (List.mem_cons_self ..)
    fun t ht => (labelled_kinds t ht).1
  have hparse : ∃ w, labelled.parse 1 mislabelled labelledThings.world =
      .ok (.error (mislabelledError .parsing), w) := ⟨_, rfl⟩
  have hparseAsync : ∃ w, labelled.parseAsync 1 mislabelled labelledThings.world =
      .ok (.error (mislabelledError .parsing), w) := ⟨_, rfl⟩
  have hserialize : ∃ w, labelled.serialize 1 mislabelled labelledThings.world =
      .ok (.error (mislabelledError .serializing), w) := ⟨_, rfl⟩
  have hv : mislabelled.WellFormed := by
    simp [mislabelled, Value.WellFormed, Entries.keys, Value.WellFormedItems,
      Value.WellFormedEntries]
  refine ⟨?_, ?_, hparse, hparseAsync, hserialize⟩
  · obtain ⟨w, hw⟩ := hparse
    exact (hboth.1 (fun t ht => (labelled_kinds t ht).2.1) 1 mislabelled _ w hv).1 hw
  · obtain ⟨w, hw⟩ := hserialize
    exact hboth.2 (fun t ht => (labelled_kinds t ht).2.2) 1 mislabelled _ w hw

end Scene

end Schemata
