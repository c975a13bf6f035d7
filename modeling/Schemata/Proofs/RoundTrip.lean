/-
**What is parsed can be written and read back.**

Parsing and serializing are compiled apart, and serializing skips whatever would change nothing.
For schemas that lose nothing the two still fit together: what parsing gives, serializing writes as
something that parsing reads as the very same value.

The one place where this fails by itself is absence.  Null stands for nothing in an option, so a
value inside that is not null must not be written as null.

Main definitions:

* `Schemata.RoundTrips` — two operations that fit together;
* `Schemata.World.Passes` — a value that is parsed, and what is written for it;
* `Schemata.Kind.Lossless` — kinds that lose nothing.

Main results:

* `Schemata.planned_roundTrips` — planned operations fit together;
* `Schemata.Scene.Reachable.parse_serialize_parse` — **the round trip**.
-/

import Schemata.Proofs.Children
import Schemata.Proofs.Literals

set_option relaxedAutoImplicit false
set_option autoImplicit false

namespace Schemata

variable {W : World → Prop} {w : World} {m : Machine}

/-! ### Pairs of operations -/

/-- **The second operation writes what the first one gives, and the first one reads it back.** -/
def RoundTrips (W : World → Prop) (m : Machine) (p q : Operation) : Prop :=
  ∀ v t, Gives W (p.run m v) (.ok t) →
    ∃ u, Gives W (q.run m t) (.ok u) ∧ Gives W (p.run m u) (.ok t)

theorem Scalar.never_read? (v : Value) : Scalar.never.read? v = none := by
  cases v <;> rfl

theorem Scalar.read?_read? {kind : Scalar} {v a : Value} (h : kind.read? v = some a) :
    kind.read? a = some a := by
  cases kind with
  | never =>
      rw [Scalar.never_read?] at h
      cases h
  | unit | string | bool | float =>
      cases v <;> cases h
      rfl
  | int =>
      obtain ⟨i, hi, rfl⟩ := Option.map_eq_some_iff.1 h
      have hfits : fits32 i = true := by
        rcases v with _ | _ | (j | x) | _ | _ | _
        any_goals cases hi
        · simp only [Value.int32?] at hi
          split at hi
          · cases hi
            assumption
          · cases hi
        · simp only [Value.int32?, Binary64.int32?] at hi
          split at hi
          · rename_i hx
            cases hi
            exact (Bool.and_eq_true_iff.1 hx).2
          · cases hi
      simp [Scalar.read?, Value.ofInt, Value.int32?, hfits]

namespace RoundTrips

variable {p q : Operation}

/-- What never succeeds leaves nothing to write. -/
theorem fail (hw : W w) (e : Error) (q : Operation) : RoundTrips W m (.fail e) q := by
  intro v t h
  cases h.of_pure hw

theorem noop (hw : W w) : RoundTrips W m .noop .noop := by
  intro v t h
  cases h.of_pure hw
  exact ⟨v, .pure _, .pure _⟩

theorem scalar_gives {kind : Scalar} {direction : Direction} {expected : Thunk String} {v t : Value}
    (h : Gives W ((Operation.scalar kind direction expected).run m v) (.ok t)) (hw : W w) :
    kind.read? v = some t := by
  simp only [Operation.run] at h
  cases hread : kind.read? v with
  | none =>
      rw [hread] at h
      cases h.of_pure hw
  | some a =>
      rw [hread] at h
      cases h.of_pure hw
      rfl

/-- A scalar is written as it is. -/
theorem scalar (hw : W w) (kind : Scalar) (expected : Thunk String) :
    RoundTrips W m (.scalar kind .parsing expected) .noop := by
  intro v t h
  refine ⟨t, .pure _, ?_⟩
  simp only [Operation.run, Scalar.read?_read? (scalar_gives h hw)]
  exact .pure _

theorem never (hw : W w) (expected : Thunk String) (q : Operation) :
    RoundTrips W m (.scalar .never .parsing expected) q := by
  intro v t h
  have hread := scalar_gives h hw
  rw [Scalar.never_read?] at hread
  cases hread

theorem literal_gives {direction : Direction} {l : Literal} {v t : Value}
    (h : Gives W ((Operation.literal direction l).run m v) (.ok t)) (hw : W w) :
    t = v ∧ l.accepts v = true := by
  simp only [Operation.run] at h
  split at h
  · rename_i haccepts
    cases h.of_pure hw
    exact ⟨rfl, haccepts⟩
  · cases h.of_pure hw

theorem literal_accepted {l : Literal} {v : Value} (h : l.accepts v = true)
    (direction : Direction) : Gives W ((Operation.literal direction l).run m v) (.ok v) := by
  simp only [Operation.run, h, if_true]
  exact .pure _

theorem literal (hw : W w) (l : Literal) :
    RoundTrips W m (.literal .parsing l) (.literal .serializing l) := by
  intro v t h
  obtain ⟨rfl, haccepts⟩ := literal_gives h hw
  exact ⟨t, literal_accepted haccepts _, literal_accepted haccepts _⟩

/-! ### Composites -/

/-- **The shortcut for operations that do nothing**: what would be written is then the value
itself. -/
theorem unlessAllNoop (h : RoundTrips W m p q) {ops : List Operation}
    (hidle : ops.all Operation.isNoop = true → ∀ v t u, Gives W (p.run m v) (.ok t) →
      Gives W (q.run m t) (.ok u) → u = t) :
    RoundTrips W m p (unlessAllNoop ops q) := by
  intro v t hv
  obtain ⟨u, hu, hback⟩ := h v t hv
  rw [Schemata.unlessAllNoop]
  split
  · rename_i hall
    have hsame := hidle hall v t u hv hu
    rw [hsame] at hback
    exact ⟨t, .pure _, hback⟩
  · exact ⟨u, hu, hback⟩

/-- Items that are written one by one, and read back. -/
theorem each (h : RoundTrips W m p q) {vs ts : List Value}
    (hvs : List.Forall₂ (fun c t => Gives W c (.ok t)) (vs.map (p.run m)) ts) :
    ∃ us, List.Forall₂ (fun c u => Gives W c (.ok u)) (ts.map (q.run m)) us ∧
      List.Forall₂ (fun c t => Gives W c (.ok t)) (us.map (p.run m)) ts := by
  rw [List.forall₂_map_left_iff] at hvs
  induction hvs with
  | nil => exact ⟨[], .nil, .nil⟩
  | cons hv _ ih =>
      obtain ⟨u, hu, hback⟩ := h _ _ hv
      obtain ⟨us, hus, hbacks⟩ := ih
      exact ⟨u :: us, .cons hu hus, .cons hback hbacks⟩

/-- Items that nothing is done to. -/
theorem each_idle (hw : W w) {ts us : List Value}
    (h : List.Forall₂ (fun c u => Gives W c (.ok u)) (ts.map (Operation.noop.run m)) us) :
    us = ts := by
  rw [List.forall₂_map_left_iff] at h
  induction h with
  | nil => rfl
  | cons hu _ ih =>
      cases hu.of_pure hw
      rw [ih]

theorem array_gives_iff {op : Operation} (hw : W w) (hop : Runs W m op) {direction : Direction}
    {expected : Thunk String} {v t : Value} :
    Gives W ((Operation.array direction expected op).run m v) (.ok t) ↔
      ∃ vs ts, v = .array vs ∧ t = .array ts ∧
        List.Forall₂ (fun c t => Gives W c (.ok t)) (vs.map (op.run m)) ts := by
  have hsteady : ∀ vs : List Value, ∀ c ∈ indexed (vs.map (op.run m)), Steady W c.2 := by
    intro vs c hc
    have hc := List.mem_map_of_mem (f := Prod.snd) hc
    rw [map_snd_indexed] at hc
    obtain ⟨a, -, ha⟩ := List.mem_map.1 hc
    exact ha ▸ hop a
  constructor
  · intro h
    cases v with
    | array vs =>
        obtain ⟨ts, hts, h⟩ := Gives.of_attempt h hw (runEach_steady (hsteady vs))
          (fun a => .pure _) (fun e => ⟨_, rfl⟩)
        cases h.of_pure hw
        rw [runEach_gives_iff hw (hsteady vs), map_snd_indexed] at hts
        exact ⟨vs, ts, rfl, rfl, hts⟩
    | _ => cases h.of_pure hw
  · rintro ⟨vs, ts, rfl, rfl, hts⟩
    rw [← map_snd_indexed (vs.map (op.run m)), ← runEach_gives_iff hw (hsteady vs)] at hts
    exact hts.bind (.pure _)

/-- **Arrays.** -/
theorem array (hw : W w) (hp : Runs W m p) (hq : Runs W m q) (h : RoundTrips W m p q)
    (expected expected' : Thunk String) :
    RoundTrips W m (.array .parsing expected p)
      (Schemata.unlessAllNoop [q] (.array .serializing expected' q)) := by
  refine unlessAllNoop ?_ ?_
  · intro v t hv
    obtain ⟨vs, ts, rfl, rfl, hvs⟩ := (array_gives_iff hw hp).1 hv
    obtain ⟨us, hus, hback⟩ := h.each hvs
    exact ⟨.array us, (array_gives_iff hw hq).2 ⟨ts, us, rfl, rfl, hus⟩,
      (array_gives_iff hw hp).2 ⟨us, ts, rfl, rfl, hback⟩⟩
  · intro hidle v t u hv hu
    obtain ⟨ts, us, rfl, rfl, hus⟩ := (array_gives_iff hw hq).1 hu
    have hnoop : q = .noop := Operation.eq_noop_of_isNoop (by simpa using hidle)
    rw [hnoop] at hus
    rw [each_idle hw hus]

theorem dict_gives_iff {op : Operation} (hw : W w) (hop : Runs W m op) {direction : Direction}
    {expected : Thunk String} {v t : Value} :
    Gives W ((Operation.dict direction expected op).run m v) (.ok t) ↔
      ∃ entries ts, v = .object entries ∧ t = .object ((Entries.keys entries).zip ts) ∧
        List.Forall₂ (fun c t => Gives W c (.ok t))
          ((entries.map Prod.snd).map (op.run m)) ts := by
  have hsteady : ∀ entries : List (String × Value),
      ∀ c ∈ keyed (entries.map fun e => (e.1, op.run m e.2)), Steady W c.2 := by
    intro entries c hc
    have hc := List.mem_map_of_mem (f := Prod.snd) hc
    rw [map_snd_keyed, List.map_map] at hc
    obtain ⟨e, -, he⟩ := List.mem_map.1 hc
    exact he ▸ hop e.2
  have hvalues : ∀ entries : List (String × Value),
      (keyed (entries.map fun e => (e.1, op.run m e.2))).map Prod.snd =
        (entries.map Prod.snd).map (op.run m) := by
    intro entries
    rw [map_snd_keyed, List.map_map, List.map_map]
    rfl
  constructor
  · intro h
    cases v with
    | object entries =>
        obtain ⟨ts, hts, h⟩ := Gives.of_attempt h hw (runEach_steady (hsteady entries))
          (fun a => .pure _) (fun e => ⟨_, rfl⟩)
        cases h.of_pure hw
        rw [runEach_gives_iff hw (hsteady entries), hvalues] at hts
        exact ⟨entries, ts, rfl, rfl, hts⟩
    | _ => cases h.of_pure hw
  · rintro ⟨entries, ts, rfl, rfl, hts⟩
    rw [← hvalues, ← runEach_gives_iff hw (hsteady entries)] at hts
    exact hts.bind (.pure _)

/-- **Dictionaries.** -/
theorem dict (hw : W w) (hp : Runs W m p) (hq : Runs W m q) (h : RoundTrips W m p q)
    (expected expected' : Thunk String) :
    RoundTrips W m (.dict .parsing expected p)
      (Schemata.unlessAllNoop [q] (.dict .serializing expected' q)) := by
  refine unlessAllNoop ?_ ?_
  · intro v t hv
    obtain ⟨entries, ts, rfl, rfl, hvs⟩ := (dict_gives_iff hw hp).1 hv
    obtain ⟨us, hus, hback⟩ := h.each hvs
    have hts : (Entries.keys entries).length = ts.length := by
      simpa [Entries.keys] using hvs.length_eq
    have hlength : (Entries.keys entries).length = us.length := by
      simpa [hts] using hus.length_eq
    have hkeys : Entries.keys ((Entries.keys entries).zip ts) = Entries.keys entries :=
      List.map_fst_zip hts.le
    have hkeys' : Entries.keys ((Entries.keys entries).zip us) = Entries.keys entries :=
      List.map_fst_zip hlength.le
    refine ⟨.object ((Entries.keys entries).zip us), (dict_gives_iff hw hq).2 ?_,
      (dict_gives_iff hw hp).2 ?_⟩
    · refine ⟨_, us, rfl, by rw [hkeys], ?_⟩
      rwa [List.map_snd_zip hts.ge]
    · refine ⟨_, ts, rfl, by rw [hkeys'], ?_⟩
      rwa [List.map_snd_zip hlength.ge]
  · intro hidle v t u hv hu
    obtain ⟨entries, us, rfl, rfl, hus⟩ := (dict_gives_iff hw hq).1 hu
    have hnoop : q = .noop := Operation.eq_noop_of_isNoop (by simpa using hidle)
    rw [hnoop] at hus
    rw [each_idle hw hus, Entries.keys, ← List.zip_of_prod rfl rfl]

theorem tuple_gives_iff {ops : List Operation} (hw : W w) (hops : ∀ op ∈ ops, Runs W m op)
    {direction : Direction} {expected : Thunk String} {v t : Value} :
    Gives W ((Operation.tuple direction expected ops).run m v) (.ok t) ↔
      ∃ vs ts, v = .array vs ∧ t = .array ts ∧ ops.length = vs.length ∧
        List.Forall₂ (fun c t => Gives W c (.ok t)) (ops.zipWith (fun op v => op.run m v) vs) ts := by
  have hchildren : ∀ vs : List Value, (runners m ops).zipWith (fun run v => run v) vs =
      ops.zipWith (fun op v => op.run m v) vs := by
    intro vs
    rw [runners_eq_map, List.zipWith_map_left]
  have hsteady : ∀ vs : List Value,
      ∀ c ∈ indexed (ops.zipWith (fun op v => op.run m v) vs), Steady W c.2 := by
    intro vs c hc
    have hc := List.mem_map_of_mem (f := Prod.snd) hc
    rw [map_snd_indexed] at hc
    obtain ⟨i, hi, hget⟩ := List.mem_iff_getElem.1 hc
    rw [List.getElem_zipWith] at hget
    rw [← hget]
    exact hops _ (List.getElem_mem _) _
  constructor
  · intro h
    cases v with
    | array vs =>
        simp only [Operation.run, sizeError?, hchildren] at h
        by_cases hsize : ops.length = vs.length
        · rw [if_pos hsize] at h
          obtain ⟨ts, hts, h⟩ := Gives.of_attempt h hw (runEach_steady (hsteady vs))
            (fun a => .pure _) (fun e => ⟨_, rfl⟩)
          cases h.of_pure hw
          rw [runEach_gives_iff hw (hsteady vs), map_snd_indexed] at hts
          exact ⟨vs, ts, rfl, rfl, hsize, hts⟩
        · rw [if_neg hsize] at h
          cases h.of_pure hw
    | _ => cases h.of_pure hw
  · rintro ⟨vs, ts, rfl, rfl, hsize, hts⟩
    simp only [Operation.run, sizeError?, hchildren, if_pos hsize]
    rw [← map_snd_indexed (ops.zipWith _ vs), ← runEach_gives_iff hw (hsteady vs)] at hts
    exact hts.bind (.pure _)

section

variable {items : List Schema} {P Q : Schema → Operation}

/-- Items under operations of their own, written one by one and read back. -/
theorem eachOf (h : ∀ s ∈ items, RoundTrips W m (P s) (Q s)) {vs ts : List Value}
    (hsize : items.length = vs.length)
    (hvs : List.Forall₂ (fun c t => Gives W c (.ok t))
      ((items.map P).zipWith (fun op v => op.run m v) vs) ts) :
    ∃ us, items.length = us.length ∧
      List.Forall₂ (fun c u => Gives W c (.ok u))
        ((items.map Q).zipWith (fun op v => op.run m v) ts) us ∧
      List.Forall₂ (fun c t => Gives W c (.ok t))
        ((items.map P).zipWith (fun op v => op.run m v) us) ts := by
  induction items generalizing vs ts with
  | nil =>
      cases hvs
      exact ⟨[], rfl, .nil, .nil⟩
  | cons s rest ih =>
      cases vs with
      | nil => cases hsize
      | cons v vs =>
          cases hvs with
          | cons hv hvs =>
              obtain ⟨u, hu, hback⟩ := h s (List.mem_cons_self ..) v _ hv
              obtain ⟨us, hlength, hus, hbacks⟩ :=
                ih (fun t ht => h t (List.mem_cons_of_mem _ ht)) (Nat.succ.inj hsize) hvs
              exact ⟨u :: us, congrArg Nat.succ hlength, .cons hu hus, .cons hback hbacks⟩

/-- Items that nothing is done to. -/
theorem eachOf_idle (hw : W w) {ops : List Operation} (hidle : ops.all Operation.isNoop = true)
    {ts us : List Value} (hsize : ops.length = ts.length)
    (h : List.Forall₂ (fun c u => Gives W c (.ok u)) (ops.zipWith (fun op v => op.run m v) ts) us) :
    us = ts := by
  induction ops generalizing ts us with
  | nil =>
      cases h
      exact (List.eq_nil_of_length_eq_zero hsize.symm).symm
  | cons op rest ih =>
      obtain ⟨hop, hrest⟩ := Bool.and_eq_true_iff.1 hidle
      cases ts with
      | nil => cases hsize
      | cons t ts =>
          cases h with
          | cons hu hus =>
              rw [Operation.eq_noop_of_isNoop hop] at hu
              cases hu.of_pure hw
              rw [ih hrest (Nat.succ.inj hsize) hus]

/-- **Tuples.** -/
theorem tuple (hw : W w) (hp : ∀ s ∈ items, Runs W m (P s)) (hq : ∀ s ∈ items, Runs W m (Q s))
    (h : ∀ s ∈ items, RoundTrips W m (P s) (Q s)) (expected expected' : Thunk String) :
    RoundTrips W m (.tuple .parsing expected (items.map P))
      (Schemata.unlessAllNoop (items.map Q) (.tuple .serializing expected' (items.map Q))) := by
  have hps : ∀ op ∈ items.map P, Runs W m op := List.forall_mem_map.2 hp
  have hqs : ∀ op ∈ items.map Q, Runs W m op := List.forall_mem_map.2 hq
  refine unlessAllNoop ?_ ?_
  · intro v t hv
    obtain ⟨vs, ts, rfl, rfl, hsize, hvs⟩ := (tuple_gives_iff hw hps).1 hv
    rw [List.length_map] at hsize
    have hlength : items.length = ts.length := by
      simpa [hsize] using hvs.length_eq
    obtain ⟨us, hsize', hus, hback⟩ := eachOf h hsize hvs
    exact ⟨.array us,
      (tuple_gives_iff hw hqs).2 ⟨ts, us, rfl, rfl, by rwa [List.length_map], hus⟩,
      (tuple_gives_iff hw hps).2 ⟨us, ts, rfl, rfl, by rwa [List.length_map], hback⟩⟩
  · intro hidle v t u hv hu
    obtain ⟨ts, us, rfl, rfl, hsize, hus⟩ := (tuple_gives_iff hw hqs).1 hu
    rw [eachOf_idle hw hidle hsize hus]

/-! ### Objects -/

variable {fields : List (String × Schema)}

theorem parseObject_gives {runners : List (String × Operation)} (hw : W w)
    (hfields : ∀ f ∈ runners, Runs W m f.2) {expected : Thunk String} {policy : UnknownKeys}
    {v t : Value} (h : Gives W ((Operation.parseObject expected runners policy).run m v) (.ok t)) :
    ∃ entries left es, v = .object entries ∧ t = .object es ∧
      Gives W (runFields (fieldRunners m runners) entries) (.ok (es, left)) := by
  cases v with
  | object entries =>
      have hsteady : Steady W (runFields (fieldRunners m runners) entries) := by
        refine runFields_steady ?_ entries
        rw [fieldRunners_eq_map]
        exact List.forall_mem_map.2 hfields
      obtain ⟨⟨es, left⟩, hes, h⟩ := Gives.of_attempt h hw hsteady
        (fun a => by dsimp only; split <;> exact .pure _) (fun e => ⟨_, rfl⟩)
      dsimp only at h
      split at h
      · cases h.of_pure hw
      · cases h.of_pure hw
        exact ⟨entries, left, es, rfl, rfl, hes⟩
  | _ => cases h.of_pure hw

/-- What is parsed as an object has the declared fields in order, each with a value that its own
operation has given. -/
theorem parseObject_taken (hw : W w) (hp : ∀ f ∈ fields, Runs W m (P f.2)) {expected : Thunk String}
    {policy : UnknownKeys} {v t : Value} (h : Gives W ((Operation.parseObject expected
      (fields.map fun f => (f.1, P f.2)) policy).run m v) (.ok t)) :
    ∃ es, t = .object es ∧
      List.Forall₂ (fun f e => f.1 = e.1 ∧ ∃ x, Gives W ((P f.2).run m x) (.ok e.2)) fields es := by
  obtain ⟨entries, left, es, -, rfl, hes⟩ := parseObject_gives hw (List.forall_mem_map.2 hp) h
  rw [fieldRunners_map] at hes
  have hsteady : ∀ f ∈ fields.map fun f => (f.1, (P f.2).run m), ∀ v, Steady W (f.2 v) :=
    List.forall_mem_map.2 hp
  have htaken := runFields_taken hw hsteady hes
  rw [List.forall₂_map_left_iff] at htaken
  exact ⟨es, rfl, htaken⟩

/-- Whatever restores the fields is read back as the value. -/
theorem parseObject_restored {us es : List (String × Value)} (hnames : (Entries.keys fields).Nodup)
    (h : Restores W (fields.map fun f => (f.1, (P f.2).run m)) us es) {expected : Thunk String}
    {policy : UnknownKeys} :
    Gives W ((Operation.parseObject expected (fields.map fun f => (f.1, P f.2)) policy).run m
      (.object us)) (.ok (.object es)) := by
  have hentries : (Entries.keys us).Nodup := by
    refine List.Nodup.sublist h.keys_sublist ?_
    rwa [Entries.keys_map]
  have hread := h.runFields (by rwa [Entries.keys_map]) hentries fun _ _ => Iff.rfl
  simp only [Operation.run, fieldRunners_map]
  refine hread.bind ?_
  cases policy <;> exact .pure _

/-- **Objects**: missing fields read back null. -/
theorem object (hw : W w) (hnames : (Entries.keys fields).Nodup)
    (hp : ∀ f ∈ fields, Runs W m (P f.2)) (h : ∀ f ∈ fields, RoundTrips W m (P f.2) (Q f.2))
    {omitted : List String}
    (homitted : ∀ f ∈ fields, f.1 ∈ omitted → ∀ x a, Gives W ((P f.2).run m x) (.ok a) →
      Gives W ((P f.2).run m .null) (.ok .null))
    (expected expected' : Thunk String) (policy : UnknownKeys) :
    RoundTrips W m (.parseObject expected (fields.map fun f => (f.1, P f.2)) policy)
      (objectSerializer expected' (fields.map fun f => (f.1, Q f.2)) omitted) := by
  intro v t hv
  obtain ⟨es, rfl, htaken⟩ := parseObject_taken hw hp hv
  have hkeys : Entries.keys es = Entries.keys fields := Entries.keys_eq_of_forall₂ htaken
  have hdistinct : (Entries.keys es).Nodup := hkeys ▸ hnames
  have hfind : ∀ e ∈ es, Entries.find? e.1 es = some e.2 :=
    fun e he => (Entries.find?_eq_some_iff hdistinct).2 he
  obtain ⟨us, hus, hrestores⟩ := runPresentFields_restores (p := fun s => (P s).run m)
    (q := fun s => (Q s).run m) (fun f hf => h f hf) homitted htaken hfind
  rw [objectSerializer]
  split
  · rename_i hidle
    obtain ⟨hnone, hnoop⟩ := Bool.and_eq_true_iff.1 hidle
    refine ⟨.object es, .pure _, parseObject_restored hnames ?_⟩
    refine Restores.refl (p := fun s => (P s).run m) (fun f hf x a hx => ?_) htaken
    obtain ⟨u, hu, hback⟩ := h f hf x a hx
    have hnoop : Q f.2 = .noop :=
      Operation.eq_noop_of_isNoop (List.all_eq_true.1 hnoop (f.1, Q f.2) (List.mem_map_of_mem hf))
    rw [hnoop] at hu
    cases hu.of_pure hw
    exact hback
  · refine ⟨.object us, ?_, parseObject_restored hnames hrestores⟩
    simp only [Operation.run, fieldRunners_map]
    exact hus.bind (.pure _)

end

/-! ### Absence and documents -/

/-- **Options**: what is not null inside is not written as null. -/
theorem absentOr (hw : W w) (h : RoundTrips W m p q)
    (hnull : ∀ v t u, Gives W (p.run m v) (.ok t) → Gives W (q.run m t) (.ok u) →
      v ≠ .null → t ≠ .null → u ≠ .null) :
    RoundTrips W m (Schemata.absentOr p) (Schemata.absentOr q) := by
  intro v t hv
  have hread : ∀ op : Operation, Gives W ((Schemata.absentOr op).run m .null) (.ok .null) := by
    intro op
    rw [absentOr_run]
    exact .pure _
  by_cases hvnull : v = .null
  · subst hvnull
    cases hv.unique (hread p) hw
    exact ⟨.null, hread q, hread p⟩
  · by_cases htnull : t = .null
    · subst htnull
      exact ⟨.null, hread q, hread p⟩
    · rw [absentOr_run, unlessNull_run hvnull] at hv
      obtain ⟨u, hu, hback⟩ := h v t hv
      refine ⟨u, ?_, ?_⟩
      · rwa [absentOr_run, unlessNull_run htnull]
      · rwa [absentOr_run, unlessNull_run (hnull v t u hv hu hvnull htnull)]

/-- **Documents inside strings**, when the text of what is written reads back. -/
theorem document (hw : W w) (h : RoundTrips W m p q)
    (htext : ∀ v t u, Gives W (p.run m v) (.ok t) → Gives W (q.run m t) (.ok u) →
      readText u.text = .ok u) (expected : Thunk String) :
    RoundTrips W m (.decodeText expected p) (.encodeText q) := by
  intro v t hv
  simp only [Operation.run] at hv
  split at hv
  · cases hv.of_pure hw
  · rename_i a ha
    obtain ⟨u, hu, hback⟩ := h a t hv
    refine ⟨.string u.text, hu.bind (.pure _), ?_⟩
    simp only [Operation.run, decodeDocument, htext a t u hv hu]
    exact hback

/-! ### User functions -/

theorem result_eq_ok_iff {direction : Direction} {f : Action} {x t : Value} :
    f.result direction x = .ok t ↔ f.outcome x = .ok t := by
  rw [Action.result]
  cases f.outcome x with
  | error e => constructor <;> intro h <;> cases h
  | ok a => exact ⟨fun h => by cases h; rfl, fun h => by cases h; rfl⟩

theorem apply_gives_iff {f : Action} (hw : W w) (hf : f.Pure) {direction : Direction}
    {x t : Value} :
    Gives W (f.runAs m direction x) (.ok t) ↔ f.outcome x = .ok t := by
  rw [Action.runAs_pure m hf]
  exact ⟨fun h => result_eq_ok_iff.1 (h.of_pure hw),
    fun h => (result_eq_ok_iff.2 h : f.result direction x = .ok t) ▸ .pure _⟩

theorem runAs_steady {f : Action} (hf : f.Pure) (direction : Direction) (x : Value) :
    Steady W (f.runAs m direction x) := by
  rw [Action.runAs_pure m hf]
  exact .pure _

theorem checked_gives_iff {test : Test} (hw : W w) (htest : test.Pure) {direction : Direction}
    {message : String} {x t : Value} :
    Gives W (checked direction message test x) (.ok t) ↔ t = x ∧ test.outcome x = true := by
  rw [checked_pure htest, Test.result]
  constructor
  · intro h
    have h := h.of_pure hw
    split at h
    · cases h
      exact ⟨rfl, by assumption⟩
    · cases h
  · rintro ⟨rfl, hholds⟩
    rw [if_pos hholds]
    exact .pure _

section

variable {f g : Action}

/-- Leaves with functions of their own. -/
theorem apply (hw : W w) (hf : f.Pure) (hg : g.Pure)
    (hundo : ∀ x t, f.outcome x = .ok t → g.outcome t = .ok x) :
    RoundTrips W m (.apply .parsing f) (.apply .serializing g) := by
  intro v t hv
  have hout := (apply_gives_iff hw hf).1 hv
  exact ⟨v, (apply_gives_iff hw hg).2 (hundo v t hout), hv⟩

/-- Functions after parsing, undone before serializing. -/
theorem transform (hw : W w) (hp : Runs W m p) (h : RoundTrips W m p q) (hf : f.Pure)
    (hg : g.Pure) (hundo : ∀ x t, f.outcome x = .ok t → g.outcome t = .ok x) :
    RoundTrips W m (.thenApply .parsing p f) (.applyFirst .serializing g q) := by
  intro v t hv
  obtain ⟨x, hx, hout⟩ := Gives.of_attempt hv hw (hp v) (runAs_steady hf _) (fun e => ⟨_, rfl⟩)
  obtain ⟨u, hu, hback⟩ := h v x hx
  have hundone := hundo x t ((apply_gives_iff hw hf).1 hout)
  exact ⟨u, ((apply_gives_iff hw hg).2 hundone).bind hu, hback.bind hout⟩

/-- Functions before parsing, which undo those after serializing. -/
theorem preprocess (hw : W w) (hp : Runs W m p) (h : RoundTrips W m p q) (hf : f.Pure)
    (hg : g.Pure) (hundo : ∀ x, ∃ y, g.outcome x = .ok y ∧ f.outcome y = .ok x) :
    RoundTrips W m (.applyFirst .parsing f p) (.thenApply .serializing q g) := by
  intro v t hv
  obtain ⟨x, -, hx⟩ := Gives.of_attempt hv hw (runAs_steady hf _ v) hp (fun e => ⟨_, rfl⟩)
  obtain ⟨u, hu, hback⟩ := h x t hx
  obtain ⟨y, hy, hundone⟩ := hundo u
  exact ⟨y, hu.bind ((apply_gives_iff hw hg).2 hy),
    ((apply_gives_iff hw hf).2 hundone).bind hback⟩

/-- Tests of the parsed value. -/
theorem refine (hw : W w) (hp : Runs W m p) (h : RoundTrips W m p q) {test : Test}
    (htest : test.Pure) (message : String) :
    RoundTrips W m (.thenCheck message test p) (.checkFirst message test q) := by
  intro v t hv
  have hsteady : ∀ a, Steady W (checked .parsing message test a) := by
    intro a
    rw [checked_pure htest]
    exact .pure _
  obtain ⟨x, hx, hout⟩ := Gives.of_attempt hv hw (hp v) hsteady (fun e => ⟨_, rfl⟩)
  obtain ⟨rfl, hholds⟩ := (checked_gives_iff hw htest).1 hout
  obtain ⟨u, hu, hback⟩ := h v t hx
  exact ⟨u, ((checked_gives_iff hw htest).2 ⟨rfl, hholds⟩).bind hu, hback.bind hout⟩

/-- Literals exchanged for others: the base reads the outer one. -/
theorem variant (hw : W w) (hp : Runs W m p) (h : RoundTrips W m p q) {internal external : Literal}
    (hinternal : internal.accepts internal.toValue = true)
    (hexternal : ∀ x a, Gives W (p.run m x) (.ok a) →
      Gives W (p.run m external.toValue) (.ok external.toValue)) :
    RoundTrips W m (.thenConstant internal.toValue p)
      (.exchange internal external.toValue q) := by
  intro v t hv
  obtain ⟨a, ha, hout⟩ := Gives.of_attempt hv hw (hp v) (fun a => .pure _) (fun e => ⟨_, rfl⟩)
  cases hout.of_pure hw
  obtain ⟨u, hu, hback⟩ := h _ _ (hexternal v a ha)
  refine ⟨u, ?_, hback.bind (.pure _)⟩
  simp only [Operation.run, hinternal, if_true]
  exact hu

end

end RoundTrips

/-! ### Kinds -/

/-- The schema parses a value and writes what it got. -/
def World.Passes (w : World) (s : Schema) (v t u : Value) : Prop :=
  ∃ fuel w₁ w₂, s.parse fuel v w = .ok (.ok t, w₁) ∧ s.serialize fuel t w₁ = .ok (.ok u, w₂)

/-- The serializer undoes the parser. -/
def Handlers.Undone (h : Handlers) : Prop :=
  ∀ f, h.parser = some (.direct f) →
    ∃ g, h.serializer = some g ∧ ∀ x t, f.outcome x = .ok t → g.outcome t = .ok x

/-- The serializer always succeeds, and the parser undoes it. -/
def Handlers.Redone (h : Handlers) : Prop :=
  ∀ f, h.parser = some (.direct f) →
    ∃ g, h.serializer = some g ∧ ∀ x, ∃ y, g.outcome x = .ok y ∧ f.outcome y = .ok x

/-- The literal has been read from a value. -/
def Literal.IsRead (l : Literal) : Prop := ∃ v : Value, v.WellFormed ∧ l = .ofValue v

/-- What the effect does can be undone. -/
def Effect.Invertible : Effect → Prop
  | .transform h => h.Undone
  | .preprocess h => h.Redone
  | .refine _ _ => True
  | .variant external internal => external.IsRead ∧ internal.IsRead
  | .recover _ => False
  | .getOr _ => False

/-- What the kind itself does can be undone; a text that is written reads back. -/
def Kind.Invertible (w : World) : Kind → Prop
  | .union _ => False
  | .jsonString s => ∀ v t u, w.Passes s v t u → readText u.text = .ok u
  | .custom _ h => h.Undone
  | .transformed _ effect => effect.Invertible
  | _ => True

/-- What an option holds is not written as null, unless it is null or was parsed from null. -/
def Kind.KeepsPresence (w : World) : Kind → Prop
  | .option s | .null s | .nullable s =>
      ∀ v t u, w.Passes s v t u → v ≠ .null → t ≠ .null → u ≠ .null
  | _ => True

/-- **The kind loses nothing.** -/
structure Kind.Lossless (w : World) (kind : Kind) : Prop where
  pure : kind.Pure
  invertible : kind.Invertible w
  present : kind.KeepsPresence w

theorem Literal.IsRead.accepts {l : Literal} (h : l.IsRead) : l.accepts l.toValue = true := by
  obtain ⟨v, hv, rfl⟩ := h
  exact Literal.accepts_toValue hv

/-- The literals of the kind are read from values. -/
def Kind.LiteralsRead : Kind → Prop
  | .literal l => l.IsRead
  | .transformed _ (.variant external internal) => external.IsRead ∧ internal.IsRead
  | _ => True

/-- What a kind needs to know about the operations of a node below it. -/
structure Fits (w₀ : World) (W : World → Prop) (m : Machine) (s : Schema) (p q : Operation) :
    Prop where
  reads : Runs W m p
  writes : Runs W m q
  back : RoundTrips W m p q
  passes : ∀ v t u, Gives W (p.run m v) (.ok t) → Gives W (q.run m t) (.ok u) → w₀.Passes s v t u
  absent : isOmittable s = true → ∀ x a, Gives W (p.run m x) (.ok a) →
    Gives W (p.run m .null) (.ok .null)
  constant : ∀ l, s.kind = .literal l → l.accepts l.toValue = true →
    ∀ x a, Gives W (p.run m x) (.ok a) → Gives W (p.run m l.toValue) (.ok l.toValue)

section

variable {w₀ w₁ w₂ : World} {kind : Kind} {P : Schema → ParseOperation}
  {Q : Schema → Compiled Operation}

theorem isOmittable_of_mem {fields : List (String × Schema)} (hnames : (Entries.keys fields).Nodup)
    {f : String × Schema} (hf : f ∈ fields) (ho : f.1 ∈ omittedFields fields) :
    isOmittable f.2 = true := by
  obtain ⟨g, hg, hname⟩ := List.mem_map.1 ho
  obtain ⟨hg, homit⟩ := List.mem_filter.1 hg
  rw [List.inj_on_of_nodup_map hnames hf hg hname.symm]
  exact homit

/-- Effects that lose nothing fit together around operations that do. -/
theorem Effect.roundTrips {base : Schema} {effect : Effect} (hw : W w)
    (hformed : (Kind.transformed base effect).Formed) (hpure : effect.Pure)
    (hundone : effect.Invertible) (id : NodeId) {p : Operation} {q : Compiled Operation}
    (h : Fits w₀ W m base p q.operation) :
    RoundTrips W m (effect.parseAround p) (effect.serializeAround id q).operation := by
  cases effect with
  | transform handlers =>
      simp only [Effect.parseAround, Effect.serializeAround]
      split
      · rename_i f hf
        obtain ⟨g, hg, hundo⟩ := hundone f hf
        rw [hg]
        exact .transform hw h.reads h.back (hpure.parser _ hf) (hpure.serializer _ hg) hundo
      · exact .fail hw _ _
      · exact .fail hw _ _
  | preprocess handlers =>
      simp only [Effect.parseAround, Effect.serializeAround]
      split
      · rename_i f hf
        obtain ⟨g, hg, hundo⟩ := hundone f hf
        rw [hg]
        exact .preprocess hw h.reads h.back (hpure.parser _ hf) (hpure.serializer _ hg) hundo
      · exact .fail hw _ _
      · exact .fail hw _ _
  | refine message check =>
      cases check with
      | direct test => exact .refine hw h.reads h.back hpure message
      | async test => exact .fail hw _ _
  | variant external internal =>
      refine .variant hw h.reads h.back hundone.2.accepts ?_
      exact h.constant external hformed hundone.1.accepts
  | recover fallback => exact hundone.elim
  | getOr supply => exact hundone.elim

/-- **The operations of a kind that loses nothing fit together**, if those of the nodes below do. -/
theorem Kind.roundTrips (hw : W w) (hformed : kind.Formed)
    (hlossless : kind.Lossless w₀) (id₁ id₂ : NodeId) (waits : Bool)
    (hbelow : ∀ t ∈ kind.children, Fits w₀ W m t (P t).atOnce (Q t).operation)
    (href : ∀ r, kind = .recursive r → RoundTrips W m (followOperation w₁ .parsing id₁ r)
      (followOperation w₂ .serializing id₂ r)) :
    RoundTrips W m (kind.parser w₁ id₁ waits P).atOnce (kind.serializer w₂ id₂ Q).operation := by
  obtain ⟨hpure, hundone, hpresent⟩ := hlossless
  cases waits with
  | true =>
      rw [ParseOperation.atOnce_of_isAsync (Kind.parser_isAsync w₁ id₁ true P kind)]
      exact .fail hw _ _
  | false =>
      change RoundTrips W m (kind.directParser w₁ id₁ P) (kind.serializer w₂ id₂ Q).operation
      cases kind with
      | unknown | json => exact .noop hw
      | never => exact .never hw _ _
      | unit | string | bool | int | float => exact .scalar hw _ _
      | literal l => exact .literal hw l
      | array t =>
          have ht := hbelow t (List.mem_singleton_self t)
          exact .array hw ht.reads ht.writes ht.back _ _
      | dict t =>
          have ht := hbelow t (List.mem_singleton_self t)
          exact .dict hw ht.reads ht.writes ht.back _ _
      | object fields policy =>
          have hfields : ∀ f ∈ fields, Fits w₀ W m f.2 (P f.2).atOnce (Q f.2).operation :=
            fun f hf => hbelow f.2 (List.mem_map_of_mem hf)
          refine .object (P := fun s => (P s).atOnce) (Q := fun s => (Q s).operation) hw hformed
            (fun f hf => (hfields f hf).reads) (fun f hf => (hfields f hf).back) ?_ _ _ _
          exact fun f hf ho => (hfields f hf).absent (isOmittable_of_mem hformed hf ho)
      | tuple items =>
          exact .tuple (P := fun s => (P s).atOnce) (Q := fun s => (Q s).operation) hw
            (fun t ht => (hbelow t ht).reads) (fun t ht => (hbelow t ht).writes)
            (fun t ht => (hbelow t ht).back) _ _
      | option t | null t | nullable t =>
          have ht := hbelow t (List.mem_singleton_self t)
          exact .absentOr hw ht.back fun v x u hx hu => hpresent v x u (ht.passes v x u hx hu)
      | union members => exact hundone.elim
      | jsonString t =>
          have ht := hbelow t (List.mem_singleton_self t)
          exact .document hw ht.back (fun v x u hx hu => hundone v x u (ht.passes v x u hx hu)) _
      | custom name handlers =>
          simp only [Kind.directParser, customOperation, Kind.serializer]
          split
          · rename_i f hf
            obtain ⟨g, hg, hundo⟩ := hundone f hf
            rw [hg]
            exact .apply hw (hpure.parser _ hf) (hpure.serializer _ hg) hundo
          · exact .fail hw _ _
          · exact .fail hw _ _
      | transformed base effect =>
          exact Effect.roundTrips hw hformed hpure hundone id₂
            (hbelow base (List.mem_singleton_self base))
      | recursive r => exact href r rfl

end

/-! ### Schemas -/

section

variable {w₀ : World} {nodes : List Schema} {N : Schema → Prop}

/-- **Planned operations fit together**, on a machine on which references do. -/
theorem planned_fits (h : w₀.Closed nodes N) (hc : w₀.Compiles N W) (hw : W w₀)
    (hlossless : ∀ s, N s → s.kind.Lossless w₀) (fuel : Nat)
    (href : ∀ s r, N s → s.kind = .recursive r → ∀ w₁ w₂ o₁ o₂, w₂.Before w₀ → o₂ ∈ nodes →
      o₂.kind = .recursive r → RoundTrips W (machine fuel) (followOperation w₁ .parsing o₁ r)
        (followOperation w₂ .serializing o₂.id r)) :
    ∀ s, N s → Fits w₀ W (machine fuel) s (w₀.planned s).atOnce (w₀.serializePlan s).operation := by
  refine h.sound.hosts.induction_within h.member h.leads fun s hs ih => ?_
  have hmem := h.member s hs
  have hreads := h.parse_runs hc fuel hs
  have hwrites := h.serialize_runs hc fuel hs
  obtain ⟨w₁, o₁, waits, -, -, -, hparse⟩ := h.sound.parsePlan_shape h.shaped (.refl w₀) hmem
  obtain ⟨w₂, o₂, hw₂, ho₂, hkind₂, hserialize⟩ :=
    h.sound.serializePlan_shape h.shaped (.refl w₀) hmem
  have hplanned : (w₀.planned s).atOnce =
      (s.kind.parser w₁ o₁.id waits w₀.planned).atOnce := by rw [World.planned, hparse]
  refine ⟨hreads, hwrites, ?_, ?_, ?_, ?_⟩
  · rw [hplanned, hserialize]
    exact Kind.roundTrips hw (h.sound.hosts.formed s hmem) (hlossless s hs) _ _ _ ih fun r hr =>
      href s r hs hr w₁ w₂ o₁.id o₂ hw₂ ho₂ (hkind₂.trans hr)
  · intro v t u hv hu
    obtain ⟨w₃, hw₃, hparsed⟩ := Schema.parseOn_gives hc hs hv w₀ hw
    obtain ⟨w₄, -, hwritten⟩ := Schema.serializeOn_gives hc hs hu w₃ hw₃
    exact ⟨fuel, w₃, w₄, hparsed, hwritten⟩
  · -- an option reads null back, unless it waits
    intro homit x a hx
    rw [hplanned] at hx ⊢
    cases waits with
    | true =>
        rw [ParseOperation.atOnce_of_isAsync (Kind.parser_isAsync _ _ _ _ _)] at hx
        cases hx.of_pure hw
    | false =>
        cases hkind : s.kind with
        | option t =>
            rw [Kind.parser, if_neg Bool.false_ne_true]
            change Gives W ((absentOr (w₀.planned t).atOnce).run (machine fuel) .null) _
            rw [absentOr_run]
            exact .pure _
        | _ => simp [isOmittable, hkind] at homit
  · -- a literal reads its own value, unless it waits
    intro l hl haccepts x a hx
    rw [hplanned, hl] at hx ⊢
    cases waits with
    | true =>
        rw [ParseOperation.atOnce_of_isAsync (Kind.parser_isAsync _ _ _ _ _)] at hx
        cases hx.of_pure hw
    | false => exact RoundTrips.literal_accepted haccepts .parsing

/-- A reference that stands for itself never succeeds. -/
theorem not_gives_of_loop (h : w₀.Closed nodes N) (hc : w₀.Compiles N W) (hw : W w₀)
    {s t : Schema} {r : Reference} (hs : N s) (hr : s.kind = .recursive r)
    (htarget : w₀.target? r = some t) (ht : t.kind = .recursive r) :
    ∀ (fuel : Nat) (v x : Value), ¬Gives W ((machine fuel).parse r v) (.ok x) := by
  have htN : N t := h.leads s t hs (World.leads_of_target hr htarget)
  intro fuel
  induction fuel with
  | zero =>
      intro v x hx
      obtain ⟨w', -, hrun⟩ := hx w₀ hw
      cases hrun
  | succ fuel ih =>
      intro v x hx
      obtain ⟨w', -, hrun⟩ := hx w₀ hw
      rw [hc.parse_target hw htarget] at hrun
      have hgives := Schema.gives_of_parseOn hc htN (h.parse_runs hc fuel htN) hw hrun
      obtain ⟨w₁, o₁, waits, -, -, -, hparse⟩ :=
        h.sound.parsePlan_shape h.shaped (.refl w₀) (h.member t htN)
      rw [World.planned, hparse, ht] at hgives
      cases waits with
      | true =>
          rw [ParseOperation.atOnce_of_isAsync (Kind.parser_isAsync _ _ _ _ _)] at hgives
          cases hgives.of_pure hw
      | false =>
          change Gives W ((followOperation w₁ .parsing o₁.id r).run (machine fuel) v) _ at hgives
          rw [followOperation] at hgives
          split at hgives
          · cases hgives.of_pure hw
          · exact ih v x hgives

/-- **References fit together**, with any fuel. -/
theorem follow_roundTrips (h : w₀.Closed nodes N) (hc : w₀.Compiles N W) (hw : W w₀)
    (hlossless : ∀ s, N s → s.kind.Lossless w₀) (fuel : Nat) :
    ∀ s r, N s → s.kind = .recursive r → ∀ w₁ w₂ o₁ o₂, w₂.Before w₀ → o₂ ∈ nodes →
      o₂.kind = .recursive r → RoundTrips W (machine fuel) (followOperation w₁ .parsing o₁ r)
        (followOperation w₂ .serializing o₂.id r) := by
  induction fuel with
  | zero =>
      intro s r _ _ w₁ w₂ o₁ o₂ _ _ _ v t hv
      obtain ⟨w', -, hrun⟩ := hv w₀ hw
      rw [followOperation] at hrun
      split at hrun <;> cases hrun
  | succ fuel ih =>
      intro s r hs hr w₁ w₂ o₁ o₂ hw₂ ho₂ hkind₂ v t hv
      have hfollow : followOperation w₁ .parsing o₁ r = .follow .parsing r := by
        rw [followOperation]
        split
        · rename_i hdangling
          rw [followOperation, if_pos hdangling] at hv
          cases hv.of_pure hw
        · rfl
      rw [hfollow] at hv ⊢
      cases htarget : w₀.target? r with
      | none =>
          obtain ⟨w', -, hrun⟩ := hv w₀ hw
          simp only [Operation.run, machine, get_bind, htarget] at hrun
          cases hrun
      | some target =>
          have htN : N target := h.leads s target hs (World.leads_of_target hr htarget)
          have hparsed : Gives W (target.parseOn (machine fuel) v) (.ok t) :=
            Gives.congr (fun w hw => (hc.parse_target hw htarget fuel v).symm) hv
          obtain ⟨w', -, hrun⟩ := hparsed w₀ hw
          have hgives := Schema.gives_of_parseOn hc htN (h.parse_runs hc fuel htN) hw hrun
          have hfits := planned_fits h hc hw hlossless fuel ih target htN
          obtain ⟨u, hu, hback⟩ := hfits.back v t hgives
          refine ⟨u, ?_, Gives.congr (fun w hw => hc.parse_target hw htarget fuel u)
            (Schema.parseOn_gives hc htN hback)⟩
          have hwritten : Gives W ((machine (fuel + 1)).serialize r t) (.ok u) :=
            Gives.congr (fun w hw => hc.serialize_target hw htarget fuel t)
              (Schema.serializeOn_gives hc htN hu)
          rw [followOperation]
          split
          · -- written as dangling, the reference stands for the node itself and parsing never ends
            rename_i hdangling
            obtain ⟨hset, hunusable⟩ := Bool.and_eq_true_iff.1 hdangling
            exfalso
            have hbound : w₂.target? r = some target := by
              refine (hw₂.live r target htarget).resolve_left fun hunset => ?_
              rw [World.isSet, hunset] at hset
              cases hset
            have hself : target.id = o₂.id := by
              simpa [usableTarget, hbound] using hunusable
            have heq : target = o₂ :=
              h.sound.hosts.identity _ (h.member target htN) _ ho₂ hself
            exact not_gives_of_loop h hc hw hs hr htarget (heq ▸ hkind₂) (fuel + 1) v t hv
          · exact hwritten

end

namespace Scene

/-- **The round trip.**  In every scene that a history leads to, below a schema that loses nothing:
what a value is parsed as can be serialized, and what is written is parsed as the same. -/
theorem Reachable.parse_serialize_parse {σ : Scene} (h : σ.Reachable) {s : Schema}
    (hs : s ∈ σ.nodes)
    (hlossless : ∀ t, σ.world.Reaches s t → t.kind.Lossless σ.world)
    {fuel : Nat} {v t : Value} {w₁ : World} (hparse : s.parse fuel v σ.world = .ok (.ok t, w₁)) :
    ∃ u w₂ w₃, s.serialize fuel t w₁ = .ok (.ok u, w₂) ∧
      s.parse fuel u w₂ = .ok (.ok t, w₃) := by
  have hclosed := World.Closed.of_reaches h.sound h.shaped hs fun t ht => (hlossless t ht).pure
  have hcompiles := hclosed.compiles
  have hnow : σ.world.Later σ.nodes σ.world := h.sound.later
  have hfits := planned_fits hclosed hcompiles hnow hlossless fuel
    (follow_roundTrips hclosed hcompiles hnow hlossless fuel) s .refl
  have hlater : σ.world.Later σ.nodes w₁ :=
    (Schema.parse_steady hclosed hcompiles fuel .refl v).keeps hnow hparse
  have hgives := Schema.gives_of_parseOn hcompiles .refl hfits.reads hnow hparse
  obtain ⟨u, hu, hback⟩ := hfits.back v t hgives
  obtain ⟨w₂, hw₂, hwritten⟩ := Schema.serializeOn_gives hcompiles .refl hu w₁ hlater
  obtain ⟨w₃, -, hread⟩ := Schema.parseOn_gives hcompiles .refl hback w₂ hw₂
  exact ⟨u, w₂, w₃, hwritten, hread⟩

/-! ### An optional flag -/

/-- A boolean. -/
def flag : Schema := .node 0 .bool Metadata.empty none

/-- A boolean that may be absent. -/
def optionalFlag : Schema := .node 1 (.option flag) Metadata.empty none

/-- An object with an optional field. -/
def settings : Schema := .node 2 (.object [("flag", optionalFlag)] none) Metadata.empty none

/-- The scene of the object. -/
def flagged : Scene := ⟨made 3 0, [settings, optionalFlag, flag]⟩

theorem flagged_reachable : flagged.Reachable := by
  have h₁ : Step .building initial ⟨made 1 0, [flag]⟩ :=
    .made (fun t ht => by cases ht) (by trivial)
  have h₂ : Step .building ⟨made 1 0, [flag]⟩ ⟨made 2 0, [optionalFlag, flag]⟩ :=
    .made (fun t ht => by simpa [Kind.children] using ht) (by trivial)
  have h₃ : Step .building ⟨made 2 0, [optionalFlag, flag]⟩ flagged :=
    .made (fun t ht => by simp_all [Kind.children]) (by simp [Kind.Formed, Entries.keys])
  exact .tail (.tail (.single ⟨_, h₁⟩) ⟨_, h₂⟩) ⟨_, h₃⟩

/-- A boolean is written as it was parsed. -/
theorem flag_passes {v t u : Value} (h : flagged.world.Passes flag v t u) : u = t := by
  obtain ⟨fuel, w₁, w₂, hparse, hserialize⟩ := h
  cases v with
  | bool b =>
      cases hparse
      cases hserialize
      rfl
  | _ => cases hparse

theorem flagged_lossless (t : Schema) (h : flagged.world.Reaches settings t) :
    t.kind.Lossless flagged.world := by
  have hm : settings ∈ flagged.nodes := List.mem_cons_self ..
  have ht : t ∈ [settings, optionalFlag, flag] := flagged_reachable.sound.hosts.reaches hm h
  simp only [List.mem_cons, List.not_mem_nil, or_false] at ht
  rcases ht with rfl | rfl | rfl
  · exact ⟨trivial, trivial, trivial⟩
  · refine ⟨trivial, trivial, fun v t u hpass _ ht => ?_⟩
    rwa [flag_passes hpass]
  · exact ⟨trivial, trivial, trivial⟩

/-- The absent flag is null when parsed, left out when written, and null again. -/
theorem parse_serialize_parse_flag : ∃ t w₁,
    settings.parse 1 (.object []) flagged.world = .ok (.ok t, w₁) ∧
    ∃ u w₂ w₃, settings.serialize 1 t w₁ = .ok (.ok u, w₂) ∧
      settings.parse 1 u w₂ = .ok (.ok t, w₃) :=
  ⟨_, _, rfl, flagged_reachable.parse_serialize_parse (v := .object []) (List.mem_cons_self ..)
    flagged_lossless rfl⟩

/-! ### Presence that gets lost -/

/-- True as null, and back. -/
def trueAsNull : Handlers where
  parser := some (.direct (.compute fun
    | .bool true => .ok .null
    | _ => .error (.message "not true")))
  serializer := some (.compute fun
    | .null => .ok (.bool true)
    | _ => .error (.message "not null"))

/-- Null as false, and back. -/
def nullAsFalse : Handlers where
  parser := some (.direct (.compute fun
    | .null => .ok (.bool false)
    | _ => .error (.message "not null")))
  serializer := some (.compute fun
    | .bool false => .ok .null
    | _ => .error (.message "not false"))

/-- The flag, true becoming null. -/
def vanishing : Schema := .node 1 (.transformed flag (.transform trueAsNull)) Metadata.empty none

/-- What vanishes may be absent. -/
def maybeVanishing : Schema := .node 2 (.option vanishing) Metadata.empty none

/-- Null becomes false again. -/
def reappearing : Schema :=
  .node 3 (.transformed maybeVanishing (.transform nullAsFalse)) Metadata.empty none

/-- What reappears may be absent, too. -/
def twiceOptional : Schema := .node 4 (.option reappearing) Metadata.empty none

/-- The scene of the two options. -/
def unstable : Scene where
  world := made 5 0
  nodes := [twiceOptional, reappearing, maybeVanishing, vanishing, flag]

theorem unstable_reachable : unstable.Reachable := by
  have h₁ : Step .building initial ⟨made 1 0, [flag]⟩ :=
    .made (fun t ht => by cases ht) (by trivial)
  have h₂ : Step .building ⟨made 1 0, [flag]⟩ ⟨made 2 0, [vanishing, flag]⟩ :=
    .made (fun t ht => by simpa [Kind.children] using ht) (by trivial)
  have h₃ : Step .building ⟨made 2 0, [vanishing, flag]⟩
      ⟨made 3 0, [maybeVanishing, vanishing, flag]⟩ :=
    .made (fun t ht => by simp_all [Kind.children]) (by trivial)
  have h₄ : Step .building ⟨made 3 0, [maybeVanishing, vanishing, flag]⟩
      ⟨made 4 0, [reappearing, maybeVanishing, vanishing, flag]⟩ :=
    .made (fun t ht => by simp_all [Kind.children]) (by trivial)
  have h₅ : Step .building ⟨made 4 0, [reappearing, maybeVanishing, vanishing, flag]⟩ unstable :=
    .made (fun t ht => by simp_all [Kind.children]) (by trivial)
  exact .tail (.tail (.tail (.tail (.single ⟨_, h₁⟩) ⟨_, h₂⟩) ⟨_, h₃⟩) ⟨_, h₄⟩) ⟨_, h₅⟩

theorem trueAsNull_undone : trueAsNull.Pure ∧ trueAsNull.Undone := by
  refine ⟨⟨fun p hp => ?_, fun f hf => ?_⟩, fun f hf => ⟨_, rfl, fun x t hx => ?_⟩⟩
  · cases hp
    trivial
  · cases hf
    trivial
  · cases hf
    rcases x with _ | (_ | _) | _ | _ | _ | _ <;> cases hx
    rfl

theorem nullAsFalse_undone : nullAsFalse.Pure ∧ nullAsFalse.Undone := by
  refine ⟨⟨fun p hp => ?_, fun f hf => ?_⟩, fun f hf => ⟨_, rfl, fun x t hx => ?_⟩⟩
  · cases hp
    trivial
  · cases hf
    trivial
  · cases hf
    cases x <;> cases hx
    rfl

/-- True is parsed as false, false is written as null, and null is parsed as null. -/
def presenceLost : Bool :=
  match twiceOptional.parse 1 (.bool true) unstable.world with
  | .ok (.ok (.bool false), w₁) =>
      match twiceOptional.serialize 1 (.bool false) w₁ with
      | .ok (.ok .null, w₂) =>
          match twiceOptional.parse 1 .null w₂ with
          | .ok (.ok .null, _) => true
          | _ => false
      | _ => false
  | _ => false

/-- **Presence can get lost**: below the outer option false is written as null, which the option
reads as absent, although everything by itself is undone. -/
theorem parse_serialize_parse_unstable :
    unstable.Reachable ∧ twiceOptional ∈ unstable.nodes ∧
    (∀ t, unstable.world.Reaches twiceOptional t →
      t.kind.Pure ∧ t.kind.Invertible unstable.world) ∧
    ∃ w₁ w₂ w₃, twiceOptional.parse 1 (.bool true) unstable.world = .ok (.ok (.bool false), w₁) ∧
      twiceOptional.serialize 1 (.bool false) w₁ = .ok (.ok .null, w₂) ∧
      twiceOptional.parse 1 .null w₂ = .ok (.ok .null, w₃) := by
  have hm : twiceOptional ∈ unstable.nodes := List.mem_cons_self ..
  refine ⟨unstable_reachable, hm, fun t ht => ?_, ?_⟩
  · have ht : t ∈ [twiceOptional, reappearing, maybeVanishing, vanishing, flag] :=
      unstable_reachable.sound.hosts.reaches hm ht
    simp only [List.mem_cons, List.not_mem_nil, or_false] at ht
    rcases ht with rfl | rfl | rfl | rfl | rfl
    · exact ⟨trivial, trivial⟩
    · exact nullAsFalse_undone
    · exact ⟨trivial, trivial⟩
    · exact trueAsNull_undone
    · exact ⟨trivial, trivial⟩
  · have hlost : presenceLost = true := by decide +kernel
    rw [presenceLost] at hlost
    split at hlost
    · rename_i w₁ hparse
      split at hlost
      · rename_i w₂ hserialize
        split at hlost
        · rename_i w₃ hread
          exact ⟨w₁, w₂, w₃, hparse, hserialize, hread⟩
        · cases hlost
      · cases hlost
    · cases hlost

end Scene

end Schemata
