/-
**Children one after the other, taken apart.**

When a run over children succeeds, each child has succeeded on its own, and the other way round.
This needs the children to be steady, since each of them runs in the world that those before it have
left.  For the fields of an object there is more to say: fields are found by name, those taken out
are gone for the later ones, and fields that are null may not have been written at all.

Main definitions:

* `Schemata.Restores` — fields get their values back from entries, some of which may be missing.

Main results:

* `Schemata.Gives.of_attempt` — what succeeds as a whole has a first part that succeeds;
* `Schemata.runEach_gives_iff` — children in order;
* `Schemata.runFields_taken`, `Schemata.Restores.runFields` — fields, there and back;
* `Schemata.runPresentFields_restores` — **what is written for fields is read back**;
* `Schemata.parseMembers_gives` — what a union parses, one of its members parses.
-/

import Mathlib.Data.List.Forall2
import Schemata.Proofs.Lookup
import Schemata.Proofs.Steadiness

set_option relaxedAutoImplicit false
set_option autoImplicit false

namespace Schemata

variable {W : World → Prop} {w : World}

/-! ### Computations -/

section

variable {α β ε ε' : Type}

/-- What is given without computing is the value itself. -/
theorem Gives.of_pure {a b : α} (h : Gives W (Pure.pure a : Run α) b) (hw : W w) : a = b :=
  (Gives.pure a).unique h hw

/-- What gives a value has a first part that gives one. -/
theorem Gives.of_bind {c : Run α} {f : α → Run β} {b : β} (h : Gives W (c >>= f) b) (hw : W w)
    (hc : Steady W c) (hf : ∀ a, Steady W (f a)) : ∃ a, Gives W c a ∧ Gives W (f a) b := by
  obtain ⟨w₂, -, hrun⟩ := h w hw
  obtain ⟨a, w₁, hfirst, hsecond⟩ := of_bind_ok hrun
  exact ⟨a, hc w a w₁ hw hfirst, hf a w₁ b w₂ (hc.keeps hw hfirst) hsecond⟩

/-- **What succeeds as a whole has a first part that succeeds**, when a failure stays one. -/
theorem Gives.of_attempt {c : Run (Except ε α)} {f : Except ε α → Run (Except ε' β)} {b : β}
    (h : Gives W (c >>= f) (.ok b)) (hw : W w) (hc : Steady W c)
    (hf : ∀ a, Steady W (f (.ok a))) (he : ∀ e, ∃ e', f (.error e) = Pure.pure (.error e')) :
    ∃ a, Gives W c (.ok a) ∧ Gives W (f (.ok a)) (.ok b) := by
  have hsteady : ∀ r, Steady W (f r) := by
    intro r
    cases r with
    | error e =>
        obtain ⟨e', he'⟩ := he e
        rw [he']
        exact .pure _
    | ok a => exact hf a
  obtain ⟨r, hfirst, hsecond⟩ := h.of_bind hw hc hsteady
  cases r with
  | error e =>
      obtain ⟨e', he'⟩ := he e
      rw [he'] at hsecond
      cases hsecond.of_pure hw
  | ok a => exact ⟨a, hfirst, hsecond⟩

end

/-! ### Children in order -/

@[simp] theorem map_snd_indexed {α : Type} (children : List α) :
    (indexed children).map Prod.snd = children := by
  rw [indexed, List.map_map]
  exact List.zipIdx_map_fst 0 children

@[simp] theorem map_snd_keyed {α : Type} (children : List (String × α)) :
    (keyed children).map Prod.snd = children.map Prod.snd := by
  rw [keyed, List.map_map]
  rfl

/-- Children that are made of others keep their indices. -/
theorem indexed_map {α β : Type} (f : α → β) (children : List α) :
    indexed (children.map f) = (indexed children).map fun c => (c.1, f c.2) := by
  simp only [indexed, List.zipIdx_map, List.map_map]
  rfl

/-- Entries whose values are made of others keep their keys. -/
theorem keyed_map {α β : Type} (f : α → β) (children : List (String × α)) :
    keyed (children.map fun c => (c.1, f c.2)) = (keyed children).map fun c => (c.1, f c.2) := by
  simp only [keyed, List.map_map]
  rfl

/-- Operations on values one by one. -/
theorem zipWith_runners (m : Machine) (ops : List Operation) (values : List Value) :
    (runners m ops).zipWith (fun run v => run v) values =
      (ops.zip values).map fun x => x.1.run m x.2 := by
  rw [runners_eq_map, List.zipWith_map_left, ← List.map_uncurry_zip_eq_zipWith]
  rfl

/-- The operations of the schemas of fields as functions. -/
theorem fieldRunners_map (m : Machine) (R : Schema → Operation) (fields : List (String × Schema)) :
    fieldRunners m (fields.map fun f => (f.1, R f.2)) =
      fields.map fun f => (f.1, (R f.2).run m) := by
  rw [fieldRunners_eq_map, List.map_map]
  rfl

/-- **A run over children succeeds exactly when each child does.** -/
theorem runEach_gives_iff (hw : W w) {children : List (Segment × Run Result)}
    (h : ∀ c ∈ children, Steady W c.2) {vs : List Value} :
    Gives W (runEach children) (.ok vs) ↔
      List.Forall₂ (fun c v => Gives W c (.ok v)) (children.map Prod.snd) vs := by
  induction children generalizing vs with
  | nil =>
      constructor
      · intro hg
        cases hg.of_pure hw
        exact .nil
      · intro hall
        cases hall
        exact .pure _
  | cons c rest ih =>
      have hrest : ∀ c ∈ rest, Steady W c.2 := fun c hc => h c (List.mem_cons_of_mem _ hc)
      have hc : Steady W c.2 := h c (List.mem_cons_self ..)
      have hr := runEach_steady hrest
      constructor
      · intro hg
        obtain ⟨v, hv, hg⟩ := Gives.of_attempt hg hw hc
          (fun a => hr.attempt (fun e => .pure _) fun vs => .pure _) (fun e => ⟨_, rfl⟩)
        obtain ⟨vs, hvs, hg⟩ := Gives.of_attempt hg hw hr (fun a => .pure _) (fun e => ⟨_, rfl⟩)
        cases hg.of_pure hw
        exact .cons hv ((ih hrest).1 hvs)
      · intro hall
        cases hall with
        | cons hv hvs => exact hv.bind (((ih hrest).2 hvs).bind (.pure _))

/-! ### Fields -/

section

variable {fields : List (String × Runner)} {entries us es : List (String × Value)}

/-- **The values of fields come from somewhere**: each field has succeeded on some value. -/
theorem runFields_taken (hw : W w) (h : ∀ f ∈ fields, ∀ v, Steady W (f.2 v))
    {left : List (String × Value)} (hg : Gives W (runFields fields entries) (.ok (es, left))) :
    List.Forall₂ (fun f e => f.1 = e.1 ∧ ∃ x, Gives W (f.2 x) (.ok e.2)) fields es := by
  induction fields generalizing entries es with
  | nil =>
      cases hg.of_pure hw
      exact .nil
  | cons f rest ih =>
      have hrest : ∀ f ∈ rest, ∀ v, Steady W (f.2 v) := fun f hf => h f (List.mem_cons_of_mem _ hf)
      have hr := fun entries => runFields_steady hrest entries
      obtain ⟨v, hv, hg⟩ := Gives.of_attempt hg hw (h f (List.mem_cons_self ..) _)
        (fun a => (hr _).attempt (fun e => .pure _) fun vs => .pure _) (fun e => ⟨_, rfl⟩)
      obtain ⟨⟨vs, left'⟩, hvs, hg⟩ :=
        Gives.of_attempt hg hw (hr _) (fun a => .pure _) (fun e => ⟨_, rfl⟩)
      cases hg.of_pure hw
      exact .cons ⟨rfl, _, hv⟩ (ih hrest hvs)

/-- **Fields get their values back from entries.**  A field is there with a value that gives its
own, or it is missing and null gives its own. -/
inductive Restores (W : World → Prop) :
    List (String × Runner) → List (String × Value) → List (String × Value) → Prop
  | nil : Restores W [] [] []
  | missing {name : String} {field : Runner} {rest : List (String × Runner)} {a : Value}
      {us es : List (String × Value)} : Gives W (field .null) (.ok a) → Restores W rest us es →
      Restores W ((name, field) :: rest) us ((name, a) :: es)
  | present {name : String} {field : Runner} {rest : List (String × Runner)} {u a : Value}
      {us es : List (String × Value)} : Gives W (field u) (.ok a) → Restores W rest us es →
      Restores W ((name, field) :: rest) ((name, u) :: us) ((name, a) :: es)

/-- There are no entries but those of the fields, in their order. -/
theorem Restores.keys_sublist (h : Restores W fields us es) :
    (Entries.keys us).Sublist (Entries.keys fields) := by
  induction h with
  | nil => exact .slnil
  | missing _ _ ih => exact ih.cons _
  | present _ _ ih => exact ih.cons_cons _

/-- **Running fields on such entries gives the values back and leaves nothing over.** -/
theorem Restores.runFields (h : Restores W fields us es) (hfields : (Entries.keys fields).Nodup)
    (hentries : (Entries.keys entries).Nodup) (hmem : ∀ k v, (k, v) ∈ entries ↔ (k, v) ∈ us) :
    Gives W (runFields fields entries) (.ok (es, [])) := by
  induction h generalizing entries with
  | nil =>
      have hnone : entries = [] := List.eq_nil_iff_forall_not_mem.2 fun e he =>
        List.not_mem_nil ((hmem e.1 e.2).1 he)
      rw [hnone]
      exact .pure _
  | @missing name field rest a us es hnull hrest ih =>
      obtain ⟨hnot, hfields⟩ := List.nodup_cons.1 hfields
      have hnew : name ∉ Entries.keys us := fun hin => hnot (hrest.keys_sublist.subset hin)
      have hfind : Entries.find? name entries = none := by
        refine Entries.find?_eq_none_iff.2 fun hin => hnew ?_
        obtain ⟨e, he, rfl⟩ := List.mem_map.1 hin
        exact Entries.mem_keys_of_mem ((hmem e.1 e.2).1 he)
      have hgo := ih hfields (Entries.remove_nodup hentries) fun k v => by
        rw [Entries.mem_remove_iff hentries, hmem]
        refine ⟨fun hin => hin.1, fun hin => ⟨hin, ?_⟩⟩
        rintro rfl
        exact hnew (Entries.mem_keys_of_mem hin)
      rw [Schemata.runFields, hfind]
      exact hnull.bind (hgo.bind (.pure _))
  | @present name field rest u a us es hu hrest ih =>
      obtain ⟨hnot, hfields⟩ := List.nodup_cons.1 hfields
      have hnew : name ∉ Entries.keys us := fun hin => hnot (hrest.keys_sublist.subset hin)
      have hfind : Entries.find? name entries = some u :=
        (Entries.find?_eq_some_iff hentries).2 ((hmem name u).2 (List.mem_cons_self ..))
      have hgo := ih hfields (Entries.remove_nodup hentries) fun k v => by
        rw [Entries.mem_remove_iff hentries, hmem]
        constructor
        · rintro ⟨hin, hne⟩
          rcases List.mem_cons.1 hin with he | hin
          · cases he
            exact absurd rfl hne
          · exact hin
        · intro hin
          refine ⟨List.mem_cons_of_mem _ hin, ?_⟩
          rintro rfl
          exact hnew (Entries.mem_keys_of_mem hin)
      rw [Schemata.runFields, hfind]
      exact hu.bind (hgo.bind (.pure _))

end

section

variable {ι : Type} {p q : ι → Runner} {fields : List (String × ι)} {es : List (String × Value)}

/-- Values that their own fields give back restore themselves. -/
theorem Restores.of_same
    (h : List.Forall₂ (fun f e => f.1 = e.1 ∧ Gives W (p f.2 e.2) (.ok e.2)) fields es) :
    Restores W (fields.map fun f => (f.1, p f.2)) es es := by
  induction h with
  | nil => exact .nil
  | @cons f e rest es hfe _ ih =>
      obtain ⟨name, s⟩ := f
      obtain ⟨name', a⟩ := e
      obtain ⟨rfl, ha⟩ := hfe
      exact .present ha ih

/-- Values that come from somewhere restore themselves, when fields give back what they give. -/
theorem Restores.refl
    (hback : ∀ f ∈ fields, ∀ x a, Gives W (p f.2 x) (.ok a) → Gives W (p f.2 a) (.ok a))
    (hes : List.Forall₂ (fun f e => f.1 = e.1 ∧ ∃ x, Gives W (p f.2 x) (.ok e.2)) fields es) :
    Restores W (fields.map fun f => (f.1, p f.2)) es es := by
  refine .of_same (((List.forall₂_and_left _ _).2 ⟨hback, hes⟩).imp ?_)
  rintro f e ⟨hf, hname, x, hx⟩
  exact ⟨hname, hf x e.2 hx⟩

/-- **What is written for fields is read back**: each value that comes from somewhere is written and
read back by its own field, and the fields that are left out when null read null back. -/
theorem runPresentFields_restores {omitted : List String} {all : List (String × Value)}
    (hback : ∀ f ∈ fields, ∀ x a, Gives W (p f.2 x) (.ok a) →
      ∃ u, Gives W (q f.2 a) (.ok u) ∧ Gives W (p f.2 u) (.ok a))
    (homitted : ∀ f ∈ fields, f.1 ∈ omitted → ∀ x a, Gives W (p f.2 x) (.ok a) →
      Gives W (p f.2 .null) (.ok .null))
    (hes : List.Forall₂ (fun f e => f.1 = e.1 ∧ ∃ x, Gives W (p f.2 x) (.ok e.2)) fields es)
    (hall : ∀ e ∈ es, Entries.find? e.1 all = some e.2) :
    ∃ us, Gives W (runPresentFields omitted (fields.map fun f => (f.1, q f.2)) all) (.ok us) ∧
      Restores W (fields.map fun f => (f.1, p f.2)) us es := by
  induction hes with
  | nil => exact ⟨[], .pure _, .nil⟩
  | @cons f e rest es hfe hes ih =>
      obtain ⟨name, s⟩ := f
      obtain ⟨name', a⟩ := e
      obtain ⟨rfl, x, hx⟩ := hfe
      obtain ⟨us, hus, hrestores⟩ := ih (fun f hf => hback f (List.mem_cons_of_mem _ hf))
        (fun f hf => homitted f (List.mem_cons_of_mem _ hf))
        fun e he => hall e (List.mem_cons_of_mem _ he)
      have hfind : Entries.find? name all = some a := hall _ (List.mem_cons_self ..)
      simp only [List.map_cons, runPresentFields, hfind, Option.getD_some]
      split
      · rename_i hskip
        obtain ⟨hin, hnull⟩ := Bool.and_eq_true_iff.1 hskip
        cases a with
        | null =>
            have hin : name ∈ omitted := List.contains_iff_mem.1 hin
            exact ⟨us, hus, .missing (homitted _ (List.mem_cons_self ..) hin x _ hx) hrestores⟩
        | _ => cases hnull
      · obtain ⟨u, hu, hread⟩ := hback _ (List.mem_cons_self ..) x a hx
        exact ⟨(name, u) :: us, hu.bind (hus.bind (.pure _)), .present hread hrestores⟩

end

/-! ### Absence -/

section

variable {m : Machine}

theorem Operation.eq_noop_of_isNoop {op : Operation} (h : op.isNoop = true) : op = .noop := by
  cases op <;> first | rfl | cases h

/-- The shortcut of options changes nothing. -/
theorem absentOr_run (op : Operation) (v : Value) :
    (absentOr op).run m v = (Operation.unlessNull op).run m v := by
  rw [absentOr, Schemata.unlessAllNoop]
  split
  · rename_i hall
    have hnoop : op = .noop := Operation.eq_noop_of_isNoop (by simpa using hall)
    rw [hnoop]
    cases v <;> rfl
  · rfl

theorem unlessNull_run {op : Operation} {v : Value} (hv : v ≠ .null) :
    (Operation.unlessNull op).run m v = op.run m v := by
  cases v with
  | null => exact absurd rfl hv
  | _ => rfl

end

/-! ### Members of unions -/

/-- The members that are selected, under their positions, however they are run. -/
theorem selected_marked {α : Type} (wanted : Bool) (tag : α → Option Tag) (members : List α)
    (v : Value) : ∃ l : List (Nat × α),
      (∀ run : α → Runner, selected wanted (marked (members.map tag) v (members.map run)) =
        l.map fun x => (x.1, run x.2)) ∧
      l.map Prod.snd = members.filter fun x => admitted v (tag x) == wanted := by
  refine ⟨(members.zipIdx.filter fun x => admitted v (tag x.1) == wanted).map fun x => (x.2, x.1),
    fun run => ?_, ?_⟩
  · have htags : members.map tag = members.zipIdx.map fun x => tag x.1 := by
      conv_lhs => rw [← List.zipIdx_map_fst 0 members, List.map_map]
      rfl
    rw [selected, marked, htags, List.zipIdx_map, List.zip_map', List.map_map, List.filter_map,
      List.map_map, List.map_map]
    rfl
  · conv_rhs => rw [← List.zipIdx_map_fst 0 members, List.filter_map]
    rw [List.map_map]
    rfl

/-- What trial in order gives comes from one of those that are tried. -/
theorem tryEach_gives (hw : W w) {v a : Value} {members : List (Nat × Runner)}
    (h : ∀ x ∈ members, Steady W (x.2 v)) (hg : Gives W (tryEach v members) (.ok a)) :
    ∃ x ∈ members, Gives W (x.2 v) (.ok a) := by
  induction members with
  | nil => cases hg.of_pure hw
  | cons x rest ih =>
      have hrest : ∀ y ∈ rest, Steady W (y.2 v) := fun y hy => h y (List.mem_cons_of_mem _ hy)
      have htry := tryEach_steady hrest
      obtain ⟨r, hr, hg⟩ := Gives.of_bind hg hw (h x (List.mem_cons_self ..)) fun r => by
        cases r with
        | ok u => exact .pure _
        | error e => exact htry.attempt (fun _ => .pure _) fun _ => .pure _
      cases r with
      | ok u =>
          cases hg.of_pure hw
          exact ⟨x, List.mem_cons_self .., hr⟩
      | error e =>
          obtain ⟨u, hu, hg⟩ := Gives.of_attempt hg hw htry (fun _ => .pure _) fun _ => ⟨_, rfl⟩
          cases hg.of_pure hw
          obtain ⟨y, hy, hgives⟩ := ih hrest hu
          exact ⟨y, List.mem_cons_of_mem _ hy, hgives⟩

/-- **What a union parses, one of its members parses.** -/
theorem parseMembers_gives (hw : W w) {tags : List (Option Tag)} {members : List Runner}
    {v a : Value} (h : ∀ member ∈ members, Steady W (member v))
    (hg : Gives W (parseMembers tags members v) (.ok a)) :
    ∃ member ∈ members, Gives W (member v) (.ok a) := by
  have hselected : ∀ wanted, ∀ x ∈ selected wanted (marked tags v members), Steady W (x.2 v) :=
    fun wanted x hx => h x.2 (mem_of_mem_selected hx)
  have hpass : ∀ wanted u, Gives W (tryEach v (selected wanted (marked tags v members))) (.ok u) →
      ∃ member ∈ members, Gives W (member v) (.ok u) := by
    intro wanted u hu
    obtain ⟨x, hx, hgives⟩ := tryEach_gives hw (hselected wanted) hu
    exact ⟨x.2, mem_of_mem_selected hx, hgives⟩
  have hsecond := tryEach_steady (hselected false)
  obtain ⟨r, hr, hg⟩ := Gives.of_bind hg hw (tryEach_steady (hselected true)) fun r => by
    cases r with
    | ok u => exact .pure _
    | error e => exact hsecond.attempt (fun _ => .pure _) fun _ => .pure _
  cases r with
  | ok u =>
      cases hg.of_pure hw
      exact hpass true _ hr
  | error first =>
      obtain ⟨u, hu, hg⟩ := Gives.of_attempt hg hw hsecond (fun _ => .pure _) fun _ => ⟨_, rfl⟩
      cases hg.of_pure hw
      exact hpass false _ hu

end Schemata
