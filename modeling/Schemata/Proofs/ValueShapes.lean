/-
**The shape of a value.**

A value has the shape of another one when it has the same scalars, with numbers compared as binary64
numbers, arrays of the same lengths, and under each key of an object a value of the shape in
question, null standing for a missing one.  Other keys are dropped, unless the policy is the strict
one.

A literal, a tuple and an object decide such a shape when what is below them decides the parts of it.
They come to an end on every value, and keep the value that they are made of.

Main definitions:

* `Schemata.Value.hasShape`, `Schemata.Value.fitted` — **whether a value has the shape of another
  one**, and what is left of it then;
* `Schemata.Decides` — computations that come to a value or to some error;
* `Schemata.Operation.Fits`, `Schemata.Operation.Keeps` — operations that decide a shape, and
  operations that keep a value.

Main results:

* `Schemata.Value.fits_self` — every value has its own shape;
* `Schemata.Operation.tuple_fits`, `Schemata.Operation.parseObject_fits` — **arrays item by item,
  and objects key by key**;
* `Schemata.Operation.tuple_keeps`, `Schemata.Operation.serializeObject_keeps` — the other way round.
-/

import Schemata.Proofs.Children
import Schemata.Proofs.Literals
import Schemata.Proofs.ObjectFields

set_option relaxedAutoImplicit false
set_option autoImplicit false

namespace Schemata

/-! ### Shapes -/

namespace Value

mutual

/-- **Whether a value has the shape of another one**: the same scalars, arrays as long with matching
items, and objects with a matching value under each key, null standing for a missing one, and with
no other key under the strict policy. -/
def hasShape (policy : UnknownKeys) : Value → Value → Bool
  | .null, .null => true
  | .bool a, .bool b => a == b
  | .number a, .number b => b.toBinary64.same a.toBinary64
  | .string a, .string b => a == b
  | .array items, .array others => itemsHaveShape policy items others
  | .object entries, .object others =>
      entriesHaveShape policy entries others && (decide (policy = .strip) ||
        (Entries.keys others).all fun key => (Entries.keys entries).contains key)
  | _, _ => false

/-- Shapes item by item. -/
def itemsHaveShape (policy : UnknownKeys) : List Value → List Value → Bool
  | [], [] => true
  | v :: rest, x :: others => hasShape policy v x && itemsHaveShape policy rest others
  | _, _ => false

/-- Shapes key by key. -/
def entriesHaveShape (policy : UnknownKeys) : List (String × Value) → List (String × Value) → Bool
  | [], _ => true
  | (key, v) :: rest, others =>
      hasShape policy v (Entries.valueAt key others) && entriesHaveShape policy rest others

end

mutual

/-- **What is left of a value in the shape of another one**: its scalars, in objects with the keys of
the other one, in their order. -/
def fitted : Value → Value → Value
  | .array items, .array others => .array (fittedItems items others)
  | .object entries, .object others => .object (fittedEntries entries others)
  | _, x => x

/-- What is left item by item. -/
def fittedItems : List Value → List Value → List Value
  | v :: rest, x :: others => fitted v x :: fittedItems rest others
  | _, _ => []

/-- What is left key by key. -/
def fittedEntries : List (String × Value) → List (String × Value) → List (String × Value)
  | [], _ => []
  | (key, v) :: rest, others =>
      (key, fitted v (Entries.valueAt key others)) :: fittedEntries rest others

end

/-- What a value comes to in the shape of another one, if it has it. -/
def fit? (policy : UnknownKeys) (v x : Value) : Option Value :=
  if v.hasShape policy x then some (v.fitted x) else none

/-- What items come to in the shape of others, if they have it. -/
def itemsFit? (policy : UnknownKeys) (items others : List Value) : Option (List Value) :=
  if itemsHaveShape policy items others then some (fittedItems items others) else none

/-- Values that are neither arrays nor objects. -/
def IsScalar : Value → Prop
  | .array _ | .object _ => False
  | _ => True

section

variable {policy : UnknownKeys} {v : Value}

/-- A scalar stays as it is when it is matched as a literal. -/
theorem IsScalar.fit? (h : v.IsScalar) (policy : UnknownKeys) (x : Value) :
    v.fit? policy x = if (Literal.ofValue v).accepts x then some x else none := by
  cases v with
  | array | object => cases h
  | _ => cases x <;> rfl

theorem itemsHaveShape_length : ∀ {items others : List Value},
    itemsHaveShape policy items others = true → items.length = others.length
  | [], [], _ => rfl
  | _ :: _, _ :: _, h => congrArg (· + 1) (itemsHaveShape_length (Bool.and_eq_true_iff.1 h).2)

theorem itemsFit?_cons (x : Value) (items others : List Value) :
    itemsFit? policy (v :: items) (x :: others) = (v.fit? policy x).bind fun a =>
      (itemsFit? policy items others).bind fun as => some (a :: as) := by
  rw [itemsFit?, itemsHaveShape, fittedItems, Value.fit?, itemsFit?]
  cases v.hasShape policy x <;> cases itemsHaveShape policy items others <;> rfl

/-- Entries have a shape when their values have it, key by key. -/
theorem entriesHaveShape_eq (entries others : List (String × Value)) :
    entriesHaveShape policy entries others = itemsHaveShape policy (entries.map Prod.snd)
      (entries.map fun e => Entries.valueAt e.1 others) := by
  induction entries with
  | nil => rfl
  | cons e rest ih => rw [entriesHaveShape, ih]; rfl

theorem fittedEntries_eq (entries others : List (String × Value)) :
    fittedEntries entries others = (Entries.keys entries).zip (fittedItems (entries.map Prod.snd)
      (entries.map fun e => Entries.valueAt e.1 others)) := by
  induction entries with
  | nil => rfl
  | cons e rest ih => rw [fittedEntries, ih]; rfl

mutual

/-- **Every value has its own shape**, and is what is left of it. -/
theorem fits_self (policy : UnknownKeys) : ∀ {v : Value}, v.WellFormed → v.hasShape policy v = true ∧ v.fitted v = v
  | .null, _ => ⟨rfl, rfl⟩
  | .bool b, _ => ⟨beq_self_eq_true b, rfl⟩
  | .number _, h => ⟨Binary64.same_self (Number.toBinary64_finite h), rfl⟩
  | .string s, _ => ⟨beq_self_eq_true s, rfl⟩
  | .array _, h => (itemsFit_self policy h).imp id (congrArg Value.array)
  | .object entries, h => by
      obtain ⟨hshape, hfitted⟩ := entriesFit_self policy h.2 fun e he =>
        (Entries.find?_eq_some_iff h.1).2 he
      refine ⟨?_, congrArg Value.object hfitted⟩
      rw [hasShape, hshape, Bool.true_and, Bool.or_eq_true_iff]
      exact .inr (List.all_eq_true.2 fun key hkey => List.contains_iff_mem.2 hkey)

theorem itemsFit_self (policy : UnknownKeys) : ∀ {items : List Value}, WellFormedItems items →
    itemsHaveShape policy items items = true ∧ fittedItems items items = items
  | [], _ => ⟨rfl, rfl⟩
  | v :: rest, h => by
      obtain ⟨hv, hfv⟩ := fits_self policy h.1
      obtain ⟨hrest, hfrest⟩ := itemsFit_self policy h.2
      exact ⟨by rw [itemsHaveShape, hv, hrest]; rfl, by rw [fittedItems, hfv, hfrest]⟩

theorem entriesFit_self (policy : UnknownKeys) : ∀ {entries all : List (String × Value)}, WellFormedEntries entries →
    (∀ e ∈ entries, Entries.find? e.1 all = some e.2) →
      entriesHaveShape policy entries all = true ∧ fittedEntries entries all = entries
  | [], _, _, _ => ⟨rfl, rfl⟩
  | (key, v) :: rest, all, h, hall => by
      have hfound : Entries.valueAt key all = v := by
        rw [Entries.valueAt, hall _ (List.mem_cons_self ..)]
        rfl
      obtain ⟨hv, hfv⟩ := fits_self policy h.1
      obtain ⟨hrest, hfrest⟩ := entriesFit_self policy h.2 fun e he => hall e (List.mem_cons_of_mem _ he)
      exact ⟨by rw [entriesHaveShape, hfound, hv, hrest]; rfl,
        by rw [fittedEntries, hfound, hfv, hfrest]⟩

end

end

end Value

/-! ### Results that are decided -/

/-- **The computation comes to a value, or to some error for none.** -/
def Decides {α : Type} (W : World → Prop) (c : Run (Except Error α)) (o : Option α) : Prop :=
  ∃ r, Gives W c r ∧ r.toOption = o

section

variable {α β : Type} {W : World → Prop}

theorem Decides.ok (a : α) : Decides W (pure (.ok a)) (some a) := ⟨_, .pure _, rfl⟩

theorem Decides.error (e : Error) : Decides W (pure (.error e) : Run (Except Error α)) none :=
  ⟨_, .pure _, rfl⟩

/-- Success goes on, and failure stays failure. -/
theorem Decides.attempt {c : Run (Except Error α)} {o : Option α}
    {f : Except Error α → Run (Except Error β)} {o' : α → Option β} (hc : Decides W c o)
    (he : ∀ e, Decides W (f (.error e)) none) (ha : ∀ a, Decides W (f (.ok a)) (o' a)) :
    Decides W (c >>= f) (o.bind o') := by
  obtain ⟨r, hr, rfl⟩ := hc
  cases r with
  | error e =>
      obtain ⟨r', hr', ho⟩ := he e
      exact ⟨r', hr.bind hr', ho⟩
  | ok a =>
      obtain ⟨r', hr', ho⟩ := ha a
      exact ⟨r', hr.bind hr', ho⟩

/-- Children that are decided one by one. -/
theorem runEach_decides {policy : UnknownKeys} : ∀ {children : List (Segment × Run Result)}
    {vs xs : List Value}, vs.length = xs.length →
    List.Forall₂ (fun c p => Decides W c (Value.fit? policy p.1 p.2)) (children.map Prod.snd)
      (vs.zip xs) →
    Decides W (runEach children) (Value.itemsFit? policy vs xs)
  | [], [], [], _, _ => .ok _
  | (s, c) :: rest, v :: vs, x :: xs, hlength, h => by
      obtain ⟨hc, hrest⟩ := List.forall₂_cons.1 h
      have ih := runEach_decides (Nat.succ.inj hlength) hrest
      rw [Value.itemsFit?_cons]
      exact hc.attempt (fun e => .error _) fun a => ih.attempt (fun e => .error _) fun as => .ok _
  | [], [], _ :: _, hlength, _ => by cases hlength
  | [], _ :: _, [], hlength, _ => by cases hlength
  | [], _ :: _, _ :: _, _, h => by cases h
  | _ :: _, [], _, _, h => by cases h
  | _ :: _, _ :: _, [], hlength, _ => by cases hlength

/-- Related lists beside the same values. -/
theorem forall₂_zip {γ : Type} {Q : α → β → Prop} {R : α × γ → β × γ → Prop} {as : List α}
    {bs : List β} (h : List.Forall₂ Q as bs) : ∀ {cs : List γ},
    (∀ a b, ∀ c ∈ cs, Q a b → R (a, c) (b, c)) → List.Forall₂ R (as.zip cs) (bs.zip cs) := by
  induction h with
  | nil => exact fun _ => .nil
  | cons hab _ ih =>
      intro cs hR
      cases cs with
      | nil => exact .nil
      | cons c cs =>
          exact .cons (hR _ _ c (List.mem_cons_self ..) hab)
            (ih fun a b c hc => hR a b c (List.mem_cons_of_mem _ hc))

section

variable {m : Machine} {policy : UnknownKeys} {x : Value}

/-- An operation decides whether values have the shape of a value. -/
def Operation.Fits (W : World → Prop) (m : Machine) (policy : UnknownKeys) (op : Operation)
    (v : Value) : Prop :=
  ∀ x : Value, x.WellFormed → Decides W (op.run m x) (v.fit? policy x)

/-- A literal decides the shape of its scalar. -/
theorem Operation.literal_fits {v : Value} (h : v.IsScalar) :
    (Operation.literal .parsing (Literal.ofValue v)).Fits W m policy v := by
  intro x _
  rw [h.fit? policy x, Operation.run]
  split
  · exact .ok _
  · exact .error _

/-- A tuple decides the shape of its array: the length, and the items one by one. -/
theorem Operation.tuple_fits {ops : List Operation} {items : List Value}
    (expected : Thunk String) (h : List.Forall₂ (fun op v => op.Fits W m policy v) ops items) :
    (Operation.tuple .parsing expected ops).Fits W m policy (.array items) := by
  intro x hx
  cases x with
  | array others =>
      have hlength := h.length_eq
      have hothers := Value.wellFormedItems_iff.1 hx
      have hfit : (Value.array items).fit? policy (.array others) =
          (Value.itemsFit? policy items others).bind fun as => some (.array as) := by
        rw [Value.fit?, Value.itemsFit?, Value.hasShape, Value.fitted]
        cases Value.itemsHaveShape policy items others <;> rfl
      rw [hfit]
      simp only [Operation.run, sizeError?]
      by_cases hsize : ops.length = others.length
      · rw [if_pos hsize]
        refine Decides.attempt (runEach_decides (hlength.symm.trans hsize) ?_)
          (fun e => .error _) fun as => .ok _
        rw [map_snd_indexed, zipWith_runners, List.forall₂_map_left_iff]
        exact forall₂_zip h fun op v y hy hfits => hfits y (hothers y hy)
      · have hnot : Value.itemsFit? policy items others = none := by
          rw [Value.itemsFit?, if_neg]
          exact fun hshape => hsize (hlength.trans (Value.itemsHaveShape_length hshape))
        rw [if_neg hsize, hnot]
        exact .error _
  | _ => exact .error _

/-- What an object with certain keys comes to in the shape of another one. -/
theorem Value.fit?_object {entries others : List (String × Value)}
    (hnodup : (Entries.keys others).Nodup) :
    (Value.object entries).fit? policy (.object others) =
      (itemsFit? policy (entries.map Prod.snd)
        (entries.map fun e => Entries.valueAt e.1 others)).bind fun as =>
          if excessError? policy (Entries.removeAll (Entries.keys entries) others) = none then
            some (.object ((Entries.keys entries).zip as))
          else none := by
  have hexcess : excessError? policy (Entries.removeAll (Entries.keys entries) others) = none ↔
      (decide (policy = .strip) || (Entries.keys others).all fun key =>
        (Entries.keys entries).contains key) = true := by
    rw [excessError?_eq_none_iff, Entries.removeAll_eq_nil_iff hnodup]
    cases policy <;> simp
  rw [fit?, hasShape, fitted, itemsFit?, entriesHaveShape_eq, fittedEntries_eq]
  simp only [hexcess]
  cases itemsHaveShape policy (entries.map Prod.snd)
    (entries.map fun e => Entries.valueAt e.1 others)
  · rfl
  · rw [Bool.true_and]
    rfl

/-- An object decides the shape of its object: each field on the value under its name, and under the
strict policy the other keys. -/
theorem Operation.parseObject_fits {fields : List (String × Schema)}
    {entries : List (String × Value)} (expected : Thunk String) (below : Schema → Operation)
    (hnames : (Entries.keys fields).Nodup)
    (h : List.Forall₂ (fun f e => f.1 = e.1 ∧ (below f.2).Fits W m policy e.2) fields entries) :
    (Operation.parseObject expected (fields.map fun f => (f.1, below f.2)) policy).Fits W m policy
      (.object entries) := by
  intro x hx
  cases x with
  | object others =>
      obtain ⟨hnodup, hothers⟩ := hx
      have hothers := Value.wellFormedEntries_iff.1 hothers
      have hkeys : Entries.keys entries = Entries.keys fields := Entries.keys_eq_of_forall₂ h
      have hchildren : Decides W (runEach ((fieldPlaces fields others).map fun p =>
          (p.segment, (below p.schema).run m p.input))) (Value.itemsFit? policy
            (entries.map Prod.snd) (entries.map fun e => Entries.valueAt e.1 others)) := by
        refine runEach_decides (by simp) ?_
        rw [fieldPlaces_eq_map hnames hnodup, List.map_map, List.map_map, List.zip_map',
          List.forall₂_map_left_iff, List.forall₂_map_right_iff]
        refine h.imp fun f e hfe => ?_
        have hfits := hfe.2 _ (Value.field_wellFormed hothers f.1)
        rwa [← hfe.1]
      rw [Value.fit?_object hnodup, hkeys]
      simp only [Operation.run, fieldRunners_map m below, runFields_places fun s => (below s).run m,
        bind_assoc]
      refine hchildren.attempt (fun e => ?_) fun as => ?_
      · simp only [pure_bind]
        exact .error _
      · simp only [pure_bind]
        rw [← Entries.removeAll]
        cases excessError? policy (Entries.removeAll (Entries.keys fields) others) with
        | none => exact .ok _
        | some e => exact .error _
  | _ => exact .error _

end

/-! ### What a value keeps of itself -/

section

variable {m : Machine}

/-- An operation keeps a value as it is. -/
def Operation.Keeps (W : World → Prop) (m : Machine) (op : Operation) (v : Value) : Prop :=
  Gives W (op.run m v) (.ok v)

/-- The literal of a value keeps it. -/
theorem Operation.literal_keeps {direction : Direction} {v : Value} (hscalar : v.IsScalar)
    (h : v.WellFormed) : (Operation.literal direction (Literal.ofValue v)).Keeps W m v := by
  have haccepts : (Literal.ofValue v).accepts v = true := by
    have hself := Value.fits_self .strip h
    have hfit := hscalar.fit? .strip v
    rw [Value.fit?, if_pos hself.1] at hfit
    by_contra hnot
    rw [if_neg hnot] at hfit
    cases hfit
  rw [Operation.Keeps, Operation.run, if_pos haccepts]
  exact .pure _

/-- Children that all give their values. -/
theorem runEach_gives {children : List (Segment × Run Result)} (vs : List Value)
    (h : List.Forall₂ (fun c v => Gives W c (.ok v)) (children.map Prod.snd) vs) :
    Gives W (runEach children) (.ok vs) := by
  induction children generalizing vs with
  | nil =>
      cases h
      exact .pure _
  | cons c rest ih =>
      cases h with
      | cons hc hrest => exact hc.bind ((ih _ hrest).bind (.pure _))

/-- A tuple keeps its array, whether it does anything or not. -/
theorem Operation.tuple_keeps {ops : List Operation} {items : List Value}
    (expected : Thunk String) (h : List.Forall₂ (fun op v => op.Keeps W m v) ops items) :
    (unlessAllNoop ops (.tuple .serializing expected ops)).Keeps W m (.array items) := by
  rw [unlessAllNoop]
  split
  · exact .pure _
  · rw [Operation.Keeps]
    simp only [Operation.run, sizeError?, h.length_eq, if_true, zipWith_runners]
    refine Gives.bind (runEach_gives items ?_) (.pure _)
    rw [map_snd_indexed, List.forall₂_map_left_iff]
    clear * - h
    induction h with
    | nil => exact .nil
    | cons hkeeps _ ih => exact .cons hkeeps ih

/-- Fields none of which is left out. -/
theorem runPresentFields_gives {fields : List (String × Runner)} {all : List (String × Value)}
    (entries : List (String × Value))
    (h : List.Forall₂ (fun f e => f.1 = e.1 ∧ Gives W (f.2 e.2) (.ok e.2)) fields entries)
    (hall : ∀ e ∈ entries, Entries.find? e.1 all = some e.2) :
    Gives W (runPresentFields [] fields all) (.ok entries) := by
  induction h with
  | nil => exact .pure _
  | @cons f e _ _ hfe _ ih =>
      obtain ⟨name, field⟩ := f
      obtain ⟨name', v⟩ := e
      obtain ⟨rfl, hv⟩ := hfe
      have hfind : Entries.find? name all = some v := hall _ (List.mem_cons_self ..)
      have hrest := ih fun e he => hall e (List.mem_cons_of_mem _ he)
      simp only [runPresentFields, hfind, Option.getD_some, List.contains_nil, Bool.false_and]
      exact hv.bind (hrest.bind (.pure _))

/-- An object keeps its object, whether it does anything or not. -/
theorem Operation.serializeObject_keeps {ops : List (String × Operation)}
    {entries : List (String × Value)} (expected : Thunk String)
    (hnodup : (Entries.keys entries).Nodup)
    (h : List.Forall₂ (fun f e => f.1 = e.1 ∧ f.2.Keeps W m e.2) ops entries) :
    (objectSerializer expected ops []).Keeps W m (.object entries) := by
  rw [objectSerializer]
  split
  · exact .pure _
  · rw [Operation.Keeps]
    simp only [Operation.run, fieldRunners_eq_map]
    refine Gives.bind (runPresentFields_gives entries ?_ fun e he =>
      (Entries.find?_eq_some_iff hnodup).2 he) (.pure _)
    rw [List.forall₂_map_left_iff]
    exact h

end

end

end Schemata
