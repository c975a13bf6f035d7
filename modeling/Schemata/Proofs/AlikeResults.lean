/-
**Results that are alike.**

Literals are equal when they are the same constant, and the two zeros are one number.  So an
operation that is compiled with another, equal literal accepts the same values, writes the same
value and is chosen by the same tags.  Only its errors keep the literal as it is, and may show a
zero of the other sign.

Errors are alike when this is the only difference.  Alike errors say the same, and no comparison of
errors tells them apart.  Operations are compared constructor by constructor: those that are put
together of operations with alike results have alike results.

Main definitions:

* `Schemata.Literal.Alike` — literals that differ at most in the sign of a zero;
* `Schemata.Error.Alike` — **errors that differ at most in the literals that were expected**;
* `Schemata.SameOr` — the same value, or errors that are related;
* `Schemata.GiveAlike` — two computations that both end, with related results;
* `Schemata.OperationsAlike` — operations with alike results on every value.

Main results:

* `Schemata.Literal.alike_of_equal` — equal primitive literals are alike;
* `Schemata.Error.Alike.message`, `Schemata.Error.Alike.equal` — what alike errors share;
* `Schemata.parseMembers_alike`, `Schemata.runFields_alike` and their companions — children, fields
  and members;
* `Schemata.OperationsAlike.array` and its companions — one congruence for each operation.
-/

import Schemata.Proofs.Simulation

set_option relaxedAutoImplicit false
set_option autoImplicit false

namespace Schemata

/-! ### Literals -/

/-- Numbers that are the same are equal, or both are zero. -/
theorem Binary64.eq_or_zero_of_same {x y : Binary64} (h : x.same y = true) :
    x = y ∨ ∃ a b, x = .finite a 0 ∧ y = .finite b 0 := by
  cases x with
  | nan =>
      cases y with
      | nan => exact .inl rfl
      | _ => cases h
  | infinity a =>
      cases y with
      | infinity b => exact .inl (congrArg _ (eq_of_beq h))
      | _ => cases h
  | finite a m =>
      cases y with
      | finite b n =>
          simp only [same, numEq, Bool.and_eq_true, beq_iff_eq, Bool.or_eq_true] at h
          obtain ⟨rfl, rfl | rfl⟩ := h
          · exact .inl rfl
          · exact .inr ⟨a, b, rfl, rfl⟩
      | _ => cases h

/-- What is the same as one zero is the same as the other. -/
theorem Binary64.same_zero (a b : Bool) (x : Binary64) :
    x.same (.finite a 0) = x.same (.finite b 0) := by
  cases x with
  | finite c k =>
      rw [Bool.eq_iff_iff]
      simp only [same, numEq, Bool.and_eq_true, beq_iff_eq, Bool.or_eq_true]
      constructor <;> exact fun hk => ⟨hk.1, .inr hk.1⟩
  | _ => rfl

theorem Binary64.zero_same (a b : Bool) (x : Binary64) :
    (Binary64.finite a 0).same x = (Binary64.finite b 0).same x := by
  cases x <;> simp [same, numEq]

/-- **Literals that differ at most in the sign of a zero.** -/
inductive Literal.Alike : Literal → Literal → Prop
  | refl (l : Literal) : Literal.Alike l l
  | zero (a b : Bool) : Literal.Alike (.number (.finite a 0)) (.number (.finite b 0))

namespace Literal

/-- **Equal primitive literals are alike.** -/
theorem alike_of_equal {l l' : Literal} (hl : l.isPrimitive = true) (h : l.equal l' = true) :
    l.Alike l' := by
  cases l with
  | null =>
      cases l' with
      | null => exact .refl _
      | _ => cases h
  | bool a =>
      cases l' with
      | bool b => exact eq_of_beq h ▸ .refl _
      | _ => cases h
  | number x =>
      cases l' with
      | number y =>
          obtain rfl | ⟨a, b, rfl, rfl⟩ := Binary64.eq_or_zero_of_same h
          · exact .refl _
          · exact .zero a b
      | _ => cases h
  | string a =>
      cases l' with
      | string b => exact eq_of_beq h ▸ .refl _
      | _ => cases h
  | composite v => cases hl

namespace Alike

variable {l l' : Literal}

/-- Both zeros are written as the integer. -/
theorem numberValue_zero (a : Bool) : numberValue (.finite a 0) = .number (.int 0) := by
  have hbelow : ∀ a, (Binary64.finite a 0).belowTwoPow63 = true := by decide +kernel
  cases a <;> simp [numberValue, Binary64.isIntegral, Binary64.truncate, hbelow]

theorem toValue (h : l.Alike l') : l.toValue = l'.toValue := by
  cases h with
  | refl => rfl
  | zero a b => exact (numberValue_zero a).trans (numberValue_zero b).symm

theorem text (h : l.Alike l') : l.text = l'.text := congrArg Value.text h.toValue

/-- Literals that are alike accept the same values. -/
theorem accepts (h : l.Alike l') (v : Value) : l.accepts v = l'.accepts v := by
  cases h with
  | refl => rfl
  | zero a b =>
      cases v with
      | number n => exact n.toBinary64.same_zero a b
      | _ => rfl

/-- Literals that are alike equal the same literals. -/
theorem equal_left (h : l.Alike l') (other : Literal) : l.equal other = l'.equal other := by
  cases h with
  | refl => rfl
  | zero a b =>
      cases other with
      | number x => exact x.zero_same a b
      | _ => rfl

/-- What equals itself equals what is alike. -/
theorem equal (h : l.Alike l') (hl : l.equal l = true) : l.equal l' = true := by
  cases h with
  | refl => exact hl
  | zero a b => simp [Literal.equal, Binary64.same, Binary64.numEq]

end Alike

end Literal

/-! ### Tags -/

/-- Tags at the same place, for literals that are alike. -/
structure Tag.Alike (t t' : Tag) : Prop where
  field : t.field = t'.field
  literal : t.literal.Alike t'.literal

/-- A value carries both of two tags that are alike, or none of them. -/
theorem Tag.Alike.admits {t t' : Tag} (h : t.Alike t') (v : Value) : t.admits v = t'.admits v := by
  simp only [Tag.admits, h.field, h.literal.equal_left]

theorem admitted_alike {t t' : Option Tag} (h : Option.Rel Tag.Alike t t') (v : Value) :
    admitted v t = admitted v t' := by
  cases h with
  | none => rfl
  | some h => exact h.admits v

/-! ### Errors -/

mutual

/-- Reasons that differ at most in the literals that were expected. -/
inductive Reason.Alike : Reason → Reason → Prop
  | refl (r : Reason) : Reason.Alike r r
  | literal {l l' : Literal} (h : l.Alike l') (received : Value) :
      Reason.Alike (.invalidLiteral l received) (.invalidLiteral l' received)
  | union {es es' : List Error} (h : ErrorsAlike es es') :
      Reason.Alike (.invalidUnion es) (.invalidUnion es')

/-- **Errors that differ at most in the literals that were expected**, and in these at most in the
sign of a zero. -/
inductive Error.Alike : Error → Error → Prop
  | mk {r r' : Reason} (h : Reason.Alike r r') (direction : Direction) (path : Path) :
      Error.Alike ⟨r, direction, path⟩ ⟨r', direction, path⟩

/-- Errors that are alike one by one. -/
inductive ErrorsAlike : List Error → List Error → Prop
  | nil : ErrorsAlike [] []
  | cons {e e' : Error} {es es' : List Error} (h : Error.Alike e e') (hrest : ErrorsAlike es es') :
      ErrorsAlike (e :: es) (e' :: es')

end

theorem ErrorsAlike.of_forall₂ {es es' : List Error} (h : List.Forall₂ Error.Alike es es') :
    ErrorsAlike es es' := by
  induction h with
  | nil => exact .nil
  | cons he _ ih => exact .cons he ih

namespace Error.Alike

variable {e e' : Error} {r r' : Reason}

theorem refl : ∀ e : Error, e.Alike e
  | ⟨reason, direction, path⟩ => .mk (.refl reason) direction path

theorem atRoot (h : r.Alike r') (direction : Direction) :
    (Error.atRoot r direction).Alike (Error.atRoot r' direction) := .mk h direction Path.root

theorem prepend (h : e.Alike e') (s : Segment) : (e.prepend s).Alike (e'.prepend s) := by
  cases h with
  | mk h direction path => exact .mk h direction (path.prepend s)

end Error.Alike

mutual

theorem Reason.Alike.message : ∀ {r r' : Reason}, r.Alike r' → r.message = r'.message
  | _, _, .refl _ => rfl
  | _, _, .literal h v =>
      congrArg (fun text => "Expected " ++ text ++ ", received " ++ describeReceived v) h.text
  | _, _, .union h =>
      congrArg (fun lines => "Invalid union with following errors" ++
        String.join (collapseRuns lines)) h.memberLines

theorem Error.Alike.memberLine : ∀ {e e' : Error}, e.Alike e' → e.memberLine = e'.memberLine
  | _, _, .mk h _ _ => by rw [Error.memberLine, Error.memberLine, h.message]

theorem ErrorsAlike.memberLines :
    ∀ {es es' : List Error}, ErrorsAlike es es' → memberLines es = memberLines es'
  | _, _, .nil => rfl
  | _, _, .cons h hrest => by
      rw [Schemata.memberLines, Schemata.memberLines, h.memberLine, hrest.memberLines]

end

/-- **Errors that are alike say the same.** -/
theorem Error.Alike.message {e e' : Error} (h : e.Alike e') : e.message = e'.message := by
  cases h with
  | mk h direction path => rw [Error.message, Error.message, h.message]

mutual

theorem Reason.Alike.equal :
    ∀ {r r' : Reason}, r.Alike r' → r.equal r = true → r.equal r' = true
  | _, _, .refl _, hr => hr
  | _, _, .literal h _, hr => by
      rw [Reason.equal, Bool.and_eq_true] at hr ⊢
      exact ⟨h.equal hr.1, hr.2⟩
  | _, _, .union h, hr => by
      rw [Reason.equal] at hr ⊢
      exact h.equal hr

/-- **Errors that are alike are equal**, as long as they equal themselves: not-a-number, which is no
value of a document, would not. -/
theorem Error.Alike.equal : ∀ {e e' : Error}, e.Alike e' → e.equal e = true → e.equal e' = true
  | _, _, .mk h _ _, he => by
      simp only [Error.equal, Bool.and_eq_true] at he ⊢
      exact ⟨⟨h.equal he.1.1, he.1.2⟩, he.2⟩

theorem ErrorsAlike.equal : ∀ {es es' : List Error}, ErrorsAlike es es' →
    equalErrors es es = true → equalErrors es es' = true
  | _, _, .nil, _ => rfl
  | _, _, .cons h hrest, hes => by
      rw [equalErrors, Bool.and_eq_true] at hes ⊢
      exact ⟨h.equal hes.1, hrest.equal hes.2⟩

end

/-! ### Computations -/

/-- The same value, or errors that are related. -/
inductive SameOr {ε α : Type} (E : ε → ε → Prop) : Except ε α → Except ε α → Prop
  | ok (a : α) : SameOr E (.ok a) (.ok a)
  | error {e e' : ε} : E e e' → SameOr E (.error e) (.error e')

/-- **Both computations end**, with related results, and neither leaves the set of worlds. -/
def GiveAlike {α : Type} (W : World → Prop) (R : α → α → Prop) (c d : Run α) : Prop :=
  ∃ a b, Gives W c a ∧ Gives W d b ∧ R a b

section

variable {α β ε : Type} {W : World → Prop} {R : α → α → Prop} {S : β → β → Prop}
  {E : ε → ε → Prop}

namespace GiveAlike

theorem pure {a b : α} (h : R a b) : GiveAlike W R (pure a) (pure b) := ⟨a, b, .pure a, .pure b, h⟩

/-- **Sequencing.** -/
theorem bind {c d : Run α} {f g : α → Run β} (h : GiveAlike W R c d)
    (hf : ∀ a b, R a b → GiveAlike W S (f a) (g b)) : GiveAlike W S (c >>= f) (d >>= g) := by
  obtain ⟨a, b, hc, hd, hab⟩ := h
  obtain ⟨x, y, hx, hy, hxy⟩ := hf a b hab
  exact ⟨x, y, hc.bind hx, hd.bind hy, hxy⟩

/-- What is done with a value, or with an error. -/
theorem attempt {c d : Run (Except ε α)} {f g : Except ε α → Run β}
    (h : GiveAlike W (SameOr E) c d)
    (he : ∀ e e', E e e' → GiveAlike W S (f (.error e)) (g (.error e')))
    (ha : ∀ a, GiveAlike W S (f (.ok a)) (g (.ok a))) : GiveAlike W S (c >>= f) (d >>= g) :=
  h.bind fun _ _ hr => match hr with
    | .ok a => ha a
    | .error hee => he _ _ hee

end GiveAlike

/-- Alike results of children, fields and members. -/
abbrev ComeAlike (W : World → Prop) (c d : Run (Except Error α)) : Prop :=
  GiveAlike W (SameOr Error.Alike) c d

end

/-! ### Children, fields and members -/

section

variable {W : World → Prop}

theorem runEach_alike {cs ds : List (Segment × Run Result)}
    (h : List.Forall₂ (fun c d => c.1 = d.1 ∧ ComeAlike W c.2 d.2) cs ds) :
    ComeAlike W (runEach cs) (runEach ds) := by
  induction h with
  | nil => exact .pure (.ok _)
  | @cons c d _ _ hcd _ ih =>
      obtain ⟨s, child⟩ := c
      obtain ⟨s', child'⟩ := d
      obtain ⟨rfl, hcd⟩ := hcd
      refine hcd.attempt (fun e e' he => .pure (.error (he.prepend s))) fun v => ?_
      exact ih.attempt (fun e e' he => .pure (.error he)) fun vs => .pure (.ok _)

theorem runFields_alike {fs gs : List (String × Runner)}
    (h : List.Forall₂ (fun f g => f.1 = g.1 ∧ ∀ v, ComeAlike W (f.2 v) (g.2 v)) fs gs) :
    ∀ entries, ComeAlike W (runFields fs entries) (runFields gs entries) := by
  induction h with
  | nil => exact fun _ => .pure (.ok _)
  | @cons f g _ _ hfg _ ih =>
      intro entries
      obtain ⟨name, field⟩ := f
      obtain ⟨name', field'⟩ := g
      obtain ⟨rfl, hfg⟩ := hfg
      refine (hfg _).attempt (fun e e' he => .pure (.error (he.prepend _))) fun v => ?_
      exact (ih _).attempt (fun e e' he => .pure (.error he)) fun vs => .pure (.ok _)

theorem runPresentFields_alike (omitted : List String) {fs gs : List (String × Runner)}
    (h : List.Forall₂ (fun f g => f.1 = g.1 ∧ ∀ v, ComeAlike W (f.2 v) (g.2 v)) fs gs)
    (entries : List (String × Value)) :
    ComeAlike W (runPresentFields omitted fs entries) (runPresentFields omitted gs entries) := by
  induction h with
  | nil => exact .pure (.ok _)
  | @cons f g _ _ hfg _ ih =>
      obtain ⟨name, field⟩ := f
      obtain ⟨name', field'⟩ := g
      obtain ⟨rfl, hfg⟩ := hfg
      simp only [runPresentFields]
      split
      · exact ih
      · refine (hfg _).attempt (fun e e' he => .pure (.error (he.prepend _))) fun v => ?_
        exact ih.attempt (fun e e' he => .pure (.error he)) fun vs => .pure (.ok _)

/-- Errors of members at the same positions. -/
abbrev MemberErrorsAlike : List (Nat × Error) → List (Nat × Error) → Prop :=
  List.Forall₂ fun x y => x.1 = y.1 ∧ x.2.Alike y.2

theorem tryEach_alike {v : Value} {xs ys : List (Nat × Runner)}
    (h : List.Forall₂ (fun x y => x.1 = y.1 ∧ ComeAlike W (x.2 v) (y.2 v)) xs ys) :
    GiveAlike W (SameOr MemberErrorsAlike) (tryEach v xs) (tryEach v ys) := by
  induction h with
  | nil => exact .pure (.error .nil)
  | @cons x y _ _ hxy _ ih =>
      obtain ⟨i, member⟩ := x
      obtain ⟨j, member'⟩ := y
      obtain ⟨rfl, hxy⟩ := hxy
      refine hxy.attempt (fun e e' he => ?_) fun a => .pure (.ok a)
      exact ih.attempt (fun es es' hes => .pure (.error (.cons ⟨rfl, he⟩ hes)))
        fun a => .pure (.ok a)

/-- Tags that admit alike mark alike. -/
theorem marked_congr {tags tags' : List (Option Tag)} {v : Value}
    (h : tags.map (admitted v) = tags'.map (admitted v)) (members : List Runner) :
    marked tags v members = marked tags' v members := by
  have hmarked : ∀ tags : List (Option Tag), marked tags v members =
      (members.zipIdx.zip (tags.map (admitted v))).map fun m => (m.2, m.1.2, m.1.1) := by
    intro tags
    rw [marked, List.zip_map_right, List.map_map]
    rfl
  rw [hmarked, hmarked, h]

/-- Lists that are sorted alike are merged alike. -/
theorem forall₂_merge {α : Type} {Q : α → α → Prop} {le : α → α → Bool}
    (hle : ∀ x x' y y', Q x x' → Q y y' → le x y = le x' y') {xs xs' ys ys' : List α}
    (hx : List.Forall₂ Q xs xs') (hy : List.Forall₂ Q ys ys') :
    List.Forall₂ Q (xs.merge ys le) (xs'.merge ys' le) := by
  induction hx generalizing ys ys' with
  | nil => simpa using hy
  | @cons x x' xs xs' hxx hxs ihx =>
      induction hy with
      | nil => simpa using List.Forall₂.cons hxx hxs
      | @cons y y' ys ys' hyy hys ihy =>
          rw [List.merge, List.merge, hle x x' y y' hxx hyy]
          split
          · exact .cons hxx (ihx (.cons hyy hys))
          · exact .cons hyy ihy

theorem inOrder_alike {first first' rest rest' : List (Nat × Error)}
    (h : MemberErrorsAlike first first') (hrest : MemberErrorsAlike rest rest') :
    ErrorsAlike (inOrder first rest) (inOrder first' rest') := by
  refine .of_forall₂ (forall₂_map (forall₂_merge ?_ h hrest) fun _ _ he => he.2)
  rintro x x' y y' ⟨hx, -⟩ ⟨hy, -⟩
  rw [hx, hy]

variable {tags tags' : List (Option Tag)} {xs ys : List Runner} {v : Value}

theorem parseMembers_alike (htags : List.Forall₂ (Option.Rel Tag.Alike) tags tags')
    (h : List.Forall₂ (fun x y => ComeAlike W (x v) (y v)) xs ys) :
    ComeAlike W (parseMembers tags xs v) (parseMembers tags' ys v) := by
  have hmarked := marked_congr (List.forall₂_eq_eq_eq ▸
    forall₂_map htags fun _ _ ht => admitted_alike ht v) ys
  have each : ∀ wanted, GiveAlike W (SameOr MemberErrorsAlike)
      (tryEach v (selected wanted (marked tags v xs)))
      (tryEach v (selected wanted (marked tags' v ys))) := fun wanted =>
    hmarked ▸ tryEach_alike (selected_forall₂ h tags v wanted)
  refine (each true).attempt (fun first first' hfirst => ?_) fun a => .pure (.ok a)
  refine (each false).attempt (fun rest rest' hrest => ?_) fun a => .pure (.ok a)
  exact .pure (.error (.atRoot (.union (inOrder_alike hfirst hrest)) .parsing))

theorem serializeMembers_alike (htags : List.Forall₂ (Option.Rel Tag.Alike) tags tags')
    (h : List.Forall₂ (fun x y => ComeAlike W (x v) (y v)) xs ys) :
    ComeAlike W (serializeMembers tags xs v) (serializeMembers tags' ys v) := by
  have hmarked := marked_congr (List.forall₂_eq_eq_eq ▸
    forall₂_map htags fun _ _ ht => admitted_alike ht v) ys
  have hselected := selected_forall₂ h tags v true
  rw [hmarked] at hselected
  simp only [serializeMembers]
  generalize selected true (marked tags v xs) = candidates at hselected
  generalize selected true (marked tags' v ys) = candidates' at hselected
  cases hselected with
  | nil => exact .pure (.error (.refl _))
  | cons hxy hrest =>
      refine (tryEach_alike (.cons hxy hrest)).attempt (fun es es' hes => ?_)
        fun a => .pure (.ok a)
      have hunion : ErrorsAlike (es.map Prod.snd) (es'.map Prod.snd) :=
        .of_forall₂ (forall₂_map hes fun _ _ he => he.2)
      -- the error of a single member stands for itself
      cases hes with
      | nil => exact .pure (.error (.atRoot (.union hunion) .serializing))
      | cons he hrest =>
          cases hrest with
          | nil => exact .pure (.error he.2)
          | cons => exact .pure (.error (.atRoot (.union hunion) .serializing))

end

/-! ### Operations -/

/-- **Operations with alike results on every value**, and of which both do nothing or none does. -/
structure OperationsAlike (W : World → Prop) (m : Machine) (op op' : Operation) : Prop where
  noop : op.isNoop = op'.isNoop
  run : ∀ v, ComeAlike W (op.run m v) (op'.run m v)

namespace OperationsAlike

variable {W : World → Prop} {m : Machine} {op op' item item' inner inner' base base' : Operation}
  {ops ops' : List Operation} {fields fields' : List (String × Operation)}
  {tags tags' : List (Option Tag)}

theorem noop_self : OperationsAlike W m .noop .noop := ⟨rfl, fun _ => .pure (.ok _)⟩

theorem scalar (kind : Scalar) (direction : Direction) (expected : Thunk String) :
    OperationsAlike W m (.scalar kind direction expected) (.scalar kind direction expected) := by
  refine ⟨rfl, fun v => ?_⟩
  simp only [Operation.run]
  split
  · exact .pure (.ok _)
  · exact .pure (.error (.refl _))

theorem literal {l l' : Literal} (h : l.Alike l') (direction : Direction) :
    OperationsAlike W m (.literal direction l) (.literal direction l') := by
  refine ⟨rfl, fun v => ?_⟩
  simp only [Operation.run, h.accepts v]
  split
  · exact .pure (.ok _)
  · exact .pure (.error (.atRoot (.literal h v) direction))

/-- What is collected from the results of children. -/
theorem collected {build : List Value → Value} {cs ds : List (Segment × Run Result)}
    (h : List.Forall₂ (fun c d => c.1 = d.1 ∧ ComeAlike W c.2 d.2) cs ds) :
    ComeAlike W (do return collect build (← runEach cs)) (do return collect build (← runEach ds)) :=
  (runEach_alike h).attempt (fun _ _ he => .pure (.error he)) fun _ => .pure (.ok _)

theorem array (h : OperationsAlike W m item item') (direction : Direction)
    (expected : Thunk String) :
    OperationsAlike W m (.array direction expected item) (.array direction expected item') := by
  refine ⟨rfl, fun v => ?_⟩
  cases v with
  | array values => exact collected (forall₂_indexed (forall₂_map_map fun a _ => h.run a))
  | _ => exact .pure (.error (.refl _))

theorem dict (h : OperationsAlike W m item item') (direction : Direction)
    (expected : Thunk String) :
    OperationsAlike W m (.dict direction expected item) (.dict direction expected item') := by
  refine ⟨rfl, fun v => ?_⟩
  cases v with
  | object entries =>
      exact collected (forall₂_keyed (forall₂_map_map fun e _ => ⟨rfl, h.run e.2⟩))
  | _ => exact .pure (.error (.refl _))

theorem runners (h : List.Forall₂ (OperationsAlike W m) ops ops') :
    List.Forall₂ (fun x y => ∀ v, ComeAlike W (x v) (y v)) (runners m ops) (runners m ops') := by
  rw [runners_eq_map, runners_eq_map]
  exact forall₂_map h fun _ _ hop => hop.run

theorem fieldRunners
    (h : List.Forall₂ (fun f g => f.1 = g.1 ∧ OperationsAlike W m f.2 g.2) fields fields') :
    List.Forall₂ (fun x y => x.1 = y.1 ∧ ∀ v, ComeAlike W (x.2 v) (y.2 v))
      (fieldRunners m fields) (fieldRunners m fields') := by
  rw [fieldRunners_eq_map, fieldRunners_eq_map]
  exact forall₂_map h fun _ _ hop => ⟨hop.1, hop.2.run⟩

theorem tuple (h : List.Forall₂ (OperationsAlike W m) ops ops') (direction : Direction)
    (expected : Thunk String) :
    OperationsAlike W m (.tuple direction expected ops) (.tuple direction expected ops') := by
  refine ⟨rfl, fun v => ?_⟩
  cases v with
  | array values =>
      simp only [Operation.run, h.length_eq]
      split
      · exact .pure (.error (.refl _))
      · exact collected (forall₂_indexed (forall₂_zipWith_apply (runners h)))
  | _ => exact .pure (.error (.refl _))

theorem parseObject
    (h : List.Forall₂ (fun f g => f.1 = g.1 ∧ OperationsAlike W m f.2 g.2) fields fields')
    (expected : Thunk String) (policy : UnknownKeys) :
    OperationsAlike W m (.parseObject expected fields policy)
      (.parseObject expected fields' policy) := by
  refine ⟨rfl, fun v => ?_⟩
  cases v with
  | object entries =>
      simp only [Operation.run]
      refine (runFields_alike (fieldRunners h) entries).attempt
        (fun _ _ he => .pure (.error he)) fun r => ?_
      obtain ⟨values, left⟩ := r
      dsimp only
      split
      · exact .pure (.error (.refl _))
      · exact .pure (.ok _)
  | _ => exact .pure (.error (.refl _))

theorem serializeObject
    (h : List.Forall₂ (fun f g => f.1 = g.1 ∧ OperationsAlike W m f.2 g.2) fields fields')
    (expected : Thunk String) (omitted : List String) :
    OperationsAlike W m (.serializeObject expected fields omitted)
      (.serializeObject expected fields' omitted) := by
  refine ⟨rfl, fun v => ?_⟩
  cases v with
  | object entries =>
      simp only [Operation.run]
      exact (runPresentFields_alike omitted (fieldRunners h) entries).attempt
        (fun _ _ he => .pure (.error he)) fun _ => .pure (.ok _)
  | _ => exact .pure (.error (.refl _))

theorem unlessNull (h : OperationsAlike W m inner inner') :
    OperationsAlike W m (.unlessNull inner) (.unlessNull inner') := by
  refine ⟨rfl, fun v => ?_⟩
  cases v with
  | null => exact .pure (.ok _)
  | _ => exact h.run _

theorem parseUnion (h : List.Forall₂ (OperationsAlike W m) ops ops')
    (htags : List.Forall₂ (Option.Rel Tag.Alike) tags tags') :
    OperationsAlike W m (.parseUnion ops tags) (.parseUnion ops' tags') := by
  refine ⟨rfl, fun v => ?_⟩
  simp only [Operation.run]
  exact parseMembers_alike htags ((runners h).imp fun _ _ hxy => hxy v)

theorem serializeUnion (h : List.Forall₂ (OperationsAlike W m) ops ops')
    (htags : List.Forall₂ (Option.Rel Tag.Alike) tags tags') :
    OperationsAlike W m (.serializeUnion ops tags) (.serializeUnion ops' tags') := by
  refine ⟨rfl, fun v => ?_⟩
  simp only [Operation.run]
  exact serializeMembers_alike htags ((runners h).imp fun _ _ hxy => hxy v)

theorem decodeText (h : OperationsAlike W m inner inner') (expected : Thunk String) :
    OperationsAlike W m (.decodeText expected inner) (.decodeText expected inner') := by
  refine ⟨rfl, fun v => ?_⟩
  simp only [Operation.run]
  split
  · exact .pure (.error (.refl _))
  · exact h.run _

theorem encodeText (h : OperationsAlike W m inner inner') :
    OperationsAlike W m (.encodeText inner) (.encodeText inner') :=
  ⟨rfl, fun v => (h.run v).attempt (fun _ _ he => .pure (.error he)) fun _ => .pure (.ok _)⟩

theorem thenConstant (h : OperationsAlike W m base base') (value : Value) :
    OperationsAlike W m (.thenConstant value base) (.thenConstant value base') :=
  ⟨rfl, fun v => (h.run v).attempt (fun _ _ he => .pure (.error he)) fun _ => .pure (.ok _)⟩

theorem exchange (h : OperationsAlike W m base base') {internal internal' : Literal}
    (hinternal : internal.Alike internal') (external : Value) :
    OperationsAlike W m (.exchange internal external base)
      (.exchange internal' external base') := by
  refine ⟨rfl, fun v => ?_⟩
  simp only [Operation.run, hinternal.accepts v]
  split
  · exact h.run external
  · exact .pure (.error (.atRoot (.literal hinternal v) .serializing))

/-! ### Shortcuts -/

/-- **The shortcut of composites is taken alike.** -/
theorem unlessAllNoop (hops : List.Forall₂ (OperationsAlike W m) ops ops')
    (h : OperationsAlike W m op op') :
    OperationsAlike W m (unlessAllNoop ops op) (unlessAllNoop ops' op') := by
  have hnoop := all_eq_of_forall₂ (hops.imp fun _ _ hop => hop.noop)
  rw [Schemata.unlessAllNoop, Schemata.unlessAllNoop, hnoop]
  split
  · exact noop_self
  · exact h

theorem unlessNoop (hinner : OperationsAlike W m inner inner') (h : OperationsAlike W m op op') :
    OperationsAlike W m (Schemata.unlessAllNoop [inner] op)
      (Schemata.unlessAllNoop [inner'] op') := .unlessAllNoop (.cons hinner .nil) h

/-- The shortcut of objects is taken alike. -/
theorem objectSerializer
    (h : List.Forall₂ (fun f g => f.1 = g.1 ∧ OperationsAlike W m f.2 g.2) fields fields')
    (expected : Thunk String) (omitted : List String) :
    OperationsAlike W m (objectSerializer expected fields omitted)
      (objectSerializer expected fields' omitted) := by
  have hnoop : (fields.all fun f => f.2.isNoop) = fields'.all fun f => f.2.isNoop :=
    all_eq_of_forall₂ (h.imp fun _ _ hf => hf.2.noop)
  rw [Schemata.objectSerializer, Schemata.objectSerializer, hnoop]
  split
  · exact noop_self
  · exact serializeObject h expected omitted

end OperationsAlike

end Schemata
