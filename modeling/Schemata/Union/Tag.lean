/-
**Tags: what tells the members of a union apart.**

Some members can be told apart before they are tried: literals, variants, and objects with such a
field.  A tag says where to look, at the value itself or in a field, and for which literal.  The tag
that a member shows in raw input may differ from the one in the typed value, and not every wrapper
lets a tag through in both directions.

Main definitions:

* `Schemata.Side` — raw input, or typed value;
* `Schemata.Schema.tag?` — the tag of a member;
* `Schemata.Tag.admits`, `Schemata.admitted` — whether a value carries a tag, and whether a member
  is worth trying.
-/

import Schemata.Operation

set_option relaxedAutoImplicit false
set_option autoImplicit false

namespace Schemata

/-- Where a value comes from. -/
inductive Side where
  /-- Raw input. -/
  | input
  /-- The typed value. -/
  | output
deriving DecidableEq

/-- A literal that can tell members apart. -/
def primitiveOnly (l : Literal) : Option Literal := if l.isPrimitive then some l else none

/-- The literal that a literal or variant schema shows. -/
def Kind.literalTag? (side : Side) : Kind → Option Literal
  | .literal l => primitiveOnly l
  | .transformed _ (.variant external internal) =>
      match side with
      | .input => primitiveOnly external
      | .output => primitiveOnly internal
  | _ => none

/-- The tag of an object: that of its first field with a literal. -/
def fieldTag? (side : Side) : List (String × Schema) → Option Tag
  | [] => none
  | (name, s) :: rest =>
      match s.kind.literalTag? side with
      | some l => some ⟨some name, l⟩
      | none => fieldTag? side rest

/-- Whether the tag of a schema can be told through an effect around it.  A function in front of
parsing, or a stand-in for failures, hides what the input shows; a function behind parsing hides
what the value shows. -/
def Effect.showsTag (side : Side) : Effect → Bool
  | .refine _ _ => true
  | .transform _ => side == .input
  | .preprocess _ => side == .output
  | .recover _ => side == .output
  | .variant _ _ => false
  | .getOr _ => false

mutual

/-- **The tag of a union member.** -/
def Schema.tag? (side : Side) : Schema → Option Tag
  | .node _ kind _ _ => kind.tag? side

/-- The tag of a kind. -/
def Kind.tag? (side : Side) : Kind → Option Tag
  | .literal l => (primitiveOnly l).map fun l => ⟨none, l⟩
  | .object fields _ => fieldTag? side fields
  | .transformed base effect =>
      match Kind.literalTag? side (.transformed base effect) with
      | some l => some ⟨none, l⟩
      | none => if effect.showsTag side then base.tag? side else none
  | _ => none

end

/-- **Whether a value carries a tag.**  A missing field counts as null. -/
def Tag.admits (t : Tag) (v : Value) : Bool :=
  match t.field, v with
  | none, v => t.literal.equal (Literal.ofValue v)
  | some name, .object entries =>
      t.literal.equal (Literal.ofValue ((Entries.find? name entries).getD .null))
  | some _, _ => false

/-- Whether a member may accept a value: it has no tag, or the value carries it. -/
def admitted (v : Value) : Option Tag → Bool
  | none => true
  | some t => t.admits v

end Schemata
