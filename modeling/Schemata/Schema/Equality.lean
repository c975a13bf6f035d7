/-
**Structural equality of schemas.**

Two schemas are structurally equal when their kinds, the schemas below and their metadata are.  User
functions have no equality of their own: nodes around them are compared by names and messages.
References are not followed.  A node equals itself.

Main definitions:

* `Schemata.Effect.alike` — effects that cannot be told apart;
* `Schemata.Schema.structurallyEqual` — the comparison.
-/

import Schemata.Schema

set_option relaxedAutoImplicit false
set_option autoImplicit false

namespace Schemata

/-- Whether two effects cannot be told apart without looking into functions. -/
def Effect.alike : Effect → Effect → Bool
  | .refine m c, .refine n d => m == n && c.isAsync == d.isAsync
  | .variant x i, .variant y j => x.equal y && i.equal j
  | a, b => a.label == b.label

mutual

/-- **Structural equality.** -/
def Schema.structurallyEqual : Schema → Schema → Bool
  | .node i k m _, .node j l n _ => i == j || (m.equal n && k.structurallyEqual l)

/-- Structural equality of kinds. -/
def Kind.structurallyEqual : Kind → Kind → Bool
  | .never, .never => true
  | .unknown, .unknown => true
  | .unit, .unit => true
  | .string, .string => true
  | .bool, .bool => true
  | .int, .int => true
  | .float, .float => true
  | .json, .json => true
  | .recursive _, .recursive _ => true
  | .literal a, .literal b => a.equal b
  | .array a, .array b => a.structurallyEqual b
  | .dict a, .dict b => a.structurallyEqual b
  | .option a, .option b => a.structurallyEqual b
  | .null a, .null b => a.structurallyEqual b
  | .nullable a, .nullable b => a.structurallyEqual b
  | .jsonString a, .jsonString b => a.structurallyEqual b
  | .object as u, .object bs v => u == v && equalFields as bs
  | .tuple as, .tuple bs => equalSchemas as bs
  | .union as, .union bs => equalSchemas as bs
  | .custom a _, .custom b _ => a == b
  | .transformed a e, .transformed b f => e.alike f && a.structurallyEqual b
  | _, _ => false

/-- Structural equality field by field, names included. -/
def equalFields : List (String × Schema) → List (String × Schema) → Bool
  | [], [] => true
  | (a, s) :: as, (b, t) :: bs => a == b && s.structurallyEqual t && equalFields as bs
  | _, _ => false

/-- Structural equality schema by schema. -/
def equalSchemas : List Schema → List Schema → Bool
  | [], [] => true
  | s :: as, t :: bs => s.structurallyEqual t && equalSchemas as bs
  | _, _ => false

end

end Schemata
