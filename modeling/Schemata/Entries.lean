/-
**Entries: keys with values, in a fixed order.**

An object keeps its entries in a list, in the order in which the keys came.  Looking a key up and
replacing a value keep that order.  Taking a key out does not: the last entry moves into the place
that became free, so that the other entries stay where they are.

Main definitions:

* `Schemata.Entries.find?` — the value under a key;
* `Schemata.Entries.insert` — the value under a key replaced, or a new entry at the end;
* `Schemata.Entries.remove` — a key taken out, the last entry filling its place.
-/

set_option relaxedAutoImplicit false
set_option autoImplicit false

namespace Schemata

namespace Entries

variable {α : Type}

/-- The value under a key. -/
def find? (key : String) : List (String × α) → Option α
  | [] => none
  | (k, v) :: rest => if k = key then some v else find? key rest

/-- The entries with `value` under `key`: in the place of the old value, or at the end. -/
def insert (key : String) (value : α) : List (String × α) → List (String × α)
  | [] => [(key, value)]
  | (k, v) :: rest => if k = key then (k, value) :: rest else (k, v) :: insert key value rest

/-- The entries with the first one gone and the last one, if there is another, in its place. -/
def fillFirst (rest : List (String × α)) : List (String × α) :=
  match rest.getLast? with
  | none => []
  | some last => last :: rest.dropLast

/-- The entries without `key`; the last entry moves into its place. -/
def remove (key : String) : List (String × α) → List (String × α)
  | [] => []
  | (k, v) :: rest => if k = key then fillFirst rest else (k, v) :: remove key rest

/-- The keys in order. -/
def keys (entries : List (String × α)) : List String := entries.map Prod.fst

/-- Entries collected one after the other: for a repeated key the last value wins and the first
place stays. -/
def ofList (entries : List (String × α)) : List (String × α) :=
  entries.foldl (fun acc e => insert e.1 e.2 acc) []

end Entries

end Schemata
