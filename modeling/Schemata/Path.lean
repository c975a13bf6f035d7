/-
**Paths: locations inside nested values.**

A path is built from the inside out.  An error starts at the root, and every level that it passes
puts its own segment in front.

Main definitions:

* `Schemata.Segment`, `Schemata.Path` — a step into an object or an array, and a list of steps;
* `Schemata.Path.text` — the form used in messages, `["items"][0]`, or `root`;
* `Schemata.Path.pointer` — the JSON pointer, `/items/0`, in which `~` and `/` of keys are escaped.
-/

import Schemata.Text.Quoted

set_option relaxedAutoImplicit false
set_option autoImplicit false

namespace Schemata

/-- A step into an object by key, or into an array by index. -/
inductive Segment where
  | key (name : String)
  | index (position : Nat)
deriving DecidableEq, Inhabited

namespace Segment

/-- The segment in messages. -/
def text : Segment → String
  | .key name => "[" ++ Text.quoted name ++ "]"
  | .index i => "[" ++ toString i ++ "]"

/-- The bare text of a segment: the key, or the index in decimal. -/
def token : Segment → String
  | .key name => name
  | .index i => toString i

end Segment

/-- A location: the steps from the outermost value inwards. -/
structure Path where
  segments : List Segment
deriving DecidableEq, Inhabited

namespace Path

/-- The location of the outermost value. -/
def root : Path := ⟨[]⟩

/-- Whether this is the outermost value. -/
def isRoot (p : Path) : Bool := p.segments.isEmpty

/-- The number of steps. -/
def length (p : Path) : Nat := p.segments.length

/-- The path one level further out. -/
def prepend (s : Segment) (p : Path) : Path := ⟨s :: p.segments⟩

/-- The path one level further in. -/
def append (p : Path) (s : Segment) : Path := ⟨p.segments ++ [s]⟩

/-- A path followed by another. -/
def concat (p q : Path) : Path := ⟨p.segments ++ q.segments⟩

/-- The outermost step. -/
def first? (p : Path) : Option Segment := p.segments.head?

/-- **The path in messages.** -/
def text (p : Path) : String :=
  if p.isRoot then "root" else String.join (p.segments.map Segment.text)

/-- One character of a token of a JSON pointer. -/
def pointerChar (c : Char) : List Char :=
  if c = '~' then ['~', '0'] else if c = '/' then ['~', '1'] else [c]

/-- The characters of a JSON pointer. -/
def pointerChars (p : Path) : List Char :=
  p.segments.flatMap fun s => '/' :: s.token.toList.flatMap pointerChar

/-- **The JSON pointer of a path**, empty at the root. -/
def pointer (p : Path) : String := String.ofList p.pointerChars

end Path

end Schemata
