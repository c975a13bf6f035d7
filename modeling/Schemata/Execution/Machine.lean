/-
**What running operations fall back on.**

Operations and tasks are finite, and running one is a recursion over it.  Two things lead out of
them: a reference, behind which a whole schema may stand, and a parse that begins when a task has
its value.  Both are left to a machine, so that the definitions here need no fuel.

Main definitions:

* `Schemata.Machine` — what references and late parses do;
* `Schemata.Test.run`, `Schemata.Action.run`, `Schemata.Supply.get` — user functions;
* `Schemata.runEach`, `Schemata.runFields`, `Schemata.stageEach`, `Schemata.stageFields` — children
  one after the other, the first failure ending it.
-/

import Schemata.Scalar
import Schemata.Union.Tag
import Schemata.World

set_option relaxedAutoImplicit false
set_option autoImplicit false

namespace Schemata

/-- An operation as a function. -/
abbrev Runner := Value → Run Result

/-- The start of a parse as a function. -/
abbrev Stager := Value → Run (Except Error Staged)

/-- What references and late parses do. -/
structure Machine where
  /-- Parse with the schema bound to a reference, at once. -/
  parse : Reference → Runner
  /-- Serialize with the schema bound to a reference. -/
  serialize : Reference → Runner
  /-- Start to parse with the schema bound to a reference. -/
  stage : Reference → Stager
  /-- Poll a task that was not there when the poll began. -/
  poll : Task → Run Poll

/-! ### User functions -/

/-- Make a test. -/
def Test.run : Test → Value → Run Bool
  | .holds p, v => return p v
  | .log tag test, v => do
      note tag v
      test.run v
  | .not test, v => return !(← test.run v)

/-- A result as the outcome of a user function. -/
def Result.toOutcome : Result → Except Failure Value
  | .ok v => .ok v
  | .error e => .error (.error e)

/-- Carry out a user function. -/
def Action.run (m : Machine) : Action → Value → Run (Except Failure Value)
  | .compute f, v => return f v
  | .log tag, v => do
      note tag v
      return .ok v
  | .andThen first second, v => do
      match ← first.run m v with
      | .error e => return .error e
      | .ok a => second.run m a
  | .choose test yes no, v => do
      if ← test.run v then yes.run m v else no.run m v
  | .parseWith r, v => return (← m.parse r v).toOutcome
  | .serializeWith r, v => return (← m.serialize r v).toOutcome

/-- Carry out a user function, a failure becoming an error of a direction. -/
def Action.runAs (m : Machine) (direction : Direction) (f : Action) (v : Value) : Run Result := do
  match ← f.run m v with
  | .ok a => return .ok a
  | .error e => return .error (e.toError direction)

/-- Note a value under a tag, if there is one. -/
def noteIf (tag : Option String) (v : Value) : Run Unit :=
  match tag with
  | some tag => note tag v
  | none => return ()

/-- Call an asynchronous function: what its task is. -/
def AsyncAction.start (f : AsyncAction) (v : Value) : Run Task := do
  noteIf f.announce v
  return .call f.waits f.body v

/-- Ask for the value that stands for an absent one. -/
def Supply.get (s : Supply) : Run Value := do
  noteIf s.tag s.value
  return s.value

/-- The value itself, or the supplied one for null. -/
def Supply.orElse (s : Supply) (v : Value) : Run Value := if v.isNull then s.get else return v

/-- The value if a test holds, else a refinement error. -/
def checked (direction : Direction) (message : String) (test : Test) (v : Value) : Run Result := do
  if ← test.run v then return .ok v
  else return .error (Error.atRoot (.refinement message) direction)

/-! ### Children that give their results at once -/

/-- The results of children in order; the first failure ends it, moved into its child. -/
def runEach : List (Segment × Run Result) → Run (Except Error (List Value))
  | [] => return .ok []
  | (s, child) :: rest => do
      match ← child with
      | .error e => return .error (e.prepend s)
      | .ok v =>
          match ← runEach rest with
          | .error e => return .error e
          | .ok vs => return .ok (v :: vs)

/-- Children under their indices. -/
def indexed {α : Type} (children : List α) : List (Segment × α) :=
  children.zipIdx.map fun c => (.index c.2, c.1)

/-- Children under their keys. -/
def keyed {α : Type} (children : List (String × α)) : List (Segment × α) :=
  children.map fun c => (.key c.1, c.2)

/-- The results of fields in order, with the entries that are left.  Each field takes its value out
of the entries, and null when it is missing. -/
def runFields : List (String × Runner) → List (String × Value) →
    Run (Except Error (List (String × Value) × List (String × Value)))
  | [], entries => return .ok ([], entries)
  | (name, field) :: rest, entries => do
      match ← field ((Entries.find? name entries).getD .null) with
      | .error e => return .error (e.prepend (.key name))
      | .ok v =>
          match ← runFields rest (Entries.remove name entries) with
          | .error e => return .error e
          | .ok (vs, left) => return .ok ((name, v) :: vs, left)

/-- The results of fields in order, without those that are left out for null. -/
def runPresentFields (omitted : List String) : List (String × Runner) → List (String × Value) →
    Run (Except Error (List (String × Value)))
  | [], _ => return .ok []
  | (name, field) :: rest, entries => do
      let input := (Entries.find? name entries).getD .null
      if omitted.contains name && input.isNull then runPresentFields omitted rest entries
      else
        match ← field input with
        | .error e => return .error (e.prepend (.key name))
        | .ok v =>
            match ← runPresentFields omitted rest entries with
            | .error e => return .error e
            | .ok vs => return .ok ((name, v) :: vs)

/-- The error for a key that is left over, under a strict policy. -/
def excessError? (policy : UnknownKeys) (left : List (String × Value)) : Option Error :=
  match policy, left with
  | .strict, (key, _) :: _ => some (Error.atRoot (.excessField key) .parsing)
  | _, _ => none

/-- The error for an array of the wrong length. -/
def sizeError? (direction : Direction) (expected received : Nat) : Option Error :=
  if expected = received then none
  else some (Error.atRoot (.invalidTupleSize expected received) direction)

/-! ### Members of unions -/

/-- Members under their positions, tried in order: the first success, or the errors of all. -/
def tryEach (v : Value) : List (Nat × Runner) → Run (Except (List (Nat × Error)) Value)
  | [] => return .error []
  | (i, member) :: rest => do
      match ← member v with
      | .ok a => return .ok a
      | .error e =>
          match ← tryEach v rest with
          | .ok a => return .ok a
          | .error es => return .error ((i, e) :: es)

/-- Members under their positions with whether the value admits them. -/
def marked (tags : List (Option Tag)) (v : Value) (members : List Runner) :
    List (Bool × Nat × Runner) :=
  (members.zipIdx.zip tags).map fun m => (admitted v m.2, m.1.2, m.1.1)

/-- The members that a value admits, or those that it does not. -/
def selected (wanted : Bool) (members : List (Bool × Nat × Runner)) : List (Nat × Runner) :=
  (members.filter fun m => m.1 == wanted).map Prod.snd

/-- Errors in the order of their members. -/
def inOrder (first rest : List (Nat × Error)) : List Error :=
  (first.merge rest fun a b => decide (a.1 ≤ b.1)).map Prod.snd

/-- Parse as one of the members: those that the value admits first, then the others. -/
def parseMembers (tags : List (Option Tag)) (members : List Runner) (v : Value) : Run Result := do
  let all := marked tags v members
  match ← tryEach v (selected true all) with
  | .ok a => return .ok a
  | .error first =>
      match ← tryEach v (selected false all) with
      | .ok a => return .ok a
      | .error rest => return .error (Error.atRoot (.invalidUnion (inOrder first rest)) .parsing)

/-- Serialize as one of the members that the value admits. -/
def serializeMembers (tags : List (Option Tag)) (members : List Runner) (v : Value) :
    Run Result := do
  match selected true (marked tags v members) with
  | [] =>
      return .error (Error.atRoot
        (.operationFailed "Can't serialize value: it doesn't match any union member") .serializing)
  | candidates =>
      match ← tryEach v candidates with
      | .ok a => return .ok a
      | .error [(_, e)] => return .error e
      | .error errors =>
          return .error (Error.atRoot (.invalidUnion (errors.map Prod.snd)) .serializing)

/-! ### Children that may leave tasks -/

/-- The outcomes of starting children in order; the first failure ends it, moved into its child. -/
def stageEach : List (Segment × Run (Except Error Staged)) → Run (Except Error (List Staged))
  | [] => return .ok []
  | (s, child) :: rest => do
      match ← child with
      | .error e => return .error (e.prepend s)
      | .ok staged =>
          match ← stageEach rest with
          | .error e => return .error e
          | .ok others => return .ok (staged.inside s :: others)

/-- The outcomes of starting fields in order, with the entries that are left. -/
def stageFields : List (String × Stager) → List (String × Value) →
    Run (Except Error (List Staged × List (String × Value)))
  | [], entries => return .ok ([], entries)
  | (name, field) :: rest, entries => do
      match ← field ((Entries.find? name entries).getD .null) with
      | .error e => return .error (e.prepend (.key name))
      | .ok staged =>
          match ← stageFields rest (Entries.remove name entries) with
          | .error e => return .error e
          | .ok (others, left) => return .ok (staged.inside (.key name) :: others, left)

/-- The values of children none of which has left a task. -/
def readyValues? : List Staged → Option (List Value)
  | [] => some []
  | .ready v :: rest => (readyValues? rest).map (v :: ·)
  | .pending _ :: _ => none

/-- Children put together: at once when nothing is left to do, and otherwise as a task. -/
def assemble (assembly : Assembly) (children : List Staged) : Staged :=
  match readyValues? children with
  | some values => .ready (assembly.build values)
  | none => .pending (.join (children.map Staged.toTask) assembly)

/-- The outcomes of starting union members in order, up to the first that has its value. -/
def stageMembers (v : Value) : List Stager → Run (List (Except Error Staged))
  | [] => return []
  | member :: rest => do
      match ← member v with
      | .ok (.ready a) => return [.ok (.ready a)]
      | outcome => return outcome :: (← stageMembers v rest)

/-- The outcome of a member as a task. -/
def outcomeTask : Except Error Staged → Task
  | .ok staged => staged.toTask
  | .error e => .done (.error e)

/-- The errors, if there is nothing else. -/
def allErrors? : List (Except Error Staged) → Option (List Error)
  | [] => some []
  | .error e :: rest => (allErrors? rest).map (e :: ·)
  | .ok _ :: _ => none

/-- The value that comes after nothing but errors. -/
def readyAfterErrors? : List (Except Error Staged) → Option Value
  | .error _ :: rest => readyAfterErrors? rest
  | .ok (.ready v) :: _ => some v
  | _ => none

/-- The outcomes of members as one outcome: a value that only errors precede wins at once, nothing
but errors is an error, and anything else is left to do. -/
def resolveMembers (outcomes : List (Except Error Staged)) : Except Error Staged :=
  match readyAfterErrors? outcomes with
  | some v => .ok (.ready v)
  | none =>
      match allErrors? outcomes with
      | some errors => .error (Error.atRoot (.invalidUnion errors) .parsing)
      | none => .ok (.pending (.firstSuccess [] (outcomes.map outcomeTask)))

/-- What is done to the value of a base that may have left a task: at once or later. -/
def Staged.andThen (staged : Staged) (next : Continuation) (now : Value → Run Result) :
    Run (Except Error Staged) := do
  match staged with
  | .ready v =>
      match ← now v with
      | .ok a => return .ok (.ready a)
      | .error e => return .error e
  | .pending t => return .ok (.pending (.andThen t next))

end Schemata
