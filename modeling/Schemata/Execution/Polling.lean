/-
**Carrying tasks on.**

Polling a task carries it on until it has its result or some function asks to be polled again.  The
children of a composite are all polled in each round, in order, and all of them run to their end
even when one has failed.  Everything else is carried on one thing after another.

Main definitions:

* `Schemata.Continuation.resume` — what happens when a task has its value;
* `Schemata.Task.poll` — one poll;
* `Schemata.Task.drive` — polling until the result is there.
-/

import Schemata.Execution.Staged

set_option relaxedAutoImplicit false
set_option autoImplicit false

namespace Schemata

/-- Poll a called function: it is carried out once it has waited. -/
def pollCall (m : Machine) (waits : Nat) (f : Action) (input : Value) : Run Poll :=
  match waits with
  | waits + 1 => return .pending (.call waits f input)
  | 0 => do return .ready (← f.runAs m .parsing input)

/-- Poll a test: it is made once it has waited. -/
def pollCheck (waits : Nat) (message : String) (test : Test) (v : Value) : Run Poll :=
  match waits with
  | waits + 1 => return .pending (.check waits message test v)
  | 0 => do return .ready (← checked .parsing message test v)

/-- What happens when a task has its value, up to the next wait. -/
def Continuation.resume (m : Machine) : Continuation → Value → Run Poll
  | .apply f, v => do return .ready (← f.runAs m .parsing v)
  | .applyAsync f, v => do
      noteIf f.announce v
      pollCall m f.waits f.body v
  | .parse op, v => do
      match ← op.stage m v with
      | .error e => return .ready (.error e)
      | .ok (.ready a) => return .ready (.ok a)
      | .ok (.pending t) => m.poll t
  | .check message test, v => do return .ready (← checked .parsing message test v)
  | .checkAsync message test, v => pollCheck test.waits message test.test v
  | .constant value, _ => return .ready (.ok value)
  | .orSupply supply, v => do return .ready (.ok (← supply.orElse v))

/-- The results of children all of which have theirs. -/
def finished? : List Poll → Option (List Result)
  | [] => some []
  | .ready r :: rest => (finished? rest).map (r :: ·)
  | .pending _ :: _ => none

/-- The values of results, or the first error among them. -/
def sequenceResults : List Result → Except Error (List Value)
  | [] => .ok []
  | .ok v :: rest =>
      match sequenceResults rest with
      | .ok vs => .ok (v :: vs)
      | .error e => .error e
  | .error e :: _ => .error e

mutual

/-- **One poll of a task.** -/
def Task.poll (m : Machine) : Task → Run Poll
  | .done r => return .ready r
  | .call waits f input => pollCall m waits f input
  | .check waits message test v => pollCheck waits message test v
  | .andThen task next => do
      match ← task.poll m with
      | .pending t => return .pending (.andThen t next)
      | .ready (.error e) => return .ready (.error e)
      | .ready (.ok v) => next.resume m v
  | .inside s task => do
      match ← task.poll m with
      | .pending t => return .pending (.inside s t)
      | .ready (.error e) => return .ready (.error (e.prepend s))
      | .ready (.ok v) => return .ready (.ok v)
  | .recover fallback input task => do
      match ← task.poll m with
      | .pending t => return .pending (.recover fallback input t)
      | .ready (.error e) => return .ready (.ok (fallback e input))
      | .ready (.ok v) => return .ready (.ok v)
  | .join children assembly => do
      let polls ← pollEach m children
      match finished? polls with
      | some results => return .ready (collect assembly.build (sequenceResults results))
      | none => return .pending (.join (polls.map Poll.toTask) assembly)
  | .firstSuccess errors attempts => pollAttempts m errors attempts

/-- One poll of each child. -/
def pollEach (m : Machine) : List Task → Run (List Poll)
  | [] => return []
  | t :: rest => do
      let p ← t.poll m
      return p :: (← pollEach m rest)

/-- Polls of attempts in order, after errors of earlier ones, up to the first that waits or
succeeds. -/
def pollAttempts (m : Machine) (errors : List Error) : List Task → Run Poll
  | [] => return .ready (.error (Error.atRoot (.invalidUnion errors) .parsing))
  | t :: rest => do
      match ← t.poll m with
      | .pending t => return .pending (.firstSuccess errors (t :: rest))
      | .ready (.ok v) => return .ready (.ok v)
      | .ready (.error e) => pollAttempts m (errors ++ [e]) rest

end

/-- **The result of a task**, polled at most `fuel` times. -/
def Task.drive (m : Machine) : Nat → Task → Run Result
  | 0, _ => halt .outOfFuel
  | fuel + 1, t => do
      match ← t.poll m with
      | .ready r => return r
      | .pending t => t.drive m fuel

end Schemata
