/-
**Operations: what schemas are compiled into.**

An operation says what is done to a value, without looking at schemas again.  Everything that the
compiler decides is fixed in it: the policy of objects, the names that errors give, which member of
a union carries which tag, and which operations change nothing at all.  Names are worked out when
an error needs them, since the name of a schema can be far longer than the schema.  The one thing
left open is a reference, whose schema is looked up when the operation runs.

Parse operations have a second form for schemas that wait for asynchronous functions.  It makes all
checks that need not wait and leaves a task, which is carried on each time it is polled.

Main definitions:

* `Schemata.Operation` — operations that give their result at once;
* `Schemata.ParseOperation` — parse operations, of which some leave a task;
* `Schemata.Task`, `Schemata.Continuation`, `Schemata.Assembly` — what is left to do;
* `Schemata.Staged`, `Schemata.Poll` — the outcomes of starting a parse and of polling a task.
-/

import Schemata.Schema

set_option relaxedAutoImplicit false
set_option autoImplicit false

namespace Schemata

/-- Kinds that are told by looking at a value alone. -/
inductive Scalar where
  | never
  | unit
  | string
  | bool
  | int
  | float
deriving DecidableEq

/-- Where a union member is told apart: on the value itself, or in a field, by a literal. -/
structure Tag where
  field : Option String
  literal : Literal

/-! ### Operations that give their result at once -/

/-- What is done to a value. -/
inductive Operation where
  /-- Nothing. -/
  | noop
  /-- The same error for every value. -/
  | fail (error : Error)
  /-- A scalar is checked; an integer is brought into its one form. -/
  | scalar (kind : Scalar) (direction : Direction) (expected : Thunk String)
  | literal (direction : Direction) (value : Literal)
  | array (direction : Direction) (expected : Thunk String) (item : Operation)
  | dict (direction : Direction) (expected : Thunk String) (value : Operation)
  | tuple (direction : Direction) (expected : Thunk String) (items : List Operation)
  | parseObject (expected : Thunk String) (fields : List (String × Operation))
      (policy : UnknownKeys)
  /-- The fields named in `omitted` are left out when their value is null. -/
  | serializeObject (expected : Thunk String) (fields : List (String × Operation))
      (omitted : List String)
  /-- Null stays null. -/
  | unlessNull (inner : Operation)
  | parseUnion (members : List Operation) (tags : List (Option Tag))
  | serializeUnion (members : List Operation) (tags : List (Option Tag))
  /-- A document is read from a string first. -/
  | decodeText (expected : Thunk String) (inner : Operation)
  /-- The result is written into a string. -/
  | encodeText (inner : Operation)
  | apply (direction : Direction) (f : Action)
  | thenApply (direction : Direction) (base : Operation) (f : Action)
  | applyFirst (direction : Direction) (f : Action) (base : Operation)
  | thenCheck (message : String) (test : Test) (base : Operation)
  | checkFirst (message : String) (test : Test) (base : Operation)
  | recover (fallback : Fallback) (base : Operation)
  /-- The result is replaced by a constant. -/
  | thenConstant (value : Value) (base : Operation)
  /-- The literal inside is exchanged for the value outside. -/
  | exchange (internal : Literal) (external : Value) (base : Operation)
  | orSupply (supply : Supply) (base : Operation)
  /-- The operation of the schema bound to a reference. -/
  | follow (direction : Direction) (target : Reference)

/-- Whether the operation is the one that does nothing. -/
def Operation.isNoop : Operation → Bool
  | .noop => true
  | _ => false

/-! ### Parse operations -/

/-- How a value is parsed.  All forms but `direct` belong to schemas that wait for a function. -/
inductive ParseOperation where
  /-- Parsing never waits, and callers may rely on it. -/
  | direct (op : Operation)
  /-- Parsing does not wait. -/
  | ready (op : Operation)
  | array (expected : Thunk String) (item : ParseOperation)
  | dict (expected : Thunk String) (value : ParseOperation)
  | tuple (expected : Thunk String) (items : List ParseOperation)
  | object (expected : Thunk String) (fields : List (String × ParseOperation))
      (policy : UnknownKeys)
  | unlessNull (inner : ParseOperation)
  | union (members : List ParseOperation)
  | decodeText (expected : Thunk String) (inner : ParseOperation)
  | applyAsync (f : AsyncAction)
  | thenApply (base : ParseOperation) (f : Action)
  | thenApplyAsync (base : ParseOperation) (f : AsyncAction)
  | applyFirst (f : Action) (base : ParseOperation)
  | applyAsyncFirst (f : AsyncAction) (base : ParseOperation)
  | thenCheck (message : String) (test : Test) (base : ParseOperation)
  | thenCheckAsync (message : String) (test : AsyncTest) (base : ParseOperation)
  | recover (fallback : Fallback) (base : ParseOperation)
  | thenConstant (value : Value) (base : ParseOperation)
  | orSupply (supply : Supply) (base : ParseOperation)
  | follow (target : Reference)

namespace ParseOperation

/-- Whether parsing may wait. -/
def isAsync : ParseOperation → Bool
  | .direct _ => false
  | _ => true

/-- Whether parsing does nothing. -/
def isNoop : ParseOperation → Bool
  | .direct op => op.isNoop
  | _ => false

end ParseOperation

/-! ### Tasks -/

/-- How the values of children are put together. -/
inductive Assembly where
  | array
  | object (keys : List String)

/-- The value made of the values of children. -/
def Assembly.build : Assembly → List Value → Value
  | .array, values => .array values
  | .object keys, values => .object (keys.zip values)

/-- What happens to the value of a task. -/
inductive Continuation where
  | apply (f : Action)
  | applyAsync (f : AsyncAction)
  /-- The value is parsed. -/
  | parse (op : ParseOperation)
  | check (message : String) (test : Test)
  | checkAsync (message : String) (test : AsyncTest)
  | constant (value : Value)
  | orSupply (supply : Supply)

/-- What is left to do before a parse has its result. -/
inductive Task where
  /-- Nothing is left. -/
  | done (result : Except Error Value)
  /-- A function waits to be carried out on a value. -/
  | call (waits : Nat) (f : Action) (input : Value)
  /-- A test waits to be made on a value. -/
  | check (waits : Nat) (message : String) (test : Test) (value : Value)
  | andThen (task : Task) (next : Continuation)
  /-- Errors are moved one level further out. -/
  | inside (segment : Segment) (task : Task)
  | recover (fallback : Fallback) (input : Value) (task : Task)
  /-- All children are carried on together; the first failure among them counts. -/
  | join (children : List Task) (assembly : Assembly)
  /-- One after the other is carried on until one succeeds. -/
  | firstSuccess (errors : List Error) (attempts : List Task)

/-- The outcome of starting a parse. -/
inductive Staged where
  | ready (value : Value)
  | pending (task : Task)

namespace Staged

/-- Whether nothing is left to do. -/
def isReady : Staged → Bool
  | .ready _ => true
  | .pending _ => false

/-- What is left to do, as a task. -/
def toTask : Staged → Task
  | .ready v => .done (.ok v)
  | .pending t => t

/-- The outcome with errors that are still to come moved one level further out. -/
def inside (s : Segment) : Staged → Staged
  | .ready v => .ready v
  | .pending t => .pending (.inside s t)

end Staged

/-- The outcome of polling a task. -/
inductive Poll where
  | ready (result : Except Error Value)
  | pending (task : Task)

/-- The task after it has been polled. -/
def Poll.toTask : Poll → Task
  | .ready r => .done r
  | .pending t => t

end Schemata
