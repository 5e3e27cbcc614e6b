import Hyperscript.Interpolation
import Hyperscript.Mixin

/-!
The generated script as data.

A script fills child arrays: every element with children, every mixin body and every block passed to
a call has an array of its own, declared before it is filled and then handed on once. The
expressions of the template are carried along as text.
-/

namespace Hyperscript

/-- The variable of a child array: the script's own are numbered, others come from the caller. -/
inductive ArrayName where
  | fresh (index : Nat)
  | named (name : String)
  deriving DecidableEq, Repr

/-- What a push adds to an array. -/
inductive Value where
  | text (text : Interpolated)
  | code (expr : String)
  /-- An element without children: its tag and its properties, if any. -/
  | leaf (tag : String) (properties : Option String)
  deriving DecidableEq, Repr

mutual

/-- A statement of a script. -/
inductive Stmt where
  | push (target : ArrayName) (value : Value)
  /-- Declares `array`, fills it by `body`, and pushes the element with these children. -/
  | element (target array : ArrayName) (tag : String) (properties : Option String)
      (body : List Stmt)
  /-- Code of the template, passed on. -/
  | splice (code : String)
  /-- Code of the template that opens a block around `body`. -/
  | codeBlock (header : String) (body : List Stmt)
  | cond (test : String) (body : List Stmt) (otherwise : Otherwise)
  | switch (subject : String) (clauses : List Clause)
  /-- A loop over an array or an object, in a function of its own. The body is there once for either
  kind of source, and so is what follows the loop. -/
  | each (source item key : String) (definitions : List Stmt)
      (arrayBody arrayRest objectBody objectRest : List Stmt)
  | loop (test : String) (body : List Stmt)
  /-- Defines a mixin: a function that fills `array` by `body` and returns it. `rest` is the
  parameter that takes the arguments from a position on. -/
  | define (mixin params : String) (rest : Option (String × Nat)) (definitions : List Stmt)
      (array : ArrayName) (body : List Stmt)
  /-- Pushes everything a mixin returns. -/
  | call (target : ArrayName) (mixin : String) (properties : Option String) (args : String)
  /-- The same with a block: a function that fills `array` by `body` and returns it. -/
  | callWith (target : ArrayName) (mixin : String) (properties : Option String) (args : String)
      (definitions : List Stmt) (array : ArrayName) (body : List Stmt)
  /-- Pushes everything the block of the current call returns, if there is one. -/
  | insertBlock (target : ArrayName)

/-- How a conditional goes on when its test fails. -/
inductive Otherwise where
  | done
  | body (body : List Stmt)
  | elseIf (test : String) (body : List Stmt) (otherwise : Otherwise)

/-- A clause of a switch; the one without label is the default. A clause without a body falls
through to the next. -/
inductive Clause where
  | fallThrough (label : Option String)
  | body (label : Option String) (body : List Stmt)

end

/-- A whole script: bindings for the run time if wanted, the mixins, and the statements that fill
the root array, of which the first entry is returned. -/
structure Program where
  runtime : Bool
  definitions : List Stmt
  root : ArrayName
  body : List Stmt

end Hyperscript
