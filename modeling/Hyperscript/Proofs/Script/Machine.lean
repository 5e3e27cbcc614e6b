import Mathlib.Logic.Function.Basic
import Hyperscript.Script.Basic

/-!
# Running a script

A script builds a virtual tree.  The expressions of the template are not looked into: a `Valuation`
says what they come to, and the machine runs the statements that fill arrays, choose between
branches and call mixins.

A call of a mixin runs a function with a context as its `this`, and a context is of interest only
for the block it carries.  A block is a function together with the `block` that is visible where it
is written, which is again a block or nothing.  So a block is given by a list of functions, its own
first, and the empty list stands for no block at all.

Statements whose effect depends on code of the template (spliced code, loops, arguments and
attributes of calls) have no meaning here: a run that comes to one has no result.
-/

namespace Hyperscript

/-- A virtual tree.  The attributes of an element are kept as the expression that gives them. -/
inductive VTree (δ : Type) where
  | text (text : String)
  | value (value : δ)
  | element (tag : String) (properties : Option String) (children : List (VTree δ))

/-- What the expressions of a template come to when the script runs. -/
structure Valuation (δ : Type) where
  value : String → δ
  /-- A value as part of a text. -/
  shown : δ → String
  /-- Whether a test succeeds. -/
  holds : String → Bool
  /-- Whether the subject of a switch equals a label. -/
  equal : δ → δ → Bool

variable {δ : Type}

/-! ## Values -/

/-- A text with its spans evaluated. -/
def Interpolated.eval (v : Valuation δ) (t : Interpolated) : List Char :=
  t.head ++ t.tail.flatMap fun (span, literal) => (v.shown (v.value span.expr)).toList ++ literal

/-- What a push adds. -/
def Value.eval (v : Valuation δ) : Value → VTree δ
  | text t => .text (String.ofList (t.eval v))
  | code expr => .value (v.value expr)
  | leaf tag properties => .element tag properties []

/-! ## State -/

/-- A function that fills an array and returns it: a mixin, a block, or the script itself. -/
structure Routine where
  definitions : List Stmt
  array : ArrayName
  body : List Stmt

/-- The mixins that are defined. -/
abbrev Mixins := String → Option Routine

/-- The arrays of the running function, and the mixins. -/
structure State (δ : Type) where
  arrays : ArrayName → Option (List (VTree δ))
  mixins : Mixins

/-- What a function returns, and the mixins that are then defined. -/
abbrev Returned (δ : Type) := List (VTree δ) × Mixins

namespace State

/-- Declares an array. -/
def declare (st : State δ) (array : ArrayName) : State δ :=
  { st with arrays := Function.update st.arrays array (some []) }

/-- Pushes onto an array that is declared. -/
def append (st : State δ) (array : ArrayName) (out : List (VTree δ)) : Option (State δ) :=
  (st.arrays array).map fun entries =>
    { st with arrays := Function.update st.arrays array (some (entries ++ out)) }

/-- Pushes what a function returns. -/
def receive (st : State δ) (array : ArrayName) (returned : Option (Returned δ)) :
    Option (State δ) := do
  let (out, mixins) ← returned
  { st with mixins }.append array out

/-- Defines a mixin. -/
def define (st : State δ) (mixin : String) (routine : Routine) : State δ :=
  { st with mixins := Function.update st.mixins mixin (some routine) }

end State

/-! ## Statements -/

/-- What the statements of a function are run with. -/
structure Machine (δ : Type) where
  valuation : Valuation δ
  /-- Calls a mixin, with a block if one is passed. -/
  call : String → Option Routine → Mixins → Option (Returned δ)
  /-- Runs the block of the current call, if there is one. -/
  block : Mixins → Option (Returned δ)

def Clause.label : Clause → Option String
  | fallThrough label => label
  | body label _ => label

/-- Whether control enters a switch at the case of this label. -/
def Valuation.selects (v : Valuation δ) (subject : String) (label : Option String) : Bool :=
  label.any fun expr => v.equal (v.value subject) (v.value expr)

/-- A switch has at most one default. -/
def Clause.wellFormed (clauses : List Clause) : Bool :=
  (clauses.map Clause.label).count none ≤ 1

mutual

/-- Runs a statement. -/
def Stmt.exec (m : Machine δ) : Stmt → State δ → Option (State δ)
  | .push target value, st => st.append target [value.eval m.valuation]
  | .element target array tag properties body, st => do
    let st ← Stmt.execAll m body (st.declare array)
    let children ← st.arrays array
    st.append target [.element tag properties children]
  | .cond test body otherwise, st =>
    if m.valuation.holds test then Stmt.execAll m body st else otherwise.exec m st
  | .switch subject clauses, st =>
    if Clause.wellFormed clauses then
      -- a case that equals the subject is entered first, the default only if there is none
      if clauses.any fun clause => m.valuation.selects subject clause.label then
        Clause.execAll m (m.valuation.selects subject) false clauses st
      else Clause.execAll m Option.isNone false clauses st
    else none
  | .define mixin params rest definitions array body, st =>
    if params = "" ∧ rest = none then some (st.define mixin ⟨definitions, array, body⟩) else none
  | .call target mixin properties args, st =>
    if properties = none ∧ args = "" then st.receive target (m.call mixin none st.mixins) else none
  | .callWith target mixin properties args definitions array body, st =>
    if properties = none ∧ args = "" then
      st.receive target (m.call mixin (some ⟨definitions, array, body⟩) st.mixins)
    else none
  | .insertBlock target, st => st.receive target (m.block st.mixins)
  | .splice _, _ | .codeBlock .., _ | .each .., _ | .loop .., _ => none

def Stmt.execAll (m : Machine δ) : List Stmt → State δ → Option (State δ)
  | [], st => some st
  | s :: rest, st => do Stmt.execAll m rest (← s.exec m st)

def Otherwise.exec (m : Machine δ) : Otherwise → State δ → Option (State δ)
  | .done, st => some st
  | .body body, st => Stmt.execAll m body st
  | .elseIf test body otherwise, st =>
    if m.valuation.holds test then Stmt.execAll m body st else otherwise.exec m st

/-- Runs the clauses of a switch: control comes in at a label that `enters` admits and goes on
through clauses without a body, until it leaves after the first body. -/
def Clause.execAll (m : Machine δ) (enters : Option String → Bool) (entered : Bool) :
    List Clause → State δ → Option (State δ)
  | [], st => some st
  | .fallThrough label :: rest, st => Clause.execAll m enters (entered || enters label) rest st
  | .body label body :: rest, st =>
    if entered || enters label then Stmt.execAll m body st
    else Clause.execAll m enters false rest st

end

/-! ## Functions -/

/-- Runs a function by itself. -/
def Routine.exec (m : Machine δ) (routine : Routine) (mixins : Mixins) : Option (Returned δ) := do
  let st ← Stmt.execAll m routine.definitions ⟨fun _ => none, mixins⟩
  let st ← Stmt.execAll m routine.body (st.declare routine.array)
  return (← st.arrays routine.array, st.mixins)

/-- The machine inside a function that runs with the context `this` and sees the given `block`.

A call with a block makes a context of its own for the mixin, any other call hands on `this`; the
mixin finds its `block` in its context.  A block runs with the `this` of the function that inserts
it, but sees the `block` of the place where it is written. -/
def Machine.inside (v : Valuation δ)
    (run : List Routine → List Routine → Routine → Mixins → Option (Returned δ))
    (this block : List Routine) : Machine δ where
  valuation := v
  call mixin passed mixins := do
    let context := match passed with
      | some routine => routine :: block
      | none => this
    run context context (← mixins mixin) mixins
  block mixins :=
    match block with
    | [] => some ([], mixins)
    | routine :: outer => run this outer routine mixins

/-- Runs a function; no more than `depth` functions may be running at a time. -/
def Routine.run (v : Valuation δ) :
    (depth : Nat) → (this block : List Routine) → Routine → Mixins → Option (Returned δ)
  | 0, _, _, _, _ => none
  | depth + 1, this, block, routine, mixins =>
    routine.exec (.inside v (Routine.run v depth) this block) mixins

/-- Runs a script: the first entry of its root array is the result. -/
def Program.run (v : Valuation δ) (depth : Nat) (p : Program) : Option (VTree δ) := do
  let (out, _) ← Routine.run v depth [] [] ⟨p.definitions, p.root, p.body⟩ fun _ => none
  out.head?

end Hyperscript
