import Hyperscript.Generate
import Hyperscript.Script.Writer

/-!
A session: a script under construction, and what the code that comes next can see.

It holds options, declared mixins, the stack of arrays being filled, the depth of mixin bodies and
the writer. Code is written in steps, in the monad `Writing`. Some steps come in pairs that have to
be matched by whoever takes them: a block is opened and closed, the indentation goes in and out, an
array is entered and left, a mixin body begins and ends. A step that finds a fault is the last one,
and the session stays as it is then.
-/

namespace Hyperscript

structure Session where
  options : Options := {}
  mixins : Registry := {}
  /-- The arrays being filled, the innermost last. -/
  parents : List ArrayName := []
  depth : Int := 0
  writer : Writer := {}

namespace Session

/-- What code generated in the session can see. -/
def scope (s : Session) : Scope :=
  ⟨s.options, s.mixins, s.parents.getLast?, s.depth⟩

/-- The array that is being filled. -/
def parent (s : Session) : Except Fault ArrayName :=
  s.scope.target

def pushParent (s : Session) (array : ArrayName) : Session :=
  { s with parents := s.parents ++ [array] }

/-- Leaves the innermost array. -/
def popParent (s : Session) : Except Fault Session :=
  if s.parents.isEmpty then .error .noParent else .ok { s with parents := s.parents.dropLast }

/-- Moves the indentation. -/
def shift (s : Session) (amount : Int) : Session :=
  { s with writer := s.writer.shift amount }

/-- Goes into `amount` mixin bodies, or out of them. -/
def deepen (s : Session) (amount : Int) : Session :=
  { s with depth := s.depth + amount }

end Session

/-- Steps of a session: each reads and changes it, or finds a fault. What was written before a fault
stays written. -/
abbrev Writing := ExceptT Fault (StateM Session)

namespace Writing

/-- What comes of steps: the value they give or the fault they find, and the session they leave. -/
def attempt {α : Type} (steps : Writing α) (s : Session) : Except Fault α × Session :=
  StateT.run (ExceptT.run steps) s

/-- The value that steps give and the session they lead to, or the fault they find. -/
def run {α : Type} (steps : Writing α) (s : Session) : Except Fault (α × Session) :=
  let (outcome, s) := steps.attempt s
  outcome.map (·, s)

/-- A step of the writer. -/
def onWriter (step : Writer → Writer) : Writing Unit :=
  modify fun s => { s with writer := step s.writer }

/-- Writes a line. -/
def line (code : String) : Writing Unit := onWriter (·.line code)

/-- Writes code of several lines. -/
def code (code : String) : Writing Unit := onWriter (·.code code)

def openBlock (header : String) : Writing Unit := onWriter (·.openBlock header)

def reopenBlock (header : String) : Writing Unit := onWriter (·.reopenBlock header)

def closeBlock (trailer : String) : Writing Unit := onWriter (·.closeBlock trailer)

def indent : Writing Unit := modify (·.shift 2)

def dedent : Writing Unit := modify (·.shift (-2))

/-- Takes a fresh array. -/
def fresh : Writing ArrayName :=
  modifyGet fun s => (s.writer.fresh.1, { s with writer := s.writer.fresh.2 })

/-- The array that is being filled. -/
def parent : Writing ArrayName := do (← get).parent

/-- Begins to fill an array. -/
def enter (array : ArrayName) : Writing Unit := modify (·.pushParent array)

/-- Goes back to the array that was being filled before. -/
def leave : Writing Unit := do set (← (← get).popParent)

def enterMixin : Writing Unit := modify (·.deepen 1)

def leaveMixin : Writing Unit := modify (·.deepen (-1))

/-- The push of the texts that stand before another node. -/
def flush (texts : List Datum) : Writing Unit := do
  if texts.isEmpty then return ()
  let target ← parent
  line (Code.push target.text (← Interpolation.ofRun texts).code)

/-- The inside of a function: the definitions that open it, then a fresh array that the body fills
and the function returns. The array is taken before the definitions take theirs. -/
def returning (definitions body : Writing Unit) : Writing Unit := do
  let array ← fresh
  definitions
  line (Code.declare array.text)
  enter array
  body
  leave
  line (Code.result array.text)

end Writing

end Hyperscript
