import Hyperscript.Script.Layout

/-!
A script under construction: the text so far, the current indentation and the supply of array
names.
-/

namespace Hyperscript

structure Writer where
  pretty : Bool := false
  indent : Int := 0
  /-- The index of the next fresh array. -/
  next : Nat := 0
  text : String := ""
  deriving DecidableEq, Repr

namespace Writer

/-- Writes lines, each at its own indentation. -/
def put (w : Writer) (lines : List Line) : Writer :=
  { w with text := w.text ++ Line.renderAll w.pretty lines }

/-- Writes a line at the current indentation. -/
def line (w : Writer) (code : String) : Writer :=
  w.put [⟨w.indent, code⟩]

/-- Writes code of several lines, each at the current indentation. -/
def code (w : Writer) (code : String) : Writer :=
  w.put ((Text.codeLines code).map (⟨w.indent, ·⟩))

/-- Moves the indentation. -/
def shift (w : Writer) (amount : Int) : Writer :=
  { w with indent := w.indent + amount }

/-- Opens a block. -/
def openBlock (w : Writer) (header : String) : Writer :=
  (w.line (Code.opening header)).shift 2

/-- Closes a block by the given line. -/
def closeBlock (w : Writer) (trailer : String) : Writer :=
  (w.shift (-2)).line trailer

/-- Closes a block and opens the next one. -/
def reopenBlock (w : Writer) (header : String) : Writer :=
  ((w.shift (-2)).line (Code.reopening header)).shift 2

/-- Takes a fresh array name. -/
def fresh (w : Writer) : ArrayName × Writer :=
  (.fresh w.next, { w with next := w.next + 1 })

/-- Writes statements at the current indentation. -/
def statements (w : Writer) (stmts : List Stmt) : Writer :=
  w.put (Stmt.linesAll w.indent stmts)

end Writer

end Hyperscript
