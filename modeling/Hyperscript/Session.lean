import Hyperscript.Session.Writing

/-!
What a session can be asked to do: to write the code of contents or of a node, the definitions of a
scope or a single one, or a whole script. Only the last also declares mixins.
-/

namespace Hyperscript.Session

/-- The session after some steps. -/
def after (s : Session) (steps : Writing Unit) : Except Fault Session := do
  let ((), s) ← steps.run s
  return s

/-- Writes the code of child contents. -/
def compileChildren (s : Session) (c : Content) : Except Fault Session :=
  s.after c.write

/-- Writes the code of a single node. -/
def compileNode (s : Session) (c : Content) : Except Fault Session :=
  s.after c.writeOne

/-- Writes the definitions of the mixins that belong to the scope of a content. -/
def compileScope (s : Session) (c : Content) : Except Fault Session :=
  s.after c.hoist

/-- Writes the definition of a mixin. -/
def compileDefinition (s : Session) (c : Content) : Except Fault Session :=
  s.after c.writeDefinition

/-- Declares a mixin under the parameters its declaration lists. -/
def declare (mixins : Registry) (d : Declaration) : Except Fault Registry := do
  mixins.declare ⟨d.name, ← d.params.items, d.rest⟩

/-- Declares every mixin of a tree, then writes its whole script. -/
def compileModule (s : Session) (c : Content) : Except Fault Session := do
  let mixins ← (← c.declarations).foldlM declare s.mixins
  { s with mixins }.after c.writeProgram

end Hyperscript.Session
