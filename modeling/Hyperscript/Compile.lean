import Hyperscript.Session

/-!
Compilation of a template to a script.
-/

namespace Hyperscript

/-- A compiled template: the script, and how many mixins it declares. -/
structure Compiled where
  script : String
  mixins : Nat
  deriving DecidableEq, Repr

/-- The top-level contents of a template: a single node, or the items of a list of nodes. -/
def topLevel : Content → Except Fault (List Content)
  | .node n => .ok [.node n]
  | c => c.items

/-- At the top level only nodes are allowed. -/
def checkNode : Content → Except Fault Unit
  | .node _ => .ok ()
  | c => .error (.unsupportedNode c.kind)

/-- Compiles a template. The script is the body of a function that returns the root element. -/
def compile (options : Options) (c : Content) : Except Fault Compiled := do
  let top ← topLevel c
  top.forM checkNode
  let _ ← root top
  let session : Session := { options, writer := { pretty := options.pretty.isTrue } }
  let session ← session.compileModule (.list top)
  let script := session.writer.text
  let script ← if options.pretty.isTrue then options.formatter.run script else .ok script
  return ⟨script, session.mixins.size⟩

end Hyperscript
