import Hyperscript.Mixin
import Hyperscript.Node.Basic

/-!
Walks through a template tree, and what they find.

`Content.walk` lists all nodes in document order. `Content.walkScope` stays in one function scope of
the generated script: it lists the nodes that open a scope of their own, but does not enter them.
Declarations are looked up by either walk.
-/

namespace Hyperscript

namespace Node

/-- Whether the children of a node are generated into a function of their own. -/
def opensScope : Node → Bool
  | each .. | mixin .. | call .. => true
  | _ => false

/-- The contents a node owns, in document order. -/
def branches : Node → Except Fault (List Content)
  | tag _ _ children | loop _ children | mixin _ _ _ children => .ok [children]
  | each _ _ _ children alternate =>
    .ok (if alternate.isNull then [children] else [children, alternate])
  | code _ _ children | call _ _ _ children | branch _ children =>
    .ok (if children.isNull then [] else [children])
  | conditional _ consequent alternate =>
    match alternate with
    | .node n => .ok (if n.isConditional then [consequent, .list [.node n]] else [consequent])
    | .list _ | .datum (.list _) => .ok [consequent, alternate]
    | .datum _ => .ok [consequent]
  | switch _ whens => do return [.list (← whens.items)]
  | text _ | comment .. | placeholder | other _ => .ok []

end Node

mutual

/-- The nodes below a node, as far as `enter` admits to the nodes on the way. -/
def Node.descendants (enter : Node → Bool) : Node → Except Fault (List Content)
  | .tag _ _ children | .loop _ children | .mixin _ _ _ children => children.walkWhere enter
  | .each _ _ _ children alternate => do
    return (← children.walkWhere enter) ++ (← alternate.walkUnlessNull enter)
  | .code _ _ children | .call _ _ _ children | .branch _ children =>
    children.walkUnlessNull enter
  | .conditional _ consequent alternate => do
    return (← consequent.walkWhere enter) ++ (← alternate.walkAlternate enter)
  | .switch _ whens => whens.walkWhere enter
  | .text _ | .comment .. | .placeholder | .other _ => .ok []

/-- The nodes of a content and those below them. -/
def Content.walkWhere (enter : Node → Bool) : Content → Except Fault (List Content)
  | .node n => .error (.notIterable n.kind)
  | .list items => walkItems enter items
  | .datum d => do return (← d.items).map Content.datum

def Content.walkUnlessNull (enter : Node → Bool) : Content → Except Fault (List Content)
  | .node n => .error (.notIterable n.kind)
  | .list items => walkItems enter items
  | .datum d => if d.isNull then .ok [] else do return (← d.items).map Content.datum

/-- The alternate of a conditional: another conditional or a list; anything else is passed over. -/
def Content.walkAlternate (enter : Node → Bool) : Content → Except Fault (List Content)
  | .node n =>
    if n.isConditional then do return .node n :: (← if enter n then n.descendants enter else .ok [])
    else .ok []
  | .list items => walkItems enter items
  | .datum (.list items) => .ok (items.map Content.datum)
  | .datum _ => .ok []

def walkItems (enter : Node → Bool) : List Content → Except Fault (List Content)
  | [] => .ok []
  | .node n :: rest => do
    let inner ← if enter n then n.descendants enter else .ok []
    return .node n :: (inner ++ (← walkItems enter rest))
  | item :: rest => do return item :: (← walkItems enter rest)

end

namespace Content

/-- All nodes, in document order. -/
def walk (c : Content) : Except Fault (List Content) :=
  c.walkWhere fun _ => true

/-- The nodes of one function scope, in document order. -/
def walkScope (c : Content) : Except Fault (List Content) :=
  c.walkWhere fun n => !n.opensScope

/-- All mixin declarations of a tree. -/
def declarations (c : Content) : Except Fault (List Declaration) := do
  return (← c.walk).filterMap declaration?

/-- The mixin declarations that belong to one function scope. -/
def scopeDeclarations (c : Content) : Except Fault (List Declaration) := do
  return (← c.walkScope).filterMap declaration?

end Content

/-- Whether a top-level node adds nothing to the tree: unbuffered code without a block, a mixin
declaration or a comment. -/
def Content.isSilent : Content → Bool
  | .node (.code _ (.bool false) (.datum .null)) => true
  | .node (.mixin ..) => true
  | .node (.comment ..) => true
  | _ => false

def Content.isTag : Content → Bool
  | .node (.tag ..) => true
  | _ => false

/-- The root of a template: its only top-level tag, beside which there are only silent nodes. -/
def root (top : List Content) : Except Fault Content :=
  match top.filter (fun c => !c.isTag && !c.isSilent) with
  | c :: _ => .error (.rootKind c.kind)
  | [] =>
    match top.filter Content.isTag with
    | [c] => .ok c
    | tags => .error (.rootCount tags.length)

end Hyperscript
