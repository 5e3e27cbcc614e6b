import Hyperscript.Node.Walk
import Hyperscript.Script.Basic

/-!
From template trees to scripts.

`Node.generate` gives the statements of a node, `Content.generate` those of child contents, in which
runs of adjacent texts become one push. A mixin declaration has no statement where it stands: its
definition opens the function scope it belongs to, so that it can be called from anywhere in that
scope. `Content.definitions` gives those definitions.

The only state is the index of the next fresh array. A session writes the lines of these statements
one by one, with `Node.write`.
-/

namespace Hyperscript

/-- What generated code can see. -/
structure Scope where
  options : Options
  mixins : Registry
  /-- The array that is being filled. -/
  parent : Option ArrayName
  /-- How many mixin bodies enclose the code. -/
  depth : Int

/-- Generation takes fresh arrays and may find a fault. -/
abbrev Generation := StateT Nat (Except Fault)

namespace Generation

/-- Takes a fresh array. -/
def fresh : Generation ArrayName :=
  modifyGet fun next => (.fresh next, next + 1)

end Generation

namespace Scope

/-- The array to push to. -/
def target (s : Scope) : Except Fault ArrayName :=
  match s.parent with
  | some array => .ok array
  | none => .error .noParent

/-- The scope of code that fills another array. -/
def filling (s : Scope) (array : ArrayName) : Scope :=
  { s with parent := some array }

/-- The scope of a mixin body. -/
def inMixin (s : Scope) : Scope :=
  { s with depth := s.depth + 1 }

/-- The push of the texts that stand before another node. -/
def flush (s : Scope) (texts : List Datum) : Except Fault (List Stmt) := do
  if texts.isEmpty then return []
  let target ← s.target
  return [.push target (.text (← Interpolation.ofRun texts))]

end Scope

/-- Nothing can be generated for data in place of child nodes. -/
def refuseItems (d : Datum) : Except Fault Unit := do
  match ← d.items with
  | [] => return ()
  | item :: _ => throw (.unsupportedNode item.kind)

/-- Data are no branches of a case. -/
def refuseBranches (d : Datum) : Except Fault Unit := do
  match ← d.items with
  | [] => return ()
  | item :: _ => throw (.strayBranch item.kind)

/-- The label of a branch; null marks the default. -/
def branchLabel (expr : Datum) : Option String :=
  if expr.isNull then none else some expr.spell

/-- The variable that counts the items of a loop, unless it is named. -/
def loopKey (key : Datum) : String :=
  if key.isTrue then key.spell else "$index"

/-- The content that an `each` puts in one scope. -/
def eachScope (children alternate : Content) : Except Fault Content :=
  children.append (if alternate.isTrue then alternate else .list [])

mutual

/-- The statements of a node. -/
def Node.generate (s : Scope) : Node → Generation (List Stmt)
  | .tag name attributes children => do
    let tag ← tagCode s.options name
    let properties ← attributes.code? s.options
    if children.isTrue then
      let array ← Generation.fresh
      let body ← children.generate (s.filling array)
      return [.element (← s.target) array tag properties body]
    else return [.push (← s.target) (.leaf tag properties)]
  | .text value => do
    let target ← s.target
    return [.push target (.text (← Interpolation.ofDatum value))]
  | .code value buffer children => do
    if buffer.isTrue then
      let target ← s.target
      let expr ← value.written Datum.spell
      let rest ← if children.isTrue then children.generate s else pure []
      return .push target (.code expr) :: rest
    else if children.isNull then return [.splice (← value.text)]
    else
      let header ← value.written Datum.spell
      return [.codeBlock header (← children.generate s)]
  | .comment .. => return []
  | .conditional test consequent alternate => do
    let test ← test.written Datum.spell
    let body ← consequent.generate s
    return [.cond test body (← alternate.otherwise s)]
  | .switch expr whens => do
    let expr ← expr.written Datum.spell
    return [.switch expr (← whens.clauses s)]
  | .each obj val key children alternate => do
    let obj ← obj.written Datum.spell
    let _ ← (← eachScope children alternate).scopeDeclarations
    let definitions := (← children.definitions s) ++ (← alternate.definitions s)
    let key ← key.written loopKey
    let val ← val.written Datum.spell
    let arrayBody ← children.generate s
    let arrayRest ← alternate.whenEmpty s
    let objectBody ← children.generate s
    let objectRest ← alternate.whenEmpty s
    return [.each obj val key definitions arrayBody arrayRest objectBody objectRest]
  | .loop test children => do
    let test ← test.written Datum.spell
    return [.loop test (← children.generate s)]
  | .mixin .. => return []
  | .call name args attributes children => do
    let _ ← s.mixins.lookup name
    let target ← s.target
    let properties ← attributes.code? s.options
    let args := Text.trim (← args.text)
    let mixin ← Mixin.nameText name
    if children.isNull then return [.call target mixin properties args]
    let array ← Generation.fresh
    let _ ← children.scopeDeclarations
    let definitions ← children.definitions s
    let body ← children.generate (s.filling array)
    return [.callWith target mixin properties args definitions array body]
  | .placeholder => do
    if s.depth = 0 then throw .strayPlaceholder
    return [.insertBlock (← s.target)]
  | .branch expr children => throw (.unsupportedNode (Node.branch expr children).kind)
  | .other kind => throw (.unsupportedNode kind)

/-- The statements of child contents. -/
def Content.generate (s : Scope) : Content → Generation (List Stmt)
  | .node n => throw (.notIterable n.kind)
  | .list items => generateItems s [] items
  | .datum d => do
    refuseItems d
    return []

/-- The statements of child nodes; `texts` are those that stand directly before them. -/
def generateItems (s : Scope) (texts : List Datum) : List Content → Generation (List Stmt)
  | [] => s.flush texts
  | .node n :: rest =>
    match n with
    | .text value => generateItems s (texts ++ [value]) rest
    | _ => do
      let before ← s.flush texts
      let stmts ← n.generate s
      return before ++ stmts ++ (← generateItems s [] rest)
  | item :: _ => do
    let _ ← s.flush texts
    throw (.unsupportedNode item.kind)

/-- How a conditional goes on with its alternate. -/
def Content.otherwise (s : Scope) : Content → Generation Otherwise
  | .node (.conditional test consequent alternate) => do
    let test ← test.written Datum.spell
    let body ← consequent.generate s
    return .elseIf test body (← alternate.otherwise s)
  | .node n => throw (.notIterable n.kind)
  | .list items => do
    if items.isEmpty then return .done
    return .body (← generateItems s [] items)
  | .datum d => do
    if d.isTrue then
      refuseItems d
      return .body []
    else return .done

/-- The clauses of a switch. -/
def Content.clauses (s : Scope) : Content → Generation (List Clause)
  | .node n => throw (.notIterable n.kind)
  | .list items => clausesOfItems s items
  | .datum d => do
    refuseBranches d
    return []

def clausesOfItems (s : Scope) : List Content → Generation (List Clause)
  | [] => return []
  | .node (.branch expr children) :: rest => do
    let label ← expr.written branchLabel
    let clause ←
      if children.isNull then pure (Clause.fallThrough label)
      else do pure (Clause.body label (← children.generate s))
    return clause :: (← clausesOfItems s rest)
  | item :: _ => throw (.strayBranch item.kind)

/-- What follows a loop: its alternate, for the case that there was nothing to go through. -/
def Content.whenEmpty (s : Scope) : Content → Generation (List Stmt)
  | .node n => throw (.notIterable n.kind)
  | .list items => do return [.cond "$$l === 0" (← generateItems s [] items) .done]
  | .datum d => do
    if d.isNull then return []
    refuseItems d
    return [.cond "$$l === 0" [] .done]

/-- The definitions of the mixins declared at a node or below it, in its function scope. -/
def Node.definitions (s : Scope) : Node → Generation (List Stmt)
  | .tag _ _ children | .code _ _ children | .loop _ children | .branch _ children
  | .switch _ children => children.definitions s
  | .conditional _ consequent alternate => do
    return (← consequent.definitions s) ++ (← alternate.alternateDefinitions s)
  | .mixin name params rest children => do
    let (params, count) ← Mixin.paramList params
    let mixin ← Mixin.nameText name
    let rest ← rest.written fun rest => if rest.isNull then none else some (rest.spell, count)
    let array ← Generation.fresh
    let _ ← children.scopeDeclarations
    let definitions ← children.definitions s.inMixin
    let body ← children.generate (s.inMixin.filling array)
    return [.define mixin params rest definitions array body]
  | .text _ | .comment .. | .each .. | .call .. | .placeholder | .other _ => return []

/-- The definitions of the mixins declared in a content, in its function scope. -/
def Content.definitions (s : Scope) : Content → Generation (List Stmt)
  | .list items => definitionsOfItems s items
  | .node _ | .datum _ => return []

def Content.alternateDefinitions (s : Scope) : Content → Generation (List Stmt)
  | .node n => if n.isConditional then n.definitions s else return []
  | .list items => definitionsOfItems s items
  | .datum _ => return []

def definitionsOfItems (s : Scope) : List Content → Generation (List Stmt)
  | [] => return []
  | .node n :: rest => do return (← n.definitions s) ++ (← definitionsOfItems s rest)
  | _ :: rest => definitionsOfItems s rest

end

namespace Content

/-- The statements of what stands in place of a single node. -/
def generateOne (s : Scope) : Content → Generation (List Stmt)
  | node n => n.generate s
  | c => throw (.unsupportedNode c.kind)

/-- The definitions that open a function scope. All declarations are listed first, so a fault in the
shape of the scope comes before any fault in a definition. -/
def hoisted (s : Scope) (c : Content) : Generation (List Stmt) := do
  let _ ← c.scopeDeclarations
  c.definitions s

/-- The definition of what stands in place of a declaration. -/
def defineOne (s : Scope) (c : Content) : Generation (List Stmt) :=
  match c with
  | node (.mixin name params rest children) => (Node.mixin name params rest children).definitions s
  | c => throw (.declarationNeeded c.kind)

end Content

end Hyperscript
