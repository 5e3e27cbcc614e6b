import Hyperscript.Session.Basic

/-!
Writing the code of a template tree, line by line.

`Node.write` writes the code of a node and `Content.write` that of child contents, in which runs of
adjacent texts become one push. A mixin declaration writes nothing where it stands: its definition
opens the function scope it belongs to, and `Content.hoist` writes the definitions of a scope.

What is written are the lines of the statements that `Node.generate` gives.
-/

namespace Hyperscript

open Writing

mutual

/-- Writes the code of a node. -/
def Node.write : Node → Writing Unit
  | .tag name attributes children => do
    let tag ← tagCode (← get).options name
    let properties ← attributes.code? (← get).options
    if children.isTrue then
      let array ← fresh
      line (Code.declare array.text)
      enter array
      indent
      children.write
      dedent
      leave
      line (Code.push (← parent).text
        (Code.element [tag, properties.getD "\x7b\x7d", array.text]))
    else line (Code.push (← parent).text (Code.element (tag :: properties.toList)))
  | .text value => do
    let target ← parent
    line (Code.push target.text (← Interpolation.ofDatum value).code)
  | .code value buffer children => do
    if buffer.isTrue then
      let target ← parent
      line (Code.push target.text ("(" ++ (← value.written Datum.spell) ++ ")"))
      if children.isTrue then children.write
    else if children.isNull then code (← value.text)
    else
      code (Code.opening (← value.written Datum.spell))
      indent
      children.write
      closeBlock Code.closing
  | .comment .. => return ()
  | .conditional test consequent alternate => do
    openBlock ("if (" ++ (← test.written Datum.spell) ++ ")")
    consequent.write
    alternate.writeOtherwise
    closeBlock Code.closing
  | .switch expr whens => do
    openBlock ("switch (" ++ (← expr.written Datum.spell) ++ ")")
    whens.writeClauses
    closeBlock Code.closing
  | .each obj val key children alternate => do
    line ";(function()\x7b"
    indent
    line ("var $$obj = " ++ (← obj.written Datum.spell) ++ ";")
    let _ ← (← eachScope children alternate).scopeDeclarations
    children.writeDefinitions
    alternate.writeDefinitions
    openBlock "if ('number' == typeof $$obj.length)"
    let key ← key.written loopKey
    openBlock ("for (var " ++ key ++ " = 0, $$l = $$obj.length; " ++ key ++ " < $$l; " ++ key ++
      "++)")
    let bind := "var " ++ (← val.written Datum.spell) ++ " = $$obj[" ++ key ++ "];"
    line bind
    children.write
    closeBlock Code.closing
    alternate.writeWhenEmpty
    reopenBlock "else"
    line "var $$l = 0;"
    openBlock ("for (var " ++ key ++ " in $$obj)")
    line "$$l++;"
    line bind
    children.write
    closeBlock Code.closing
    alternate.writeWhenEmpty
    closeBlock Code.closing
    dedent
    line "\x7d).call(this);"
  | .loop test children => do
    openBlock ("while (" ++ (← test.written Datum.spell) ++ ")")
    children.write
    closeBlock Code.closing
  | .mixin .. => return ()
  | .call name args attributes children => do
    let _ ← (← get).mixins.lookup name
    let target ← parent
    let properties ← attributes.code? (← get).options
    let args := Code.furtherArguments (Text.trim (← args.text))
    let head := Code.callHead target.text (← Mixin.nameText name)
    if children.isNull then
      let context := match properties with
        | none => "this"
        | some properties => "\x7b" ++ Code.attributesField properties ++ "\x7d"
      line (head ++ context ++ args ++ "));")
    else
      let field := match properties with
        | none => ""
        | some properties => ", " ++ Code.attributesField properties
      line (head ++ "\x7bblock: function() \x7b")
      indent
      returning (do let _ ← children.scopeDeclarations; children.writeDefinitions) children.write
      dedent
      line ("\x7d" ++ field ++ "\x7d" ++ args ++ "));")
  | .placeholder => do
    if (← get).depth = 0 then throw .strayPlaceholder
    openBlock "if (block)"
    line (Code.pushAll (← parent).text "block.call(this)")
    closeBlock Code.closing
  | .branch expr children => throw (.unsupportedNode (Node.branch expr children).kind)
  | .other kind => throw (.unsupportedNode kind)

/-- Writes the code of child contents. -/
def Content.write : Content → Writing Unit
  | .node n => throw (.notIterable n.kind)
  | .list items => writeItems [] items
  | .datum d => refuseItems d

/-- Writes the code of child nodes; `texts` are those that stand directly before them. -/
def writeItems (texts : List Datum) : List Content → Writing Unit
  | [] => flush texts
  | .node n :: rest =>
    match n with
    | .text value => writeItems (texts ++ [value]) rest
    | _ => do
      flush texts
      n.write
      writeItems [] rest
  | item :: _ => do
    flush texts
    throw (.unsupportedNode item.kind)

/-- Goes on with the alternate of a conditional, up to the brace that closes it. -/
def Content.writeOtherwise : Content → Writing Unit
  | .node (.conditional test consequent alternate) => do
    reopenBlock ("else if (" ++ (← test.written Datum.spell) ++ ")")
    consequent.write
    alternate.writeOtherwise
  | .node n => do
    reopenBlock "else"
    throw (.notIterable n.kind)
  | .list items => do
    if items.isEmpty then return ()
    reopenBlock "else"
    writeItems [] items
  | .datum d => do
    if d.isTrue then
      reopenBlock "else"
      refuseItems d

/-- Writes the clauses of a switch. -/
def Content.writeClauses : Content → Writing Unit
  | .node n => throw (.notIterable n.kind)
  | .list items => writeClausesOfItems items
  | .datum d => refuseBranches d

def writeClausesOfItems : List Content → Writing Unit
  | [] => return ()
  | .node (.branch expr children) :: rest => do
    line (Clause.labelCode (← expr.written branchLabel))
    if !children.isNull then
      indent
      children.write
      line "break;"
      dedent
    writeClausesOfItems rest
  | item :: _ => throw (.strayBranch item.kind)

/-- Writes what follows a loop. -/
def Content.writeWhenEmpty : Content → Writing Unit
  | .node n => do
    openBlock "if ($$l === 0)"
    throw (.notIterable n.kind)
  | .list items => do
    openBlock "if ($$l === 0)"
    writeItems [] items
    closeBlock Code.closing
  | .datum d => do
    if d.isNull then return ()
    openBlock "if ($$l === 0)"
    refuseItems d
    closeBlock Code.closing

/-- Writes the definitions of the mixins declared at a node or below it, in its function scope. -/
def Node.writeDefinitions : Node → Writing Unit
  | .tag _ _ children | .code _ _ children | .loop _ children | .branch _ children
  | .switch _ children => children.writeDefinitions
  | .conditional _ consequent alternate => do
    consequent.writeDefinitions
    alternate.writeAlternateDefinitions
  | .mixin name params rest children => do
    let (params, count) ← Mixin.paramList params
    line (Mixin.reference (← Mixin.nameText name) ++ " = function(" ++ params ++ ") \x7b")
    indent
    line ("var block = (this && this.block), " ++
      "attributes = (this && this.attributes) || \x7b\x7d;")
    if !rest.isNull then
      line ("var " ++ (← rest.written Datum.spell) ++
        " = Array.prototype.slice.call(arguments, " ++ toString count ++ ");")
    enterMixin
    returning (do let _ ← children.scopeDeclarations; children.writeDefinitions) children.write
    leaveMixin
    closeBlock "\x7d;"
  | .text _ | .comment .. | .each .. | .call .. | .placeholder | .other _ => return ()

/-- Writes the definitions of the mixins declared in a content, in its function scope. -/
def Content.writeDefinitions : Content → Writing Unit
  | .list items => writeDefinitionsOfItems items
  | .node _ | .datum _ => return ()

def Content.writeAlternateDefinitions : Content → Writing Unit
  | .node n => if n.isConditional then n.writeDefinitions else return ()
  | .list items => writeDefinitionsOfItems items
  | .datum _ => return ()

def writeDefinitionsOfItems : List Content → Writing Unit
  | [] => return ()
  | .node n :: rest => do
    n.writeDefinitions
    writeDefinitionsOfItems rest
  | _ :: rest => writeDefinitionsOfItems rest

end

namespace Content

/-- Writes the code of what stands in place of a single node. -/
def writeOne : Content → Writing Unit
  | node n => n.write
  | c => throw (.unsupportedNode c.kind)

/-- Writes the definitions that open a function scope. All declarations are listed first, so a fault
in the shape of the scope comes before any fault in a definition. -/
def hoist (c : Content) : Writing Unit := do
  let _ ← c.scopeDeclarations
  c.writeDefinitions

/-- Writes the definition of what stands in place of a declaration. -/
def writeDefinition (c : Content) : Writing Unit :=
  match c with
  | node (.mixin name params rest children) =>
    (Node.mixin name params rest children).writeDefinitions
  | c => throw (.declarationNeeded c.kind)

/-- Writes the whole script of top-level nodes. -/
def writeProgram (c : Content) : Writing Unit := do
  if (← get).options.runtime.isTrue then code Program.bindingCode
  line ("var " ++ Mixin.table ++ " = \x7b\x7d;")
  let root ← fresh
  c.hoist
  line (Code.declare root.text)
  enter root
  c.write
  leave
  line (Code.result (root.text ++ "[0]"))

end Content

end Hyperscript
