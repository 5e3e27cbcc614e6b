import Hyperscript.Mixin
import Hyperscript.Node.Basic

/-!
Template trees from documents.

A node is a mapping with a `type`; children are in a mapping with a list of `nodes`. Slots that hold
no nodes are taken over as they are. Where several things are wrong, the fault reported is the first
one met in the order in which the functions below read a mapping.
-/

namespace Hyperscript.Load

/-- The entries of a mapping. -/
abbrev Entries := List (Datum × Datum)

/-- The value under a key that has to be there. -/
def required (key : String) (entries : Entries) : Except Fault Datum :=
  match Datum.lookup key entries with
  | some value => .ok value
  | none => .error (.missingKey key)

/-- The value under a key, or null. -/
def optional (key : String) (entries : Entries) : Datum :=
  (Datum.lookup key entries).getD .null

/-- A switch under a key. -/
def switch (key : String) (byDefault : Bool) (entries : Entries) : Datum :=
  .bool ((Datum.lookup key entries).getD (.bool byDefault)).isTrue

/-- The items under a key; whatever counts as false has none. -/
def itemsAt (key : String) (entries : Entries) : Except Fault (List Datum) :=
  let value := optional key entries
  if value.isTrue then value.items else .ok []

/-- The text between the quotes of an expression that is one whole string literal without escapes.
-/
def staticLiteral? : List Char → Option (List Char)
  | [] => none
  | quote :: rest =>
    if (quote = '\x27' ∨ quote = '\x22') ∧ rest.getLast? = some quote ∧
        rest.dropLast.all (fun c => c != quote && c != '\\') then
      some rest.dropLast
    else none

/-- An attribute from its name, its value and whether it is to be escaped. A value that is a literal
is static, any other expression dynamic. -/
def attr : Datum → Except Fault Attribute
  | .map entries => do
    let name ← required "name" entries
    let escaped := switch "mustEscape" true entries
    match (Datum.lookup "val" entries).getD (.bool true) with
    | .bool b => return { name, value := .bool b, escaped }
    | value =>
      let expr ← value.written Datum.spell
      match staticLiteral? expr.toList with
      | some literal => return { name, value := .str (String.ofList literal), escaped }
      | none => return { name, value := .str expr, dynamic := .bool true, escaped }
  | d => .error (.noFields d.kind)

/-- The attribute list of a node. -/
def attributes (entries : Entries) : Except Fault AttributeSlot := do
  return .list ((← (← itemsAt "attrs" entries).mapM attr).map AttributeEntry.attr)

/-- A merged expression: in a mapping, or by itself. -/
def attributeBlock : Datum → Except Fault Datum
  | .map entries => required "val" entries
  | d => do return .str (← d.written Datum.spell)

/-- The expressions merged over the attributes of a node. -/
def attributeBlocks (entries : Entries) : Except Fault Datum := do
  return .list (← (← itemsAt "attributeBlocks" entries).mapM attributeBlock)

/-- The expression of a branch; `default` stands for none. -/
def branchExpr : Datum → Datum
  | .str "default" => .null
  | expr => expr

/-- Data in place of a list of nodes: nothing in them is a node, so only empty ones pass. -/
def refuseNodes (d : Datum) : Except Fault (List Content) := do
  match ← d.items with
  | [] => return []
  | item :: _ => throw (.expectedNode item.kind)

/-- Data in place of a list of branches: nothing in them is a branch, so only empty ones pass. -/
def refuseBranches (d : Datum) : Except Fault (List Content) := do
  match ← d.items with
  | [] => return []
  | item :: _ => throw (.mappingNeeded item.kind)

/-- A branch has to be of the type `When`. -/
def checkBranch (entries : Entries) : Except Fault Unit :=
  match optional "type" entries with
  | .str "When" => .ok ()
  | type => do throw (.strayBranch (← type.written Datum.inspect))

/-- A conditional from what was read for its alternate and its consequent. The alternate comes
first, then the test. -/
def conditional (entries : Entries) (alternate : Except Fault Content)
    (consequent : Except Fault (List Content)) : Except Fault Node := do
  let alternate ← alternate
  let test ← required "test" entries
  return .conditional test (.list (← consequent)) alternate

mutual

/-- A single node. -/
def node : Datum → Except Fault Node
  | .map entries => do
    let type := optional "type" entries
    type.checkKey
    match type with
    | .str "Tag" =>
      let name ← required "name" entries
      let slot ← attributes entries
      let children ← blockAt "block" entries
      let blocks ← attributeBlocks entries
      return .tag name ⟨slot, blocks⟩ (.list children)
    | .str "Text" => return .text ((Datum.lookup "val" entries).getD (.str ""))
    | .str "Code" =>
      let value ← required "val" entries
      return .code value (switch "buffer" false entries) (← optionalBlockAt "block" entries)
    | .str "Comment" | .str "BlockComment" =>
      return .comment ((Datum.lookup "val" entries).getD (.str "")) (switch "buffer" false entries)
    | .str "Conditional" =>
      conditional entries (alternateOf entries) (blockAt "consequent" entries)
    | .str "Case" =>
      let whens ← branchesAt entries
      return .switch (← required "expr" entries) (.list whens)
    | .str "Each" =>
      let obj ← required "obj" entries
      let val ← required "val" entries
      let children ← blockAt "block" entries
      return .each obj val (optional "key" entries) (.list children)
        (← optionalBlockAt "alternate" entries)
    | .str "While" =>
      let test ← required "test" entries
      return .loop test (.list (← blockAt "block" entries))
    | .str "Mixin" =>
      if (optional "call" entries).isTrue then
        let name ← required "name" entries
        let args := optional "args" entries
        let slot ← attributes entries
        let blocks ← attributeBlocks entries
        return .call name (if args.isTrue then args else .str "") ⟨slot, blocks⟩
          (← optionalBlockAt "block" entries)
      else
        let params ← Mixin.paramsOfDatum (optional "args" entries)
        let name ← required "name" entries
        let rest := (params.rest.map Datum.str).getD .null
        return .mixin name (.list (params.names.map .str)) rest (.list (← blockAt "block" entries))
    | .str "MixinBlock" => return .placeholder
    | _ => throw (.unsupportedType (← type.written Datum.inspect))
  | d => .error (.expectedNode d.kind)

/-- The alternate of a conditional: another conditional, or a block. -/
def alternateOf : Entries → Except Fault Content
  | [] => .ok (.datum .null)
  | (key, value) :: rest =>
    match key with
    | .str "alternate" => alternate value
    | _ => alternateOf rest

def alternate : Datum → Except Fault Content
  | .null => .ok (.datum .null)
  | .map entries => do
    match optional "type" entries with
    | .str "Conditional" =>
      return .node (← conditional entries (alternateOf entries) (blockAt "consequent" entries))
    | _ => return .list (← nodesOf entries)
  | d => .error (.expectedBlock d.kind)

/-- The nodes of a block; null is an empty one. -/
def block : Datum → Except Fault (List Content)
  | .null => .ok []
  | .map entries => nodesOf entries
  | d => .error (.expectedBlock d.kind)

/-- The nodes listed by a block. -/
def nodesOf : Entries → Except Fault (List Content)
  | [] => .ok []
  | (key, value) :: rest =>
    match key with
    | .str "nodes" => nodesIn value
    | _ => nodesOf rest

def nodesIn : Datum → Except Fault (List Content)
  | .list items => nodes items
  | d => if d.isTrue then refuseNodes d else .ok []

def nodes : List Datum → Except Fault (List Content)
  | [] => .ok []
  | d :: rest => do return .node (← node d) :: (← nodes rest)

/-- The nodes of the block under a key. -/
def blockAt (key : String) : Entries → Except Fault (List Content)
  | [] => .ok []
  | (k, value) :: rest =>
    match k with
    | .str k => if k = key then block value else blockAt key rest
    | _ => blockAt key rest

/-- The nodes of the block under a key, or null if there is none. -/
def optionalBlockAt (key : String) : Entries → Except Fault Content
  | [] => .ok (.datum .null)
  | (k, value) :: rest =>
    match k with
    | .str k =>
      if k = key then
        if value.isNull then .ok (.datum .null) else do return .list (← block value)
      else optionalBlockAt key rest
    | _ => optionalBlockAt key rest

/-- The branches of a case. -/
def branchesAt : Entries → Except Fault (List Content)
  | [] => .ok []
  | (key, value) :: rest =>
    match key with
    | .str "block" => branchesIn value
    | _ => branchesAt rest

def branchesIn : Datum → Except Fault (List Content)
  | .map entries => branchesOf entries
  | d => if d.isTrue then .error (.mappingNeeded d.kind) else .ok []

def branchesOf : Entries → Except Fault (List Content)
  | [] => .ok []
  | (key, value) :: rest =>
    match key with
    | .str "nodes" => branchList value
    | _ => branchesOf rest

def branchList : Datum → Except Fault (List Content)
  | .list items => branches items
  | d => if d.isTrue then refuseBranches d else .ok []

def branches : List Datum → Except Fault (List Content)
  | [] => .ok []
  | d :: rest => do return .node (← branch d) :: (← branches rest)

def branch : Datum → Except Fault Node
  | .map entries => do
    checkBranch entries
    let expr ← required "expr" entries
    return .branch (branchExpr expr) (← optionalBlockAt "block" entries)
  | d => .error (.mappingNeeded d.kind)

end

/-- A whole template: a list of nodes, a block, or a single node. -/
def tree : Datum → Except Fault (List Content)
  | .list items => nodes items
  | .map entries => do
    match optional "type" entries with
    | .str "Block" => nodesOf entries
    | _ => return [.node (← node (.map entries))]
  | d => .error (.expectedTree d.kind)

end Hyperscript.Load
