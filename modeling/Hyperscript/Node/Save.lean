import Hyperscript.Node.Basic

/-!
Documents from template trees: the inverse of loading.

Children become mappings with a list of `nodes`; slots that hold null are left out. A static
attribute value is written as a string literal in a quote that it does not hold.
-/

namespace Hyperscript.Save

/-- A mapping with text keys. -/
def mapping (fields : List (String × Datum)) : Datum :=
  .map (fields.map fun (key, value) => (.str key, value))

/-- A node of the document. -/
def typed (type : String) (fields : List (String × Datum)) : Datum :=
  mapping (("type", .str type) :: fields)

/-- A field that is left out if it holds null. -/
def unlessNull (key : String) (value : Datum) : List (String × Datum) :=
  if value.isNull then [] else [(key, value)]

/-- A text as a string literal. -/
def quoted (text : String) : String :=
  let quote := if text.toList.contains '\x27' then '\x22' else '\x27'
  String.ofList (quote :: text.toList ++ [quote])

/-- The value of an attribute: a static text as a literal, anything else as it is. -/
def attributeValue (a : Attribute) : Datum :=
  match a.value with
  | .str s => if a.dynamic.isTrue then .str s else .str (quoted s)
  | value => value

def attr (a : Attribute) : Datum :=
  mapping [("name", a.name), ("val", attributeValue a), ("mustEscape", a.escaped)]

def attributeEntry : AttributeEntry → Datum
  | .attr a => attr a
  | .datum d => d

def attributeSlot : AttributeSlot → Datum
  | .list entries => .list (entries.map attributeEntry)
  | .datum d => d

/-- The expressions merged over the attributes, each in a mapping. -/
def attributeBlocks : Datum → Datum
  | .list blocks => .list (blocks.map fun block => mapping [("val", block)])
  | d => d

/-- The fields of a node's attributes. -/
def attributes (a : Attributes) : List (String × Datum) :=
  [("attrs", attributeSlot a.entries), ("attributeBlocks", attributeBlocks a.blocks)]

/-- The parameters of a mixin as they are declared. -/
def params (names rest : Datum) : Datum :=
  let names := match names with
    | .list names => names.map Datum.spell
    | d => [d.spell]
  .str (", ".intercalate (names ++ (if rest.isNull then [] else ["..." ++ rest.spell])))

/-- The expression of a branch; the default has a word of its own. -/
def branchExpr (expr : Datum) : Datum :=
  if expr.isNull then .str "default" else expr

mutual

/-- A node as a mapping. -/
def node : Node → Datum
  | .tag name a children =>
    typed "Tag" ([("name", name)] ++ attributes a ++ unlessNull "block" (content children))
  | .text value => typed "Text" [("val", value)]
  | .code value buffer children =>
    typed "Code" ([("val", value), ("buffer", buffer)] ++ unlessNull "block" (content children))
  | .comment value buffer => typed "Comment" [("val", value), ("buffer", buffer)]
  | .conditional test consequent alternate =>
    typed "Conditional" ([("test", test), ("consequent", content consequent)] ++
      unlessNull "alternate" (content alternate))
  | .branch expr children =>
    typed "When" ([("expr", branchExpr expr)] ++ unlessNull "block" (content children))
  | .switch expr branches => typed "Case" [("expr", expr), ("block", content branches)]
  | .each obj val key children alternate =>
    typed "Each" ([("obj", obj), ("val", val)] ++ unlessNull "key" key ++
      [("block", content children)] ++ unlessNull "alternate" (content alternate))
  | .loop test children => typed "While" [("test", test), ("block", content children)]
  | .mixin name names rest children =>
    typed "Mixin" [("name", name), ("call", .bool false), ("args", params names rest),
      ("block", content children)]
  | .call name args a children =>
    typed "Mixin" ([("name", name), ("call", .bool true), ("args", args)] ++ attributes a ++
      unlessNull "block" (content children))
  | .placeholder => typed "MixinBlock" []
  | .other kind => typed kind []

/-- What stands where children belong: a list becomes a block. -/
def content : Content → Datum
  | .node n => node n
  | .list items => typed "Block" [("nodes", .list (contents items))]
  | .datum d => d

def contents : List Content → List Datum
  | [] => []
  | c :: rest => content c :: contents rest

end

/-- A whole template as a block. -/
def tree (top : List Content) : Datum :=
  content (.list top)

end Hyperscript.Save
