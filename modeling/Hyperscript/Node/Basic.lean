import Hyperscript.Attribute

/-!
The template tree.

A node's slots hold whatever the document, or the caller, put there: `Content` is what stands where
child nodes belong, and a `Datum` what stands anywhere else. Well-formed trees have lists of nodes
as contents and text in the other slots.
-/

namespace Hyperscript

mutual

/-- A node of a template. -/
inductive Node where
  | tag (name : Datum) (attributes : Attributes) (children : Content)
  | text (value : Datum)
  /-- Embedded code; buffered code adds its value to the tree. -/
  | code (value buffer : Datum) (children : Content)
  | comment (value buffer : Datum)
  | conditional (test : Datum) (consequent alternate : Content)
  /-- A branch of a case; one without an expression is the default. -/
  | branch (expr : Datum) (children : Content)
  | switch (expr : Datum) (branches : Content)
  | each (obj val key : Datum) (children alternate : Content)
  | loop (test : Datum) (children : Content)
  /-- A mixin declaration. -/
  | mixin (name params rest : Datum) (children : Content)
  /-- A mixin call, possibly with a block of children. -/
  | call (name args : Datum) (attributes : Attributes) (children : Content)
  /-- The place in a mixin where the block of a call goes. -/
  | placeholder
  /-- A node of some other kind. -/
  | other (kind : String)

/-- What stands where child nodes belong: a node, a list, or some other datum. -/
inductive Content where
  | node (node : Node)
  | list (items : List Content)
  | datum (value : Datum)

end

instance : Inhabited Node := ⟨.placeholder⟩

instance : Inhabited Content := ⟨.datum .null⟩

/-- The name of a node's kind in messages. -/
def Node.kind : Node → String
  | tag .. => "Tag"
  | text .. => "Text"
  | code .. => "Code"
  | comment .. => "Comment"
  | conditional .. => "Conditional"
  | branch .. => "When"
  | switch .. => "Case"
  | each .. => "Each"
  | loop .. => "While"
  | mixin .. => "MixinDeclaration"
  | call .. => "MixinCall"
  | placeholder => "Block"
  | other kind => kind

def Node.isConditional : Node → Bool
  | conditional .. => true
  | _ => false

namespace Content

/-- The name of the kind of what stands there. -/
def kind : Content → String
  | node n => n.kind
  | list _ => "list"
  | datum d => d.kind

/-- A node counts as true, a list unless it is empty. -/
def isTrue : Content → Bool
  | node _ => true
  | list items => !items.isEmpty
  | datum d => d.isTrue

def isNull : Content → Bool
  | datum d => d.isNull
  | _ => false

/-- What going through the content yields. -/
def items : Content → Except Fault (List Content)
  | node n => .error (.notIterable n.kind)
  | list items => .ok items
  | datum d => do return (← d.items).map Content.datum

/-- One content after the other: two lists, or two texts. -/
def append : Content → Content → Except Fault Content
  | list xs, list ys => .ok (list (xs ++ ys))
  | datum (.str s), datum (.str t) => .ok (datum (.str (s ++ t)))
  | left, right => .error (.notAppendable left.kind right.kind)

end Content

/-- A mixin declaration by itself. -/
structure Declaration where
  name : Datum
  params : Datum
  rest : Datum
  children : Content

/-- The declaration in a content that is one. -/
def Content.declaration? : Content → Option Declaration
  | .node (.mixin name params rest children) => some ⟨name, params, rest, children⟩
  | _ => none

end Hyperscript
