import Hyperscript.Text.Quoted

/-!
Everything that can go wrong, by cause.

Templates come from documents that promise nothing about the kind of value a slot holds, so besides
the faults of a template (`unknownMixin`, `rootCount`, …) there are those of a value that is not of
the kind its use needs. Kinds are named as messages name them.
-/

namespace Hyperscript

/-- A reason why a document, a template or a command is refused. -/
inductive Fault where
  /-- A top-level node that is neither a tag nor silent. -/
  | rootKind (kind : String)
  /-- The number of top-level tags is not one. -/
  | rootCount (found : Nat)
  | duplicateMixin (name : String)
  | unknownMixin (name : String)
  /-- A node, or a value in place of one, for which no code can be generated. -/
  | unsupportedNode (kind : String)
  /-- A node of the document whose `type` is not known; the type as inspected. -/
  | unsupportedType (type : String)
  /-- A branch of a case that is no `When`. -/
  | strayBranch (found : String)
  /-- A block placeholder outside every mixin. -/
  | strayPlaceholder
  /-- A mapping lacks a required key. -/
  | missingKey (key : String)
  | expectedNode (kind : String)
  | expectedBlock (kind : String)
  | expectedTree (kind : String)
  /-- An option that does not exist; its name as inspected. -/
  | unknownOption (name : String)
  /-- An attribute value that is neither a boolean nor text; both as inspected. -/
  | invalidAttribute (name value : String)
  /-- A value of this kind has no items to go through. -/
  | notIterable (kind : String)
  /-- A value of this kind has no fields to look up by name. -/
  | noFields (kind : String)
  /-- A value of this kind cannot be a key. -/
  | unhashable (kind : String)
  /-- A value of this kind cannot be searched as text. -/
  | notSearchable (kind : String)
  /-- The item at this position of a list to be joined is of this kind and not text. -/
  | notJoinable (position : Nat) (kind : String)
  /-- There are no items to be joined. -/
  | noItemsToJoin
  /-- Values of these kinds cannot be concatenated. -/
  | notAppendable (left right : String)
  | notCallable (kind : String)
  /-- A value of this kind is used as text. -/
  | textNeeded (kind : String)
  /-- A value of this kind is used as a mapping. -/
  | mappingNeeded (kind : String)
  /-- A value of this kind stands for an attribute. -/
  | attributeNeeded (kind : String)
  /-- A value of this kind stands for a mixin declaration. -/
  | declarationNeeded (kind : String)
  /-- A value of this kind stands for a piece of text. -/
  | partNeeded (kind : String)
  /-- An integer has more digits than are ever written. -/
  | tooManyDigits
  /-- No child array is being filled. -/
  | noParent
  /-- The text of a document is malformed. -/
  | unreadable
  /-- A script that is neither to be printed nor has a file to go to. -/
  | noDestination
  /-- The bytes of a file are not the encoding of a text. -/
  | undecodable
  /-- A text has no encoding. -/
  | unencodable
  | missingFile (path : String)
  | isDirectory (path : String)
  | notDirectory (path : String)
  /-- A path goes through too many links. -/
  | linkLoop (path : String)
  | accessDenied (path : String)
  /-- No file can have a path with this text. -/
  | invalidPath (path : String)
  deriving DecidableEq, Repr

namespace Fault

/-- The families that callers tell apart. -/
inductive Family where
  | rootCount | duplicateMixin | unknownMixin | unsupportedNode
  | missingKey | wrongKind | unsupportedUse | emptyStack | invalidValue
  | unreadable | undecodable | unencodable
  | missingFile | isDirectory | notDirectory | linkLoop | accessDenied
  deriving DecidableEq, Repr

/-- The family of a fault. -/
def family : Fault → Family
  | rootKind _ | rootCount _ => .rootCount
  | duplicateMixin _ => .duplicateMixin
  | unknownMixin _ => .unknownMixin
  | unsupportedNode _ | unsupportedType _ | strayBranch _ | strayPlaceholder => .unsupportedNode
  | missingKey _ => .missingKey
  | expectedNode _ | expectedBlock _ | expectedTree _ | unknownOption _ | invalidAttribute _ _
  | notIterable _ | noFields _ | unhashable _ | notSearchable _ | notJoinable _ _
  | noItemsToJoin | notAppendable _ _ | notCallable _ => .wrongKind
  | textNeeded _ | mappingNeeded _ | attributeNeeded _ | declarationNeeded _ | partNeeded _
  | noDestination => .unsupportedUse
  | noParent => .emptyStack
  | tooManyDigits | invalidPath _ => .invalidValue
  | unreadable => .unreadable
  | undecodable => .undecodable
  | unencodable => .unencodable
  | missingFile _ => .missingFile
  | isDirectory _ => .isDirectory
  | notDirectory _ => .notDirectory
  | linkLoop _ => .linkLoop
  | accessDenied _ => .accessDenied

/-- The text shown for a fault. -/
def message : Fault → String
  | rootKind kind => s!"Only one tag is allowed at the top level, found a {kind} node"
  | rootCount found => s!"Expected exactly 1 top-level tag, found {found}"
  | duplicateMixin name => s!"Mixin '{name}' is declared more than once"
  | unknownMixin name => s!"Mixin '{name}' is not declared"
  | unsupportedNode kind => s!"Node not supported: {kind}"
  | unsupportedType type => s!"Node type not supported: {type}"
  | strayBranch found => s!"Case branches must be When nodes, got {found}"
  | strayPlaceholder => "A block placeholder is only allowed inside a mixin"
  | missingKey key => Text.inspect key
  | expectedNode kind => s!"Expected a node mapping, got {kind}"
  | expectedBlock kind => s!"Expected a Block mapping, got {kind}"
  | expectedTree kind => s!"Expected a node tree, got {kind}"
  | unknownOption name => s!"Unknown compile option: {name}"
  | invalidAttribute name value => s!"Invalid value for attribute {name}: {value}"
  | notIterable kind => s!"'{kind}' object is not iterable"
  | noFields kind =>
    if kind = "str" then "string indices must be integers, not 'str'"
    else if kind = "list" then "list indices must be integers or slices, not str"
    else s!"'{kind}' object is not subscriptable"
  | unhashable kind => s!"unhashable type: '{kind}'"
  | notSearchable kind => s!"expected string or bytes-like object, got '{kind}'"
  | notJoinable position kind => s!"sequence item {position}: expected str instance, {kind} found"
  | noItemsToJoin => "can only join an iterable"
  | notAppendable left right =>
    if left = "str" ∨ left = "list" then s!"can only concatenate {left} (not \"{right}\") to {left}"
    else s!"unsupported operand type(s) for +: '{left}' and '{right}'"
  | notCallable kind => s!"'{kind}' object is not callable"
  | textNeeded kind => s!"text needed, found {kind}"
  | mappingNeeded kind => s!"mapping needed, found {kind}"
  | attributeNeeded kind => s!"attribute needed, found {kind}"
  | declarationNeeded kind => s!"mixin declaration needed, found {kind}"
  | partNeeded kind => s!"text or span needed, found {kind}"
  | tooManyDigits => "an integer has too many digits"
  | noParent => "no child array is being filled"
  | unreadable => "the document is malformed"
  | noDestination => "the script has nowhere to go"
  | undecodable => "the file is not text"
  | unencodable => "the text cannot be encoded"
  | missingFile path => s!"No such file or directory: {path}"
  | isDirectory path => s!"Is a directory: {path}"
  | notDirectory path => s!"Not a directory: {path}"
  | linkLoop path => s!"Too many levels of symbolic links: {path}"
  | accessDenied path => s!"Permission denied: {path}"
  | invalidPath path => s!"not a path: {path}"

end Fault

end Hyperscript
