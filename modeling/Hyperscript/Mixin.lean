import Hyperscript.Datum.Spelling
import Hyperscript.Text.Blank

/-!
Mixins: their parameters, and the registry of those a template declares.
-/

namespace Hyperscript

/-- The declared shape of a mixin. `rest` is null if there is no parameter for further arguments. -/
structure Signature where
  name : Datum
  params : List Datum := []
  rest : Datum := .null

/-- The mixins declared so far, in the order of declaration; no name occurs twice. -/
structure Registry where
  signatures : List Signature := []

namespace Registry

def size (r : Registry) : Nat := r.signatures.length

/-- The mixin of a given name, if it is declared. -/
def find? (r : Registry) (name : Datum) : Option Signature :=
  r.signatures.find? fun signature => signature.name.sameKey name

/-- Whether a mixin of this name is declared. -/
def contains (r : Registry) (name : Datum) : Except Fault Bool := do
  name.checkKey
  return (r.find? name).isSome

/-- Adds a mixin under a name that is still free. -/
def declare (r : Registry) (signature : Signature) : Except Fault Registry := do
  if ← r.contains signature.name then
    throw (.duplicateMixin (← signature.name.written Datum.spell))
  return ⟨r.signatures ++ [signature]⟩

/-- The mixin of a given name. -/
def lookup (r : Registry) (name : Datum) : Except Fault Signature := do
  name.checkKey
  match r.find? name with
  | some signature => return signature
  | none => throw (.unknownMixin (← name.written Datum.spell))

end Registry

namespace Mixin

/-- The variable that holds the mixins of a script. -/
def table : String := "jade_mixins"

/-- The expression that refers to a mixin. -/
def reference (name : String) : String :=
  table ++ "[" ++ Text.nameLiteral name ++ "]"

/-- The name of a mixin as text. -/
def nameText (name : Datum) : Except Fault String :=
  name.text

/-- The parameters of a mixin, and the one for further arguments. -/
structure Params where
  names : List String
  rest : Option String
  deriving DecidableEq, Repr

/-- The parameters that commas separate, trimmed; empty ones do not count. -/
def paramNames (args : List Char) : List (List Char) :=
  ((Text.cut ',' args).map (Text.trimWhere Text.isBlank)).filter (!·.isEmpty)

/-- Reads the parameters of a declaration: three dots mark the last one as taking further
arguments. -/
def parseParams (args : List Char) : Params :=
  let names := paramNames args
  let plain : Params := ⟨names.map String.ofList, none⟩
  match names.getLast? with
  | some ('.' :: '.' :: '.' :: rest) =>
    ⟨names.dropLast.map String.ofList, some (String.ofList (Text.trimWhere Text.isBlank rest))⟩
  | _ => plain

/-- Reads the parameters from a slot that may be empty. -/
def paramsOfDatum (args : Datum) : Except Fault Params :=
  if args.isTrue then do return parseParams (← args.text).toList
  else .ok (parseParams [])

/-- The parameter names as text; `position` is that of the first one. -/
def joinTexts : (position : Nat) → List Datum → Except Fault (List String)
  | _, [] => .ok []
  | position, .str s :: rest => do return s :: (← joinTexts (position + 1) rest)
  | position, d :: _ => .error (.notJoinable position d.kind)

/-- The parameter list of a generated function, and how many parameters it has. -/
def paramList (params : Datum) : Except Fault (String × Nat) := do
  match params.items with
  | .error _ => throw .noItemsToJoin
  | .ok items => return (", ".intercalate (← joinTexts 0 items), items.length)

end Mixin

end Hyperscript
