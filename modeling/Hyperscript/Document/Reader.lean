import Hyperscript.Document.Token

/-!
Data from the tokens of a document.
-/

namespace Hyperscript.Document

/-- A datum that has been read, and the tokens that follow it. -/
abbrev Read := Except Fault (Datum × List Token)

/-- Sets a key of a mapping; lists and mappings are no keys. -/
def insertKey (key value : Datum) (entries : List (Datum × Datum)) :
    Except Fault (List (Datum × Datum)) :=
  match key.checkKey with
  | .ok _ => .ok (Datum.insert key value entries)
  | .error _ => .error .unreadable

/-- Whether one of these tokens comes next. -/
def nextIs (kinds : List Token) : List Token → Bool
  | [] => false
  | token :: _ => kinds.contains token

mutual

/-- A datum. `indentless` admits a sequence at the indentation of its key. The number of `steps`
bounds how often the functions below call each other. -/
def node : (steps : Nat) → (indentless : Bool) → List Token → Read
  | steps + 1, indentless, token :: rest =>
    match token with
    | .scalar text true => do return (← plainScalar text, rest)
    | .scalar text false => .ok (.str (String.ofList text), rest)
    | .flowSequenceStart => flowItems steps [] true rest
    | .flowMappingStart => flowEntries steps [] true rest
    | .sequenceStart => blockItems steps [] rest
    | .mappingStart => blockEntries steps [] rest
    | .entry => if indentless then indentlessItems steps [] (token :: rest) else .error .unreadable
    | _ => .error .unreadable
  | _, _, _ => .error .unreadable

/-- A datum, or null if one of the tokens in `ends` comes next. -/
def nodeUnless : (steps : Nat) → (ends : List Token) → (indentless : Bool) → List Token → Read
  | steps + 1, ends, indentless, tokens =>
    if nextIs ends tokens then .ok (.null, tokens) else node steps indentless tokens
  | 0, _, _, _ => .error .unreadable

/-- The items of a block sequence. -/
def blockItems : (steps : Nat) → (items : List Datum) → List Token → Read
  | steps + 1, items, .entry :: rest => do
    let (item, rest) ← nodeUnless steps [.entry, .blockEnd] false rest
    blockItems steps (item :: items) rest
  | _ + 1, items, .blockEnd :: rest => .ok (.list items.reverse, rest)
  | _, _, _ => .error .unreadable

/-- The items of a sequence at the indentation of its key. -/
def indentlessItems : (steps : Nat) → (items : List Datum) → List Token → Read
  | steps + 1, items, .entry :: rest => do
    let (item, rest) ← nodeUnless steps [.entry, .key, .value, .blockEnd] false rest
    indentlessItems steps (item :: items) rest
  | _ + 1, items, rest => .ok (.list items.reverse, rest)
  | 0, _, _ => .error .unreadable

/-- The entries of a block mapping. -/
def blockEntries : (steps : Nat) → (entries : List (Datum × Datum)) → List Token → Read
  | steps + 1, entries, .key :: rest => do
    let (key, rest) ← nodeUnless steps [.key, .value, .blockEnd] true rest
    let (value, rest) ← valueUnless steps [.key, .value, .blockEnd] true rest
    blockEntries steps (← insertKey key value entries) rest
  | _ + 1, entries, .blockEnd :: rest => .ok (.map entries, rest)
  | _, _, _ => .error .unreadable

/-- The value of a key: what follows the colon, or null. -/
def valueUnless : (steps : Nat) → (ends : List Token) → (indentless : Bool) → List Token → Read
  | steps + 1, ends, indentless, .value :: rest => nodeUnless steps ends indentless rest
  | _ + 1, _, _, rest => .ok (.null, rest)
  | 0, _, _, _ => .error .unreadable

/-- The items of a flow sequence. A key among them makes a mapping of one entry. -/
def flowItems : (steps : Nat) → (items : List Datum) → (first : Bool) → List Token → Read
  | _ + 1, items, _, .flowSequenceEnd :: rest => .ok (.list items.reverse, rest)
  | steps + 1, items, false, .comma :: rest =>
    if nextIs [.flowSequenceEnd] rest then flowItems steps items false rest
    else flowItem steps items rest
  | steps + 1, items, true, rest => flowItem steps items rest
  | _, _, _, _ => .error .unreadable

def flowItem : (steps : Nat) → (items : List Datum) → List Token → Read
  | steps + 1, items, .key :: rest => do
    let (key, rest) ← nodeUnless steps [.value, .comma, .flowSequenceEnd] false rest
    let (value, rest) ← valueUnless steps [.comma, .flowSequenceEnd] false rest
    flowItems steps (.map (← insertKey key value []) :: items) false rest
  | steps + 1, items, rest => do
    let (item, rest) ← node steps false rest
    flowItems steps (item :: items) false rest
  | 0, _, _ => .error .unreadable

/-- The entries of a flow mapping. A key may stand without a value. -/
def flowEntries : (steps : Nat) → (entries : List (Datum × Datum)) → (first : Bool) → List Token →
    Read
  | _ + 1, entries, _, .flowMappingEnd :: rest => .ok (.map entries, rest)
  | steps + 1, entries, false, .comma :: rest =>
    if nextIs [.flowMappingEnd] rest then flowEntries steps entries false rest
    else flowEntry steps entries rest
  | steps + 1, entries, true, rest => flowEntry steps entries rest
  | _, _, _, _ => .error .unreadable

def flowEntry : (steps : Nat) → (entries : List (Datum × Datum)) → List Token → Read
  | steps + 1, entries, .key :: rest => do
    let (key, rest) ← nodeUnless steps [.value, .comma, .flowMappingEnd] false rest
    let (value, rest) ← valueUnless steps [.comma, .flowMappingEnd] false rest
    flowEntries steps (← insertKey key value entries) false rest
  | steps + 1, entries, rest => do
    let (key, rest) ← node steps false rest
    flowEntries steps (← insertKey key .null entries) false rest
  | 0, _, _ => .error .unreadable

end

/-- Skips the ends of documents. -/
def skipEnds : List Token → List Token
  | .documentEnd :: rest => skipEnds rest
  | rest => rest

/-- The datum of a document. An empty document is null, and there is only one document in a text. -/
def read (text : String) : Except Fault Datum := do
  let tokens := skipEnds (← tokens text)
  let (isExplicit, tokens) := match tokens with
    | .documentStart :: rest => (true, rest)
    | rest => (false, rest)
  let steps := 4 * tokens.length + 4
  let isEmpty := tokens.isEmpty || (isExplicit && nextIs [.documentStart, .documentEnd] tokens)
  let (datum, rest) ← if isEmpty then pure (Datum.null, tokens) else node steps false tokens
  if (skipEnds rest).isEmpty then return datum else throw .unreadable

end Hyperscript.Document
