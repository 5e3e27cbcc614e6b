import Hyperscript.Options
import Hyperscript.Text.Blank

/-!
Attributes of an element, and the property object generated for them.

`class` becomes the property `className`. With `marshalDataset` the attributes named `data-…` go to
one nested `dataset` property, which stands where the first of them stood. A value is a boolean, a
string literal, or an expression passed on in parentheses.
-/

namespace Hyperscript

/-- An attribute; `dynamic` marks a value that is an expression. -/
structure Attribute where
  name : Datum
  value : Datum
  dynamic : Datum := .bool false
  escaped : Datum := .bool true

/-- An entry of an attribute list: an attribute, or a datum in its place. -/
inductive AttributeEntry where
  | attr (value : Attribute)
  | datum (value : Datum)

/-- What stands where a list of attributes belongs. -/
inductive AttributeSlot where
  | list (entries : List AttributeEntry)
  | datum (value : Datum)

/-- The attributes of an element: a list, and expressions merged over it when the script runs. -/
structure Attributes where
  entries : AttributeSlot := .list []
  blocks : Datum := .list []

/-- A property of the generated object; `data` marks one that belongs to the `dataset`. -/
structure Property where
  data : Bool
  key : String
  value : String
  deriving DecidableEq, Repr

namespace Attribute

/-- The expression of an attribute's value. -/
def valueCode (a : Attribute) : Except Fault String :=
  match a.value with
  | .bool b => .ok (if b then "true" else "false")
  | .str s => .ok (if a.dynamic.isTrue then "(" ++ s ++ ")" else Text.literal s)
  | value => do
    throw (.invalidAttribute (← a.name.written Datum.inspect) (← value.written Datum.inspect))

/-- Every dash before a small letter goes, and the letter becomes a capital. -/
def camelCase : List Char → List Char
  | [] => []
  | [c] => [c]
  | c :: d :: rest =>
    if c = '-' ∧ 'a' ≤ d ∧ d ≤ 'z' then d.toUpper :: camelCase rest
    else c :: camelCase (d :: rest)

/-- The key of a data attribute in the `dataset`: the first five characters go, the rest is in camel
case. -/
def datasetKey (name : String) : String :=
  String.ofList (camelCase (name.toList.drop 5))

/-- Whether a name is `data-` followed by something. -/
def isDataName (name : String) : Bool :=
  "data-".toList.isPrefixOf name.toList && 5 < name.length

/-- The property of an attribute outside the `dataset`. -/
def plainProperty (name : Datum) (value : String) : Except Fault Property := do
  name.checkKey
  match name with
  | .str "class" => return ⟨false, Text.literal "className", value⟩
  | _ => return ⟨false, ← name.written Datum.json, value⟩

/-- The property of an attribute. -/
def property (options : Options) (a : Attribute) : Except Fault Property := do
  let value ← a.valueCode
  if options.marshalDataset.isTrue then
    let name ← a.name.text
    if isDataName name then return ⟨true, Text.literal (datasetKey name), value⟩
  plainProperty a.name value

theorem plainProperty_str (name value : String) :
    plainProperty (.str name) value =
      .ok ⟨false, Text.literal (if name = "class" then "className" else name), value⟩ := by
  by_cases h : name = "class"
  · rw [if_pos h, h]
    rfl
  · have hname : Datum.str name = .str "class" → False := fun heq => h (Datum.str.inj heq)
    rw [if_neg h]
    unfold plainProperty
    dsimp only [Datum.checkKey, bind, Except.bind]
    split
    · next heq => exact absurd heq hname
    · rfl

/-- An attribute with a text for its name has a property if it has a value, and the name decides on
the key. -/
theorem property_eq_ok_iff {a : Attribute} {name : String} (hname : a.name = .str name)
    {options : Options} {p : Property} :
    a.property options = .ok p ↔ ∃ value, a.valueCode = .ok value ∧
      p = if options.marshalDataset.isTrue && isDataName name then
          ⟨true, Text.literal (datasetKey name), value⟩
        else ⟨false, Text.literal (if name = "class" then "className" else name), value⟩ := by
  unfold property
  rw [hname]
  cases a.valueCode with
  | error fault => simp [bind, Except.bind]
  | ok value =>
    have hplain := plainProperty_str name value
    cases options.marshalDataset.isTrue with
    | false => simp [hplain, bind, Except.bind, eq_comm]
    | true =>
      cases hdata : isDataName name with
      | false => simp [hplain, Datum.text, hdata, bind, Except.bind, eq_comm]
      | true => simp [Datum.text, hdata, bind, Except.bind, pure, Except.pure, eq_comm]

end Attribute

namespace Property

/-- The object with the given entries. -/
def object (entries : List String) : String :=
  "\x7b" ++ ", ".intercalate entries ++ "\x7d"

/-- A property as an entry of an object. -/
def code (p : Property) : String :=
  p.key ++ ": " ++ p.value

/-- The entries of an object to which properties are added one by one. -/
structure Entries where
  entries : List String := []
  /-- The members of the `dataset`. -/
  dataset : List String := []
  /-- The place among the entries that is kept for the `dataset`, once it has a member. -/
  place : Option Nat := none

namespace Entries

/-- Adds a property. The first one of the `dataset` also leaves an entry empty, to be filled when
all members are there. -/
def add (e : Entries) (p : Property) : Entries :=
  if p.data then
    { entries := if e.place.isNone then e.entries ++ [""] else e.entries
      dataset := e.dataset ++ [p.code]
      place := some (e.place.getD e.entries.length) }
  else { e with entries := e.entries ++ [p.code] }

/-- All entries, with the `dataset` at its place. -/
def toList (e : Entries) : List String :=
  match e.place with
  | none => e.entries
  | some place =>
    e.entries.set place (Text.literal "dataset" ++ ": " ++ object e.dataset)

end Entries

/-- The entries of the property object. -/
def entries (properties : List Property) : List String :=
  (properties.foldl Entries.add {}).toList

section Entries

variable {e : Entries} {properties : List Property}

theorem Entries.foldl_add_plain (h : ∀ p ∈ properties, p.data = false) :
    properties.foldl add e = { e with entries := e.entries ++ properties.map code } := by
  induction properties generalizing e with
  | nil => simp
  | cons p properties ih =>
    have hp : p.data = false := h p (List.mem_cons_self ..)
    have hadd : e.add p = { e with entries := e.entries ++ [p.code] } := by simp [add, hp]
    rw [List.foldl_cons, hadd, ih fun q hq => h q (List.mem_cons_of_mem p hq)]
    simp

/-- Once the `dataset` has its place, every property goes to the end of the entries or to the end of
the `dataset`. -/
theorem Entries.foldl_add_placed {place : Nat} (h : e.place = some place) :
    properties.foldl add e =
      { entries := e.entries ++ (properties.filter (!·.data)).map code
        dataset := e.dataset ++ (properties.filter (·.data)).map code
        place := some place } := by
  induction properties generalizing e with
  | nil => simp [← h]
  | cons p properties ih =>
    rw [List.foldl_cons]
    cases hp : p.data with
    | true => rw [ih (by simp [add, hp, h])]; simp [add, hp, h]
    | false => rw [ih (by simp [add, hp, h])]; simp [add, hp]

/-- The `dataset` stands at its first member, after the properties before it and before all that are
not in it. -/
theorem entries_eq (properties : List Property) :
    entries properties =
      let before := properties.takeWhile (!·.data)
      let after := properties.dropWhile (!·.data)
      let dataset := after.filter (·.data)
      if dataset.isEmpty then before.map code
      else
        before.map code ++
          [Text.literal "dataset" ++ ": " ++ object (dataset.map code)] ++
          (after.filter (!·.data)).map code := by
  have hbefore : ∀ p ∈ properties.takeWhile (!·.data), p.data = false := fun p hp => by
    simpa using List.all_eq_true.1 List.all_takeWhile p hp
  have hsplit : entries properties =
      ((properties.dropWhile (!·.data)).foldl Entries.add
        { entries := (properties.takeWhile (!·.data)).map code }).toList := by
    calc entries properties
        = ((properties.takeWhile (!·.data) ++ properties.dropWhile (!·.data)).foldl
            Entries.add {}).toList := by rw [List.takeWhile_append_dropWhile, entries]
      _ = _ := by rw [List.foldl_append, Entries.foldl_add_plain hbefore]; rfl
  rw [hsplit]
  cases hafter : properties.dropWhile (!·.data) with
  | nil => rfl
  | cons p rest =>
    have hp : p.data = true := by
      have hhead := List.head?_dropWhile_not (!·.data) properties
      rw [hafter] at hhead
      simpa using hhead
    rw [List.foldl_cons, Entries.foldl_add_placed (by simp [Entries.add, hp]; rfl)]
    simp [Entries.add, Entries.toList, hp]

end Entries

end Property

namespace AttributeEntry

/-- The expression of an entry's value. -/
def valueCode : AttributeEntry → Except Fault String
  | attr a => a.valueCode
  | datum d => .error (.attributeNeeded d.kind)

/-- The property of an entry. -/
def property (options : Options) : AttributeEntry → Except Fault Property
  | attr a => a.property options
  | datum d => .error (.attributeNeeded d.kind)

end AttributeEntry

namespace AttributeSlot

def isTrue : AttributeSlot → Bool
  | list entries => !entries.isEmpty
  | datum d => d.isTrue

/-- The entries that going through the slot yields. -/
def items : AttributeSlot → Except Fault (List AttributeEntry)
  | list entries => .ok entries
  | datum d => do return (← d.items).map AttributeEntry.datum

/-- The object literal of the attributes. -/
def object (options : Options) (slot : AttributeSlot) : Except Fault String := do
  let properties ← (← slot.items).mapM (·.property options)
  return Property.object (Property.entries properties)

end AttributeSlot

namespace Attributes

/-- The expression of a block. -/
def blockCode (block : Datum) : Except Fault String :=
  block.written fun block => "(" ++ block.spell ++ ")"

theorem mapM_blockCode_str (blocks : List String) :
    (blocks.map Datum.str).mapM blockCode = .ok (blocks.map fun block => "(" ++ block ++ ")") := by
  induction blocks with
  | nil => rfl
  | cons block blocks ih =>
    rw [List.map_cons, List.mapM_cons, ih]
    rfl

/-- The expression of all attributes: nothing if there are none, else the object, with the blocks
assigned over it. -/
def code? (options : Options) (a : Attributes) : Except Fault (Option String) := do
  if !a.entries.isTrue && !a.blocks.isTrue then return none
  let object ← a.entries.object options
  if !a.blocks.isTrue then return some object
  let blocks ← (← a.blocks.items).mapM blockCode
  return some ("Object.assign(\x7b\x7d, " ++ object ++ ", " ++ ", ".intercalate blocks ++ ")")

end Attributes

/-- A capital letter, then letters, digits, underscores and dollar signs. -/
def isConstructorName (name : String) : Bool :=
  match name.toList with
  | [] => false
  | c :: rest => c.isUpper && rest.all fun d => d.isAlphanum || d = '_' || d = '$'

/-- The first argument of an element's constructor call. -/
def tagCode (options : Options) (name : Datum) : Except Fault String := do
  if options.capitalConstructors.isTrue then
    let text ← name.searchable
    if isConstructorName text then return text ++ ".tagName"
  name.written Datum.json

end Hyperscript
