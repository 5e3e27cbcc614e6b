import Mathlib.Data.List.Forall2
import Mathlib.Data.List.TakeWhile
import Hyperscript.Attribute
import Hyperscript.Proofs.Text.Json

/-!
# Attributes as objects

If no value of an attribute list is an expression, the object literal generated for the list is also
a text of JSON, and it says what the attributes say.  `attributeObject_parses` compares it with what
is to be expected from the list: the names and values in their order, with `class` under its other
name, and the data attributes gathered in one object if they are marshalled.

Names and values may hold any characters.  That none of them ends its literal early is the spelling
of literals; that the `dataset` comes out whole and at its place is the loop that collects entries.
-/

namespace Hyperscript

/-! ## What attributes say -/

/-- A value that is no expression. -/
inductive StaticValue where
  | flag (value : Bool)
  | text (value : String)

def StaticValue.json : StaticValue → Json
  | flag b => .scalar (.bool b)
  | text s => .scalar (.str s)

/-- The name and the value of an attribute that has a text as its name and no expression as its
value. -/
def Attribute.static? (a : Attribute) : Option (String × StaticValue) :=
  match a.name, a.value with
  | .str name, .bool b => some (name, .flag b)
  | .str name, .str s => if a.dynamic.isTrue then none else some (name, .text s)
  | _, _ => none

/-- The pairs of attributes that are not marshalled. -/
def plainPairs (statics : List (String × StaticValue)) : List (String × Json) :=
  statics.map fun (name, value) => (if name = "class" then "className" else name, value.json)

/-- Whether a name is `data-` and at least one more character. -/
def isData (a : String × StaticValue) : Bool :=
  match a.1.toList with
  | 'd' :: 'a' :: 't' :: 'a' :: '-' :: _ :: _ => true
  | _ => false

/-- The pairs of data attributes in their own object. -/
def datasetPairs (statics : List (String × StaticValue)) : List (String × Json) :=
  statics.map fun (name, value) => (Attribute.datasetKey name, value.json)

/-- The pairs of attributes of which the data attributes are in an object of their own; it stands at
the first of them. -/
def marshalledPairs (statics : List (String × StaticValue)) : List (String × Json) :=
  let before := statics.takeWhile fun a => !isData a
  let after := statics.dropWhile fun a => !isData a
  if (statics.filter isData).isEmpty then plainPairs statics
  else
    plainPairs before ++ [("dataset", .object (datasetPairs (statics.filter isData)))] ++
      plainPairs (after.filter fun a => !isData a)

/-! ## Properties of static attributes -/

theorem isDataName_eq (a : String × StaticValue) : Attribute.isDataName a.1 = isData a := by
  unfold Attribute.isDataName isData
  rw [← String.length_toList]
  generalize a.1.toList = cs
  split
  · simp
  · next hne =>
    refine Bool.eq_false_iff.2 fun h => ?_
    obtain ⟨hpre, hlen⟩ := Bool.and_eq_true_iff.1 h
    obtain ⟨rest, rfl⟩ := List.isPrefixOf_iff_prefix.1 hpre
    cases rest with
    | nil => simp at hlen
    | cons c rest => exact hne c rest rfl

/-- The expression of a static value. -/
def StaticValue.code : StaticValue → String
  | flag b => if b then "true" else "false"
  | text s => Text.literal s

/-- The property of a static attribute, if data attributes are marshalled or not. -/
def staticProperty (marshal : Bool) (a : String × StaticValue) : Property :=
  if marshal && isData a then ⟨true, Text.literal (Attribute.datasetKey a.1), a.2.code⟩
  else ⟨false, Text.literal (if a.1 = "class" then "className" else a.1), a.2.code⟩

theorem staticProperty_data (marshal : Bool) (a : String × StaticValue) :
    (staticProperty marshal a).data = (marshal && isData a) := by
  unfold staticProperty
  split
  · next h => exact h.symm
  · next h => exact (Bool.eq_false_iff.2 h).symm

namespace Attribute

variable {a : Attribute} {name : String} {value : StaticValue}

theorem name_of_static? (h : a.static? = some (name, value)) : a.name = .str name := by
  unfold static? at h
  split at h
  · cases h
    assumption
  · split at h
    · cases h
    · cases h
      assumption
  · cases h

theorem valueCode_of_static? (h : a.static? = some (name, value)) :
    a.valueCode = .ok value.code := by
  unfold static? at h
  split at h
  · next hvalue =>
    cases h
    simp [valueCode, hvalue, StaticValue.code]
  · next hvalue =>
    split at h
    · cases h
    · next hdynamic =>
      cases h
      simp [valueCode, hvalue, hdynamic, StaticValue.code]
  · cases h

theorem property_of_static? (h : a.static? = some (name, value)) (options : Options) :
    a.property options = .ok (staticProperty options.marshalDataset.isTrue (name, value)) := by
  rw [property_eq_ok_iff (name_of_static? h)]
  refine ⟨value.code, valueCode_of_static? h, ?_⟩
  rw [staticProperty, isDataName_eq (name, value)]

/-- The properties of static attributes. -/
theorem mapM_property_of_static? {attributes : List Attribute}
    {statics : List (String × StaticValue)} (h : attributes.mapM static? = some statics)
    (options : Options) :
    (attributes.map AttributeEntry.attr).mapM (·.property options) =
      .ok (statics.map (staticProperty options.marshalDataset.isTrue)) := by
  induction attributes generalizing statics with
  | nil =>
    cases h
    rfl
  | cons a attributes ih =>
    rw [List.mapM_cons] at h
    obtain ⟨static, hstatic, h⟩ := Option.bind_eq_some_iff.1 h
    obtain ⟨rest, hrest, h⟩ := Option.bind_eq_some_iff.1 h
    cases h
    rw [List.map_cons, List.mapM_cons, ih hrest]
    show (a.property options >>= _) = _
    rw [property_of_static? hstatic]
    rfl

end Attribute

/-! ## Their object as JSON -/

open Json

theorem StaticValue.spells_code (v : StaticValue) : Spells v.code.toList v.json.tokens := by
  cases v with
  | flag b => exact spells_bool b
  | text s => exact spells_literal s

/-- The text is the entry of an object with this key and this value. -/
def EntrySpells (text : String) (entry : String × Json) : Prop :=
  Spells text.toList (.scalar (.str entry.1) :: .colon :: entry.2.tokens)

theorem entrySpells {key value : String} {v : Json} (h : Spells value.toList v.tokens) :
    EntrySpells (Text.literal key ++ ": " ++ value) (key, v) := by
  have htext : (Text.literal key ++ ": " ++ value).toList =
      (Text.literal key).toList ++ ':' :: ' ' :: value.toList := by
    simp
  rw [EntrySpells, htext]
  exact h.entry

theorem spells_intercalate {texts : List String} {entries : List (String × Json)}
    (h : List.Forall₂ EntrySpells texts entries) :
    Spells (", ".intercalate texts).toList (separated (entryTokens entries)) := by
  induction h with
  | nil => exact spells_nil
  | @cons text entry texts entries hfirst hrest ih =>
    cases hrest with
    | nil =>
      rw [String.intercalate_singleton]
      exact hfirst
    | @cons next second texts entries =>
      have htext : (", ".intercalate (text :: next :: texts)).toList =
          text.toList ++ ',' :: ' ' :: (", ".intercalate (next :: texts)).toList := by
        simp [String.intercalate_cons_cons]
      rw [htext]
      exact Spells.comma hfirst ih

/-- An object of entries that are well spelled. -/
theorem spells_object {texts : List String} {entries : List (String × Json)}
    (h : List.Forall₂ EntrySpells texts entries) :
    Spells (Property.object texts).toList (Json.object entries).tokens := by
  have htext : (Property.object texts).toList =
      '\x7b' :: (", ".intercalate texts).toList ++ ['\x7d'] := by
    simp [Property.object]
  rw [htext]
  exact (spells_intercalate h).braces

section Pairs

variable {marshal : Bool} {statics : List (String × StaticValue)}

theorem entrySpells_statics {pair : String × StaticValue → String × Json}
    (h : ∀ a ∈ statics, EntrySpells (staticProperty marshal a).code (pair a)) :
    List.Forall₂ EntrySpells ((statics.map (staticProperty marshal)).map Property.code)
      (statics.map pair) := by
  rwa [List.forall₂_map_left_iff, List.forall₂_map_left_iff, List.forall₂_map_right_iff,
    List.forall₂_same]

theorem entrySpells_plainPairs (h : ∀ a ∈ statics, (marshal && isData a) = false) :
    List.Forall₂ EntrySpells ((statics.map (staticProperty marshal)).map Property.code)
      (plainPairs statics) := by
  refine entrySpells_statics fun a ha => ?_
  rw [staticProperty, h a ha]
  exact entrySpells a.2.spells_code

theorem entrySpells_datasetPairs (h : ∀ a ∈ statics, (marshal && isData a) = true) :
    List.Forall₂ EntrySpells ((statics.map (staticProperty marshal)).map Property.code)
      (datasetPairs statics) := by
  refine entrySpells_statics fun a ha => ?_
  rw [staticProperty, h a ha]
  exact entrySpells a.2.spells_code

/-- All data attributes stand after the attributes before the first of them. -/
theorem filter_dropWhile_isData (statics : List (String × StaticValue)) :
    (statics.dropWhile fun a => !isData a).filter isData = statics.filter isData := by
  induction statics with
  | nil => rfl
  | cons a statics ih =>
    cases h : isData a with
    | true => simp [h]
    | false => simp [h, ih]

theorem entrySpells_entries (marshal : Bool) (statics : List (String × StaticValue)) :
    List.Forall₂ EntrySpells (Property.entries (statics.map (staticProperty marshal)))
      (if marshal then marshalledPairs statics else plainPairs statics) := by
  cases marshal with
  | false =>
    have hplain : Property.entries (statics.map (staticProperty false)) =
        (statics.map (staticProperty false)).map Property.code := by
      rw [Property.entries, Property.Entries.foldl_add_plain]
      · rfl
      · intro p hp
        obtain ⟨a, -, rfl⟩ := List.mem_map.1 hp
        exact staticProperty_data false a
    rw [hplain]
    exact entrySpells_plainPairs fun _ _ => rfl
  | true =>
    have hplain : ∀ {run : List (String × StaticValue)}, (∀ a ∈ run, (!isData a) = true) →
        List.Forall₂ EntrySpells ((run.map (staticProperty true)).map Property.code)
          (plainPairs run) := fun h => entrySpells_plainPairs fun a ha => by simpa using h a ha
    have hdata : (fun p => p.data) ∘ staticProperty true = isData :=
      funext fun a => staticProperty_data true a
    have hnot : (fun p => !p.data) ∘ staticProperty true = fun a => !isData a :=
      funext fun a => congrArg (!·) (staticProperty_data true a)
    simp only [Property.entries_eq, List.takeWhile_map, List.dropWhile_map, List.filter_map, hdata,
      hnot, filter_dropWhile_isData, List.isEmpty_map, if_true, marshalledPairs]
    split
    · next hempty =>
      have hall : statics.takeWhile (fun a => !isData a) = statics := by
        rw [List.takeWhile_eq_self_iff]
        simpa using hempty
      rw [hall]
      exact hplain (by simpa using hempty)
    · refine List.rel_append (List.rel_append (hplain ?_) (.cons ?_ .nil)) (hplain ?_)
      · exact fun a ha => List.all_eq_true.1 List.all_takeWhile a ha
      · refine entrySpells (spells_object (entrySpells_datasetPairs fun a ha => ?_))
        exact (List.mem_filter.1 ha).2
      · exact fun a ha => (List.mem_filter.1 ha).2

end Pairs

/-- The object of static attributes is a text of JSON.  Its entries are the attributes in their
order, each with its name, or `className` for `class`, and its value.  If data attributes are
marshalled, they are the entries of one object, in their order and by their keys in the `dataset`;
the object stands after the attributes before the first of them, and before all other
attributes. -/
theorem attributeObject_parses {attributes : List Attribute} {statics : List (String × StaticValue)}
    (h : attributes.mapM Attribute.static? = some statics) (options : Options) :
    ∃ text, (AttributeSlot.list (attributes.map .attr)).object options = .ok text ∧
      Json.parse text = some (.object (if options.marshalDataset.isTrue then
        marshalledPairs statics else plainPairs statics)) := by
  refine ⟨Property.object (Property.entries
    (statics.map (staticProperty options.marshalDataset.isTrue))), ?_, ?_⟩
  · show ((attributes.map AttributeEntry.attr).mapM (·.property options) >>= _) = _
    rw [Attribute.mapM_property_of_static? h]
    rfl
  · exact parse_of_spells (spells_object (entrySpells_entries _ statics))

/-- Attributes whose names and values look like the object around them. -/
def awkwardAttributes : List Attribute :=
  [{ name := .str "class", value := .str "a\\\x22, \x22b" },
    { name := .str "data-row-id", value := .str "\x7d\n\x00😀" },
    { name := .str "data-", value := .bool true },
    { name := .str "data-open", value := .bool false, dynamic := .bool true },
    { name := .str "\x22: \x7b", value := .str "é" }]

theorem awkwardAttributes_parses :
    (∃ statics, awkwardAttributes.mapM Attribute.static? = some statics) ∧
    ∃ text, (AttributeSlot.list (awkwardAttributes.map .attr)).object {} = .ok text ∧
      Json.parse text = some (.object [
        ("className", .scalar (.str "a\\\x22, \x22b")),
        ("dataset", .object [
          ("rowId", .scalar (.str "\x7d\n\x00😀")),
          ("open", .scalar (.bool false))]),
        ("data-", .scalar (.bool true)),
        ("\x22: \x7b", .scalar (.str "é"))]) :=
  ⟨⟨_, rfl⟩, @attributeObject_parses awkwardAttributes _ rfl {}⟩

end Hyperscript
