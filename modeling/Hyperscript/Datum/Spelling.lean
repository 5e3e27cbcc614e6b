import Hyperscript.Datum.Basic

/-!
How data are written: `inspect` and `spell` in messages and spliced code, `json` in literals.

Very long integers are not written at all: `written` gives what is made of a datum, or the fault.
-/

namespace Hyperscript.Datum

mutual

/-- A datum as shown in messages: text is quoted, `None`, `True` and `False` are words. -/
def inspect : Datum → String
  | null => "None"
  | bool b => if b then "True" else "False"
  | int n => toString n
  | float x => Decimal.text "inf" "nan" x
  | str s => Text.inspect s
  | list items => "[" ++ ", ".intercalate (inspectItems items) ++ "]"
  | map entries => "\x7b" ++ ", ".intercalate (inspectEntries entries) ++ "\x7d"

def inspectItems : List Datum → List String
  | [] => []
  | d :: rest => inspect d :: inspectItems rest

def inspectEntries : List (Datum × Datum) → List String
  | [] => []
  | (key, value) :: rest => (inspect key ++ ": " ++ inspect value) :: inspectEntries rest

end

/-- A datum spliced into code: text stands for itself, anything else as inspected. -/
def spell : Datum → String
  | str s => s
  | d => d.inspect

/-- The text under which a key is written in a literal. -/
def keyText : Datum → String
  | null => "null"
  | bool b => if b then "true" else "false"
  | float x => Decimal.text "Infinity" "NaN" x
  | d => d.spell

mutual

/-- A datum as a literal of scripts and JSON. -/
def json : Datum → String
  | null => "null"
  | bool b => if b then "true" else "false"
  | int n => toString n
  | float x => Decimal.text "Infinity" "NaN" x
  | str s => Text.literal s
  | list items => "[" ++ ", ".intercalate (jsonItems items) ++ "]"
  | map entries => "\x7b" ++ ", ".intercalate (jsonEntries entries) ++ "\x7d"

def jsonItems : List Datum → List String
  | [] => []
  | d :: rest => json d :: jsonItems rest

def jsonEntries : List (Datum × Datum) → List String
  | [] => []
  | (key, value) :: rest =>
    (Text.literal key.keyText ++ ": " ++ json value) :: jsonEntries rest

end

/-- The most digits with which an integer is written. -/
def maxDigits : Nat := 4300

mutual

/-- Whether no integer in a datum has more than `maxDigits` digits. -/
def isWritable : Datum → Bool
  | int n => (Nat.toDigits 10 n.natAbs).length ≤ maxDigits
  | list items => areWritable items
  | map entries => entriesWritable entries
  | _ => true

def areWritable : List Datum → Bool
  | [] => true
  | d :: rest => isWritable d && areWritable rest

def entriesWritable : List (Datum × Datum) → Bool
  | [] => true
  | (key, value) :: rest => isWritable key && isWritable value && entriesWritable rest

end

theorem areWritable_iff {items : List Datum} :
    areWritable items = true ↔ ∀ d ∈ items, d.isWritable = true := by
  induction items with
  | nil => simp [areWritable]
  | cons d rest ih => simp [areWritable, ih]

theorem entriesWritable_iff {entries : List (Datum × Datum)} :
    entriesWritable entries = true ↔
      ∀ entry ∈ entries, entry.1.isWritable = true ∧ entry.2.isWritable = true := by
  induction entries with
  | nil => simp [entriesWritable]
  | cons entry rest ih => simp [entriesWritable, ih]

/-- What `form` makes of a datum, if it can be written. -/
def written {α : Type} (form : Datum → α) (d : Datum) : Except Fault α :=
  if d.isWritable then .ok (form d) else .error .tooManyDigits

@[simp]
theorem written_str {α : Type} (form : Datum → α) (s : String) :
    written form (str s) = .ok (form (str s)) := rfl

@[simp]
theorem written_null {α : Type} (form : Datum → α) : written form null = .ok (form null) := rfl

theorem written_eq_ok_iff {α : Type} {form : Datum → α} {d : Datum} {a : α} :
    d.written form = .ok a ↔ d.isWritable = true ∧ a = form d := by
  unfold written
  split
  next h => simp [h, eq_comm]
  next h => simp [h]

/-- The sign does not count. -/
example : (int (-(10 ^ 4300 - 1))).isWritable = true ∧ (int (10 ^ 4300)).isWritable = false := by
  decide +kernel

end Hyperscript.Datum
