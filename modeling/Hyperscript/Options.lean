import Hyperscript.Datum.Spelling

/-!
Options of one compilation.

A value is kept as it was given; where an option is a switch, any datum that counts as true turns
it on.
-/

namespace Hyperscript

/-- What is applied to an indented script before it is returned. -/
inductive Formatter where
  | absent
  | apply (format : String → String)
  /-- A datum in place of a function: running it is a fault. -/
  | datum (value : Datum)

/-- Runs the formatter, if there is one. -/
def Formatter.run (script : String) : Formatter → Except Fault String
  | absent => .ok script
  | apply format => .ok (format script)
  | datum value => .error (.notCallable value.kind)

structure Options where
  /-- Indent the script, and run the formatter over it. -/
  pretty : Datum := .bool false
  /-- Start the script with the bindings it needs at run time. -/
  runtime : Datum := .bool true
  /-- Gather `data-` attributes in one `dataset` property. -/
  marshalDataset : Datum := .bool true
  /-- Let capitalised tag names refer to constructors. -/
  capitalConstructors : Datum := .bool false
  formatter : Formatter := .absent

namespace Options

/-- Sets the option of the given name; two of the names have a second spelling. -/
def set (options : Options) (key value : Datum) : Except Fault Options :=
  match key with
  | .str "pretty" => .ok { options with pretty := value }
  | .str "runtime" => .ok { options with runtime := value }
  | .str "marshal_dataset" | .str "marshalDataset" =>
    .ok { options with marshalDataset := value }
  | .str "capital_constructors" | .str "capitalConstructors" =>
    .ok { options with capitalConstructors := value }
  | .str "formatter" =>
    .ok { options with formatter := if value.isNull then .absent else .datum value }
  | _ => do throw (.unknownOption (← key.written Datum.inspect))

/-- The options of a mapping, entry by entry; a later entry wins over an earlier one. -/
def ofEntries (entries : List (Datum × Datum)) : Except Fault Options :=
  entries.foldlM (fun options (key, value) => options.set key value) {}

/-- The options a datum gives: none at all, or those of a mapping. -/
def ofDatum : Datum → Except Fault Options
  | .null => .ok {}
  | .map entries => ofEntries entries
  | d => .error (.mappingNeeded d.kind)

end Options

end Hyperscript
