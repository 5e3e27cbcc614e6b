import Hyperscript.CommandLine.Arguments
import Hyperscript.CommandLine.Files
import Hyperscript.Compile
import Hyperscript.Node.Load

/-!
The command: compiles the template in a file.

Faults of the template and of the document are reported. Other faults — an operation that a value
does not support, a file that cannot be opened — end the command without a report.

How a document is read, and how much of a text comes through where it is printed or stored, are left
open.
-/

namespace Hyperscript.CommandLine

def usage : String :=
  "usage: vjade [-h] [-o OUTPUT] [--pretty] [--no-runtime] [--no-marshal-dataset]\n" ++
  "             [--capital-constructors] [-v]\n" ++
  "             tree\n"

def helpText : String :=
  usage ++ "\n" ++
  "Compile a Jade/Pug node tree to virtual-dom JavaScript\n" ++
  "\n" ++
  "positional arguments:\n" ++
  "  tree                  Node tree file (.json, .yaml or .yml)\n" ++
  "\n" ++
  "options:\n" ++
  "  -h, --help            show this help message and exit\n" ++
  "  -o OUTPUT, --output OUTPUT\n" ++
  "                        Write the JavaScript here instead of stdout\n" ++
  "  --pretty              Indent the generated code\n" ++
  "  --no-runtime          Do not prepend the virtual-dom require() bindings\n" ++
  "  --no-marshal-dataset  Keep data-* attributes as plain properties\n" ++
  "  --capital-constructors\n" ++
  "                        Treat capitalized tag names as constructor references\n" ++
  "  -v, --verbose         Enable debug logging\n"

/-- What is left to do when the command knows what it has to say. -/
inductive Task where
  | nothing
  | print (text : String)
  | store (path : Path) (text : String)
  deriving DecidableEq, Repr

/-- What the command returns and prints as errors, and what is left to do. -/
structure Report where
  code : Nat
  stderr : String := ""
  task : Task := .nothing
  deriving DecidableEq, Repr

/-- The report of a refusal. -/
def Refusal.report : Refusal → Report
  | help => { code := 0, task := .print helpText }
  | refusal => { code := 2, stderr := usage ++ "vjade: error: " ++ refusal.message ++ "\n" }

/-- The report of an error. -/
def errorReport (message : String) : Report :=
  { code := 1, stderr := "Error: " ++ message ++ "\n" }

/-- The options given by the arguments. -/
def Arguments.options (a : Arguments) : Options where
  pretty := .bool a.pretty
  runtime := .bool a.runtime
  marshalDataset := .bool a.marshalDataset
  capitalConstructors := .bool a.capitalConstructors

/-- Reads the data in a file. -/
abbrev Reader := Contents → Except Fault Datum

/-- Compiles the template in a file. -/
def compileContents (read : Reader) (options : Options) (contents : Contents) :
    Except Fault Compiled := do
  let data ← read contents
  compile options (.list (← Load.tree data))

/-- Whether a fault is reported. -/
def isReported (fault : Fault) : Bool :=
  match fault.family with
  | .rootCount | .duplicateMixin | .unknownMixin | .unsupportedNode
  | .missingKey | .wrongKind | .unreadable => true
  | .unsupportedUse | .emptyStack | .invalidValue | .undecodable | .unencodable
  | .missingFile | .isDirectory | .notDirectory | .linkLoop | .accessDenied => false

/-- The line logged after compilation. -/
def logLine (compiled : Compiled) : String :=
  "[DEBUG] vjade.compiler.compiler: Compiled template: " ++ toString compiled.mixins ++
    " mixin(s), " ++ toString compiled.script.length ++ " characters\n"

/-- The report on a compiled template: the script is printed or goes to a file. -/
def compiledReport (a : Arguments) (compiled : Compiled) : Except Fault Report :=
  let stderr := if a.verbose then logLine compiled else ""
  match a.output with
  | .printed => .ok { code := 0, stderr, task := .print compiled.script }
  | .file path => .ok { code := 0, stderr, task := .store (Path.ofText path) compiled.script }
  | .nowhere => .error .noDestination

/-- The report for what is in the file of the tree, if there is one. -/
def report (read : Reader) (a : Arguments) (tree : Option Contents) : Except Fault Report :=
  match tree with
  | none => .ok (errorReport ("Node tree not found: " ++ (Path.ofText a.tree).text))
  | some contents =>
    match compileContents read a.options contents with
    | .ok compiled => compiledReport a compiled
    | .error fault => if isReported fault then .ok (errorReport fault.message) else .error fault

/-- How much of a text comes through. -/
inductive Delivery (α : Type) where
  | whole
  /-- A fault breaks it off, and `kept` is what has come through. -/
  | broken (kept : α) (fault : Fault)
  deriving DecidableEq, Repr

/-- Where texts go. A text may have no encoding, and a device may be full: then the file that was
opened for it has already lost what it held before. -/
structure Channels where
  print : String → Delivery String
  store : Path → String → Delivery Contents

/-- How the command ends: the exit code, or a fault that was not reported. -/
structure Outcome where
  exit : Except Fault Nat
  stdout : String
  stderr : String
  files : FileSystem

/-- Does what is left to do. -/
def Report.perform (channels : Channels) (fs : FileSystem) (r : Report) : Outcome :=
  match r.task with
  | .nothing => ⟨.ok r.code, "", r.stderr, fs⟩
  | .print text =>
    match channels.print text with
    | .whole => ⟨.ok r.code, text, r.stderr, fs⟩
    | .broken kept fault => ⟨.error fault, kept, r.stderr, fs⟩
  | .store path text =>
    let (exit, contents) := match channels.store path text with
      | .whole => (.ok r.code, Contents.text text)
      | .broken kept fault => (.error fault, kept)
    match fs.write path contents with
    | .ok fs => ⟨exit, "", r.stderr, fs⟩
    | .error fault => ⟨.error fault, "", r.stderr, fs⟩

/-- Runs the command in a file system. -/
def run (read : Reader) (channels : Channels) (fs : FileSystem) (words : List String) : Outcome :=
  match parse words with
  | .error refusal => refusal.report.perform channels fs
  | .ok a =>
    match fs.fetch (Path.ofText a.tree) >>= report read a with
    | .ok r => r.perform channels fs
    | .error fault => ⟨.error fault, "", "", fs⟩

end Hyperscript.CommandLine
