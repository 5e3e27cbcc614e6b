import Mathlib.Control.Monad.Basic
import Hyperscript.Main
import Hyperscript.Proofs.LoadedTrees

/-!
# What the command reports

For a tree file whose document can be read and a script that is to be printed, the command prints
the script or reports why there is none.  Not every fault is reported: where the document puts a
number or a list in a slot that is used as text or as a mapping, or an integer that is too long in a
slot that is written out, the fault goes through to the caller.  This is the only way out, and
regular documents (`Datum.Regular`) do not lead to it.

Nothing is assumed of how documents are read.
-/

namespace Hyperscript.CommandLine

/-- A value was used as the text or the mapping that it is not, or is too long to be written. -/
inductive Misused : Fault → Prop where
  | text (kind : String) : Misused (.textNeeded kind)
  | mapping (kind : String) : Misused (.mappingNeeded kind)
  | digits : Misused .tooManyDigits

/-- The fault is reported, or it is of a misused value in an irregular document. -/
def ReportedUnless (irregular : Prop) (f : Fault) : Prop :=
  isReported f = true ∨ irregular ∧ isReported f = false ∧ Misused f

theorem reportedUnless_of_ofDocument {regular : Prop} {f : Fault} (h : f.OfDocument regular) :
    ReportedUnless (¬regular) f := by
  cases h with
  | textNeeded kind hirregular => exact .inr ⟨hirregular, rfl, .text kind⟩
  | mappingNeeded kind hirregular => exact .inr ⟨hirregular, rfl, .mapping kind⟩
  | tooManyDigits hirregular => exact .inr ⟨hirregular, rfl, .digits⟩
  | _ => exact .inl rfl

theorem reportedUnless_of_ofTree {regular : Prop} {f : Fault} (h : f.OfTree regular) :
    ReportedUnless (¬regular) f := by
  cases h with
  | textNeeded kind hirregular => exact .inr ⟨hirregular, rfl, .text kind⟩
  | tooManyDigits hirregular => exact .inr ⟨hirregular, rfl, .digits⟩
  | _ => exact .inl rfl

section Run

variable {read : Reader} {channels : Channels} {fs : FileSystem} {words : List String}
  {a : Arguments} {contents : Contents}

/-- A document that can be read is loaded and compiled, and both stages keep to their faults. -/
theorem meets_compileContents (options : Options) {data : Datum}
    (hread : read contents = .ok data) :
    Meets (fun _ => True) (ReportedUnless (¬data.Regular))
      (compileContents read options contents) := by
  -- what the document is, regular or not, is handed on to the tree
  have hloads : Meets (ShapedNodes data.Regular) (ReportedUnless (¬data.Regular))
      (Load.tree data) :=
    (Load.loads_tree id).imp (fun _ h => h) fun _ => reportedUnless_of_ofDocument
  unfold compileContents
  rw [hread]
  refine Meets.bind (P := fun d => d = data) rfl fun d hd => ?_
  subst hd
  refine hloads.bind fun nodes hnodes => ?_
  exact (hnodes.bounded_compile options).imp (fun _ h => h) fun _ => reportedUnless_of_ofTree

theorem run_of_report (hparse : parse words = .ok a)
    (hfile : fs.fetch (Path.ofText a.tree) = .ok (some contents)) {r : Report}
    (h : report read a (some contents) = .ok r) :
    run read channels fs words = r.perform channels fs := by
  unfold run
  simp only [hparse, hfile, bind, Except.bind, h]

theorem run_of_fault (hparse : parse words = .ok a)
    (hfile : fs.fetch (Path.ofText a.tree) = .ok (some contents)) {f : Fault}
    (h : report read a (some contents) = .error f) :
    run read channels fs words = ⟨.error f, "", "", fs⟩ := by
  unfold run
  simp only [hparse, hfile, bind, Except.bind, h]

/-- What is done with a script that is to be printed. -/
theorem run_of_compiled (hparse : parse words = .ok a) (hprinted : a.output = .printed)
    (hfile : fs.fetch (Path.ofText a.tree) = .ok (some contents)) {compiled : Compiled}
    (h : compileContents read a.options contents = .ok compiled) :
    run read channels fs words = Report.perform channels fs
      { code := 0
        stderr := if a.verbose then logLine compiled else ""
        task := .print compiled.script } :=
  run_of_report hparse hfile (by simp only [report, h, compiledReport, hprinted])

theorem run_of_reported (hparse : parse words = .ok a)
    (hfile : fs.fetch (Path.ofText a.tree) = .ok (some contents)) {f : Fault}
    (h : compileContents read a.options contents = .error f) (hreported : isReported f = true) :
    run read channels fs words = ⟨.ok 1, "", "Error: " ++ f.message ++ "\n", fs⟩ := by
  have hreport : report read a (some contents) = .ok (errorReport f.message) := by
    simp only [report, h, hreported, if_true]
  rw [run_of_report hparse hfile hreport]
  rfl

theorem run_of_unreported (hparse : parse words = .ok a)
    (hfile : fs.fetch (Path.ofText a.tree) = .ok (some contents)) {f : Fault}
    (h : compileContents read a.options contents = .error f) (hreported : isReported f = false) :
    run read channels fs words = ⟨.error f, "", "", fs⟩ :=
  run_of_fault hparse hfile (by simp [report, h, hreported])

/-- Whatever reads the documents: if the tree file holds one that can be read, the command prints
the script and returns zero, or prints a line that starts with `Error: ` and returns one.  The
exception is a document that is irregular: a value in it that is used as a text or a mapping but is
none, or an integer that is too long to be written, ends the command with that fault, and nothing is
printed.  A script that does not come through ends the command with the fault of printing it. -/
theorem run_reports {data : Datum} (hparse : parse words = .ok a) (hprinted : a.output = .printed)
    (hfile : fs.fetch (Path.ofText a.tree) = .ok (some contents))
    (hread : read contents = .ok data) :
    (∃ compiled, compileContents read a.options contents = .ok compiled ∧
      (channels.print compiled.script = .whole →
        run read channels fs words =
          ⟨.ok 0, compiled.script, if a.verbose then logLine compiled else "", fs⟩) ∧
      ∀ kept fault, channels.print compiled.script = .broken kept fault →
        run read channels fs words =
          ⟨.error fault, kept, if a.verbose then logLine compiled else "", fs⟩) ∨
    ∃ f, compileContents read a.options contents = .error f ∧
      (run read channels fs words = ⟨.ok 1, "", "Error: " ++ f.message ++ "\n", fs⟩ ∨
        ¬data.Regular ∧ Misused f ∧ run read channels fs words = ⟨.error f, "", "", fs⟩) := by
  have hmeets := meets_compileContents a.options hread
  cases h : compileContents read a.options contents with
  | ok compiled =>
    refine .inl ⟨compiled, rfl, fun hwhole => ?_, fun kept fault hbroken => ?_⟩
    · rw [run_of_compiled hparse hprinted hfile h]
      simp only [Report.perform, hwhole]
    · rw [run_of_compiled hparse hprinted hfile h]
      simp only [Report.perform, hbroken]
  | error f =>
    rw [h] at hmeets
    refine .inr ⟨f, rfl, ?_⟩
    rcases hmeets with hreported | ⟨hirregular, hunreported, hmisused⟩
    · exact .inl (run_of_reported hparse hfile h hreported)
    · exact .inr ⟨hirregular, hmisused, run_of_unreported hparse hfile h hunreported⟩

end Run

/-- Everything that is printed or stored comes through. -/
def Channels.open : Channels where
  print _ := .whole
  store _ _ := .whole

/-- A tree in which the block of a case is a number. -/
def blocklessCase : Contents := .text "type: Case\nexpr: x\nblock: 1"

/-- A directory with one file. -/
def FileSystem.single (name : String) (contents : Contents) : FileSystem where
  entries := [.directory 0 [(name, 1)], .file contents]

set_option maxRecDepth 100000 in
/-- The command neither prints a script for this tree nor reports a fault, so the tree is irregular.
-/
theorem run_reports_blocklessCase :
    parse ["t.json"] = .ok { tree := "t.json" } ∧
      (FileSystem.single "t.json" blocklessCase).fetch (Path.ofText "t.json") =
        .ok (some blocklessCase) ∧
      ∃ data, readDocument blocklessCase = .ok data ∧ ¬data.Regular := by
  have hexit : (run readDocument .open (.single "t.json" blocklessCase) ["t.json"]).exit =
      .error (.mappingNeeded "int") := by decide +kernel
  have hread : (readDocument blocklessCase).isOk = true := by decide +kernel
  have hparse : parse ["t.json"] = .ok { tree := "t.json" } := rfl
  have hfile : (FileSystem.single "t.json" blocklessCase).fetch (Path.ofText "t.json") =
      .ok (some blocklessCase) := by decide +kernel
  refine ⟨hparse, hfile, ?_⟩
  cases h : readDocument blocklessCase with
  | error f =>
    rw [h] at hread
    cases hread
  | ok data =>
    refine ⟨data, rfl, ?_⟩
    rcases @run_reports _ .open _ _ _ _ _ hparse rfl hfile h with
      ⟨compiled, -, hrun, -⟩ | ⟨f, -, hrun | ⟨hirregular, -⟩⟩
    · rw [hrun rfl] at hexit
      cases hexit
    · rw [hrun] at hexit
      cases hexit
    · exact hirregular

set_option maxRecDepth 100000 in
/-- The number is used as a mapping, and the command ends with that fault and prints nothing. -/
theorem run_blocklessCase_unreported :
    (run readDocument .open (.single "t.json" blocklessCase) ["t.json"]).exit =
        .error (.mappingNeeded "int") ∧
      (run readDocument .open (.single "t.json" blocklessCase) ["t.json"]).stderr = "" := by
  decide +kernel

end Hyperscript.CommandLine
