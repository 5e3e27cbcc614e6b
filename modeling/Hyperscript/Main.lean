import Hyperscript.CommandLine.Run
import Hyperscript.Document.Reader

/-!
The command on real files.
-/

namespace Hyperscript.CommandLine

/-- Reads the document in a file. -/
def readDocument : Reader
  | .text text => Document.read text
  | .bytes _ => .error .undecodable

/-- Reads the real file at a path, if there is one. -/
def fetchReal (path : String) : IO (Except Fault (Option Contents)) := do
  try
    let bytes ← IO.FS.readBinFile path
    match String.fromUTF8? bytes with
    | some text => return .ok (some (.text text))
    | none => return .ok (some (.bytes bytes.toList))
  catch error =>
    match error with
    | .noFileOrDirectory .. | .inappropriateType (some _) .. => return .ok none
    | .inappropriateType none .. => return .error (.isDirectory path)
    | .permissionDenied .. => return .error (.accessDenied path)
    | error => throw error

/-- Prints what is to be printed and writes what is to be stored. -/
def Report.performReal (r : Report) : IO UInt32 := do
  IO.eprint r.stderr
  match r.task with
  | .nothing => pure ()
  | .print text => IO.print text
  | .store path text => IO.FS.writeFile path.text text
  return r.code.toUInt32

/-- Runs the command. A fault that is not reported ends it with its message. -/
def runReal (words : List String) : IO UInt32 := do
  match parse words with
  | .error refusal => refusal.report.performReal
  | .ok a =>
    match (← fetchReal (Path.ofText a.tree).text) >>= report readDocument a with
    | .ok r => r.performReal
    | .error fault => throw (IO.userError fault.message)

end Hyperscript.CommandLine

def main (args : List String) : IO UInt32 :=
  Hyperscript.CommandLine.runReal args
