import Hyperscript.Fault
import Hyperscript.Text.Blank

/-!
Paths, and a file system to resolve them in.

A file system is a table of directories, files and links. A path is followed name by name, from the
root or from the working directory; a link on the way is replaced by the path it stands for.
-/

namespace Hyperscript.CommandLine

/-- A path: what it starts from, and the names on the way. -/
structure Path where
  root : String
  names : List String
  deriving DecidableEq, Repr

namespace Path

/-- How many slashes a text starts with. -/
def leadingSlashes : List Char → Nat
  | '/' :: rest => leadingSlashes rest + 1
  | _ => 0

/-- Reads a path; empty names and names of one dot do not count. Exactly two slashes at the start
are kept apart from one. -/
def ofText (text : String) : Path where
  root := match leadingSlashes text.toList with
    | 0 => ""
    | 2 => "//"
    | _ => "/"
  names := ((Text.cut '/' text.toList).map String.ofList).filter fun name =>
    name ≠ "" && name ≠ "."

/-- The path as shown in messages. -/
def text (p : Path) : String :=
  if p.root = "" ∧ p.names = [] then "." else p.root ++ "/".intercalate p.names

/-- Whether no name holds the null character. -/
def isValid (p : Path) : Bool :=
  p.names.all fun name => !name.toList.contains '\x00'

end Path

/-- What is in a file: a text, or bytes that are not the encoding of one. -/
inductive Contents where
  | text (text : String)
  | bytes (bytes : List UInt8)
  deriving DecidableEq, Repr

/-- An entry of the table. Entries refer to each other by their places in it. -/
inductive Entry where
  /-- A directory: the one above it, and what it holds under which name. -/
  | directory (above : Nat) (names : List (String × Nat))
  | file (contents : Contents)
  | link (target : Path)
  deriving DecidableEq, Repr

/-- The directory with one more name. -/
def Entry.withName (name : String) (entry : Nat) : Entry → Entry
  | .directory above names => .directory above (names ++ [(name, entry)])
  | other => other

/-- What may be denied: to read a file, to write a file or into a directory, to go through a
directory. -/
inductive Access where
  | read | write | search
  deriving DecidableEq, Repr

structure FileSystem where
  entries : List Entry
  root : Nat := 0
  /-- The working directory. -/
  here : Nat := 0
  /-- The accesses that are denied. -/
  denied : List (Nat × Access) := []
  deriving DecidableEq, Repr

/-- Where a path leads: to an entry, or to a name that a directory does not have. -/
inductive Place where
  | found (entry : Nat)
  | vacant (directory : Nat) (name : String)
  deriving DecidableEq, Repr

/-- Why a path leads nowhere. -/
inductive Obstacle where
  | missing
  /-- A file stands where a directory is needed. -/
  | blocked
  /-- There are too many links on the way. -/
  | looping
  | denied
  | invalid
  deriving DecidableEq, Repr

/-- The fault of opening a path that leads nowhere. -/
def Obstacle.fault (path : String) : Obstacle → Fault
  | missing => .missingFile path
  | blocked => .notDirectory path
  | looping => .linkLoop path
  | denied => .accessDenied path
  | invalid => .invalidPath path

namespace FileSystem

def denies (fs : FileSystem) (entry : Nat) (access : Access) : Bool :=
  fs.denied.contains (entry, access)

/-- Follows names from a directory. At a link `onLink` goes on, from the directory of the link with
the path it stands for and the names that are left. -/
def walkWith (fs : FileSystem) (onLink : Nat → Path → List String → Except Obstacle Place) :
    Nat → List String → Except Obstacle Place
  | here, [] => .ok (.found here)
  | here, name :: rest =>
    match fs.entries[here]? with
    | some (.directory above names) =>
      if fs.denies here .search then .error .denied
      else if name = ".." then fs.walkWith onLink above rest
      else
        match names.lookup name with
        | none => if rest.isEmpty then .ok (.vacant here name) else .error .missing
        | some next =>
          match fs.entries[next]? with
          | some (.link target) => onLink here target rest
          | some _ => fs.walkWith onLink next rest
          | none => .error .missing
    | some (.file _) => .error .blocked
    | _ => .error .missing

/-- The directory from which a path starts, as seen from a directory. -/
def start (fs : FileSystem) (here : Nat) (p : Path) : Nat :=
  if p.root = "" then here else fs.root

/-- Follows names from a directory, through at most the given number of links. -/
def walk (fs : FileSystem) : (links : Nat) → Nat → List String → Except Obstacle Place
  | 0 => fs.walkWith fun _ _ _ => .error .looping
  | links + 1 => fs.walkWith fun here target rest =>
    fs.walk links (fs.start here target) (target.names ++ rest)

/-- The most links that a path may go through. -/
def maxLinks : Nat := 40

/-- Where a path leads. -/
def locate (fs : FileSystem) (p : Path) : Except Obstacle Place :=
  if p.isValid then fs.walk maxLinks (fs.start fs.here p) p.names else .error .invalid

/-- Reads the file at a path, if there is one. -/
def fetch (fs : FileSystem) (p : Path) : Except Fault (Option Contents) :=
  match fs.locate p with
  | .ok (.found entry) =>
    match fs.entries[entry]? with
    | some (.file contents) =>
      if fs.denies entry .read then .error (.accessDenied p.text) else .ok (some contents)
    | some (.directory ..) => .error (.isDirectory p.text)
    | _ => .ok none
  | .error .denied => .error (.accessDenied p.text)
  | _ => .ok none

/-- Replaces what is in a file. -/
def put (fs : FileSystem) (entry : Nat) (contents : Contents) : FileSystem :=
  { fs with entries := fs.entries.set entry (.file contents) }

/-- Adds a file to a directory. -/
def add (fs : FileSystem) (directory : Nat) (name : String) (contents : Contents) : FileSystem :=
  let entries := fs.entries.modify directory (Entry.withName name fs.entries.length)
  { fs with entries := entries ++ [.file contents] }

/-- Writes a file: one that is there, or a new one in a directory that is there. -/
def write (fs : FileSystem) (p : Path) (contents : Contents) : Except Fault FileSystem :=
  match fs.locate p with
  | .error obstacle => .error (obstacle.fault p.text)
  | .ok (.vacant directory name) =>
    if fs.denies directory .write then .error (.accessDenied p.text)
    else .ok (fs.add directory name contents)
  | .ok (.found entry) =>
    match fs.entries[entry]? with
    | some (.file _) =>
      if fs.denies entry .write then .error (.accessDenied p.text)
      else .ok (fs.put entry contents)
    | some (.directory ..) => .error (.isDirectory p.text)
    | _ => .error (.missingFile p.text)

end FileSystem

end Hyperscript.CommandLine
