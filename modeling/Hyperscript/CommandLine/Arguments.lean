import Hyperscript.Text.Digit
import Hyperscript.Text.Quoted

/-!
The arguments of the command.

Words that start with a dash are options; a long option may be cut short as long as it stays
unambiguous, short ones may be written together, and a value may be attached. A first pass
classifies all words, so an ambiguous option is refused before anything else; a second one goes
through them from left to right.
-/

namespace Hyperscript.CommandLine

inductive Flag where
  | help | output | pretty | noRuntime | noMarshalDataset | capitalConstructors | verbose
  deriving DecidableEq, Repr

/-- All spellings of the options, in the order in which they are listed. -/
def spellings : List (String × Flag) :=
  [("-h", .help), ("--help", .help), ("-o", .output), ("--output", .output),
    ("--pretty", .pretty), ("--no-runtime", .noRuntime),
    ("--no-marshal-dataset", .noMarshalDataset),
    ("--capital-constructors", .capitalConstructors), ("-v", .verbose), ("--verbose", .verbose)]

/-- An option as named in messages. -/
def Flag.display (flag : Flag) : String :=
  "/".intercalate ((spellings.filter (·.2 = flag)).map (·.1))

/-- Where the script goes. -/
inductive Output where
  | printed
  | file (path : String)
  /-- The option for a file was given without naming one. -/
  | nowhere
  deriving DecidableEq, Repr

/-- Two dashes never name a file. -/
def Output.ofText (text : String) : Output :=
  if text = "--" then .nowhere else .file text

/-- What the command was asked to do. -/
structure Arguments where
  tree : String
  output : Output := .printed
  pretty : Bool := false
  runtime : Bool := true
  marshalDataset : Bool := true
  capitalConstructors : Bool := false
  verbose : Bool := false
  deriving DecidableEq, Repr

/-- Why there is nothing to do: help was asked for, or the arguments are wrong. -/
inductive Refusal where
  | help
  | treeRequired
  | unrecognized (words : List String)
  | valueExpected (flag : Flag)
  | valueIgnored (flag : Flag) (value : String)
  | ambiguous (word : String) (candidates : List String)
  deriving DecidableEq, Repr

/-- The text of a refusal. -/
def Refusal.message : Refusal → String
  | help => ""
  | treeRequired => "the following arguments are required: tree"
  | unrecognized words => "unrecognized arguments: " ++ " ".intercalate words
  | valueExpected flag => "argument " ++ flag.display ++ ": expected one argument"
  | valueIgnored flag value =>
    "argument " ++ flag.display ++ ": ignored explicit argument " ++ Text.inspect value
  | ambiguous word candidates =>
    "ambiguous option: " ++ word ++ " could match " ++ ", ".intercalate candidates

/-- A word of the command line. -/
inductive Word where
  | plain (text : String)
  /-- Two dashes: only plain words follow. -/
  | separator
  /-- An option, under a short or long spelling, perhaps with something attached in the same word.
  -/
  | option (flag : Flag) (short : Bool) (attached : Option (List Char))
  | unknown (text : String)
  deriving DecidableEq, Repr

/-! ## Classification -/

/-- The option of a spelling. -/
def flag? (spelling : String) : Option Flag :=
  spellings.lookup spelling

def isShort (spelling : List Char) : Bool :=
  match spelling with
  | _ :: '-' :: _ => false
  | _ => true

/-- Splits a word at its first equals sign. -/
def splitValue? (word : List Char) : Option (List Char × List Char) :=
  match word.dropWhile (· != '=') with
  | [] => none
  | _ :: value => some (word.takeWhile (· != '='), value)

/-- Digits, or a point with digits after it and perhaps before it. -/
def isNumber (word : List Char) : Bool :=
  match word.dropWhile Text.isDigit with
  | [] => !word.isEmpty
  | '.' :: digits => !digits.isEmpty && digits.all Text.isDigit
  | _ => false

/-- Drops one line feed at the end. -/
def dropLineFeed (word : List Char) : List Char :=
  if word.getLast? = some '\n' then word.dropLast else word

/-- Whether a word is a negative number, which is no option. A line feed may end it. -/
def isNegativeNumber : List Char → Bool
  | '-' :: body => isNumber (dropLineFeed body)
  | _ => false

/-- The options a word that is no full spelling may stand for, with what is attached to them. -/
def candidates (word : List Char) : List (String × Flag × Option (List Char)) :=
  if isShort word then
    (spellings.filter fun (spelling, _) => spelling.toList = word.take 2).map
      fun (spelling, flag) => (spelling, flag, some (word.drop 2))
  else
    let (name, attached) := match splitValue? word with
      | some (name, value) => (name, some value)
      | none => (word, none)
    (spellings.filter fun (spelling, _) => name.isPrefixOf spelling.toList).map
      fun (spelling, flag) => (spelling, flag, attached)

/-- The option spelled in full before an equals sign. -/
def attached? (word : List Char) : Option Word := do
  let (name, value) ← splitValue? word
  let flag ← flag? (String.ofList name)
  return .option flag (isShort name) (some value)

/-- What a word is, before any separator. -/
def classifyWord (text : String) : Except Refusal Word :=
  let word := text.toList
  if word.head? ≠ some '-' then .ok (.plain text)
  else
    match flag? text with
    | some flag => .ok (.option flag (isShort word) none)
    | none =>
      if word.length = 1 then .ok (.plain text)
      else
        match attached? word, candidates word with
        | some option, _ => .ok option
        | none, [(spelling, flag, attached)] =>
          .ok (.option flag (isShort spelling.toList) attached)
        | none, [] =>
          .ok (if isNegativeNumber word || word.contains ' ' then .plain text else .unknown text)
        | none, several => .error (.ambiguous text (several.map (·.1)))

/-- What the words are. -/
def classify : List String → Except Refusal (List Word)
  | [] => .ok []
  | text :: rest =>
    if text = "--" then .ok (.separator :: rest.map .plain)
    else do return (← classifyWord text) :: (← classify rest)

/-! ## Going through the words -/

/-- What has been found so far; `surplus` are words that have no place. -/
structure Progress where
  arguments : Arguments := { tree := "" }
  treeFound : Bool := false
  surplus : List String := []
  deriving DecidableEq, Repr

namespace Progress

def withTree (p : Progress) (tree : String) : Progress :=
  { p with arguments := { p.arguments with tree }, treeFound := true }

def withSurplus (p : Progress) (word : String) : Progress :=
  { p with surplus := p.surplus ++ [word] }

def withOutput (p : Progress) (path : String) : Progress :=
  { p with arguments := { p.arguments with output := .ofText path } }

/-- Takes account of an option without a value. -/
def withFlag (p : Progress) (flag : Flag) : Except Refusal Progress :=
  let a := p.arguments
  match flag with
  | .help => .error .help
  | .output => .error (.valueExpected .output)
  | .pretty => .ok { p with arguments := { a with pretty := true } }
  | .noRuntime => .ok { p with arguments := { a with runtime := false } }
  | .noMarshalDataset => .ok { p with arguments := { a with marshalDataset := false } }
  | .capitalConstructors => .ok { p with arguments := { a with capitalConstructors := true } }
  | .verbose => .ok { p with arguments := { a with verbose := true } }

end Progress

/-- What follows the options of a word. -/
inductive Tail where
  | done
  /-- The value of the last option is the next word. -/
  | nextWord
  | value (path : String)
  deriving DecidableEq, Repr

/-- What becomes of an option with nothing attached to it. -/
def bareOption (flag : Flag) : List Flag × Tail :=
  if flag = .output then ([], .nextWord) else ([flag], .done)

/-- Short options written together: one option and the characters attached to it. To the option that
takes a value they are the value; after any other the next one has to be an option again. -/
def shortOptions (flag : Flag) : List Char → Except Refusal (List Flag × Tail)
  | [] => if flag = .output then .ok ([], .value "") else .error (.valueIgnored flag "")
  | c :: rest =>
    if flag = .output then .ok ([], .value (String.ofList (c :: rest)))
    else
      match flag? (String.ofList ['-', c]) with
      | none => .error (.valueIgnored flag (String.ofList (c :: rest)))
      | some next => do
        let (flags, tail) ←
          if rest.isEmpty then pure (bareOption next) else shortOptions next rest
        return (flag :: flags, tail)

/-- The options that an option word stands for. -/
def expand (flag : Flag) (short : Bool) : Option (List Char) → Except Refusal (List Flag × Tail)
  | none => .ok (bareOption flag)
  | some attached =>
    if short then shortOptions flag attached
    else if flag = .output then .ok ([], .value (String.ofList attached))
    else .error (.valueIgnored flag (String.ofList attached))

/-- Goes through the words. The first plain word is the tree; a separator next to it goes with it.
-/
def consume (p : Progress) : List Word → Except Refusal Progress
  | [] => .ok p
  | .plain text :: rest =>
    if p.treeFound then consume (p.withSurplus text) rest
    else
      match rest with
      | .separator :: rest => consume (p.withTree text) rest
      | rest => consume (p.withTree text) rest
  | .separator :: rest =>
    match p.treeFound, rest with
    | false, .plain text :: rest => consume (p.withTree text) rest
    | _, rest => consume (p.withSurplus "--") rest
  | .unknown text :: rest => consume (p.withSurplus text) rest
  | .option flag short attached :: rest => do
    let (flags, tail) ← expand flag short attached
    match tail, rest with
    | .done, rest => consume (← flags.foldlM Progress.withFlag p) rest
    | .value path, rest => consume ((← flags.foldlM Progress.withFlag p).withOutput path) rest
    | .nextWord, .plain path :: rest =>
      consume ((← flags.foldlM Progress.withFlag p).withOutput path) rest
    | .nextWord, _ => throw (.valueExpected .output)

/-- The arguments given by the words of a command line. A missing tree is reported before words that
have no place. -/
def parse (words : List String) : Except Refusal Arguments := do
  let p ← consume {} (← classify words)
  if !p.treeFound then throw .treeRequired
  if !p.surplus.isEmpty then throw (.unrecognized p.surplus)
  return p.arguments

end Hyperscript.CommandLine
