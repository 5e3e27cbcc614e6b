import Hyperscript.Document.Scalar

/-!
Documents as tokens.

A document is written in nested blocks told apart by indentation, or in flow style with brackets and
commas, or as a mixture of both. Scanning turns the indentation into tokens that open and close
blocks, so that the tokens alone determine the structure.

A key is recognised by the colon after it. When something is scanned that could be a key, an empty
slot is left before it, and the colon fills the slot; the tokens are the contents of all slots in
order.
-/

namespace Hyperscript.Document

inductive Token where
  | documentStart
  | documentEnd
  | sequenceStart
  | mappingStart
  | blockEnd
  | flowSequenceStart
  | flowSequenceEnd
  | flowMappingStart
  | flowMappingEnd
  /-- The dash before an item of a block sequence. -/
  | entry
  /-- The comma between items in flow style. -/
  | comma
  | key
  | value
  | scalar (text : List Char) (plain : Bool)
  deriving DecidableEq, Repr

/-! ## Characters -/

def isBreak (c : Char) : Bool :=
  c = '\n' || c = '\x85' || c = '\u2028' || c = '\u2029'

/-- A line break as it is kept in a scalar. -/
def lineBreak (c : Char) : Char :=
  if c = '\x85' then '\n' else c

/-- Whether a space, a tab, a line break or the end comes next. -/
def atGap : List Char → Bool
  | [] => true
  | c :: _ => c = ' ' || c = '\t' || isBreak c

/-- The brackets and the comma of flow style. -/
def isFlowMark (c : Char) : Bool :=
  c = ',' || c = '[' || c = ']' || c = '\x7b' || c = '\x7d'

/-- Whether a line of three dashes or three dots comes next. -/
def atMarker (mark : Char) : List Char → Bool
  | a :: b :: c :: rest => a = mark && b = mark && c = mark && atGap rest
  | _ => false

/-- Whether the text before or after a document comes next. -/
def atSeparator (cs : List Char) : Bool :=
  atMarker '-' cs || atMarker '.' cs

/-- Whether a character may stand in a document at all. -/
def isAllowed (c : Char) : Bool :=
  let n := c.toNat
  n == 0x09 || n == 0x0A || n == 0x0D || (0x20 ≤ n && n ≤ 0x7E) || n == 0x85 ||
    (0xA0 ≤ n && n ≤ 0xFFFD) || 0x10000 ≤ n

/-- A plain scalar starts with anything but a mark; a dash, and outside flow style a question mark
or a colon, only if something follows it directly. -/
def startsPlain (flow : Bool) : List Char → Bool
  | [] => false
  | c :: rest =>
    if "-?:".toList.contains c then !atGap rest && (c = '-' || !flow)
    else
      !(atGap [c] || isFlowMark c ||
        ['#', '&', '*', '!', '|', '>', '\x27', '\x22', '%', '@', '\x60'].contains c)

/-! ## The parts of scalars -/

/-- The characters of a plain scalar up to the next blank, colon before a gap, or flow mark. -/
def plainRun (flow : Bool) : List Char → List Char
  | [] => []
  | c :: rest =>
    let ends := atGap [c] ||
      (c = ':' && (atGap rest || (flow && (rest.head?.map isFlowMark).getD false))) ||
      (flow && (c = '?' || isFlowMark c))
    if ends then [] else c :: plainRun flow rest

/-- Spaces and line breaks between the lines of a plain scalar: the breaks, and what follows. A
document separator at the start of a line ends the scalar. -/
def plainBreaks (lineStart : Bool) : List Char → Option (List Char × List Char)
  | [] => some ([], [])
  | c :: rest =>
    if lineStart && atSeparator (c :: rest) then none
    else if c = ' ' then plainBreaks false rest
    else if isBreak c then
      (plainBreaks true rest).map fun (breaks, rest) => (lineBreak c :: breaks, rest)
    else some ([], c :: rest)

/-- Blanks and line breaks between the lines of a quoted scalar: the breaks, and what follows. A
document separator is not allowed there. -/
def quotedBreaks (lineStart : Bool) : List Char → Option (List Char × List Char)
  | [] => some ([], [])
  | c :: rest =>
    if lineStart && atSeparator (c :: rest) then none
    else if c = ' ' || c = '\t' then quotedBreaks false rest
    else if isBreak c then
      (quotedBreaks true rest).map fun (breaks, rest) => (lineBreak c :: breaks, rest)
    else some ([], c :: rest)

/-- Line breaks inside a scalar: a single one becomes a space, of several the first goes. -/
def foldBreaks (first : Char) (further : List Char) : List Char :=
  if lineBreak first != '\n' then lineBreak first :: further
  else if further.isEmpty then [' ']
  else further

/-- The character of an escape by a single letter. -/
def escaped? (c : Char) : Option Char :=
  [('0', '\x00'), ('a', '\x07'), ('b', '\x08'), ('t', '\x09'), ('\t', '\x09'), ('n', '\n'),
    ('v', '\x0b'), ('f', '\x0c'), ('r', '\r'), ('e', '\x1b'), (' ', ' '), ('\x22', '\x22'),
    ('\\', '\\'), ('/', '/'), ('N', '\x85'), ('_', '\xa0'), ('L', '\u2028'),
    ('P', '\u2029')].lookup c

/-- How many hexadecimal digits follow an escape by code. -/
def codeLength? (c : Char) : Option Nat :=
  [('x', 2), ('u', 4), ('U', 8)].lookup c

/-- The value of exactly `n` hexadecimal digits, and what follows them. -/
def hexCode? (n : Nat) (cs : List Char) : Option (Nat × List Char) :=
  let digits := cs.take n
  if digits.length = n ∧ digits.all (fun c => isHexadecimal c && c != '_') then
    some (digitsValue 16 digits, cs.drop n)
  else none

/-- A part that a document cannot do without. -/
def needed {α : Type} : Option α → Except Fault α
  | some part => .ok part
  | none => .error .unreadable

/-- Whether a code is one half of a surrogate pair. -/
def isSurrogate (code : Nat) : Bool :=
  0xD800 ≤ code && code < 0xE000

/-- The character of an escape by code. The two halves of a surrogate pair are read as the character
they make up; a half alone makes up none, and has no encoding. -/
def escapedCode (n : Nat) (cs : List Char) : Except Fault (Char × List Char) := do
  let (code, rest) ← needed (hexCode? n cs)
  if !isSurrogate code then return (Char.ofNat code, rest)
  match rest with
  | '\\' :: 'u' :: rest =>
    let (low, rest) ← needed (hexCode? 4 rest)
    if code < 0xDC00 ∧ isSurrogate low ∧ 0xDC00 ≤ low then
      return (Char.ofNat (0x10000 + (code - 0xD800) * 0x400 + (low - 0xDC00)), rest)
    else throw .unencodable
  | _ => throw .unencodable

/-- The rest of a quoted scalar after its opening quote: its text and what follows the closing
quote. `steps` bounds the number of pieces read. -/
def quotedText (double : Bool) : (steps : Nat) → List Char → Except Fault (List Char × List Char)
  | 0, _ | _, [] => .error .unreadable
  | steps + 1, c :: rest =>
    let keep (text : List Char) (r : Except Fault (List Char × List Char)) :=
      r.map fun (more, rest) => (text ++ more, rest)
    if c = ' ' || c = '\t' || isBreak c then
      let blanks := (c :: rest).takeWhile fun d => d = ' ' || d = '\t'
      match (c :: rest).dropWhile fun d => d = ' ' || d = '\t' with
      | [] => .error .unreadable
      | d :: after =>
        if isBreak d then
          (needed (quotedBreaks true after)).bind fun (breaks, after) =>
            keep (foldBreaks d breaks) (quotedText double steps after)
        else keep blanks (quotedText double steps (d :: after))
    else if double then
      if c = '\x22' then .ok ([], rest)
      else if c = '\\' then
        match rest with
        | [] => .error .unreadable
        | d :: after =>
          if isBreak d then
            (needed (quotedBreaks true after)).bind fun (breaks, after) =>
              keep breaks (quotedText double steps after)
          else
            match escaped? d, codeLength? d with
            | some e, _ => keep [e] (quotedText double steps after)
            | none, some n =>
              (escapedCode n after).bind fun (e, after) =>
                keep [e] (quotedText double steps after)
            | none, none => .error .unreadable
      else keep [c] (quotedText double steps rest)
    else if c = '\x27' then
      match rest with
      | '\x27' :: after => keep ['\x27'] (quotedText double steps after)
      | _ => .ok ([], rest)
    else keep [c] (quotedText double steps rest)

/-! ## Scanning -/

/-- Something that is a key if a colon follows on the same line. At the indentation of a block
mapping it has to be one. -/
structure Candidate where
  level : Nat
  slot : Nat
  required : Bool
  index : Nat
  line : Nat
  column : Nat
  deriving Repr

structure Scan where
  rest : List Char
  index : Nat := 0
  line : Nat := 0
  column : Nat := 0
  /-- The indentations of the enclosing blocks, the innermost first. -/
  indents : List Nat := []
  /-- How many flow brackets are open. -/
  flow : Nat := 0
  keyAllowed : Bool := true
  /-- At most one candidate for each level of flow brackets. -/
  candidates : List Candidate := []
  slots : Array (List Token) := #[]

namespace Scan

/-- Moves on by one character. -/
def advance (s : Scan) : Scan :=
  match s.rest with
  | [] => s
  | c :: rest =>
    let s := { s with rest, index := s.index + 1 }
    if isBreak c then { s with line := s.line + 1, column := 0 }
    else if c = '\ufeff' then s
    else { s with column := s.column + 1 }

def advanceBy (s : Scan) : (n : Nat) → Scan
  | 0 => s
  | n + 1 => s.advance.advanceBy n

/-- Moves on to a given rest of the text. -/
def advanceTo (s : Scan) (rest : List Char) : Scan :=
  s.advanceBy (s.rest.length - rest.length)

def emit (s : Scan) (token : Token) : Scan :=
  { s with slots := s.slots.push [token] }

/-- Whether a block mapping or sequence starts at this column; if so it is entered. -/
def enterBlock (s : Scan) (column : Nat) : Bool × Scan :=
  match s.indents with
  | [] => (true, { s with indents := [column] })
  | indent :: _ =>
    if indent < column then (true, { s with indents := column :: s.indents }) else (false, s)

/-- Leaves the blocks that are indented deeper than the column. -/
def leaveBlocks (s : Scan) (isInner : Nat → Bool) : Scan :=
  if s.flow ≠ 0 then s
  else
    let inner := s.indents.takeWhile isInner
    { s with
      indents := s.indents.dropWhile isInner
      slots := s.slots ++ (inner.map fun _ => [Token.blockEnd]).toArray }

/-- Gives up the candidates that `isStale` selects; none of them may be required. -/
def dropCandidates (s : Scan) (isStale : Candidate → Bool) : Except Fault Scan :=
  if s.candidates.any fun c => isStale c && c.required then .error .unreadable
  else .ok { s with candidates := s.candidates.filter fun c => !isStale c }

/-- Gives up the candidate of the current level. -/
def dropCandidate (s : Scan) : Except Fault Scan :=
  s.dropCandidates fun c => c.level == s.flow

/-- Leaves a slot where a key may start. -/
def markCandidate (s : Scan) : Except Fault Scan := do
  if !s.keyAllowed then return s
  let s ← s.dropCandidate
  let candidate : Candidate :=
    { level := s.flow, slot := s.slots.size
      required := s.flow == 0 && s.indents.head? == some s.column
      index := s.index, line := s.line, column := s.column }
  return { s with candidates := candidate :: s.candidates, slots := s.slots.push [] }

/-- The length of the gap before the next token: spaces, comments and line breaks. -/
def gapLength (comment : Bool) : List Char → Nat
  | [] => 0
  | c :: rest =>
    if isBreak c then 1 + gapLength false rest
    else if comment then 1 + gapLength true rest
    else if c = ' ' then 1 + gapLength false rest
    else if c = '#' then 1 + gapLength true rest
    else 0

/-- Moves on to the next token. On a new line a key may start, except in flow style. -/
def skipGap (s : Scan) : Scan :=
  let gap := s.rest.take (gapLength false s.rest)
  let s' := s.advanceBy gap.length
  if s.flow = 0 && gap.any isBreak then { s' with keyAllowed := true } else s'

/-- A single character that is a token by itself. -/
def mark (s : Scan) (token : Token) : Scan :=
  s.advance.emit token

def openFlow (s : Scan) (token : Token) : Except Fault Scan := do
  let s ← s.markCandidate
  return { s with flow := s.flow + 1, keyAllowed := true }.mark token

def closeFlow (s : Scan) (token : Token) : Except Fault Scan := do
  let s ← s.dropCandidate
  if s.flow = 0 then throw .unreadable
  return { s with flow := s.flow - 1, keyAllowed := false }.mark token

def comma (s : Scan) : Except Fault Scan := do
  let s ← s.dropCandidate
  return { s with keyAllowed := true }.mark .comma

/-- The dash of a block sequence. -/
def entry (s : Scan) : Except Fault Scan := do
  let s ← if s.flow ≠ 0 then pure s
    else if !s.keyAllowed then throw .unreadable
    else
      let (isNew, s) := s.enterBlock s.column
      pure (if isNew then s.emit .sequenceStart else s)
  let s ← s.dropCandidate
  return { s with keyAllowed := true }.mark .entry

/-- A block mapping that starts at the current column. -/
def enterMapping (s : Scan) : Except Fault Scan :=
  if s.flow ≠ 0 then .ok s
  else if !s.keyAllowed then .error .unreadable
  else
    let (isNew, s) := s.enterBlock s.column
    .ok (if isNew then s.emit .mappingStart else s)

/-- The question mark before a key. -/
def explicitKey (s : Scan) : Except Fault Scan := do
  let s ← s.enterMapping
  let s ← s.dropCandidate
  return { s with keyAllowed := s.flow == 0 }.mark .key

/-- The colon after a key: it makes a key of the candidate, or else ends an explicit key. -/
def value (s : Scan) : Except Fault Scan := do
  match s.candidates.find? fun c => c.level == s.flow with
  | some candidate =>
    let s := { s with candidates := s.candidates.filter fun c => c.level != s.flow }
    let (isNew, s) := if s.flow = 0 then s.enterBlock candidate.column else (false, s)
    let tokens := if isNew then [Token.mappingStart, .key] else [Token.key]
    let s := { s with slots := s.slots.setIfInBounds candidate.slot tokens, keyAllowed := false }
    return s.mark .value
  | none =>
    let s ← s.enterMapping
    let s ← s.dropCandidate
    return { s with keyAllowed := s.flow == 0 }.mark .value

/-- The gap after a run of a plain scalar, as it counts if the scalar goes on. -/
def plainGap (s : Scan) : List Char × Scan :=
  let spaces := s.rest.takeWhile (· == ' ')
  let s := s.advanceBy spaces.length
  match s.rest with
  | c :: rest =>
    if isBreak c then
      match plainBreaks true rest with
      | some (breaks, after) => (foldBreaks c breaks, { s.advanceTo after with keyAllowed := true })
      | none => ([], { s.advance with keyAllowed := true })
    else (spaces, s)
  | [] => (spaces, s)

/-- A plain scalar, run by run; outside flow style its lines are indented deeper than the block. -/
def plainRuns (minColumn : Nat) : (steps : Nat) → (text gap : List Char) → Scan → List Char × Scan
  | 0, text, _, s => (text, s)
  | steps + 1, text, gap, s =>
    let run := if s.rest.head? = some '#' then [] else plainRun (s.flow ≠ 0) s.rest
    if run.isEmpty then (text, s)
    else
      let text := text ++ gap ++ run
      let (gap, s) := { s.advanceBy run.length with keyAllowed := false }.plainGap
      if gap.isEmpty || s.rest.head? = some '#' || (s.flow = 0 && s.column < minColumn) then
        (text, s)
      else plainRuns minColumn steps text gap s

def plain (s : Scan) : Except Fault Scan := do
  let s ← s.markCandidate
  let minColumn := match s.indents with
    | [] => 0
    | indent :: _ => indent + 1
  let (text, s) := plainRuns minColumn s.rest.length [] [] { s with keyAllowed := false }
  return s.emit (.scalar text true)

def quoted (s : Scan) (double : Bool) : Except Fault Scan := do
  let s := { ← s.markCandidate with keyAllowed := false }
  let (text, rest) ← quotedText double s.rest.length (s.rest.drop 1)
  return (s.advanceTo rest).emit (.scalar text false)

/-- Three dashes or dots: all blocks end. -/
def separator (s : Scan) (token : Token) : Except Fault Scan := do
  let s := s.leaveBlocks fun _ => true
  let s ← s.dropCandidate
  return ({ s with keyAllowed := false }.advanceBy 3).emit token

/-- Scans one token; a candidate on an earlier line, or far back, is no key any more. -/
def step (s : Scan) : Except Fault Scan := do
  let s ← s.dropCandidates fun c => c.line != s.line || 1024 < s.index - c.index
  let s := s.leaveBlocks (s.column < ·)
  match s.rest with
  | [] => return s
  | c :: rest =>
    if s.column = 0 ∧ atMarker '-' s.rest then s.separator .documentStart
    else if s.column = 0 ∧ atMarker '.' s.rest then s.separator .documentEnd
    else if c = '[' then s.openFlow .flowSequenceStart
    else if c = '\x7b' then s.openFlow .flowMappingStart
    else if c = ']' then s.closeFlow .flowSequenceEnd
    else if c = '\x7d' then s.closeFlow .flowMappingEnd
    else if c = ',' then s.comma
    else if c = '-' ∧ atGap rest then s.entry
    else if c = '?' ∧ (s.flow ≠ 0 ∨ atGap rest) then s.explicitKey
    else if c = ':' ∧ (s.flow ≠ 0 ∨ atGap rest) then s.value
    else if c = '\x27' then s.quoted false
    else if c = '\x22' then s.quoted true
    else if startsPlain (s.flow ≠ 0) s.rest then s.plain
    else throw .unreadable

/-- Scans the whole text; every step but the last consumes a character. -/
def steps : (bound : Nat) → Scan → Except Fault Scan
  | 0, s => .ok s
  | bound + 1, s => do
    let s := s.skipGap
    let s' ← s.step
    if s.rest.isEmpty then return s' else steps bound s'

end Scan

/-- Line ends written in other ways become line feeds. -/
def normalizeBreaks : List Char → List Char
  | [] => []
  | '\r' :: '\n' :: rest => '\n' :: normalizeBreaks rest
  | '\r' :: rest => '\n' :: normalizeBreaks rest
  | c :: rest => c :: normalizeBreaks rest

/-- The tokens of a document. -/
def tokens (text : String) : Except Fault (List Token) := do
  let cs := normalizeBreaks text.toList
  if !cs.all isAllowed then throw .unreadable
  let cs := match cs with
    | '\ufeff' :: rest => rest
    | cs => cs
  let s ← Scan.steps (cs.length + 1) { rest := cs }
  let s := s.leaveBlocks fun _ => true
  let s ← s.dropCandidate
  return s.slots.toList.flatten

end Hyperscript.Document
