import Hyperscript.Datum.Spelling
import Hyperscript.Text.Blank

/-!
Text with embedded expressions.

A span `#{expr}` or `!{expr}` runs to the brace that closes it; brackets inside it nest and quoted
strings are skipped. A backslash before the mark keeps the opening as plain text. `split` takes a
text apart into literals and spans, `unparse` writes it down again, and `Interpolated.code` is the
expression that puts it together when the script runs.
-/

namespace Hyperscript

/-- An embedded expression; `escaped` is set by the mark `#`. -/
structure Span where
  expr : String
  escaped : Bool
  deriving DecidableEq, Repr

/-- A literal, then any number of spans, each with the literal that follows it. -/
structure Interpolated where
  head : List Char
  tail : List (Span × List Char)
  deriving DecidableEq, Repr

/-- A piece of a text with spans. -/
inductive Part where
  | literal (text : String)
  | span (span : Span)
  deriving DecidableEq, Repr

namespace Interpolation

def isQuote (c : Char) : Bool := c = '\x27' || c = '\x22' || c = '\x60'

def isOpener (c : Char) : Bool := c = '(' || c = '[' || c = '\x7b'

def isCloser (c : Char) : Bool := c = ')' || c = ']' || c = '\x7d'

/-- The marks before the brace of a span. -/
def isMark (c : Char) : Bool := c = '#' || c = '!'

/-- Puts a character back in front of what was read up to a closing brace. -/
def keep (c : Char) : List Char × List Char → List Char × List Char
  | (inside, rest) => (c :: inside, rest)

/-- Reads up to the brace that closes a span: the characters before it and those after it. `depth`
brackets and possibly a quoted string are open. A bracket of another kind in place of the brace
leaves the span unclosed. -/
def closeSpan (depth : Nat) (quote : Option Char) : List Char → Option (List Char × List Char)
  | [] => none
  | c :: cs =>
    match quote with
    | some q =>
      if c = '\\' then
        match cs with
        | [] => none
        | d :: ds => ((closeSpan depth (some q) ds).map (keep d)).map (keep c)
      else if c = q then (closeSpan depth none cs).map (keep c)
      else (closeSpan depth (some q) cs).map (keep c)
    | none =>
      if isQuote c then (closeSpan depth (some c) cs).map (keep c)
      else if isOpener c then (closeSpan (depth + 1) none cs).map (keep c)
      else if isCloser c then
        match depth with
        | 0 => if c = '\x7d' then some ([], cs) else none
        | depth + 1 => (closeSpan depth none cs).map (keep c)
      else (closeSpan depth none cs).map (keep c)

/-- The position of the brace that closes a span opened before `start`. -/
def closingBrace? (text : String) (start : Nat) : Option Nat :=
  (closeSpan 0 none (text.toList.drop start)).map fun (inside, _) => start + inside.length

theorem map_keep_eq_some {c : Char} {r : Option (List Char × List Char)} {inside rest : List Char}
    (h : r.map (keep c) = some (inside, rest)) : ∃ i, r = some (i, rest) ∧ inside = c :: i := by
  obtain ⟨⟨i, s⟩, hr, he⟩ := Option.map_eq_some_iff.1 h
  simp only [keep, Prod.mk.injEq] at he
  exact ⟨i, by rw [hr, he.2], he.1.symm⟩

/-- What is read is the text itself, with the closing brace left out. -/
theorem eq_append_of_closeSpan {depth : Nat} {quote : Option Char} {cs inside rest : List Char}
    (h : closeSpan depth quote cs = some (inside, rest)) : cs = inside ++ '\x7d' :: rest := by
  fun_induction closeSpan depth quote cs generalizing inside rest with
  | case1 => simp at h
  | case2 => simp at h
  | case3 depth q d ds ih =>
    obtain ⟨i, hi, rfl⟩ := map_keep_eq_some h
    obtain ⟨j, hj, rfl⟩ := map_keep_eq_some hi
    rw [ih hj]
    rfl
  | case8 => simp_all
  | case9 => simp_all
  | case4 | case5 | case6 | case7 | case10 | case11 =>
    rename_i ih
    obtain ⟨i, hi, rfl⟩ := map_keep_eq_some h
    rw [ih hi]
    rfl

theorem length_lt_of_closeSpan {depth : Nat} {quote : Option Char} {cs inside rest : List Char}
    (h : closeSpan depth quote cs = some (inside, rest)) : rest.length < cs.length := by
  rw [eq_append_of_closeSpan h, List.length_append, List.length_cons]
  omega

end Interpolation

namespace Interpolated

/-- Puts plain text in front. -/
def prepend (text : List Char) (t : Interpolated) : Interpolated :=
  { t with head := text ++ t.head }

/-- Puts a span in front; the literal before it is empty. -/
def prependSpan (span : Span) (t : Interpolated) : Interpolated :=
  ⟨[], (span, t.head) :: t.tail⟩

/-- Takes a text apart. An opening that is never closed leaves the rest of the text literal, and a
span with nothing in it is dropped. -/
def split : List Char → Interpolated
  | [] => ⟨[], []⟩
  | '\\' :: mark :: '\x7b' :: rest =>
    if Interpolation.isMark mark then (split rest).prepend [mark, '\x7b']
    else (split (mark :: '\x7b' :: rest)).prepend ['\\']
  | mark :: '\x7b' :: rest =>
    if Interpolation.isMark mark then
      match h : Interpolation.closeSpan 0 none rest with
      | none => ⟨mark :: '\x7b' :: rest, []⟩
      | some (inside, after) =>
        have : after.length < rest.length := Interpolation.length_lt_of_closeSpan h
        let expr := Text.trimWhere Text.isBlank inside
        if expr.isEmpty then split after
        else (split after).prependSpan ⟨String.ofList expr, mark = '#'⟩
    else (split ('\x7b' :: rest)).prepend [mark]
  | c :: rest => (split rest).prepend [c]
termination_by text => text.length

/-- Plain text as it is written: a backslash keeps an opening from starting a span. -/
def escapeOpenings : List Char → List Char
  | [] => []
  | [c] => [c]
  | c :: d :: rest =>
    if Interpolation.isMark c && d = '\x7b' then '\\' :: c :: escapeOpenings (d :: rest)
    else c :: escapeOpenings (d :: rest)

/-- A span as it is written. -/
def spanText (span : Span) : List Char :=
  (if span.escaped then '#' else '!') :: '\x7b' :: span.expr.toList ++ ['\x7d']

/-- Puts a text together again as it is written. -/
def unparse (t : Interpolated) : List Char :=
  escapeOpenings t.head ++
    t.tail.flatMap fun (span, literal) => spanText span ++ escapeOpenings literal

/-- Two texts on consecutive lines as one: the literals at the seam merge. -/
def joinFrom (head : List Char) (next : Interpolated) : List (Span × List Char) → Interpolated
  | [] => ⟨head ++ '\n' :: next.head, next.tail⟩
  | (span, literal) :: rest => ⟨head, (span, (joinFrom literal next rest).head) ::
      (joinFrom literal next rest).tail⟩

def join (t next : Interpolated) : Interpolated :=
  joinFrom t.head next t.tail

/-- Adjacent texts, each on a line of its own. -/
def ofLines : List (List Char) → Interpolated
  | [] => ⟨[], []⟩
  | [text] => split text
  | text :: rest => (split text).join (ofLines rest)

/-- The literals and spans in order; a literal stands at either end. -/
def parts (t : Interpolated) : List Part :=
  .literal (String.ofList t.head) ::
    t.tail.flatMap fun (span, literal) => [.span span, .literal (String.ofList literal)]

end Interpolated

/-- A part as an operand: a string literal, or the expression in parentheses. -/
def Part.code : Part → String
  | .literal text => Text.literal text
  | .span s => "(" ++ s.expr ++ ")"

/-- The expression that concatenates parts. -/
def Part.concatenation (parts : List Part) : String :=
  " + ".intercalate (parts.map Part.code)

/-- The expression whose value is the text with its spans evaluated. -/
def Interpolated.code (t : Interpolated) : String :=
  Part.concatenation t.parts

namespace Interpolation

/-- Takes apart the text in a datum. -/
def ofDatum (text : Datum) : Except Fault Interpolated := do
  return Interpolated.split (← text.searchable).toList

/-- Takes apart adjacent texts as one. -/
def ofRun (texts : List Datum) : Except Fault Interpolated := do
  let texts ← texts.mapM Datum.searchable
  return Interpolated.ofLines (texts.map String.toList)

/-- The expression of adjacent texts; no text at all gives no expression. -/
def runCode (texts : List Datum) : Except Fault String := do
  if texts.isEmpty then return "" else return (← ofRun texts).code

end Interpolation

end Hyperscript
