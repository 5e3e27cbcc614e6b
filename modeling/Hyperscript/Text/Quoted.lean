import Hyperscript.Text.Printable

/-!
Quoted spellings of text, in three dialects.

* `literal` is the double-quoted, ASCII-only string literal that scripts and JSON share; `encode`
  gives the characters between its quotes, and `decode` reads them.
* `nameLiteral` is the single-quoted literal used for property access by name.
* `inspect` is the spelling used in messages: it picks the quote that needs less escaping.
-/

namespace Hyperscript.Text

/-- The lowest `width` hexadecimal digits of `n`, most significant first. -/
def hexDigits : (width : Nat) → (n : Nat) → List Char
  | 0, _ => []
  | width + 1, n => hexDigits width (n / 16) ++ [Nat.digitChar (n % 16)]

/-- A sixteen-bit unit written as an escape. -/
def escapeUnit (n : Nat) : List Char :=
  '\\' :: 'u' :: hexDigits 4 n

/-- One character inside a double-quoted literal: the quote, the backslash and the controls with a
short escape get it, other controls and everything beyond the tilde become units, a character beyond
the basic plane two of them. -/
def encodeChar (c : Char) : List Char :=
  if c = '\x22' then ['\\', '\x22']
  else if c = '\\' then ['\\', '\\']
  else if c = '\n' then ['\\', 'n']
  else if c = '\r' then ['\\', 'r']
  else if c = '\t' then ['\\', 't']
  else if c = '\x08' then ['\\', 'b']
  else if c = '\x0c' then ['\\', 'f']
  else if c.toNat < 0x20 then escapeUnit c.toNat
  else if c.toNat < 0x7F then [c]
  else if c.toNat < 0x10000 then escapeUnit c.toNat
  else
    let offset := c.toNat - 0x10000
    escapeUnit (0xD800 + offset / 0x400) ++ escapeUnit (0xDC00 + offset % 0x400)

/-- The characters between the quotes of a double-quoted literal. -/
def encode (cs : List Char) : List Char :=
  cs.flatMap encodeChar

/-- The double-quoted literal of a text. -/
def literal (s : String) : String :=
  String.ofList ('\x22' :: encode s.toList ++ ['\x22'])

/-- The value of a hexadecimal digit. -/
def hexValue? (c : Char) : Option Nat :=
  if '0' ≤ c ∧ c ≤ '9' then some (c.toNat - '0'.toNat)
  else if 'a' ≤ c ∧ c ≤ 'f' then some (c.toNat - 'a'.toNat + 10)
  else if 'A' ≤ c ∧ c ≤ 'F' then some (c.toNat - 'A'.toNat + 10)
  else none

/-- The unit that four hexadecimal digits stand for. -/
def unit? (a b c d : Char) : Option Nat := do
  return (((← hexValue? a) * 16 + (← hexValue? b)) * 16 + (← hexValue? c)) * 16 + (← hexValue? d)

/-- The character of an escape by a single letter. -/
def shortEscape? (c : Char) : Option Char :=
  [('\x22', '\x22'), ('\\', '\\'), ('/', '/'), ('b', '\x08'), ('f', '\x0c'), ('n', '\n'),
    ('r', '\r'), ('t', '\t')].lookup c

/-- Reads the characters between the quotes of a double-quoted literal. A high surrogate unit has to
be followed by a low one, and the two are one character. -/
def decode : List Char → Option (List Char)
  | [] => some []
  | '\\' :: 'u' :: a :: b :: c :: d :: rest =>
    (unit? a b c d).bind fun unit =>
      if 0xD800 ≤ unit ∧ unit < 0xDC00 then
        match rest with
        | '\\' :: 'u' :: e :: f :: g :: h :: rest =>
          (unit? e f g h).bind fun low =>
            if 0xDC00 ≤ low ∧ low < 0xE000 then
              (decode rest).map
                (Char.ofNat (0x10000 + (unit - 0xD800) * 0x400 + (low - 0xDC00)) :: ·)
            else none
        | _ => none
      else if 0xDC00 ≤ unit ∧ unit < 0xE000 then none
      else (decode rest).map (Char.ofNat unit :: ·)
  | '\\' :: c :: rest => (shortEscape? c).bind fun e => (decode rest).map (e :: ·)
  | c :: rest =>
    if c = '\x22' ∨ c = '\\' ∨ c.toNat < 0x20 then none else (decode rest).map (c :: ·)

/-- One character inside a single-quoted name: backslash and quote are escaped, nothing else. -/
def encodeNameChar (c : Char) : List Char :=
  if c = '\\' then ['\\', '\\']
  else if c = '\x27' then ['\\', '\x27']
  else [c]

/-- The single-quoted literal of a name. -/
def nameLiteral (s : String) : String :=
  String.ofList ('\x27' :: s.toList.flatMap encodeNameChar ++ ['\x27'])

/-- One character of an inspected text between quotes of the kind `quote`. -/
def inspectChar (quote c : Char) : List Char :=
  if c = quote || c = '\\' then ['\\', c]
  else if c = '\n' then ['\\', 'n']
  else if c = '\r' then ['\\', 'r']
  else if c = '\t' then ['\\', 't']
  else if isPrintable c then [c]
  else if c.toNat < 0x100 then '\\' :: 'x' :: hexDigits 2 c.toNat
  else if c.toNat < 0x10000 then escapeUnit c.toNat
  else '\\' :: 'U' :: hexDigits 8 c.toNat

/-- The spelling of a text in a message: single quotes, unless it holds a single quote and no double
one. -/
def inspect (s : String) : String :=
  let cs := s.toList
  let quote := if cs.contains '\x27' && !cs.contains '\x22' then '\x22' else '\x27'
  String.ofList (quote :: cs.flatMap (inspectChar quote) ++ [quote])

end Hyperscript.Text
