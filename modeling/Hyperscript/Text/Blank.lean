/-!
Blank characters, trimming and cutting of text.

Everything here works on lists of characters; `trim` is the one function on strings.
-/

namespace Hyperscript.Text

/-- The characters that count as white space: the ASCII blanks and separators, the next-line
character, and the space, line and paragraph separators of Unicode. -/
def isBlank (c : Char) : Bool :=
  let n := c.toNat
  (0x09 ≤ n && n ≤ 0x0D) || (0x1C ≤ n && n ≤ 0x20) || n == 0x85 || n == 0xA0 || n == 0x1680 ||
    (0x2000 ≤ n && n ≤ 0x200A) || n == 0x2028 || n == 0x2029 || n == 0x202F || n == 0x205F ||
    n == 0x3000

/-- Drops the characters satisfying `p` from both ends. -/
def trimWhere (p : Char → Bool) (cs : List Char) : List Char :=
  ((cs.dropWhile p).reverse.dropWhile p).reverse

/-- Drops blanks from both ends. -/
def trim (s : String) : String :=
  String.ofList (trimWhere isBlank s.toList)

/-- Cuts at every `sep`; there is always one piece more than there are separators. -/
def cut (sep : Char) : List Char → List (List Char)
  | [] => [[]]
  | c :: cs =>
    if c = sep then [] :: cut sep cs
    else
      match cut sep cs with
      | [] => [[c]]
      | piece :: pieces => (c :: piece) :: pieces

/-- The lines of a piece of code: line feeds at either end are dropped, the others separate lines.
-/
def codeLines (code : String) : List String :=
  (cut '\n' (trimWhere (· == '\n') code.toList)).map String.ofList

end Hyperscript.Text
