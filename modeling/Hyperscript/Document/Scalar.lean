import Hyperscript.Datum.Basic
import Hyperscript.Text.Blank

/-!
What a plain scalar of a document stands for.

Null, booleans, integers and floats have spellings of their own; everything else is text. Integers
may be written in base two, eight, ten, sixteen or sixty, and underscores between digits are
ignored.
-/

namespace Hyperscript.Document

/-- The value of digits in a base of at most sixteen. -/
def digitsValue (base : Nat) (digits : List Char) : Nat :=
  digits.foldl
    (fun n c => n * base +
      (if c.isDigit then c.toNat - '0'.toNat else c.toLower.toNat - 'a'.toNat + 10)) 0

def dropUnderscores (digits : List Char) : List Char :=
  digits.filter (· != '_')

/-- A decimal digit or an underscore. -/
def isDecimal (c : Char) : Bool := c.isDigit || c = '_'

def isBinary (c : Char) : Bool := c = '0' || c = '1' || c = '_'

def isOctal (c : Char) : Bool := ('0' ≤ c && c ≤ '7') || c = '_'

def isHexadecimal (c : Char) : Bool :=
  c.isDigit || ('a' ≤ c && c ≤ 'f') || ('A' ≤ c && c ≤ 'F') || c = '_'

/-- Splits off a sign; the first component tells whether it is negative. -/
def splitSign : List Char → Bool × List Char
  | '-' :: rest => (true, rest)
  | '+' :: rest => (false, rest)
  | rest => (false, rest)

/-- A minute or second: one digit, or two of which the first is at most five. -/
def sexagesimalDigit? : List Char → Option Nat
  | [c] => if c.isDigit then some (digitsValue 10 [c]) else none
  | [c, d] => if '0' ≤ c ∧ c ≤ '5' ∧ d.isDigit then some (digitsValue 10 [c, d]) else none
  | _ => none

/-- The value of groups in base sixty, of which the first is any number. -/
def sexagesimal? (groups : List (List Char)) : Option Nat :=
  match groups with
  | first :: second :: rest =>
    ((second :: rest).mapM sexagesimalDigit?).map
      (List.foldl (fun n d => n * 60 + d) (digitsValue 10 (dropUnderscores first)))
  | _ => none

/-- The value of an integer without its sign. -/
def natural? (cs : List Char) : Option Nat :=
  match cs with
  | ['0'] => some 0
  | '0' :: 'b' :: digits =>
    if !digits.isEmpty && digits.all isBinary then
      some (digitsValue 2 (dropUnderscores digits))
    else none
  | '0' :: 'x' :: digits =>
    if !digits.isEmpty && digits.all isHexadecimal then
      some (digitsValue 16 (dropUnderscores digits))
    else none
  | '0' :: digits =>
    if digits.all isOctal then some (digitsValue 8 (dropUnderscores digits)) else none
  | c :: _ =>
    if !c.isDigit then none
    else if cs.all isDecimal then some (digitsValue 10 (dropUnderscores cs))
    else
      match Text.cut ':' cs with
      | first :: rest => if first.all isDecimal then sexagesimal? (first :: rest) else none
      | [] => none
  | [] => none

/-- The value of an integer. -/
def integer? (cs : List Char) : Option Int :=
  let (negative, digits) := splitSign cs
  (natural? digits).map fun n => if negative then -(n : Int) else n

/-- An exponent with its sign, or nothing. -/
def exponent? : List Char → Option Int
  | [] => some 0
  | mark :: sign :: digits =>
    if (mark = 'e' ∨ mark = 'E') ∧ (sign = '+' ∨ sign = '-') ∧ !digits.isEmpty ∧
        digits.all Char.isDigit then
      some (if sign = '-' then -(digitsValue 10 digits : Int) else digitsValue 10 digits)
    else none
  | _ => none

/-- The value of a decimal number without its sign. The point is required. -/
def decimal? (signed : Bool) (cs : List Char) : Option Float :=
  let whole := cs.takeWhile isDecimal
  match cs.dropWhile isDecimal with
  | '.' :: afterPoint =>
    let fraction := afterPoint.takeWhile isDecimal
    let startsRight := match whole with
      | [] => !signed && (fraction.head?.map Char.isDigit).getD false
      | c :: _ => c.isDigit
    if startsRight then
      (exponent? (afterPoint.dropWhile isDecimal)).map fun exponent =>
        let digits := dropUnderscores fraction
        Decimal.toFloat (digitsValue 10 (dropUnderscores whole ++ digits))
          (exponent - digits.length)
    else none
  | _ => none

/-- The value of a float. -/
def float? (cs : List Char) : Option Float :=
  let (negative, body) := splitSign cs
  let signed := body.length < cs.length
  let text := String.ofList body
  if [".inf", ".Inf", ".INF"].contains text then
    some (if negative then -(1.0 / 0.0) else 1.0 / 0.0)
  else if !signed && [".nan", ".NaN", ".NAN"].contains text then some (0.0 / 0.0)
  else (decimal? signed body).map fun x => if negative then -x else x

/-- The datum of a plain scalar. The words for merging and for default values have no value of their
own. -/
def plainScalar (cs : List Char) : Except Fault Datum :=
  let text := String.ofList cs
  if ["", "~", "null", "Null", "NULL"].contains text then .ok .null
  else if ["true", "True", "TRUE", "yes", "Yes", "YES", "on", "On", "ON"].contains text then
    .ok (.bool true)
  else if ["false", "False", "FALSE", "no", "No", "NO", "off", "Off", "OFF"].contains text then
    .ok (.bool false)
  else if ["=", "<<"].contains text then .error .unreadable
  else
    match integer? cs, float? cs with
    | some n, _ => .ok (.int n)
    | none, some x => .ok (.float x)
    | none, none => .ok (.str text)

end Hyperscript.Document
