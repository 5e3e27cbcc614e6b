/-!
Binary floating-point numbers as decimals.

`shortest m q` is the decimal with the fewest digits among those that round to `m * 2 ^ q`, and of
those the nearest. It is found by exact arithmetic: grids of powers of ten are tried from the
coarsest to the finest, and on each grid only the two neighbours of the number can lie in the
interval of reals that round to it.
-/

namespace Hyperscript.Decimal

/-- A decimal `digits * 10 ^ exponent`. -/
structure Numeral where
  digits : Nat
  exponent : Int
  deriving DecidableEq, Repr

/-- A float taken apart: a sign and a magnitude `mantissa * 2 ^ exponent`, or no number. -/
inductive Binary where
  | finite (negative : Bool) (mantissa : Nat) (exponent : Int)
  | infinite (negative : Bool)
  | undefined
  deriving DecidableEq, Repr

/-- Reads sign, mantissa and exponent off the bits. -/
def Binary.ofFloat (x : Float) : Binary :=
  let bits := x.toBits.toNat
  let negative := bits / Nat.pow 2 63 == 1
  let exponent := bits / Nat.pow 2 52 % Nat.pow 2 11
  let fraction := bits % Nat.pow 2 52
  if exponent = 2047 then
    if fraction = 0 then .infinite negative else .undefined
  else if exponent = 0 then .finite negative fraction (-1074)
  else .finite negative (Nat.pow 2 52 + fraction) (Int.ofNat exponent - 1075)

/-- The reals that round to `m * 2 ^ q`, in quarters of `2 ^ q`: half a gap to either side, but only
a quarter below a power of two, where the gap below is half as wide. The smallest exponent has no
narrower gap below it. -/
def roundingInterval (m : Nat) (q : Int) : Nat × Nat :=
  (if m = Nat.pow 2 52 ∧ q ≠ -1074 then 4 * m - 1 else 4 * m - 2, 4 * m + 2)

/-- The neighbour of `m * 2 ^ q` on the grid of multiples of `10 ^ e` that rounds to it, if there is
one; the nearer of two, and of two equally near the even one. -/
def onGrid? (m : Nat) (q e : Int) : Option Nat :=
  let value := Nat.pow 2 (q - 2).toNat * Nat.pow 10 (-e).toNat
  let step := Nat.pow 10 e.toNat * Nat.pow 2 (2 - q).toNat
  let (low, high) := roundingInterval m q
  let inside (d : Nat) : Bool :=
    if m % 2 = 0 then low * value ≤ d * step && d * step ≤ high * value
    else low * value < d * step && d * step < high * value
  let below := 4 * m * value / step
  let above := below + 1
  match below ≠ 0 && inside below, inside above with
  | true, true =>
    let toBelow := 4 * m * value - below * step
    let toAbove := above * step - 4 * m * value
    if toBelow < toAbove then some below
    else if toAbove < toBelow then some above
    else if below % 2 = 0 then some below else some above
  | true, false => some below
  | false, true => some above
  | false, false => none

/-- Tries the grids of `10 ^ e`, `10 ^ (e - 1)`, … -/
def searchGrids (m : Nat) (q : Int) : (grids : Nat) → (e : Int) → Numeral
  | 0, e => ⟨m, e⟩
  | grids + 1, e =>
    match onGrid? m q e with
    | some digits => ⟨digits, e⟩
    | none => searchGrids m q grids (e - 1)

/-- The shortest decimal that rounds to `m * 2 ^ q`. No finite float reaches `10 ^ 309`, and the
grid of `10 ^ (-343)` is finer than every rounding interval. -/
def shortest (m : Nat) (q : Int) : Numeral :=
  searchGrids m q 653 309

/-- The digits of a number in base ten, most significant first. -/
def digitChars (n : Nat) : List Char :=
  (toString n).toList

/-- The power of ten in exponent notation: a sign and at least two digits. -/
def exponentChars (n : Int) : List Char :=
  let magnitude := digitChars n.natAbs
  (if n < 0 then '-' else '+') :: (if magnitude.length < 2 then '0' :: magnitude else magnitude)

/-- Lays out a positive decimal. The point stands in the digits while that needs at most sixteen
digits before it and at most four zeros after it; otherwise the number is written with an exponent.
-/
def layout (d : Numeral) : List Char :=
  let digits := digitChars d.digits
  let point : Int := digits.length + d.exponent
  if -4 < point ∧ point ≤ 16 then
    if point ≤ 0 then '0' :: '.' :: List.replicate (-point).toNat '0' ++ digits
    else if digits.length ≤ point.toNat then
      digits ++ List.replicate (point.toNat - digits.length) '0' ++ ['.', '0']
    else digits.take point.toNat ++ '.' :: digits.drop point.toNat
  else
    let tail := digits.drop 1
    digits.take 1 ++ (if tail.isEmpty then [] else '.' :: tail) ++ 'e' :: exponentChars (point - 1)

/-- The text of a float; the spellings of the two infinities and of the undefined number are the
caller's. -/
def text (infinite undefined : String) (x : Float) : String :=
  let signed (negative : Bool) (s : String) := if negative then "-" ++ s else s
  match Binary.ofFloat x with
  | .finite negative m q =>
    signed negative (if m = 0 then "0.0" else String.ofList (layout (shortest m q)))
  | .infinite negative => signed negative infinite
  | .undefined => undefined

/-- The float nearest to `digits * 10 ^ exponent`. Exponents beyond the range of floats are not
expanded. -/
def toFloat (digits : Nat) (exponent : Int) : Float :=
  let size : Int := (digitChars digits).length + exponent
  if digits = 0 ∨ size < -400 then 0.0
  else if 400 < size then 1.0 / 0.0
  else if exponent < 0 then Float.ofScientific digits true exponent.natAbs
  else Float.ofScientific digits false exponent.natAbs

end Hyperscript.Decimal
