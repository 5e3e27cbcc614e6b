import Hyperscript.Decimal.Shortest
import Hyperscript.Fault

/-!
Data: the values a document can hold, and what can be asked of any of them.

A use of a datum that its kind does not support is a `Fault`; nothing else here can fail.
-/

namespace Hyperscript

/-- A value of a document. The keys of a mapping are distinct up to `Datum.sameKey`, and its entries
stand in the order in which the keys first came up. -/
inductive Datum where
  | null
  | bool (value : Bool)
  | int (value : Int)
  | float (value : Float)
  | str (value : String)
  | list (items : List Datum)
  | map (entries : List (Datum × Datum))
  deriving Inhabited, Repr

namespace Datum

/-- The name of a datum's kind in messages. -/
def kind : Datum → String
  | null => "NoneType"
  | bool _ => "bool"
  | int _ => "int"
  | float _ => "float"
  | str _ => "str"
  | list _ => "list"
  | map _ => "dict"

/-- Null, false, zero and everything empty count as false. -/
def isTrue : Datum → Bool
  | null => false
  | bool b => b
  | int n => n != 0
  | float x => x != 0.0
  | str s => !s.isEmpty
  | list items => !items.isEmpty
  | map entries => !entries.isEmpty

def isNull : Datum → Bool
  | null => true
  | _ => false

/-- What going through a datum yields: the items of a list, the characters of a text, the keys of a
mapping. -/
def items : Datum → Except Fault (List Datum)
  | list items => .ok items
  | str s => .ok (s.toList.map fun c => .str (String.singleton c))
  | map entries => .ok (entries.map Prod.fst)
  | d => .error (.notIterable d.kind)

/-- A number as `mantissa * 2 ^ exponent`; booleans count as 0 and 1. -/
def dyadic? : Datum → Option (Int × Int)
  | bool b => some (if b then 1 else 0, 0)
  | int n => some (n, 0)
  | float x =>
    match Decimal.Binary.ofFloat x with
    | .finite negative m q => some (if negative then -(m : Int) else m, q)
    | _ => none
  | _ => none

/-- Whether two data are the same key: equal text, equal numbers whatever their kind, or both null.
-/
def sameKey : Datum → Datum → Bool
  | null, null => true
  | str a, str b => a == b
  | float x, float y => x == y
  | a, b =>
    match a.dyadic?, b.dyadic? with
    | some (m, q), some (n, r) =>
      -- at the smaller of the two exponents
      m * Int.pow 2 (q - r).toNat == n * Int.pow 2 (r - q).toNat
    | _, _ => false

/-- Lists and mappings cannot be keys. -/
def checkKey : Datum → Except Fault Unit
  | list items => .error (.unhashable (list items).kind)
  | map entries => .error (.unhashable (map entries).kind)
  | _ => .ok ()

/-- The value under a text key, among the entries of a mapping. -/
def lookup (key : String) : List (Datum × Datum) → Option Datum
  | [] => none
  | (str k, value) :: rest => if k = key then some value else lookup key rest
  | _ :: rest => lookup key rest

/-- Sets a key: in its place if it is there, else at the end. -/
def insert (key value : Datum) : List (Datum × Datum) → List (Datum × Datum)
  | [] => [(key, value)]
  | (k, v) :: rest => if k.sameKey key then (k, value) :: rest else (k, v) :: insert key value rest

/-- The text that a datum is, where it is used as such. -/
def text : Datum → Except Fault String
  | str s => .ok s
  | d => .error (.textNeeded d.kind)

/-- The text that a datum is, where something is searched in it. -/
def searchable : Datum → Except Fault String
  | str s => .ok s
  | d => .error (.notSearchable d.kind)

end Datum

end Hyperscript
