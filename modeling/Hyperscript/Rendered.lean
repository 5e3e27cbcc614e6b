import Hyperscript.Datum.Spelling

/-!
Text of a rendered tree.
-/

namespace Hyperscript.Rendered

mutual

/-- The text of a rendered node and of everything below it, in document order. A mapping is an
element with `children`, text stands for itself, and null shows nothing. -/
def text : Datum → Except Fault String
  | .str s => .ok s
  | .map entries => do return String.join (← childTexts entries)
  | .null => .ok ""
  | d => d.written Datum.spell

/-- The texts of the children among the entries of an element. -/
def childTexts : List (Datum × Datum) → Except Fault (List String)
  | [] => .ok []
  | (key, value) :: rest =>
    match key with
    | .str "children" => itemTexts value
    | _ => childTexts rest

/-- The texts of what stands where children belong. -/
def itemTexts : Datum → Except Fault (List String)
  | .list items => texts items
  | d => do (← d.items).mapM (Datum.written Datum.spell)

def texts : List Datum → Except Fault (List String)
  | [] => .ok []
  | d :: rest => do return (← text d) :: (← texts rest)

end

end Hyperscript.Rendered
