import Mathlib.Data.List.TakeWhile
import Hyperscript.Generate
import Hyperscript.Proofs.Script.Machine

/-!
# The meaning of a template

What a template stands for is told without its script: every node contributes some entries to the
children of the element it stands in, and an element has the contributions of its children in
document order.

What calls and placeholders contribute is left open at first (`Reading`).  Mixins are then expanded:
a call contributes the body of its mixin, and a placeholder in that body the children that the call
passes.  `expansion` comes in two forms, which differ in what a call without children hands on: the
block of the context it stands in, or nothing.
-/

namespace Hyperscript

variable {δ : Type}

/-! ## Contributions -/

/-- What a template is read with. -/
structure Reading (δ : Type) where
  valuation : Valuation δ
  options : Options
  /-- What a call contributes, given the children it passes, if any. -/
  call : String → Option (List Content) → Option (List (VTree δ))
  /-- What a placeholder contributes. -/
  block : Option (List (VTree δ))

/-- A text with its spans evaluated. -/
def Valuation.text (v : Valuation δ) (value : String) : String :=
  String.ofList ((Interpolated.split value.toList).eval v)

/-- Whether a text comes first. -/
def startsWithText : List Content → Bool
  | .node (.text _) :: _ => true
  | _ => false

/-- A text and what follows it, where that starts with a text too: one text of several lines. -/
def joinLine : List (VTree δ) → List (VTree δ) → List (VTree δ)
  | [.text line], .text lines :: rest => .text (line ++ "\n" ++ lines) :: rest
  | first, rest => first ++ rest

/-- The body that a case comes to: control enters at the first label equal to the subject, or else
at the default, and goes on to the next branch with a body. -/
def Valuation.chosen {α : Type} (v : Valuation δ) (subject : String)
    (branches : List (Option String × Option α)) : Option α :=
  match branches.dropWhile fun branch => !v.selects subject branch.1 with
  | [] => (branches.dropWhile fun branch => branch.1.isSome).findSome? Prod.snd
  | entered => entered.findSome? Prod.snd

/-- The children that a call passes. -/
def Content.passed : Content → Option (List Content)
  | .list items => some items
  | _ => none

mutual

/-- What a node contributes; unbuffered code and loops are not covered. -/
def Node.contribution (ρ : Reading δ) : Node → Option (List (VTree δ))
  | .tag name attributes children => do
    let tag ← (tagCode ρ.options name).toOption
    let properties ← (attributes.code? ρ.options).toOption
    return [.element tag properties (← children.contribution ρ)]
  | .text (.str value) => some [.text (ρ.valuation.text value)]
  | .code (.str value) (.bool true) children => do
    return .value (ρ.valuation.value value) :: (← children.contribution ρ)
  | .comment .. | .mixin .. => some []
  | .conditional (.str test) consequent alternate =>
    if ρ.valuation.holds test then consequent.contribution ρ else alternate.contribution ρ
  | .switch (.str subject) branches =>
    (ρ.valuation.chosen subject (branches.bodies ρ)).getD (some [])
  | .call (.str name) _ _ children => ρ.call name children.passed
  | .placeholder => ρ.block
  | _ => none

/-- What a list of nodes contributes, the next conditional in place of it, or nothing at all. -/
def Content.contribution (ρ : Reading δ) : Content → Option (List (VTree δ))
  | .list items => contributions ρ items
  | .node n => n.contribution ρ
  | .datum .null => some []
  | .datum _ => none

/-- What nodes contribute, one after the other; texts that follow each other directly make one. -/
def contributions (ρ : Reading δ) : List Content → Option (List (VTree δ))
  | [] => some []
  | item :: rest => do
    let first ← item.contribution ρ
    let others ← contributions ρ rest
    return if startsWithText [item] && startsWithText rest then joinLine first others
      else first ++ others

/-- The labels of branches with what their bodies contribute, where there is a body. -/
def Content.bodies (ρ : Reading δ) :
    Content → List (Option String × Option (Option (List (VTree δ))))
  | .list items => bodiesOfItems ρ items
  | _ => []

def bodiesOfItems (ρ : Reading δ) :
    List Content → List (Option String × Option (Option (List (VTree δ))))
  | [] => []
  | .node (.branch expr children) :: rest =>
    (branchLabel expr, if children.isNull then none else some (children.contribution ρ)) ::
      bodiesOfItems ρ rest
  | _ :: rest => bodiesOfItems ρ rest

end

/-! ## Cases -/

/-- The labels of the branches of a case; the default has none. -/
def branchLabels (items : List Content) : List (Option String) :=
  items.filterMap fun
    | .node (.branch expr _) => some (branchLabel expr)
    | _ => none

theorem map_fst_bodiesOfItems (ρ : Reading δ) (items : List Content) :
    (bodiesOfItems ρ items).map Prod.fst = branchLabels items := by
  induction items with
  | nil => rfl
  | cons c items ih =>
    by_cases hbranch : ∃ expr children, c = .node (.branch expr children)
    · obtain ⟨expr, children, rfl⟩ := hbranch
      rw [bodiesOfItems, List.map_cons, ih]
      rfl
    · have hlabel : branchLabels (c :: items) = branchLabels items := by
        unfold branchLabels
        rw [List.filterMap_cons]
        split
        · rfl
        · rename_i hsome
          split at hsome
          · exact absurd ⟨_, _, rfl⟩ hbranch
          · cases hsome
      rw [bodiesOfItems, ih, hlabel]
      intro expr children hc
      exact hbranch ⟨expr, children, hc⟩

/-- The body at which control arrives that comes in at a label which `enters` admits. -/
def arrival {α : Type} (enters : Option String → Bool) (entered : Bool)
    (branches : List (Option String × Option α)) : Option α :=
  if entered then branches.findSome? Prod.snd
  else (branches.dropWhile fun branch => !enters branch.1).findSome? Prod.snd

section Arrival

variable {α : Type} {enters : Option String → Bool} {label : Option String}
  {rest : List (Option String × Option α)}

theorem arrival_nil (entered : Bool) :
    arrival enters entered ([] : List (Option String × Option α)) = none := by
  cases entered <;> rfl

theorem arrival_fallThrough (entered : Bool) :
    arrival enters entered ((label, none) :: rest) =
      arrival enters (entered || enters label) rest := by
  cases entered with
  | true => rfl
  | false => cases hl : enters label <;> simp [arrival, hl]

theorem arrival_body (entered : Bool) (body : α) :
    arrival enters entered ((label, some body) :: rest) =
      if (entered || enters label) = true then some body else arrival enters false rest := by
  cases entered with
  | true => rfl
  | false => cases hl : enters label <;> simp [arrival, hl]

/-- The branch of a case is where a switch arrives: through a label equal to the subject if there is
one, and through the default otherwise. -/
theorem Valuation.chosen_eq (v : Valuation δ) (subject : String)
    (branches : List (Option String × Option α)) :
    v.chosen subject branches =
      if (branches.map Prod.fst).any (v.selects subject) = true then
        arrival (v.selects subject) false branches
      else arrival Option.isNone false branches := by
  have hdrop : branches.dropWhile (fun branch => !v.selects subject branch.1) = [] ↔
      ¬(branches.map Prod.fst).any (v.selects subject) = true := by
    rw [List.dropWhile_eq_nil_iff, List.any_map, List.any_eq_true]
    simp
  have hdefault : arrival Option.isNone false branches =
      (branches.dropWhile fun branch => branch.1.isSome).findSome? Prod.snd := by
    simp [arrival]
  unfold Valuation.chosen
  split
  · rename_i hnil
    rw [if_neg (hdrop.1 hnil), hdefault]
  · rename_i hcons
    by_cases hany : (branches.map Prod.fst).any (v.selects subject) = true
    · rw [if_pos hany]
      rfl
    · exact absurd (hdrop.2 hany) hcons

end Arrival

/-! ## Mixins -/

/-- The reading of templates without mixins. -/
def Reading.plain (v : Valuation δ) (options : Options) : Reading δ :=
  ⟨v, options, fun _ _ => none, none⟩

/-- The body of the mixin of a given name. -/
def mixinBody : List Content → String → Option (List Content)
  | [], _ => none
  | .node (.mixin (.str name) _ _ (.list body)) :: rest, mixin =>
    (mixinBody rest mixin).or (if name = mixin then some body else none)
  | _ :: rest, mixin => mixinBody rest mixin

/-- The reading of nodes under the context `this`, where placeholders stand for the given `block`.

A block is given by the children that were passed, followed by those that the placeholders in them
stand for, and so on; the empty list is no block. -/
def Reading.inside (v : Valuation δ) (options : Options) (bodies : String → Option (List Content))
    (inherits : Bool)
    (expand : List (List Content) → List (List Content) → List Content → Option (List (VTree δ)))
    (this block : List (List Content)) : Reading δ where
  valuation := v
  options := options
  call name passed := do
    let context := match passed with
      | some children => children :: block
      | none => if inherits then this else []
    expand context context (← bodies name)
  block :=
    match block with
    | [] => some []
    | children :: outer => expand this outer children

/-- What nodes contribute with their mixins expanded, up to a number of nested expansions.  With
`inherits`, a call without children hands on the context it stands in; otherwise it passes no
block. -/
def expansion (v : Valuation δ) (options : Options) (bodies : String → Option (List Content))
    (inherits : Bool) : (depth : Nat) → (this block : List (List Content)) → List Content →
    Option (List (VTree δ))
  | 0, _, _, _ => none
  | depth + 1, this, block, items =>
    contributions
      (.inside v options bodies inherits (expansion v options bodies inherits depth) this block)
      items

end Hyperscript
