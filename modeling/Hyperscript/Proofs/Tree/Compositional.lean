import Hyperscript.Proofs.Tree.Markup

/-!
# Markup is put together from its calls and placeholders

A template may be read in many ways: at growing depth of expansion, say, or with two meanings of a
call.  Such readings form a family, and so do the results.  If a property of families passes from
the steps of a computation to the whole (`Compositional`), then what markup contributes has it as
soon as the calls and placeholders in the markup do.
-/

namespace Hyperscript

variable {δ ι : Type}

/-- A property of families of results that a constant has, and that passes from the steps of a
computation to the whole. -/
structure Compositional (S : {α : Type} → (ι → Option α) → Prop) : Prop where
  const {α : Type} (a : α) : S fun _ => some a
  bind {α β : Type} {f : ι → Option α} {g : ι → α → Option β} : S f → (∀ a, S fun i => g i a) →
    S fun i => f i >>= g i

theorem congr_family {S : {α : Type} → (ι → Option α) → Prop} {α : Type} {f g : ι → Option α}
    (hf : S f) (h : ∀ i, g i = f i) : S g := by
  rw [funext h]
  exact hf

/-! ## Markup -/

/-- Readings that differ in calls and placeholders only. -/
structure Family (S : {α : Type} → (ι → Option α) → Prop) (v : Valuation δ) (options : Options)
    (ρ : ι → Reading δ) : Prop where
  compositional : Compositional S
  valuation : ∀ i, (ρ i).valuation = v
  options : ∀ i, (ρ i).options = options

/-- The property holds of what a call or a placeholder brings in; of a call with children it may be
taken to hold of what these contribute. -/
def Node.BringsIn (S : {α : Type} → (ι → Option α) → Prop) (ρ : ι → Reading δ) : Node → Prop
  | .call (.str name) _ _ c => c.MarkupBlock true →
    (∀ children, c = .list children → S fun i => contributions (ρ i) children) →
    S fun i => (ρ i).call name c.passed
  | .placeholder => S fun i => (ρ i).block
  | _ => True

section Markup

variable {mixins : Bool} {S : {α : Type} → (ι → Option α) → Prop} {v : Valuation δ}
  {options : Options} {ρ : ι → Reading δ}

theorem Family.cons (hρ : Family S v options ρ) {item : Content} {rest : List Content}
    (hfirst : S fun i => item.contribution (ρ i)) (hothers : S fun i => contributions (ρ i) rest) :
    S fun i => contributions (ρ i) (item :: rest) := by
  have hboth := hρ.compositional.bind hfirst fun first =>
    hρ.compositional.bind hothers fun others => hρ.compositional.const
      (if startsWithText [item] && startsWithText rest then joinLine first others
        else first ++ others)
  refine congr_family hboth fun i => ?_
  rw [contributions]
  rfl

theorem Family.choice (hρ : Family S v options ρ) (test : String) {items : List Content}
    {c : Content} (hthen : S fun i => contributions (ρ i) items)
    (helse : S fun i => c.contribution (ρ i)) :
    S fun i => (Node.conditional (.str test) (.list items) c).contribution (ρ i) := by
  by_cases htest : v.holds test = true
  · refine congr_family hthen fun i => ?_
    rw [Node.contribution, hρ.valuation, if_pos htest, Content.contribution]
  · refine congr_family helse fun i => ?_
    rw [Node.contribution, hρ.valuation, if_neg htest]

mutual

theorem Node.Markup.composes (hρ : Family S v options ρ) : ∀ {n : Node}, n.Markup mixins →
    (mixins = true → Everywhere (Node.BringsIn S ρ) [.node n]) → S fun i => n.contribution (ρ i)
  | _, @Node.Markup.tag _ name attributes _ ha hc, hall => by
    have hinner := hc.composes hρ fun hm => (hall hm).of_owns (Node.owns_tag.2 rfl)
    obtain ⟨tag, htag⟩ := tagCode_str options name
    obtain ⟨properties, hproperties⟩ := ha.code? options
    refine congr_family (hρ.compositional.bind hinner fun children =>
      hρ.compositional.const [.element tag properties children]) fun i => ?_
    rw [Node.contribution, hρ.options, htag, hproperties]
    rfl
  | _, @Node.Markup.text _ value, _ =>
    congr_family (hρ.compositional.const [.text (v.text value)]) fun i => by
      rw [Node.contribution, hρ.valuation]
  | _, @Node.Markup.code _ value _ hc, hall => by
    have hinner := hc.composes hρ fun hm _ h => (hall hm).of_owns (h ▸ Node.owns_code.2 rfl)
    refine congr_family (hρ.compositional.bind hinner fun children =>
      hρ.compositional.const (.value (v.value value) :: children)) fun i => ?_
    rw [Node.contribution, hρ.valuation]
    rfl
  | _, .comment, _ =>
    congr_family (hρ.compositional.const []) fun i => by rw [Node.contribution]
  | _, @Node.Markup.conditional _ test _ _ hc ha, hall => by
    have hthen := hc.composes hρ fun hm => (hall hm).consequent ha.wellTyped
    have helse := ha.composes hρ fun hm => (hall hm).alternate ha.wellTyped
    exact hρ.choice test hthen helse
  | _, @Node.Markup.switch _ expr items hb _, hall => by
    have hinner := hb.composes hρ fun hm => (hall hm).of_owns (Node.owns_switch.2 rfl)
    by_cases hany : (branchLabels items).any (v.selects expr) = true
    · refine congr_family (hinner (v.selects expr) false) fun i => ?_
      rw [Node.contribution, Content.bodies, Valuation.chosen_eq, map_fst_bodiesOfItems,
        hρ.valuation, if_pos hany]
    · refine congr_family (hinner Option.isNone false) fun i => ?_
      rw [Node.contribution, Content.bodies, Valuation.chosen_eq, map_fst_bodiesOfItems,
        hρ.valuation, if_neg hany]
  | _, .call hmixins .null, hall => by
    have hcall := (hall hmixins).here .null (by simp)
    exact congr_family hcall fun i => by rw [Node.contribution]
  | _, .call hmixins (.list hc), hall => by
    have hinner := hc.composes hρ fun hm => (hall hm).of_owns (Node.owns_call.2 rfl)
    subst hmixins
    have hcall := (hall rfl).here (.list hc) fun children h => by
      cases h
      exact hinner
    exact congr_family hcall fun i => by rw [Node.contribution]
  | _, .placeholder hmixins, hall =>
    congr_family (hall hmixins).here fun i => by rw [Node.contribution]

theorem MarkupNodes.composes (hρ : Family S v options ρ) : ∀ {top : Bool} {items : List Content},
    MarkupNodes mixins top items → (mixins = true → Everywhere (Node.BringsIn S ρ) items) →
    S fun i => contributions (ρ i) items
  | _, _, .nil, _ => congr_family (hρ.compositional.const []) fun i => by rw [contributions]
  | _, _, .cons hn hrest, hall => by
    have hfirst := hn.composes hρ fun hm => (hall hm).first
    have hothers := hrest.composes hρ fun hm => (hall hm).others
    exact hρ.cons (congr_family hfirst fun i => by rw [Content.contribution]) hothers
  | _, _, .mixin _ _ hrest, hall => by
    have hothers := hrest.composes hρ fun hm => (hall hm).others
    refine hρ.cons (congr_family (hρ.compositional.const []) fun i => ?_) hothers
    rw [Content.contribution, Node.contribution]

theorem MarkupBranches.composes (hρ : Family S v options ρ) : ∀ {items : List Content},
    MarkupBranches mixins items → (mixins = true → Everywhere (Node.BringsIn S ρ) items) →
    ∀ (enters : Option String → Bool) (entered : Bool),
    S fun i => (arrival enters entered (bodiesOfItems (ρ i) items)).getD (some [])
  | _, .nil, _, enters, entered =>
    congr_family (hρ.compositional.const []) fun i => by rw [bodiesOfItems, arrival_nil]; rfl
  | _, @MarkupBranches.cons _ expr _ _ _ .null hrest, hall, enters, entered => by
    have hothers := hrest.composes hρ fun hm => (hall hm).others
    refine congr_family (hothers enters (entered || enters (branchLabel expr))) fun i => ?_
    rw [bodiesOfItems, if_pos (show (Content.datum .null).isNull = true from rfl),
      arrival_fallThrough]
  | _, @MarkupBranches.cons _ expr _ _ _ (.list hc) hrest, hall, enters, entered => by
    have hinner := hc.composes hρ fun hm => (hall hm).first.of_owns (Node.owns_branch.2 rfl)
    have hothers := hrest.composes hρ fun hm => (hall hm).others
    -- whether this branch is the one is the same for the whole family
    by_cases hentered : (entered || enters (branchLabel expr)) = true
    · refine congr_family hinner fun i => ?_
      rw [bodiesOfItems, if_neg (by simp [Content.isNull]), arrival_body, if_pos hentered,
        Content.contribution]
      rfl
    · refine congr_family (hothers enters false) fun i => ?_
      rw [bodiesOfItems, if_neg (by simp [Content.isNull]), arrival_body, if_neg hentered]

theorem Content.MarkupBlock.composes (hρ : Family S v options ρ) : ∀ {c : Content},
    c.MarkupBlock mixins →
    (mixins = true → ∀ items, c = .list items → Everywhere (Node.BringsIn S ρ) items) →
    S fun i => c.contribution (ρ i)
  | _, .null, _ =>
    congr_family (hρ.compositional.const []) fun i => by rw [Content.contribution]
  | _, .list hc, hall =>
    congr_family (hc.composes hρ fun hm => hall hm _ rfl) fun i => by rw [Content.contribution]

theorem Content.MarkupAlternate.composes (hρ : Family S v options ρ) : ∀ {c : Content},
    c.MarkupAlternate mixins → (mixins = true → c.EverywhereAlternate (Node.BringsIn S ρ)) →
    S fun i => c.contribution (ρ i)
  | _, .null, _ =>
    congr_family (hρ.compositional.const []) fun i => by rw [Content.contribution]
  | _, .list hc, hall =>
    congr_family (hc.composes hρ fun hm => hall hm _ (.inl rfl)) fun i => by
      rw [Content.contribution]
  | _, @Content.MarkupAlternate.conditional _ test _ _ hc ha, hall => by
    have hthen := hc.composes hρ fun hm =>
      (hall hm _ (.inr ⟨_, rfl, rfl⟩)).consequent ha.wellTyped
    have helse := ha.composes hρ fun hm =>
      (hall hm _ (.inr ⟨_, rfl, rfl⟩)).alternate ha.wellTyped
    refine congr_family (hρ.choice test hthen helse) fun i => ?_
    rw [Content.contribution]

end

end Markup

/-! ## Markup without mixins -/

theorem compositional_isSome : Compositional (ι := ι) fun f => ∀ i, ∃ a, f i = some a := by
  refine ⟨fun a _ => ⟨a, rfl⟩, ?_⟩
  intro α β f g hf hg i
  obtain ⟨a, ha⟩ := hf i
  obtain ⟨b, hb⟩ := hg a i
  refine ⟨b, ?_⟩
  show f i >>= g i = some b
  rw [ha]
  exact hb

/-- Without mixins, what nodes contribute is always defined. -/
theorem MarkupNodes.exists_contributions {top : Bool} {items : List Content}
    (h : MarkupNodes false top items) (v : Valuation δ) (options : Options) :
    ∃ out, contributions (.plain v options) items = some out := by
  have hρ : Family (fun f => ∀ i : Unit, ∃ a, f i = some a) v options
      fun _ => Reading.plain v options :=
    ⟨compositional_isSome, fun _ => rfl, fun _ => rfl⟩
  exact h.composes hρ nofun ()

end Hyperscript
