import Hyperscript.Proofs.Generation.Emission
import Hyperscript.Proofs.Generation.Outcome
import Hyperscript.Proofs.Tree.Meaning

/-!
# Markup

The part of the template language in which what a node contributes depends on nothing but the values
of its expressions: elements, texts, buffered code, comments, conditionals and cases.  With mixins
it also has calls without arguments and attributes, and placeholders; mixins without parameters are
then declared at the top level.
-/

namespace Hyperscript

mutual

/-- A node of the markup; `mixins` admits calls and placeholders. -/
inductive Node.Markup (mixins : Bool) : Node → Prop where
  | tag {name attributes items} : attributes.WellTyped → MarkupNodes mixins false items →
      Node.Markup mixins (.tag (.str name) attributes (.list items))
  | text {value} : Node.Markup mixins (.text (.str value))
  | code {value children} : children.MarkupBlock mixins →
      Node.Markup mixins (.code (.str value) (.bool true) children)
  | comment {value buffer} : Node.Markup mixins (.comment (.str value) (.bool buffer))
  | conditional {test items alternate} : MarkupNodes mixins false items →
      alternate.MarkupAlternate mixins →
      Node.Markup mixins (.conditional (.str test) (.list items) alternate)
  | switch {expr items} : MarkupBranches mixins items → (branchLabels items).count none ≤ 1 →
      Node.Markup mixins (.switch (.str expr) (.list items))
  | call {name children} : mixins = true → children.MarkupBlock mixins →
      Node.Markup mixins (.call (.str name) (.str "") {} children)
  | placeholder : mixins = true → Node.Markup mixins .placeholder

/-- A list of such nodes, at the `top` level possibly with mixin declarations. -/
inductive MarkupNodes (mixins : Bool) : (top : Bool) → List Content → Prop where
  | nil {top} : MarkupNodes mixins top []
  | cons {top n rest} : n.Markup mixins → MarkupNodes mixins top rest →
      MarkupNodes mixins top (.node n :: rest)
  | mixin {name body rest} : mixins = true → MarkupNodes mixins false body →
      MarkupNodes mixins true rest →
      MarkupNodes mixins true (.node (.mixin (.str name) (.list []) .null (.list body)) :: rest)

/-- The branches of a case. -/
inductive MarkupBranches (mixins : Bool) : List Content → Prop where
  | nil : MarkupBranches mixins []
  | cons {expr children rest} : expr.IsOptionalText → children.MarkupBlock mixins →
      MarkupBranches mixins rest → MarkupBranches mixins (.node (.branch expr children) :: rest)

inductive Content.MarkupBlock (mixins : Bool) : Content → Prop where
  | null : Content.MarkupBlock mixins (.datum .null)
  | list {items} : MarkupNodes mixins false items → Content.MarkupBlock mixins (.list items)

inductive Content.MarkupAlternate (mixins : Bool) : Content → Prop where
  | null : Content.MarkupAlternate mixins (.datum .null)
  | list {items} : MarkupNodes mixins false items → Content.MarkupAlternate mixins (.list items)
  | conditional {test items alternate} : MarkupNodes mixins false items →
      alternate.MarkupAlternate mixins →
      Content.MarkupAlternate mixins (.node (.conditional (.str test) (.list items) alternate))

end

/-! ## Markup is well-typed -/

mutual

theorem Node.Markup.wellTyped {mixins : Bool} : ∀ {n : Node}, n.Markup mixins → n.WellTyped
  | _, .tag ha hc => .tag ha hc.wellTyped
  | _, .text => .text
  | _, .code h => .code h.wellTyped
  | _, .comment => .comment
  | _, .conditional hc ha => .conditional hc.wellTyped ha.wellTyped
  | _, .switch hb _ => .switch hb.wellTyped
  | _, .call _ h => .call (.mk [] [] (by simp)) h.wellTyped
  | _, .placeholder _ => .placeholder

theorem MarkupNodes.wellTyped {mixins : Bool} : ∀ {top : Bool} {items : List Content},
    MarkupNodes mixins top items → WellTypedNodes items
  | _, _, .nil => .nil
  | _, _, .cons hn hrest => .cons hn.wellTyped hrest.wellTyped
  | _, _, .mixin _ hbody hrest => .cons (.mixin [] .null hbody.wellTyped) hrest.wellTyped

theorem MarkupBranches.wellTyped {mixins : Bool} : ∀ {items : List Content},
    MarkupBranches mixins items → WellTypedNodes items
  | _, .nil => .nil
  | _, .cons he hc hrest => .cons (.branch he hc.wellTyped) hrest.wellTyped

theorem Content.MarkupBlock.wellTyped {mixins : Bool} : ∀ {c : Content},
    c.MarkupBlock mixins → c.WellTypedBlock
  | _, .null => .null
  | _, .list h => .list h.wellTyped

theorem Content.MarkupAlternate.wellTyped {mixins : Bool} : ∀ {c : Content},
    c.MarkupAlternate mixins → c.WellTypedAlternate
  | _, .null => .null
  | _, .list h => .list h.wellTyped
  | _, .conditional hc ha => .conditional hc.wellTyped ha.wellTyped

end

theorem MarkupNodes.of_mem {mixins top : Bool} {items : List Content}
    (h : MarkupNodes mixins top items) {n : Node} (hmem : .node n ∈ items) :
    n.Markup mixins ∨ (mixins = true ∧ top = true ∧ ∃ name body,
      n = .mixin (.str name) (.list []) .null (.list body) ∧ MarkupNodes mixins false body) := by
  induction items with
  | nil => exact absurd hmem List.not_mem_nil
  | cons c items ih =>
    cases h with
    | cons hn hrest =>
      rcases List.mem_cons.1 hmem with hc | hmem
      · cases hc
        exact .inl hn
      · exact ih hrest hmem
    | mixin hmixins hbody hrest =>
      rcases List.mem_cons.1 hmem with hc | hmem
      · cases hc
        exact .inr ⟨hmixins, rfl, _, _, rfl, hbody⟩
      · exact ih hrest hmem

/-- Below the top level there are no declarations. -/
theorem MarkupNodes.markup_of_mem {mixins : Bool} {items : List Content}
    (h : MarkupNodes mixins false items) {n : Node} (hmem : .node n ∈ items) : n.Markup mixins := by
  rcases h.of_mem hmem with hn | ⟨-, htop, -⟩
  · exact hn
  · cases htop

theorem MarkupBranches.of_mem {mixins : Bool} {items : List Content}
    (h : MarkupBranches mixins items) {n : Node} (hmem : .node n ∈ items) :
    ∃ expr children, n = .branch expr children ∧ children.MarkupBlock mixins := by
  induction items with
  | nil => exact absurd hmem List.not_mem_nil
  | cons c items ih =>
    cases h with
    | cons _ hc hrest =>
      rcases List.mem_cons.1 hmem with hc | hmem
      · cases hc
        exact ⟨_, _, rfl, ‹_›⟩
      · exact ih hrest hmem

theorem Content.MarkupBlock.of_owns_code {mixins : Bool} {c : Content} (h : c.MarkupBlock mixins)
    {value buffer : Datum} {inner : List Content} (howns : (Node.code value buffer c).Owns inner) :
    MarkupNodes mixins false inner := by
  cases h with
  | null => simp at howns
  | list h => rwa [Node.owns_code.1 howns]

theorem Content.MarkupBlock.of_owns_branch {mixins : Bool} {c : Content}
    (h : c.MarkupBlock mixins) {expr : Datum} {inner : List Content}
    (howns : (Node.branch expr c).Owns inner) : MarkupNodes mixins false inner := by
  cases h with
  | null => simp at howns
  | list h => rwa [Node.owns_branch.1 howns]

theorem Content.MarkupBlock.of_owns_call {mixins : Bool} {c : Content} (h : c.MarkupBlock mixins)
    {name args : Datum} {attributes : Attributes} {inner : List Content}
    (howns : (Node.call name args attributes c).Owns inner) : MarkupNodes mixins false inner := by
  cases h with
  | null => simp at howns
  | list h => rwa [Node.owns_call.1 howns]

/-- A case owns branches, any other node of the markup owns markup. -/
theorem Node.Markup.of_owns {mixins : Bool} {m : Node} {inner : List Content} (h : m.Markup mixins)
    (howns : m.Owns inner) :
    (m.isSwitch = true ∧ MarkupBranches mixins inner) ∨
      (m.isSwitch = false ∧ MarkupNodes mixins false inner) := by
  cases h with
  | switch hb => exact .inl ⟨rfl, by rwa [Node.owns_switch.1 howns]⟩
  | tag _ hc => exact .inr ⟨rfl, by rwa [Node.owns_tag.1 howns]⟩
  | code h => exact .inr ⟨rfl, h.of_owns_code howns⟩
  | call _ h => exact .inr ⟨rfl, h.of_owns_call howns⟩
  | conditional hc ha =>
    refine .inr ⟨rfl, ?_⟩
    cases ha with
    | null => rwa [Node.owns_conditional_null.1 howns]
    | list h => rcases Node.owns_conditional_list.1 howns with rfl | rfl <;> assumption
    | conditional hc' ha' =>
      rcases Node.owns_conditional_node.1 howns with rfl | rfl
      · exact hc
      · exact .cons (.conditional hc' ha') .nil
  | text | comment | placeholder => simp at howns

/-- Below the top level, a node in markup is markup itself or a branch of a case. -/
theorem MarkupNodes.of_occurs {mixins : Bool} {above : List Node} {n : Node} {items : List Content}
    (hocc : Occurs above n items)
    (h : MarkupNodes mixins false items ∨ MarkupBranches mixins items) :
    n.Markup mixins ∨ ∃ expr children, n = .branch expr children := by
  induction hocc with
  | here hmem =>
    rcases h with h | h
    · exact .inl (h.markup_of_mem hmem)
    · obtain ⟨expr, children, rfl, -⟩ := h.of_mem hmem
      exact .inr ⟨expr, children, rfl⟩
  | inside hmem howns _ ih =>
    apply ih
    rcases h with h | h
    · rcases (h.markup_of_mem hmem).of_owns howns with ⟨-, hinner⟩ | ⟨-, hinner⟩
      · exact .inr hinner
      · exact .inl hinner
    · obtain ⟨expr, children, rfl, hblock⟩ := h.of_mem hmem
      exact .inl (hblock.of_owns_branch howns)

theorem MarkupNodes.below_top {top : Bool} {items : List Content}
    (h : MarkupNodes false top items) : MarkupNodes false false items := by
  induction items with
  | nil => exact .nil
  | cons c items ih =>
    cases h with
    | cons hn hrest => exact .cons hn (ih hrest)
    | mixin hfalse => cases hfalse

/-! ## Markup without mixins is supported -/

theorem Node.Markup.fits {n : Node} (h : n.Markup false) {known : Datum → Prop} {inMixin : Prop} :
    n.Fits known inMixin False := by
  cases h with
  | call hfalse | placeholder hfalse => cases hfalse
  | _ => simp [Node.Fits]

/-- A node in markup without mixins is permitted where it stands. -/
theorem permitted_of_occurs {known : Datum → Prop} {inMixin : Prop} {above : List Node} {n : Node}
    {items : List Content} (hocc : Occurs above n items) :
    (MarkupNodes false false items → Permitted known inMixin False above n) ∧
    (MarkupBranches false items → Permitted known inMixin True above n) := by
  induction hocc generalizing inMixin with
  | here hmem =>
    refine ⟨fun h => ?_, fun h => ?_⟩
    · rw [permitted_nil]
      exact (h.markup_of_mem hmem).fits
    · rw [permitted_nil]
      obtain ⟨expr, children, rfl, -⟩ := h.of_mem hmem
      simp [Node.Fits]
  | inside hmem howns _ ih =>
    refine ⟨fun h => ?_, fun h => ?_⟩
    · rw [permitted_cons]
      rcases (h.markup_of_mem hmem).of_owns howns with ⟨hswitch, hinner⟩ | ⟨hswitch, hinner⟩
      · simp only [hswitch, eq_self]
        exact ih.2 hinner
      · simp only [hswitch, Bool.false_eq_true]
        exact ih.1 hinner
    · rw [permitted_cons]
      obtain ⟨expr, children, rfl, hblock⟩ := h.of_mem hmem
      simpa using ih.1 (hblock.of_owns_branch howns)

/-- Markup without mixins can always be generated. -/
theorem MarkupNodes.allPermitted {items : List Content} (h : MarkupNodes false false items)
    {select : List Node → Prop} {known : Datum → Prop} {inMixin : Prop} :
    AllPermitted select known inMixin False items :=
  fun _ _ hocc _ => (permitted_of_occurs hocc).1 h

/-! ## Markup below the top level defines nothing -/

mutual

theorem Node.Markup.defines_nil {mixins : Bool} : ∀ {n : Node}, n.Markup mixins →
    ∀ {s : Scope} {k : Nat} {stmts : List Stmt} {k' : Nat}, n.Defines s k stmts k' →
    stmts = [] ∧ k' = k
  | _, .tag _ hc, _, _, _, _, .tag (.list h) => hc.defines_nil h
  | _, .text, _, _, _, _, .text => ⟨rfl, rfl⟩
  | _, .code hc, _, _, _, _, .code h => hc.defines_nil h
  | _, .comment, _, _, _, _, .comment => ⟨rfl, rfl⟩
  | _, .conditional hc ha, _, _, _, _, .conditional (.list hc') ha' => by
    obtain ⟨rfl, rfl⟩ := hc.defines_nil hc'
    obtain ⟨rfl, rfl⟩ := ha.defines_nil ha'
    exact ⟨rfl, rfl⟩
  | _, .switch hb _, _, _, _, _, .switch (.list h) => hb.defines_nil h
  | _, .call _ _, _, _, _, _, .call => ⟨rfl, rfl⟩
  | _, .placeholder _, _, _, _, _, .placeholder => ⟨rfl, rfl⟩

theorem MarkupNodes.defines_nil {mixins : Bool} : ∀ {items : List Content},
    MarkupNodes mixins false items →
    ∀ {s : Scope} {k : Nat} {stmts : List Stmt} {k' : Nat}, ItemsDefine items s k stmts k' →
    stmts = [] ∧ k' = k
  | _, .nil, _, _, _, _, .nil => ⟨rfl, rfl⟩
  | _, .cons hn hrest, _, _, _, _, .node hn' hrest' => by
    obtain ⟨rfl, rfl⟩ := hn.defines_nil hn'
    obtain ⟨rfl, rfl⟩ := hrest.defines_nil hrest'
    exact ⟨rfl, rfl⟩
  | _, .cons _ _, _, _, _, _, .other hnode _ => absurd rfl (hnode _)

theorem MarkupBranches.defines_nil {mixins : Bool} : ∀ {items : List Content},
    MarkupBranches mixins items →
    ∀ {s : Scope} {k : Nat} {stmts : List Stmt} {k' : Nat}, ItemsDefine items s k stmts k' →
    stmts = [] ∧ k' = k
  | _, .nil, _, _, _, _, .nil => ⟨rfl, rfl⟩
  | _, .cons _ hc hrest, _, _, _, _, .node (.branch hc') hrest' => by
    obtain ⟨rfl, rfl⟩ := hc.defines_nil hc'
    obtain ⟨rfl, rfl⟩ := hrest.defines_nil hrest'
    exact ⟨rfl, rfl⟩
  | _, .cons _ _ _, _, _, _, _, .other hnode _ => absurd rfl (hnode _)

theorem Content.MarkupBlock.defines_nil {mixins : Bool} : ∀ {c : Content}, c.MarkupBlock mixins →
    ∀ {s : Scope} {k : Nat} {stmts : List Stmt} {k' : Nat}, c.Defines s k stmts k' →
    stmts = [] ∧ k' = k
  | _, .null, _, _, _, _, .datum => ⟨rfl, rfl⟩
  | _, .list h, _, _, _, _, .list h' => h.defines_nil h'

theorem Content.MarkupAlternate.defines_nil {mixins : Bool} : ∀ {c : Content},
    c.MarkupAlternate mixins →
    ∀ {s : Scope} {k : Nat} {stmts : List Stmt} {k' : Nat}, c.DefinesAlternate s k stmts k' →
    stmts = [] ∧ k' = k
  | _, .null, _, _, _, _, .datum => ⟨rfl, rfl⟩
  | _, .list h, _, _, _, _, .list h' => h.defines_nil h'
  | _, .conditional hc ha, _, _, _, _, .conditional _ (.conditional (.list hc') ha') => by
    obtain ⟨rfl, rfl⟩ := hc.defines_nil hc'
    obtain ⟨rfl, rfl⟩ := ha.defines_nil ha'
    exact ⟨rfl, rfl⟩
  | _, .conditional _ _, _, _, _, _, .node h => by cases h

end

end Hyperscript
