import Hyperscript.Proofs.Tree.Occurrence

/-!
# Shaped trees

The shape of a tree is what the generator tells nodes apart by.  A tree is shaped if every node is
of a kind for which there is code, lists of nodes stand where children belong, the entries of a case
are branches and there are no branches elsewhere, an alternate is nothing, another conditional or a
list of nodes, and every attribute value is a boolean or text.

The shape says nothing about the other slots, which may hold any datum.  `Shaped regular` asks in
addition that, if `regular` is the case, those slots hold text whose contents are used as text (names
of attributes and mixins, arguments of calls and code), and what is spliced into the script can be
written.
-/

namespace Hyperscript

/-! ## Outcomes of steps -/

section Meets

variable {α β : Type} {P : α → Prop} {R : β → Prop} {Q : Fault → Prop}

/-- What a step yields satisfies `P`, and a fault in which it ends satisfies `Q`. -/
def Meets (P : α → Prop) (Q : Fault → Prop) : Except Fault α → Prop
  | .ok a => P a
  | .error f => Q f

theorem Meets.bind {e : Except Fault α} {g : α → Except Fault β} (he : Meets P Q e)
    (hg : ∀ a, P a → Meets R Q (g a)) : Meets R Q (e >>= g) := by
  cases e with
  | error f => exact he
  | ok a => exact hg a he

theorem Meets.imp {e : Except Fault α} {P' : α → Prop} {Q' : Fault → Prop} (he : Meets P Q e)
    (hP : ∀ a, P a → P' a) (hQ : ∀ f, Q f → Q' f) : Meets P' Q' e := by
  cases e with
  | error f => exact hQ f he
  | ok a => exact hP a he

theorem meets_mapM {f : α → Except Fault β} {l : List α} (h : ∀ a ∈ l, Meets R Q (f a)) :
    Meets (fun bs => ∀ b ∈ bs, R b) Q (l.mapM f) := by
  induction l with
  | nil => exact fun b hb => absurd hb List.not_mem_nil
  | cons a l ih =>
    rw [List.mapM_cons]
    refine (h a (List.mem_cons_self ..)).bind fun b hb => ?_
    refine (ih fun c hc => h c (List.mem_cons_of_mem a hc)).bind fun bs hbs => ?_
    exact List.forall_mem_cons.2 ⟨hb, hbs⟩

end Meets

/-! ## Shapes -/

/-- The datum is text. -/
def Datum.IsText (d : Datum) : Prop := ∃ s, d = .str s

/-- The value is a boolean or text. -/
structure Attribute.Shaped (regular : Prop) (a : Attribute) : Prop where
  value : (∃ b, a.value = .bool b) ∨ a.value.IsText
  name : regular → a.name.IsText

/-- A list of attributes, and a list of anything to be merged over it. -/
inductive Attributes.Shaped (regular : Prop) : Attributes → Prop where
  | mk (attributes : List Attribute) (blocks : List Datum)
      (h : ∀ a ∈ attributes, a.Shaped regular)
      (hblocks : ∀ d ∈ blocks, regular → d.isWritable = true) :
      Shaped regular ⟨.list (attributes.map .attr), .list blocks⟩

mutual

/-- A node for which there is code, and so for the nodes below it. -/
inductive Node.Shaped (regular : Prop) : Node → Prop where
  | tag {name attributes items} : (regular → name.isWritable = true) →
      attributes.Shaped regular → ShapedNodes regular items →
      Node.Shaped regular (.tag name attributes (.list items))
  | text {value} : Node.Shaped regular (.text value)
  | code {value buffer children} : (regular → value.IsText) → children.ShapedBlock regular →
      Node.Shaped regular (.code value buffer children)
  | comment {value buffer} : Node.Shaped regular (.comment value buffer)
  | conditional {test items alternate} : (regular → test.isWritable = true) →
      ShapedNodes regular items → alternate.ShapedAlternate regular →
      Node.Shaped regular (.conditional test (.list items) alternate)
  | switch {expr items} : (regular → expr.isWritable = true) → ShapedBranches regular items →
      Node.Shaped regular (.switch expr (.list items))
  | each {obj val key items alternate} : (regular → obj.isWritable = true) →
      (regular → val.isWritable = true) → (regular → key.isWritable = true) →
      ShapedNodes regular items → alternate.ShapedBlock regular →
      Node.Shaped regular (.each obj val key (.list items) alternate)
  | loop {test items} : (regular → test.isWritable = true) → ShapedNodes regular items →
      Node.Shaped regular (.loop test (.list items))
  | mixin {name rest items} (params : List String) : (regular → name.IsText) →
      (regular → rest.isWritable = true) → ShapedNodes regular items →
      Node.Shaped regular (.mixin name (.list (params.map .str)) rest (.list items))
  | call {name args attributes children} : (regular → name.IsText) → (regular → args.IsText) →
      attributes.Shaped regular → children.ShapedBlock regular →
      Node.Shaped regular (.call name args attributes children)
  | placeholder : Node.Shaped regular .placeholder

/-- A list of shaped nodes. -/
inductive ShapedNodes (regular : Prop) : List Content → Prop where
  | nil : ShapedNodes regular []
  | cons {n rest} : n.Shaped regular → ShapedNodes regular rest →
      ShapedNodes regular (.node n :: rest)

/-- A list of branches, each with a list of shaped nodes or without one. -/
inductive ShapedBranches (regular : Prop) : List Content → Prop where
  | nil : ShapedBranches regular []
  | cons {expr children rest} : (regular → expr.isWritable = true) →
      children.ShapedBlock regular → ShapedBranches regular rest →
      ShapedBranches regular (.node (.branch expr children) :: rest)

/-- A list of shaped nodes, or null in its place. -/
inductive Content.ShapedBlock (regular : Prop) : Content → Prop where
  | null : Content.ShapedBlock regular (.datum .null)
  | list {items} : ShapedNodes regular items → Content.ShapedBlock regular (.list items)

/-- The alternate of a conditional: nothing, a list of shaped nodes, or the next conditional. -/
inductive Content.ShapedAlternate (regular : Prop) : Content → Prop where
  | null : Content.ShapedAlternate regular (.datum .null)
  | list {items} : ShapedNodes regular items → Content.ShapedAlternate regular (.list items)
  | conditional {test items alternate} : (regular → test.isWritable = true) →
      ShapedNodes regular items → alternate.ShapedAlternate regular →
      Content.ShapedAlternate regular (.node (.conditional test (.list items) alternate))

end

theorem ShapedNodes.append {regular : Prop} {xs ys : List Content} (hx : ShapedNodes regular xs)
    (hy : ShapedNodes regular ys) : ShapedNodes regular (xs ++ ys) := by
  induction xs with
  | nil => exact hy
  | cons x xs ih =>
    cases hx with
    | cons hn hrest => exact .cons hn (ih hrest)

/-! ## Walks through shaped trees -/

/-- The parameters of a declaration are a list, and if `regular` is the case its name is text. -/
structure Declaration.Shaped (regular : Prop) (d : Declaration) : Prop where
  params : ∃ params, d.params = .list params
  name : regular → d.name.IsText

/-- If the content is a declaration, it is a shaped one. -/
def Content.DeclaresShaped (regular : Prop) (c : Content) : Prop :=
  ∀ d, c.declaration? = some d → d.Shaped regular

theorem Node.Shaped.declaresShaped {regular : Prop} {n : Node} (h : n.Shaped regular) :
    (Content.node n).DeclaresShaped regular := by
  intro d hd
  cases h with
  | mixin params hname =>
    cases hd
    exact ⟨⟨_, rfl⟩, hname⟩
  | _ => cases hd

/-- A walk finds no fault, and the declarations it lists are shaped. -/
abbrev Walks (regular : Prop) : Except Fault (List Content) → Prop :=
  Meets (fun found => ∀ c ∈ found, c.DeclaresShaped regular) fun _ => False

theorem walks_nil {regular : Prop} : Walks regular (.ok []) :=
  fun _ h => absurd h List.not_mem_nil

theorem Walks.append {regular : Prop} {left right : Except Fault (List Content)}
    (hl : Walks regular left) (hr : Walks regular right) :
    Walks regular (do return (← left) ++ (← right)) :=
  hl.bind fun _ hxs => hr.bind fun _ hys => List.forall_mem_append.2 ⟨hxs, hys⟩

section Walk

variable {regular : Prop} {enter : Node → Bool}

theorem walks_ite {n : Node} (h : Walks regular (n.descendants enter)) :
    Walks regular (if enter n then n.descendants enter else .ok []) := by
  split
  · exact h
  · exact walks_nil

theorem walks_cons {n : Node} {rest : List Content} (hn : (Content.node n).DeclaresShaped regular)
    (hinner : Walks regular (n.descendants enter)) (hrest : Walks regular (walkItems enter rest)) :
    Walks regular (walkItems enter (.node n :: rest)) := by
  rw [walkItems_node]
  refine (walks_ite hinner).bind fun inner hi => hrest.bind fun found hf => ?_
  exact List.forall_mem_cons.2 ⟨hn, List.forall_mem_append.2 ⟨hi, hf⟩⟩

mutual

theorem Node.Shaped.walks : ∀ {n : Node}, n.Shaped regular → Walks regular (n.descendants enter)
  | _, .tag _ _ hc | _, .loop _ hc | _, .mixin _ _ _ hc => hc.walks
  | _, .switch _ hc => hc.walks
  | _, .text | _, .comment | _, .placeholder => walks_nil
  | _, .code _ h => h.walks
  | _, .call _ _ _ h => h.walks
  | _, .each _ _ _ hc ha => hc.walks.append ha.walks
  | _, .conditional _ hc ha => hc.walks.append ha.walks

theorem ShapedNodes.walks : ∀ {items : List Content}, ShapedNodes regular items →
    Walks regular (walkItems enter items)
  | _, .nil => walks_nil
  | _, .cons hn hrest => walks_cons hn.declaresShaped hn.walks hrest.walks

theorem ShapedBranches.walks : ∀ {items : List Content}, ShapedBranches regular items →
    Walks regular (walkItems enter items)
  | _, .nil => walks_nil
  | _, .cons _ h hrest => walks_cons (fun _ hd => by cases hd) h.walks hrest.walks

theorem Content.ShapedBlock.walks : ∀ {c : Content}, c.ShapedBlock regular →
    Walks regular (c.walkUnlessNull enter)
  | _, .null => walks_nil
  | _, .list h => h.walks

theorem Content.ShapedAlternate.walks : ∀ {c : Content}, c.ShapedAlternate regular →
    Walks regular (c.walkAlternate enter)
  | _, .null => walks_nil
  | _, .list h => h.walks
  | _, @Content.ShapedAlternate.conditional _ test items alternate _ hc ha => by
    have hinner : Walks regular ((Node.conditional test (.list items) alternate).descendants enter) :=
      hc.walks.append ha.walks
    rw [walkAlternate_conditional enter rfl]
    refine (walks_ite hinner).bind fun inner hi => List.forall_mem_cons.2 ⟨?_, hi⟩
    exact fun d hd => by cases hd

end

end Walk

/-- All declarations of a shaped tree can be listed, and they are shaped. -/
theorem ShapedNodes.declarations {regular : Prop} {items : List Content}
    (h : ShapedNodes regular items) :
    ∃ ds, (Content.list items).declarations = .ok ds ∧ ∀ d ∈ ds, d.Shaped regular := by
  have hwalk : Walks regular (Content.list items).walk := h.walks
  unfold Content.declarations
  cases hfound : (Content.list items).walk with
  | error f =>
    rw [hfound] at hwalk
    exact hwalk.elim
  | ok found =>
    rw [hfound] at hwalk
    refine ⟨found.filterMap Content.declaration?, rfl, fun d hd => ?_⟩
    obtain ⟨c, hc, hcd⟩ := List.mem_filterMap.1 hd
    exact hwalk c hc d hcd

/-- The declarations of its function scope can be listed. -/
theorem ShapedNodes.scopeDeclarations {regular : Prop} {items : List Content}
    (h : ShapedNodes regular items) : ∃ ds, (Content.list items).scopeDeclarations = .ok ds := by
  have hwalk : Walks regular (Content.list items).walkScope := h.walks
  unfold Content.scopeDeclarations
  cases hfound : (Content.list items).walkScope with
  | error f =>
    rw [hfound] at hwalk
    exact hwalk.elim
  | ok found => exact ⟨_, rfl⟩

end Hyperscript
