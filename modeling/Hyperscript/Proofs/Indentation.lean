import Mathlib.Data.List.Forall2
import Hyperscript.Proofs.Compilation
import Hyperscript.Proofs.Text.Nesting

/-!
# Indented scripts

Whether a script is indented decides only how its lines are written.  Generation never asks: of the
options it reads three, and none of them is about the layout.  So the compact and the indented
script of a template are renderings of the same lines, or the same fault ends both compilations.

The main statement is `compile_indents`: line by line, as the text is divided by line feeds, the
indented script is the compact one behind some spaces.
-/

namespace Hyperscript

/-! ## Options that generation reads -/

/-- Two sets of options that differ at most in the layout of the script. -/
structure Options.SameCode (o p : Options) : Prop where
  runtime : o.runtime = p.runtime
  marshalDataset : o.marshalDataset = p.marshalDataset
  capitalConstructors : o.capitalConstructors = p.capitalConstructors

section SameCode

variable {o p : Options}

theorem tagCode_congr (h : o.SameCode p) (name : Datum) : tagCode o name = tagCode p name := by
  unfold tagCode
  rw [h.capitalConstructors]

theorem Attributes.code?_congr (h : o.SameCode p) (a : Attributes) : a.code? o = a.code? p := by
  have hproperty : ∀ e : AttributeEntry, e.property o = e.property p := by
    intro e
    cases e with
    | attr a => simp only [AttributeEntry.property, Attribute.property, h.marshalDataset]
    | datum d => rfl
  simp only [Attributes.code?, AttributeSlot.object, hproperty]

end SameCode

namespace Scope

/-- The same scope under other options. -/
def under (s : Scope) (o : Options) : Scope :=
  { s with options := o }

variable (s : Scope) (o : Options)

@[simp] theorem under_options : (s.under o).options = o := rfl

@[simp] theorem under_mixins : (s.under o).mixins = s.mixins := rfl

@[simp] theorem under_target : (s.under o).target = s.target := rfl

@[simp] theorem under_flush (texts : List Datum) : (s.under o).flush texts = s.flush texts := rfl

@[simp] theorem under_filling (array : ArrayName) :
    (s.under o).filling array = (s.filling array).under o := rfl

@[simp] theorem under_inMixin : (s.under o).inMixin = s.inMixin.under o := rfl

end Scope

/-! ## Generation under other options

One statement for each function of the generator, by recursion over the tree as the generator
itself goes through it. -/

mutual

theorem Node.generate_under {o : Options} :
    ∀ (n : Node) (s : Scope), s.options.SameCode o → n.generate (s.under o) = n.generate s
  | .tag name attributes children, s, h => by
    have hchildren := fun array => children.generate_under (s.filling array) h
    simp only [Node.generate, Scope.under_options, Scope.under_target, Scope.under_filling,
      tagCode_congr h, Attributes.code?_congr h, hchildren]
  | .text value, s, h => by
    simp only [Node.generate, Scope.under_target]
  | .code value buffer children, s, h => by
    simp only [Node.generate, Scope.under_target, children.generate_under s h]
  | .comment .., s, h => by
    simp only [Node.generate]
  | .conditional test consequent alternate, s, h => by
    simp only [Node.generate, consequent.generate_under s h, alternate.otherwise_under s h]
  | .branch .., s, h => by
    simp only [Node.generate]
  | .switch expr whens, s, h => by
    simp only [Node.generate, whens.clauses_under s h]
  | .each obj val key children alternate, s, h => by
    simp only [Node.generate, children.definitions_under s h, alternate.definitions_under s h,
      children.generate_under s h, alternate.whenEmpty_under s h]
  | .loop test children, s, h => by
    simp only [Node.generate, children.generate_under s h]
  | .mixin .., s, h => by
    simp only [Node.generate]
  | .call name args attributes children, s, h => by
    have hchildren := fun array => children.generate_under (s.filling array) h
    simp only [Node.generate, Scope.under_options, Scope.under_mixins, Scope.under_target,
      Scope.under_filling, Attributes.code?_congr h, children.definitions_under s h, hchildren]
  | .placeholder, s, h => by
    rw [Node.generate, Node.generate]
    rfl
  | .other _, s, h => by
    simp only [Node.generate]

theorem Content.generate_under {o : Options} :
    ∀ (c : Content) (s : Scope), s.options.SameCode o → c.generate (s.under o) = c.generate s
  | .node _, s, h | .datum _, s, h => by
    simp only [Content.generate]
  | .list items, s, h => by
    simp only [Content.generate, generateItems_under items s [] h]

theorem generateItems_under {o : Options} :
    ∀ (items : List Content) (s : Scope) (texts : List Datum), s.options.SameCode o →
      generateItems (s.under o) texts items = generateItems s texts items
  | [], s, texts, h => by
    simp only [generateItems, Scope.under_flush]
  | .node n :: rest, s, texts, h => by
    have hnode := n.generate_under s h
    have hrest := generateItems_under rest s [] h
    cases n with
    | text value => simp only [generateItems, generateItems_under rest s (texts ++ [value]) h]
    | _ => simp only [generateItems, Scope.under_flush, hnode, hrest]
  | .list _ :: rest, s, texts, h | .datum _ :: rest, s, texts, h => by
    simp only [generateItems, Scope.under_flush]

theorem Content.otherwise_under {o : Options} :
    ∀ (c : Content) (s : Scope), s.options.SameCode o → c.otherwise (s.under o) = c.otherwise s
  | .node (.conditional test consequent alternate), s, h => by
    simp only [Content.otherwise, consequent.generate_under s h, alternate.otherwise_under s h]
  | .node (.tag ..), s, h | .node (.text _), s, h | .node (.code ..), s, h
  | .node (.comment ..), s, h | .node (.branch ..), s, h | .node (.switch ..), s, h
  | .node (.each ..), s, h | .node (.loop ..), s, h | .node (.mixin ..), s, h
  | .node (.call ..), s, h | .node .placeholder, s, h | .node (.other _), s, h
  | .datum _, s, h => by
    simp only [Content.otherwise]
  | .list items, s, h => by
    simp only [Content.otherwise, generateItems_under items s [] h]

theorem Content.clauses_under {o : Options} :
    ∀ (c : Content) (s : Scope), s.options.SameCode o → c.clauses (s.under o) = c.clauses s
  | .node _, s, h | .datum _, s, h => by
    simp only [Content.clauses]
  | .list items, s, h => by
    simp only [Content.clauses, clausesOfItems_under items s h]

theorem clausesOfItems_under {o : Options} :
    ∀ (items : List Content) (s : Scope), s.options.SameCode o →
      clausesOfItems (s.under o) items = clausesOfItems s items
  | [], s, h => by
    simp only [clausesOfItems]
  | .node (.branch expr children) :: rest, s, h => by
    simp only [clausesOfItems, children.generate_under s h, clausesOfItems_under rest s h]
  | .node (.tag ..) :: _, s, h | .node (.text _) :: _, s, h | .node (.code ..) :: _, s, h
  | .node (.comment ..) :: _, s, h | .node (.conditional ..) :: _, s, h
  | .node (.switch ..) :: _, s, h | .node (.each ..) :: _, s, h | .node (.loop ..) :: _, s, h
  | .node (.mixin ..) :: _, s, h | .node (.call ..) :: _, s, h | .node .placeholder :: _, s, h
  | .node (.other _) :: _, s, h | .list _ :: _, s, h | .datum _ :: _, s, h => by
    simp only [clausesOfItems]

theorem Content.whenEmpty_under {o : Options} :
    ∀ (c : Content) (s : Scope), s.options.SameCode o → c.whenEmpty (s.under o) = c.whenEmpty s
  | .node _, s, h | .datum _, s, h => by
    simp only [Content.whenEmpty]
  | .list items, s, h => by
    simp only [Content.whenEmpty, generateItems_under items s [] h]

theorem Node.definitions_under {o : Options} :
    ∀ (n : Node) (s : Scope), s.options.SameCode o → n.definitions (s.under o) = n.definitions s
  | .tag _ _ children, s, h | .code _ _ children, s, h | .loop _ children, s, h
  | .branch _ children, s, h | .switch _ children, s, h => by
    simp only [Node.definitions, children.definitions_under s h]
  | .conditional _ consequent alternate, s, h => by
    simp only [Node.definitions, consequent.definitions_under s h,
      alternate.alternateDefinitions_under s h]
  | .mixin name params rest children, s, h => by
    have hchildren := fun array => children.generate_under (s.inMixin.filling array) h
    simp only [Node.definitions, Scope.under_inMixin, Scope.under_filling,
      children.definitions_under s.inMixin h, hchildren]
  | .text _, s, h | .comment .., s, h | .each .., s, h | .call .., s, h | .placeholder, s, h
  | .other _, s, h => by
    simp only [Node.definitions]

theorem Content.definitions_under {o : Options} :
    ∀ (c : Content) (s : Scope), s.options.SameCode o →
      c.definitions (s.under o) = c.definitions s
  | .node _, s, h | .datum _, s, h => by
    simp only [Content.definitions]
  | .list items, s, h => by
    simp only [Content.definitions, definitionsOfItems_under items s h]

theorem Content.alternateDefinitions_under {o : Options} :
    ∀ (c : Content) (s : Scope), s.options.SameCode o →
      c.alternateDefinitions (s.under o) = c.alternateDefinitions s
  | .node n, s, h => by
    simp only [Content.alternateDefinitions, n.definitions_under s h]
  | .datum _, s, h => by
    simp only [Content.alternateDefinitions]
  | .list items, s, h => by
    simp only [Content.alternateDefinitions, definitionsOfItems_under items s h]

theorem definitionsOfItems_under {o : Options} :
    ∀ (items : List Content) (s : Scope), s.options.SameCode o →
      definitionsOfItems (s.under o) items = definitionsOfItems s items
  | [], s, h => by
    simp only [definitionsOfItems]
  | .node n :: rest, s, h => by
    simp only [definitionsOfItems, n.definitions_under s h, definitionsOfItems_under rest s h]
  | .list _ :: rest, s, h | .datum _ :: rest, s, h => by
    simp only [definitionsOfItems, definitionsOfItems_under rest s h]

end

theorem program_under {o : Options} {s : Scope} (h : s.options.SameCode o) (c : Content) :
    Session.program (s.under o) c = Session.program s c := by
  have hbody := fun array => c.generate_under (s.filling array) h
  simp only [Session.program, Content.hoisted, Scope.under_options, Scope.under_filling,
    c.definitions_under s h, hbody, h.runtime]

/-! ## Rendered lines -/

/-- The text `pretty` is the text `compact` with some number of spaces, perhaps none, before each of
its lines. -/
def Indents (pretty compact : List Char) : Prop :=
  List.Forall₂ (fun line bare => ∃ k, line = List.replicate k ' ' ++ bare)
    (pretty.splitOn '\n') (compact.splitOn '\n')

theorem indents_refl (text : List Char) : Indents text text :=
  List.forall₂_same.2 fun _ _ => ⟨0, rfl⟩

theorem splitOn_append_lineFeed (first rest : List Char) :
    (first ++ '\n' :: rest).splitOn '\n' = first.splitOn '\n' ++ rest.splitOn '\n' :=
  List.splitOnP_append_cons first rest (by decide)

/-- What follows a line feed is indented by itself. -/
theorem Indents.append {pretty compact pretty' compact' : List Char} (h : Indents pretty compact)
    (h' : Indents pretty' compact') :
    Indents (pretty ++ '\n' :: pretty') (compact ++ '\n' :: compact') := by
  unfold Indents
  rw [splitOn_append_lineFeed, splitOn_append_lineFeed]
  exact List.rel_append h h'

/-- Spaces at the start of a text stand before its first line. -/
theorem splitOn_spaces_append (k : Nat) (text : List Char) :
    (List.replicate k ' ' ++ text).splitOn '\n' =
      (text.splitOn '\n').modifyHead (List.replicate k ' ' ++ ·) := by
  induction k with
  | zero =>
    show text.splitOn '\n' = (text.splitOn '\n').modifyHead fun line => line
    cases text.splitOn '\n' <;> rfl
  | succ k ih =>
    have hspace : ∀ rest : List Char,
        (' ' :: rest).splitOn '\n' = (rest.splitOn '\n').modifyHead (' ' :: ·) := fun rest => by
      rw [List.splitOn, List.splitOnP_cons_eq_if_modifyHead, if_neg (by decide)]
      rfl
    rw [List.replicate_succ, List.cons_append, hspace, ih, List.modifyHead_modifyHead]
    rfl

theorem indents_spaces_append (k : Nat) (text : List Char) :
    Indents (List.replicate k ' ' ++ text) text := by
  unfold Indents
  rw [splitOn_spaces_append]
  cases text.splitOn '\n' with
  | nil => exact .nil
  | cons first others => exact .cons ⟨k, rfl⟩ (List.forall₂_same.2 fun _ _ => ⟨0, rfl⟩)

/-- Only the first line of a piece of code that holds line feeds is indented. -/
theorem indents_renderAll (lines : List Line) :
    Indents (Line.renderAll true lines).toList (Line.renderAll false lines).toList := by
  have hcons : ∀ (pretty : Bool) (line : Line) (rest : List Line),
      (Line.renderAll pretty (line :: rest)).toList =
        (Nesting.margin pretty line.indent ++ line.code.toList) ++
          '\n' :: (Line.renderAll pretty rest).toList := by
    intro pretty line rest
    rw [Line.renderAll, List.map_cons, String.join_cons, String.toList_append,
      Nesting.toList_render, List.append_assoc, List.singleton_append]
    rfl
  induction lines with
  | nil => exact indents_refl _
  | cons line rest ih =>
    rw [hcons, hcons]
    exact (indents_spaces_append line.indent.toNat line.code.toList).append ih

/-! ## Compilation -/

theorem scriptOf_congr {o p : Options} (h : o.SameCode p) (c : Content) :
    scriptOf o c = scriptOf p c := by
  have hprogram : ∀ (mixins : Registry) (top : List Content),
      Session.program ⟨p, mixins, none, 0⟩ (.list top) =
        Session.program ⟨o, mixins, none, 0⟩ (.list top) := fun mixins top =>
    program_under (s := ⟨o, mixins, none, 0⟩) h (.list top)
  simp only [scriptOf, hprogram]

/-- Indentation only puts spaces before lines.  Without a formatter, a template gives the same fault
whether the script is to be indented or not, or else two scripts of which the one is the other with
each line, as line feeds divide them, behind some number of spaces. -/
theorem compile_indents (options : Options) (hformat : options.formatter = .absent) (c : Content) :
    (∃ f, compile { options with pretty := .bool true } c = .error f ∧
      compile { options with pretty := .bool false } c = .error f) ∨
    ∃ pretty compact, compile { options with pretty := .bool true } c = .ok pretty ∧
      compile { options with pretty := .bool false } c = .ok compact ∧
      Indents pretty.script.toList compact.script.toList ∧ pretty.mixins = compact.mixins := by
  have hsame : Options.SameCode { options with pretty := .bool true }
      { options with pretty := .bool false } := ⟨rfl, rfl, rfl⟩
  rw [compile_eq_map_scriptOf (by exact hformat), compile_eq_map_scriptOf (by exact hformat),
    scriptOf_congr hsame]
  cases scriptOf { options with pretty := .bool false } c with
  | error f => exact .inl ⟨f, rfl, rfl⟩
  | ok result => exact .inr ⟨_, _, rfl, rfl, indents_renderAll (result.1.lines 0), rfl⟩

/-- Line feeds in the name of a mixin, in a test and in code that is passed on. -/
def brokenTemplate : List Content :=
  [.node (.mixin (.str "two\nlines") (.list []) .null (.list [
      .node (.conditional (.str "a\n  && b") (.list [.node .placeholder]) (.datum .null))])),
    .node (.tag (.str "p") {} (.list [
      .node (.code (.str "\nvar a,\n\n    b\n") (.bool false) (.datum .null)),
      .node (.call (.str "two\nlines") (.str "") {} (.list [.node (.text (.str "x\ny"))]))]))]

theorem compile_brokenTemplate_indents :
    ({} : Options).formatter = .absent ∧
      ∃ pretty compact, compile { pretty := .bool true } (.list brokenTemplate) = .ok pretty ∧
        compile { pretty := .bool false } (.list brokenTemplate) = .ok compact ∧
        Indents pretty.script.toList compact.script.toList := by
  have hcompile : ∃ c, compile { pretty := .bool true } (.list brokenTemplate) = .ok c :=
    exists_compiled_of_scriptOf rfl ⟨_, rfl⟩
  refine ⟨rfl, ?_⟩
  rcases compile_indents {} rfl (.list brokenTemplate) with
    ⟨f, hf, -⟩ | ⟨pretty, compact, hpretty, hcompact, h, -⟩
  · obtain ⟨c, hc⟩ := hcompile
    rw [hf] at hc
    cases hc
  · exact ⟨pretty, compact, hpretty, hcompact, h⟩

end Hyperscript
