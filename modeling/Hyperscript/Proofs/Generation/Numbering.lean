import Hyperscript.Proofs.Script.Pieces
import Hyperscript.Proofs.Tree.Shape
import Hyperscript.Generate

/-!
# Generation at any numbering

Generation takes fresh arrays from a supply.  The number with which the supply starts has no part in
what is generated: it decides neither whether there is a fault nor which, nor how many arrays are
taken, and the statements for two starts differ in the numbers of those arrays only.

`Generation.Uniform` says so of generation that is given for every start, and the main statements
are `Node.uniform_generate`, `Node.uniform_definitions` and their companions, one for each function
of the generator.  On the way they keep account of the one fault that comes from outside a template,
that no array is being filled: definitions of mixins never end in it.
-/

namespace Hyperscript

/-! ## Steps that need no array -/

/-- Whatever the outcome of a step, it does not miss an array to fill. -/
abbrev Stackless {α : Type} : Except Fault α → Prop :=
  Meets (fun _ => True) (· ≠ .noParent)

section Steps

variable {options : Options}

theorem stackless_text (d : Datum) : Stackless d.text := by
  cases d with
  | str => trivial
  | _ => exact Fault.noConfusion

theorem stackless_searchable (d : Datum) : Stackless d.searchable := by
  cases d with
  | str => trivial
  | _ => exact Fault.noConfusion

theorem stackless_checkKey (d : Datum) : Stackless d.checkKey := by
  cases d with
  | list | map => exact Fault.noConfusion
  | _ => trivial

theorem stackless_items (d : Datum) : Stackless d.items := by
  cases d with
  | list | map | str => trivial
  | _ => exact Fault.noConfusion

theorem stackless_written {α : Type} (form : Datum → α) (d : Datum) :
    Stackless (d.written form) := by
  unfold Datum.written
  split
  · trivial
  · exact Fault.noConfusion

theorem stackless_tagCode (name : Datum) : Stackless (tagCode options name) := by
  unfold tagCode
  split
  · refine (stackless_searchable name).bind fun text _ => ?_
    split
    · trivial
    · exact stackless_written _ name
  · exact stackless_written _ name

theorem Attribute.stackless_property (a : Attribute) : Stackless (a.property options) := by
  have hvalue : Stackless a.valueCode := by
    unfold Attribute.valueCode
    split
    · trivial
    · trivial
    · exact (stackless_written _ a.name).bind fun _ _ =>
        (stackless_written _ a.value).bind fun _ _ => Fault.noConfusion
  have hplain : ∀ value, Stackless (Attribute.plainProperty a.name value) := by
    intro value
    unfold Attribute.plainProperty
    refine (stackless_checkKey a.name).bind fun _ _ => ?_
    split
    · trivial
    · exact (stackless_written _ a.name).bind fun _ _ => trivial
  unfold Attribute.property
  refine hvalue.bind fun value _ => ?_
  split
  · refine (stackless_text a.name).bind fun name _ => ?_
    split
    · trivial
    · exact hplain value
  · exact hplain value

theorem Attributes.stackless_code? (a : Attributes) : Stackless (a.code? options) := by
  have hitems : Stackless a.entries.items := by
    cases a.entries with
    | list => trivial
    | datum d => exact (stackless_items d).bind fun _ _ => trivial
  have hobject : Stackless (a.entries.object options) := by
    refine hitems.bind fun entries _ => ?_
    refine Meets.bind (P := fun _ => True) ?_ fun _ _ => trivial
    refine (meets_mapM (R := fun _ => True) fun e _ => ?_).imp (fun _ _ => trivial) fun _ hf => hf
    cases e with
    | attr a => exact a.stackless_property
    | datum => exact Fault.noConfusion
  unfold Attributes.code?
  split
  · trivial
  · refine hobject.bind fun object _ => ?_
    split
    · trivial
    · refine (stackless_items a.blocks).bind fun blocks _ => ?_
      exact (meets_mapM (R := fun _ => True) fun d _ => stackless_written _ d).bind fun _ _ =>
        trivial

theorem Registry.stackless_lookup (r : Registry) (name : Datum) : Stackless (r.lookup name) := by
  unfold Registry.lookup
  refine (stackless_checkKey name).bind fun _ _ => ?_
  split
  · trivial
  · exact (stackless_written _ name).bind fun _ _ => Fault.noConfusion

theorem stackless_ofDatum (d : Datum) : Stackless (Interpolation.ofDatum d) :=
  (stackless_searchable d).bind fun _ _ => trivial

theorem stackless_ofRun (texts : List Datum) : Stackless (Interpolation.ofRun texts) :=
  (meets_mapM (R := fun _ => True) fun d _ => stackless_searchable d).bind fun _ _ => trivial

theorem stackless_refuseItems (d : Datum) : Stackless (refuseItems d) := by
  refine (stackless_items d).bind fun items _ => ?_
  cases items with
  | nil => trivial
  | cons => exact Fault.noConfusion

theorem stackless_refuseBranches (d : Datum) : Stackless (refuseBranches d) := by
  refine (stackless_items d).bind fun items _ => ?_
  cases items with
  | nil => trivial
  | cons => exact Fault.noConfusion

theorem Mixin.stackless_joinTexts (position : Nat) (items : List Datum) :
    Stackless (joinTexts position items) := by
  fun_induction joinTexts position items with
  | case1 => trivial
  | case2 position s rest ih => exact ih.bind fun _ _ => trivial
  | case3 => exact Fault.noConfusion

theorem Mixin.stackless_paramList (params : Datum) : Stackless (paramList params) := by
  unfold paramList
  split
  · exact Fault.noConfusion
  · exact (stackless_joinTexts 0 _).bind fun _ _ => trivial

theorem stackless_eachScope (children alternate : Content) :
    Stackless (eachScope children alternate) := by
  unfold eachScope Content.append
  split
  · trivial
  · trivial
  · exact Fault.noConfusion

end Steps

section Walks

variable (enter : Node → Bool)

mutual

theorem Node.stackless_descendants : ∀ n : Node, Stackless (n.descendants enter)
  | .tag _ _ children | .loop _ children | .mixin _ _ _ children => by
    rw [Node.descendants]
    exact children.stackless_walkWhere
  | .each _ _ _ children alternate => by
    rw [Node.descendants]
    exact children.stackless_walkWhere.bind fun _ _ =>
      alternate.stackless_walkUnlessNull.bind fun _ _ => trivial
  | .code _ _ children | .call _ _ _ children | .branch _ children => by
    rw [Node.descendants]
    exact children.stackless_walkUnlessNull
  | .conditional _ consequent alternate => by
    rw [Node.descendants]
    exact consequent.stackless_walkWhere.bind fun _ _ =>
      alternate.stackless_walkAlternate.bind fun _ _ => trivial
  | .switch _ whens => by
    rw [Node.descendants]
    exact whens.stackless_walkWhere
  | .text _ | .comment .. | .placeholder | .other _ => by
    rw [Node.descendants]
    trivial

theorem Content.stackless_walkWhere : ∀ c : Content, Stackless (c.walkWhere enter)
  | .node n => by
    rw [Content.walkWhere]
    exact Fault.noConfusion
  | .list items => by
    rw [Content.walkWhere]
    exact stackless_walkItems items
  | .datum d => by
    rw [Content.walkWhere]
    exact (stackless_items d).bind fun _ _ => trivial

theorem Content.stackless_walkUnlessNull : ∀ c : Content, Stackless (c.walkUnlessNull enter)
  | .node n => by
    rw [Content.walkUnlessNull]
    exact Fault.noConfusion
  | .list items => by
    rw [Content.walkUnlessNull]
    exact stackless_walkItems items
  | .datum d => by
    rw [Content.walkUnlessNull]
    split
    · trivial
    · exact (stackless_items d).bind fun _ _ => trivial

theorem Content.stackless_walkAlternate : ∀ c : Content, Stackless (c.walkAlternate enter)
  | .node n => by
    have hn := n.stackless_descendants
    rw [Content.walkAlternate]
    split
    · split
      · exact hn.bind fun _ _ => trivial
      · trivial
    · trivial
  | .list items => by
    rw [Content.walkAlternate]
    exact stackless_walkItems items
  | .datum d => by
    cases d <;> exact trivial

theorem stackless_walkItems : ∀ items : List Content, Stackless (walkItems enter items)
  | [] => by
    rw [walkItems]
    trivial
  | .node n :: rest => by
    have hn := n.stackless_descendants
    rw [walkItems]
    split
    · exact hn.bind fun _ _ => (stackless_walkItems rest).bind fun _ _ => trivial
    · exact (stackless_walkItems rest).bind fun _ _ => trivial
  | .list _ :: rest | .datum _ :: rest => by
    rw [walkItems]
    · exact (stackless_walkItems rest).bind fun _ _ => trivial
    · exact fun _ h => Content.noConfusion h

end

end Walks

theorem Content.stackless_scopeDeclarations (c : Content) : Stackless c.scopeDeclarations :=
  (c.stackless_walkWhere _).bind fun _ _ => trivial

/-! ## The array being filled -/

namespace Scope

/-- The scope with another array to fill, or with none. -/
def facing (s : Scope) (parent : Option ArrayName) : Scope :=
  { s with parent }

variable (s : Scope) (parent other : Option ArrayName)

@[simp] theorem facing_options : (s.facing parent).options = s.options := rfl

@[simp] theorem facing_mixins : (s.facing parent).mixins = s.mixins := rfl

@[simp] theorem facing_depth : (s.facing parent).depth = s.depth := rfl

@[simp] theorem facing_facing : (s.facing parent).facing other = s.facing other := rfl

@[simp] theorem facing_inMixin : (s.facing parent).inMixin = s.inMixin.facing parent := rfl

theorem filling_eq_facing (array : ArrayName) : s.filling array = s.facing (some array) := rfl

end Scope

mutual

/-- Definitions fill arrays of their own: the one being filled around them has no part in them. -/
theorem Node.definitions_facing : ∀ (n : Node) (s : Scope) (parent : Option ArrayName),
    n.definitions (s.facing parent) = n.definitions s
  | .tag _ _ children, s, parent | .code _ _ children, s, parent | .loop _ children, s, parent
  | .branch _ children, s, parent | .switch _ children, s, parent => by
    simp only [Node.definitions]
    exact children.definitions_facing s parent
  | .conditional _ consequent alternate, s, parent => by
    simp only [Node.definitions, consequent.definitions_facing s parent,
      alternate.alternateDefinitions_facing s parent]
  | .mixin _ _ _ children, s, parent => by
    simp only [Node.definitions, Scope.facing_inMixin, Scope.filling_eq_facing,
      Scope.facing_facing, children.definitions_facing s.inMixin parent]
  | .text _, s, parent | .comment .., s, parent | .each .., s, parent | .call .., s, parent
  | .placeholder, s, parent | .other _, s, parent => by
    simp only [Node.definitions]

theorem Content.definitions_facing : ∀ (c : Content) (s : Scope) (parent : Option ArrayName),
    c.definitions (s.facing parent) = c.definitions s
  | .list items, s, parent => by
    simp only [Content.definitions]
    exact definitionsOfItems_facing items s parent
  | .node _, s, parent | .datum _, s, parent => by
    simp only [Content.definitions]

theorem Content.alternateDefinitions_facing : ∀ (c : Content) (s : Scope)
    (parent : Option ArrayName), c.alternateDefinitions (s.facing parent) = c.alternateDefinitions s
  | .node n, s, parent => by
    simp only [Content.alternateDefinitions, n.definitions_facing s parent]
  | .list items, s, parent => by
    simp only [Content.alternateDefinitions]
    exact definitionsOfItems_facing items s parent
  | .datum _, s, parent => by
    simp only [Content.alternateDefinitions]

theorem definitionsOfItems_facing : ∀ (items : List Content) (s : Scope)
    (parent : Option ArrayName), definitionsOfItems (s.facing parent) items =
      definitionsOfItems s items
  | [], s, parent => by
    simp only [definitionsOfItems]
  | .node n :: rest, s, parent => by
    simp only [definitionsOfItems, n.definitions_facing s parent,
      definitionsOfItems_facing rest s parent]
  | .list _ :: rest, s, parent | .datum _ :: rest, s, parent => by
    simp only [definitionsOfItems]
    exact definitionsOfItems_facing rest s parent

end

/-! ## Uniform generation -/

/-- An array to fill for every start, or none for any; then something is missing. -/
inductive Fills (missing : Prop) : (Nat → Option ArrayName) → Prop where
  | none : missing → Fills missing fun _ => none
  | some {array : Nat → ArrayName} : ArrayRelocatable array →
      Fills missing fun start => some (array start)

namespace Generation

/-- Generation that is given for every start of the supply, after some arrays have been taken from
it.  It ends in the same fault for every start, or it takes the same number of arrays for every
start and `R` holds of what it gives.  That there is no array to fill can be the fault only if one
is `missing`. -/
def Uniform (missing : Prop) {α : Type} (R : (Nat → α) → Prop) (taken : Nat)
    (g : Nat → Generation α) : Prop :=
  (∃ f, (f = .noParent → missing) ∧ ∀ start, (g start).run (start + taken) = .error f) ∨
    ∃ a used, R a ∧ ∀ start, (g start).run (start + taken) = .ok (a start, start + used)

variable {missing : Prop} {α β : Type} {R : (Nat → α) → Prop} {R' : (Nat → β) → Prop}
  {taken : Nat}

theorem uniform_pure {a : Nat → α} (ha : R a) :
    Uniform missing R taken fun start => pure (a start) :=
  .inr ⟨a, taken, ha, fun _ => rfl⟩

theorem uniform_throw {f : Fault} (hf : f ≠ .noParent) :
    Uniform missing R taken fun _ => throw f :=
  .inl ⟨f, fun h => absurd h hf, fun _ => rfl⟩

theorem Uniform.bind {g : Nat → Generation α} {k : Nat → α → Generation β}
    (hg : Uniform missing R taken g)
    (hk : ∀ a used, R a → Uniform missing R' used fun start => k start (a start)) :
    Uniform missing R' taken fun start => g start >>= k start := by
  rcases hg with ⟨f, hf, hrun⟩ | ⟨a, used, ha, hrun⟩
  · exact .inl ⟨f, hf, fun start => by rw [StateT.run_bind, hrun]; rfl⟩
  · -- the second part starts where the first one has left the supply
    have hbind : ∀ start, (g start >>= k start).run (start + taken) =
        (k start (a start)).run (start + used) := by
      intro start
      rw [StateT.run_bind, hrun]
      rfl
    simp only [Uniform, hbind]
    exact hk a used ha

theorem uniform_bind_lift {e : Except Fault α} (he : Stackless e)
    {k : Nat → α → Generation β} (hk : ∀ a, Uniform missing R' taken fun start => k start a) :
    Uniform missing R' taken fun start => liftM e >>= k start := by
  cases e with
  | error f => exact .inl ⟨f, fun h => absurd h he, fun _ => rfl⟩
  | ok a => exact hk a

theorem uniform_bind_fresh {k : Nat → ArrayName → Generation β}
    (hk : Uniform missing R' (taken + 1) fun start => k start (.fresh (start + taken))) :
    Uniform missing R' taken fun start => fresh >>= k start :=
  hk

theorem uniform_bind_target {parent : Nat → Option ArrayName} (hparent : Fills missing parent)
    {s : Scope} {k : Nat → ArrayName → Generation β}
    (hk : ∀ array, ArrayRelocatable array → Uniform missing R' taken fun start =>
      k start (array start)) :
    Uniform missing R' taken fun start => liftM (s.facing (parent start)).target >>= k start := by
  cases hparent with
  | none h => exact .inl ⟨.noParent, fun _ => h, fun _ => rfl⟩
  | some harray => exact hk _ harray

end Generation

open Generation

section Uniform

variable {missing : Prop} {parent : Nat → Option ArrayName}

theorem uniform_flush (hparent : Fills missing parent) (s : Scope) (texts : List Datum)
    (taken : Nat) :
    Uniform missing StmtsRelocatable taken fun start =>
      liftM ((s.facing (parent start)).flush texts) := by
  unfold Scope.flush
  by_cases h : texts.isEmpty
  · simp only [h, if_true]
    exact uniform_pure stmtsRelocatable_nil
  · simp only [h]
    have hrun := stackless_ofRun texts
    cases hparent with
    | none hmissing => exact .inl ⟨.noParent, fun _ => hmissing, fun _ => rfl⟩
    | some harray =>
      cases htext : Interpolation.ofRun texts with
      | error f =>
        rw [htext] at hrun
        exact .inl ⟨f, fun hf => absurd hf hrun, fun _ => rfl⟩
      | ok text => exact uniform_pure (stmtsRelocatable_push harray (.text text))

-- One statement for each function of the generator, by recursion on the tree.  The scopes for two
-- starts have the same array to fill if the code stands in the array that was there from the start,
-- and two arrays with the same place in the supply if it stands in one that has been taken since.

mutual

theorem Node.uniform_generate : ∀ (n : Node) {parent : Nat → Option ArrayName},
    Fills missing parent → ∀ (s : Scope) (taken : Nat),
    Uniform missing StmtsRelocatable taken fun start => n.generate (s.facing (parent start))
  | .tag name attributes children, parent, hparent, s, taken => by
    simp only [Node.generate, Scope.facing_options]
    refine uniform_bind_lift (stackless_tagCode name) fun tag => ?_
    refine uniform_bind_lift attributes.stackless_code? fun properties => ?_
    by_cases h : children.isTrue
    · simp only [h, if_true]
      refine uniform_bind_fresh ?_
      -- the children fill the array that has just been taken
      have harray := relocatable_fresh taken
      refine (children.uniform_generate (.some harray) s (taken + 1)).bind fun body used hb => ?_
      exact uniform_bind_target hparent fun target ht =>
        uniform_pure (stmtsRelocatable_element ht harray tag properties hb)
    · simp only [h]
      exact uniform_bind_target hparent fun target ht =>
        uniform_pure (stmtsRelocatable_push ht _)
  | .text value, parent, hparent, s, taken => by
    simp only [Node.generate]
    refine uniform_bind_target hparent fun target ht => ?_
    refine uniform_bind_lift (stackless_ofDatum value) fun text => ?_
    exact uniform_pure (stmtsRelocatable_push ht _)
  | .code value buffer children, parent, hparent, s, taken => by
    simp only [Node.generate]
    by_cases hb : buffer.isTrue
    · simp only [hb, if_true]
      refine uniform_bind_target hparent fun target ht => ?_
      refine uniform_bind_lift (stackless_written _ value) fun expr => ?_
      by_cases hc : children.isTrue
      · simp only [hc, if_true]
        refine (children.uniform_generate hparent s taken).bind fun rest used hr => ?_
        exact uniform_pure ((stmtsRelocatable_push ht _).append hr)
      · simp only [hc]
        exact uniform_pure (stmtsRelocatable_push ht _)
    · by_cases hc : children.isNull
      · simp only [hb, hc, if_true]
        exact uniform_bind_lift (stackless_text value) fun code =>
          uniform_pure (stmtsRelocatable_splice code)
      · simp only [hb, hc]
        refine uniform_bind_lift (stackless_written _ value) fun header => ?_
        refine (children.uniform_generate hparent s taken).bind fun body used hbody => ?_
        exact uniform_pure (stmtsRelocatable_codeBlock _ hbody)
  | .comment .., parent, hparent, s, taken => by
    simp only [Node.generate]
    exact uniform_pure stmtsRelocatable_nil
  | .conditional test consequent alternate, parent, hparent, s, taken => by
    simp only [Node.generate]
    refine uniform_bind_lift (stackless_written _ test) fun test => ?_
    refine (consequent.uniform_generate hparent s taken).bind fun body used hb => ?_
    refine (alternate.uniform_otherwise hparent s used).bind fun otherwise used ho => ?_
    exact uniform_pure (stmtsRelocatable_cond _ hb ho)
  | .switch expr whens, parent, hparent, s, taken => by
    simp only [Node.generate]
    refine uniform_bind_lift (stackless_written _ expr) fun expr => ?_
    refine (whens.uniform_clauses hparent s taken).bind fun clauses used hc => ?_
    exact uniform_pure (stmtsRelocatable_switch _ hc)
  | .each obj val key children alternate, parent, hparent, s, taken => by
    simp only [Node.generate, Content.definitions_facing]
    refine uniform_bind_lift (stackless_written _ obj) fun obj => ?_
    refine uniform_bind_lift (stackless_eachScope children alternate) fun scope => ?_
    refine uniform_bind_lift scope.stackless_scopeDeclarations fun _ => ?_
    refine (children.uniform_definitions s taken).bind fun defs used hd => ?_
    refine (alternate.uniform_definitions s used).bind fun others used hd' => ?_
    refine uniform_bind_lift (stackless_written _ key) fun key => ?_
    refine uniform_bind_lift (stackless_written _ val) fun val => ?_
    refine (children.uniform_generate hparent s used).bind fun arrayBody used ha => ?_
    refine (alternate.uniform_whenEmpty hparent s used).bind fun arrayRest used har => ?_
    -- both once more, with the arrays that come next
    refine (children.uniform_generate hparent s used).bind fun objectBody used ho => ?_
    refine (alternate.uniform_whenEmpty hparent s used).bind fun objectRest used hor => ?_
    exact uniform_pure (stmtsRelocatable_each _ _ _ (hd.append hd') ha har ho hor)
  | .loop test children, parent, hparent, s, taken => by
    simp only [Node.generate]
    refine uniform_bind_lift (stackless_written _ test) fun test => ?_
    refine (children.uniform_generate hparent s taken).bind fun body used hb => ?_
    exact uniform_pure (stmtsRelocatable_loop _ hb)
  | .mixin .., parent, hparent, s, taken => by
    simp only [Node.generate]
    exact uniform_pure stmtsRelocatable_nil
  | .call name args attributes children, parent, hparent, s, taken => by
    simp only [Node.generate, Scope.facing_options, Scope.facing_mixins,
      Content.definitions_facing]
    refine uniform_bind_lift (s.mixins.stackless_lookup name) fun _ => ?_
    refine uniform_bind_target hparent fun target ht => ?_
    refine uniform_bind_lift attributes.stackless_code? fun properties => ?_
    refine uniform_bind_lift (stackless_text args) fun args => ?_
    refine uniform_bind_lift (stackless_text name) fun mixin => ?_
    by_cases h : children.isNull
    · simp only [h, if_true]
      exact uniform_pure (stmtsRelocatable_call ht mixin properties _)
    · simp only [h]
      refine uniform_bind_fresh ?_
      have harray := relocatable_fresh taken
      refine uniform_bind_lift children.stackless_scopeDeclarations fun _ => ?_
      refine (children.uniform_definitions s (taken + 1)).bind fun defs used hd => ?_
      refine (children.uniform_generate (.some harray) s used).bind fun body used hb => ?_
      exact uniform_pure (stmtsRelocatable_callWith ht mixin properties _ hd harray hb)
  | .placeholder, parent, hparent, s, taken => by
    simp only [Node.generate, Scope.facing_depth]
    by_cases h : s.depth = 0
    · simp only [h, if_true]
      exact uniform_throw Fault.noConfusion
    · simp only [h]
      exact uniform_bind_target hparent fun target ht =>
        uniform_pure (stmtsRelocatable_insertBlock ht)
  | .branch .., parent, hparent, s, taken | .other _, parent, hparent, s, taken => by
    simp only [Node.generate]
    exact uniform_throw Fault.noConfusion

theorem Content.uniform_generate : ∀ (c : Content) {parent : Nat → Option ArrayName},
    Fills missing parent → ∀ (s : Scope) (taken : Nat),
    Uniform missing StmtsRelocatable taken fun start => c.generate (s.facing (parent start))
  | .node n, parent, hparent, s, taken => by
    simp only [Content.generate]
    exact uniform_throw Fault.noConfusion
  | .list items, parent, hparent, s, taken => by
    simp only [Content.generate]
    exact uniform_generateItems items [] hparent s taken
  | .datum d, parent, hparent, s, taken => by
    simp only [Content.generate]
    exact uniform_bind_lift (stackless_refuseItems d) fun _ => uniform_pure stmtsRelocatable_nil

theorem uniform_generateItems : ∀ (items : List Content) (texts : List Datum)
    {parent : Nat → Option ArrayName}, Fills missing parent → ∀ (s : Scope) (taken : Nat),
    Uniform missing StmtsRelocatable taken fun start =>
      generateItems (s.facing (parent start)) texts items
  | [], texts, parent, hparent, s, taken => by
    simp only [generateItems]
    exact uniform_flush hparent s texts taken
  | .node n :: rest, texts, parent, hparent, s, taken => by
    have hnode := n.uniform_generate hparent s
    have hrest := uniform_generateItems rest [] hparent s
    cases n with
    | text value =>
      simp only [generateItems]
      exact uniform_generateItems rest (texts ++ [value]) hparent s taken
    | _ =>
      simp only [generateItems]
      exact (uniform_flush hparent s texts taken).bind fun before used hbefore =>
        (hnode used).bind fun stmts used hstmts => (hrest used).bind fun others used hothers =>
        uniform_pure ((hbefore.append hstmts).append hothers)
  | .list _ :: _, texts, parent, hparent, s, taken
  | .datum _ :: _, texts, parent, hparent, s, taken => by
    simp only [generateItems]
    exact (uniform_flush hparent s texts taken).bind fun _ used _ =>
      uniform_throw Fault.noConfusion

theorem Content.uniform_otherwise : ∀ (c : Content) {parent : Nat → Option ArrayName},
    Fills missing parent → ∀ (s : Scope) (taken : Nat),
    Uniform missing OtherwiseRelocatable taken fun start => c.otherwise (s.facing (parent start))
  | .node n, parent, hparent, s, taken => by
    cases n with
    | conditional test consequent alternate =>
      simp only [Content.otherwise]
      refine uniform_bind_lift (stackless_written _ test) fun test => ?_
      refine (consequent.uniform_generate hparent s taken).bind fun body used hb => ?_
      refine (alternate.uniform_otherwise hparent s used).bind fun otherwise used ho => ?_
      exact uniform_pure (otherwiseRelocatable_elseIf _ hb ho)
    | _ =>
      simp only [Content.otherwise]
      exact uniform_throw Fault.noConfusion
  | .list items, parent, hparent, s, taken => by
    simp only [Content.otherwise]
    by_cases h : items.isEmpty
    · simp only [h, if_true]
      exact uniform_pure otherwiseRelocatable_done
    · simp only [h]
      refine (uniform_generateItems items [] hparent s taken).bind fun body used hb => ?_
      exact uniform_pure (otherwiseRelocatable_body hb)
  | .datum d, parent, hparent, s, taken => by
    simp only [Content.otherwise]
    by_cases h : d.isTrue
    · simp only [h, if_true]
      exact uniform_bind_lift (stackless_refuseItems d) fun _ =>
        uniform_pure (otherwiseRelocatable_body stmtsRelocatable_nil)
    · simp only [h]
      exact uniform_pure otherwiseRelocatable_done

theorem Content.uniform_clauses : ∀ (c : Content) {parent : Nat → Option ArrayName},
    Fills missing parent → ∀ (s : Scope) (taken : Nat),
    Uniform missing ClausesRelocatable taken fun start => c.clauses (s.facing (parent start))
  | .node n, parent, hparent, s, taken => by
    simp only [Content.clauses]
    exact uniform_throw Fault.noConfusion
  | .list items, parent, hparent, s, taken => by
    simp only [Content.clauses]
    exact uniform_clausesOfItems items hparent s taken
  | .datum d, parent, hparent, s, taken => by
    simp only [Content.clauses]
    exact uniform_bind_lift (stackless_refuseBranches d) fun _ =>
      uniform_pure clausesRelocatable_nil

theorem uniform_clausesOfItems : ∀ (items : List Content) {parent : Nat → Option ArrayName},
    Fills missing parent → ∀ (s : Scope) (taken : Nat),
    Uniform missing ClausesRelocatable taken fun start =>
      clausesOfItems (s.facing (parent start)) items
  | [], parent, hparent, s, taken => by
    simp only [clausesOfItems]
    exact uniform_pure clausesRelocatable_nil
  | .node n :: rest, parent, hparent, s, taken => by
    have hrest := uniform_clausesOfItems rest hparent s
    cases n with
    | branch expr children =>
      simp only [clausesOfItems]
      refine uniform_bind_lift (stackless_written _ expr) fun label => ?_
      by_cases h : children.isNull
      · simp only [h, if_true, pure_bind]
        exact (hrest taken).bind fun clauses used hc =>
          uniform_pure (clausesRelocatable_fallThrough _ hc)
      · simp only [h, pure_bind]
        exact (children.uniform_generate hparent s taken).bind fun body used hb =>
          (hrest used).bind fun clauses used hc =>
          uniform_pure (clausesRelocatable_body _ hb hc)
    | _ =>
      simp only [clausesOfItems]
      exact uniform_throw Fault.noConfusion
  | .list _ :: _, parent, hparent, s, taken | .datum _ :: _, parent, hparent, s, taken => by
    simp only [clausesOfItems]
    exact uniform_throw Fault.noConfusion

theorem Content.uniform_whenEmpty : ∀ (c : Content) {parent : Nat → Option ArrayName},
    Fills missing parent → ∀ (s : Scope) (taken : Nat),
    Uniform missing StmtsRelocatable taken fun start => c.whenEmpty (s.facing (parent start))
  | .node n, parent, hparent, s, taken => by
    simp only [Content.whenEmpty]
    exact uniform_throw Fault.noConfusion
  | .list items, parent, hparent, s, taken => by
    simp only [Content.whenEmpty]
    refine (uniform_generateItems items [] hparent s taken).bind fun body used hb => ?_
    exact uniform_pure (stmtsRelocatable_cond _ hb otherwiseRelocatable_done)
  | .datum d, parent, hparent, s, taken => by
    simp only [Content.whenEmpty]
    by_cases h : d.isNull
    · simp only [h, if_true]
      exact uniform_pure stmtsRelocatable_nil
    · simp only [h]
      exact uniform_bind_lift (stackless_refuseItems d) fun _ => uniform_pure
        (stmtsRelocatable_cond _ stmtsRelocatable_nil otherwiseRelocatable_done)

theorem Node.uniform_definitions : ∀ (n : Node) (s : Scope) (taken : Nat),
    Uniform missing StmtsRelocatable taken fun _ => n.definitions s
  | .tag _ _ children, s, taken | .code _ _ children, s, taken | .loop _ children, s, taken
  | .branch _ children, s, taken | .switch _ children, s, taken => by
    simp only [Node.definitions]
    exact children.uniform_definitions s taken
  | .conditional _ consequent alternate, s, taken => by
    simp only [Node.definitions]
    exact (consequent.uniform_definitions s taken).bind fun defs used hd =>
      (alternate.uniform_alternateDefinitions s used).bind fun others used hd' =>
      uniform_pure (hd.append hd')
  | .mixin name params rest children, s, taken => by
    simp only [Node.definitions]
    refine uniform_bind_lift (Mixin.stackless_paramList params) fun params => ?_
    refine uniform_bind_lift (stackless_text name) fun mixin => ?_
    refine uniform_bind_lift (stackless_written _ rest) fun rest => ?_
    refine uniform_bind_fresh ?_
    have harray := relocatable_fresh taken
    refine uniform_bind_lift children.stackless_scopeDeclarations fun _ => ?_
    refine (children.uniform_definitions s.inMixin (taken + 1)).bind fun defs used hd => ?_
    refine (children.uniform_generate (.some harray) s.inMixin used).bind fun body used hb => ?_
    exact uniform_pure (stmtsRelocatable_define mixin params.1 _ hd harray hb)
  | .text _, s, taken | .comment .., s, taken | .each .., s, taken | .call .., s, taken
  | .placeholder, s, taken | .other _, s, taken => by
    simp only [Node.definitions]
    exact uniform_pure stmtsRelocatable_nil

theorem Content.uniform_definitions : ∀ (c : Content) (s : Scope) (taken : Nat),
    Uniform missing StmtsRelocatable taken fun _ => c.definitions s
  | .list items, s, taken => by
    simp only [Content.definitions]
    exact uniform_definitionsOfItems items s taken
  | .node _, s, taken | .datum _, s, taken => by
    simp only [Content.definitions]
    exact uniform_pure stmtsRelocatable_nil

theorem Content.uniform_alternateDefinitions : ∀ (c : Content) (s : Scope) (taken : Nat),
    Uniform missing StmtsRelocatable taken fun _ => c.alternateDefinitions s
  | .node n, s, taken => by
    have hn := n.uniform_definitions s taken
    simp only [Content.alternateDefinitions]
    by_cases h : n.isConditional
    · simp only [h, if_true]
      exact hn
    · simp only [h]
      exact uniform_pure stmtsRelocatable_nil
  | .list items, s, taken => by
    simp only [Content.alternateDefinitions]
    exact uniform_definitionsOfItems items s taken
  | .datum _, s, taken => by
    simp only [Content.alternateDefinitions]
    exact uniform_pure stmtsRelocatable_nil

theorem uniform_definitionsOfItems : ∀ (items : List Content) (s : Scope) (taken : Nat),
    Uniform missing StmtsRelocatable taken fun _ => definitionsOfItems s items
  | [], s, taken => by
    simp only [definitionsOfItems]
    exact uniform_pure stmtsRelocatable_nil
  | .node n :: rest, s, taken => by
    simp only [definitionsOfItems]
    exact (n.uniform_definitions s taken).bind fun defs used hd =>
      (uniform_definitionsOfItems rest s used).bind fun others used hd' =>
      uniform_pure (hd.append hd')
  | .list _ :: rest, s, taken | .datum _ :: rest, s, taken => by
    simp only [definitionsOfItems]
    exact uniform_definitionsOfItems rest s taken

end

theorem Content.uniform_hoisted (c : Content) (s : Scope) (taken : Nat) :
    Uniform missing StmtsRelocatable taken fun _ => c.hoisted s :=
  uniform_bind_lift c.stackless_scopeDeclarations fun _ => c.uniform_definitions s taken

theorem Content.uniform_defineOne (c : Content) (s : Scope) (taken : Nat) :
    Uniform missing StmtsRelocatable taken fun _ => c.defineOne s := by
  cases c with
  | node n =>
    cases n with
    | mixin name params rest children => exact Node.uniform_definitions _ s taken
    | _ => exact uniform_throw Fault.noConfusion
  | list items => exact uniform_throw Fault.noConfusion
  | datum d => exact uniform_throw Fault.noConfusion

end Uniform

end Hyperscript
