import Hyperscript.Proofs.Tree.WellTyped

/-!
# Where nodes stand

`Occurs above n items` says that the node `n` stands somewhere in the tree of `items`, below the
nodes `above`, which are listed from the outermost to the parent of `n`.  A walk lists exactly the
nodes that occur below nodes it enters.
-/

namespace Hyperscript

attribute [simp] Node.opensScope

namespace Node

@[simp] def isMixin : Node → Bool
  | mixin .. => true
  | _ => false

@[simp] def isBranch : Node → Bool
  | branch .. => true
  | _ => false

@[simp] def isSwitch : Node → Bool
  | switch .. => true
  | _ => false

@[simp] def isEach : Node → Bool
  | each .. => true
  | _ => false

@[simp] def isCall : Node → Bool
  | call .. => true
  | _ => false

/-- One of the lists of nodes that a node owns. -/
def Owns (m : Node) (items : List Content) : Prop :=
  ∃ lists, m.branches = .ok lists ∧ .list items ∈ lists

section Owns

variable {d e f : Datum} {a : Attributes} {n : Node} {items others inner : List Content}

attribute [local simp] Owns branches Content.isNull Datum.isNull Content.items isConditional

@[simp] theorem owns_tag : (tag d a (.list items)).Owns inner ↔ inner = items := by
  simp

@[simp] theorem owns_loop : (loop d (.list items)).Owns inner ↔ inner = items := by
  simp

@[simp] theorem owns_mixin : (mixin d e f (.list items)).Owns inner ↔ inner = items := by
  simp

@[simp] theorem owns_code : (code d e (.list items)).Owns inner ↔ inner = items := by
  simp

@[simp] theorem not_owns_code_null : ¬(code d e (.datum .null)).Owns inner := by
  simp

@[simp] theorem owns_call : (call d e a (.list items)).Owns inner ↔ inner = items := by
  simp

@[simp] theorem not_owns_call_null : ¬(call d e a (.datum .null)).Owns inner := by
  simp

@[simp] theorem owns_branch : (branch d (.list items)).Owns inner ↔ inner = items := by
  simp

@[simp] theorem not_owns_branch_null : ¬(branch d (.datum .null)).Owns inner := by
  simp

@[simp] theorem owns_switch : (switch d (.list items)).Owns inner ↔ inner = items := by
  simp [bind, Except.bind, pure, Except.pure]

@[simp] theorem owns_each :
    (each d e f (.list items) (.list others)).Owns inner ↔ inner = items ∨ inner = others := by
  simp

@[simp] theorem owns_each_null :
    (each d e f (.list items) (.datum .null)).Owns inner ↔ inner = items := by
  simp

@[simp] theorem owns_conditional_null :
    (conditional d (.list items) (.datum .null)).Owns inner ↔ inner = items := by
  simp

@[simp] theorem owns_conditional_list :
    (conditional d (.list items) (.list others)).Owns inner ↔ inner = items ∨ inner = others := by
  simp

@[simp] theorem owns_conditional_node {c o : Content} :
    (conditional d (.list items) (.node (conditional e c o))).Owns inner ↔
      inner = items ∨ inner = [.node (conditional e c o)] := by
  simp

@[simp] theorem not_owns_text : ¬(text d).Owns inner := by simp

@[simp] theorem not_owns_comment : ¬(comment d e).Owns inner := by simp

@[simp] theorem not_owns_placeholder : ¬placeholder.Owns inner := by simp

@[simp] theorem not_owns_other {kind : String} : ¬(other kind).Owns inner := by
  simp

end Owns

end Node

/-- The node `n` stands in the tree of `items` below the nodes `above`, its parent last. -/
inductive Occurs : (above : List Node) → (n : Node) → (items : List Content) → Prop where
  | here {n items} : .node n ∈ items → Occurs [] n items
  | inside {m inner above n items} : .node m ∈ items → m.Owns inner → Occurs above n inner →
      Occurs (m :: above) n items

theorem not_occurs_nil {above : List Node} {n : Node} : ¬Occurs above n [] := by
  intro h
  cases h with
  | here h => exact absurd h List.not_mem_nil
  | inside h => exact absurd h List.not_mem_nil

theorem occurs_cons {above : List Node} {m n : Node} {rest : List Content} :
    Occurs above n (.node m :: rest) ↔
      (above = [] ∧ n = m) ∨
        (∃ above' inner, above = m :: above' ∧ m.Owns inner ∧ Occurs above' n inner) ∨
        Occurs above n rest := by
  constructor
  · intro h
    cases h with
    | here h =>
      rcases List.mem_cons.1 h with h | h
      · exact .inl ⟨rfl, by cases h; rfl⟩
      · exact .inr (.inr (.here h))
    | inside h howns hocc =>
      rcases List.mem_cons.1 h with h | h
      · cases h
        exact .inr (.inl ⟨_, _, rfl, howns, hocc⟩)
      · exact .inr (.inr (.inside h howns hocc))
  · rintro (⟨rfl, rfl⟩ | ⟨above', inner, rfl, howns, hocc⟩ | h)
    · exact .here (List.mem_cons_self ..)
    · exact .inside (List.mem_cons_self ..) howns hocc
    · cases h with
      | here h => exact .here (List.mem_cons_of_mem _ h)
      | inside h howns hocc => exact .inside (List.mem_cons_of_mem _ h) howns hocc

theorem Occurs.trans {above above' : List Node} {m n : Node} {items inner : List Content}
    (h : Occurs above m items) (howns : m.Owns inner) (h' : Occurs above' n inner) :
    Occurs (above ++ m :: above') n items := by
  induction h with
  | here hmem => exact .inside hmem howns h'
  | inside hmem howns' _ ih => exact .inside hmem howns' (ih howns)

theorem Node.WellTyped.of_owns {m : Node} {inner : List Content} (h : m.WellTyped)
    (howns : m.Owns inner) : WellTypedNodes inner := by
  cases h with
  | tag _ hc | loop hc | mixin _ _ hc | switch hc => simp_all
  | text | comment | placeholder | other => simp at howns
  | code h | call _ h | branch _ h => cases h <;> simp_all
  | each _ hc ha =>
    cases ha with
    | null => rwa [Node.owns_each_null.1 howns]
    | list h => rcases Node.owns_each.1 howns with rfl | rfl <;> assumption
  | conditional hc ha =>
    cases ha with
    | null => rwa [Node.owns_conditional_null.1 howns]
    | list h => rcases Node.owns_conditional_list.1 howns with rfl | rfl <;> assumption
    | conditional hc' ha' =>
      rcases Node.owns_conditional_node.1 howns with rfl | rfl
      · exact hc
      · exact .cons (.conditional hc' ha') .nil

theorem WellTypedNodes.of_mem {nodes : List Content} (h : WellTypedNodes nodes) {n : Node}
    (hmem : .node n ∈ nodes) : n.WellTyped := by
  induction nodes with
  | nil => exact absurd hmem List.not_mem_nil
  | cons c nodes ih =>
    cases h with
    | cons hn hrest =>
      rcases List.mem_cons.1 hmem with hc | hmem
      · cases hc
        exact hn
      · exact ih hrest hmem

theorem WellTypedNodes.of_occurs {nodes : List Content} (h : WellTypedNodes nodes)
    {above : List Node} {n : Node} (hocc : Occurs above n nodes) : n.WellTyped := by
  induction hocc with
  | here hmem => exact h.of_mem hmem
  | inside hmem howns _ ih => exact ih ((h.of_mem hmem).of_owns howns)

/-! ## All nodes of a tree -/

/-- Every node in the tree of some nodes is of this kind. -/
def Everywhere (Q : Node → Prop) (items : List Content) : Prop :=
  ∀ above n, Occurs above n items → Q n

section Everywhere

variable {Q : Node → Prop} {n : Node} {rest inner : List Content}

theorem everywhere_nil : Everywhere Q [] :=
  fun _ _ hocc => absurd hocc not_occurs_nil

theorem everywhere_cons : Everywhere Q (.node n :: rest) ↔
    Q n ∧ (∀ inner, n.Owns inner → Everywhere Q inner) ∧ Everywhere Q rest := by
  constructor
  · intro h
    refine ⟨h [] n (.here (List.mem_cons_self ..)), fun inner howns above m hocc => ?_, ?_⟩
    · exact h (n :: above) m (.inside (List.mem_cons_self ..) howns hocc)
    · exact fun above m hocc => h above m (occurs_cons.2 (.inr (.inr hocc)))
  · rintro ⟨hn, hinner, hrest⟩ above m hocc
    rcases occurs_cons.1 hocc with ⟨-, rfl⟩ | ⟨above', inner, -, howns, hocc⟩ | hocc
    · exact hn
    · exact hinner inner howns above' m hocc
    · exact hrest above m hocc

theorem Everywhere.here (h : Everywhere Q (.node n :: rest)) : Q n :=
  (everywhere_cons.1 h).1

theorem Everywhere.of_owns (h : Everywhere Q (.node n :: rest)) (howns : n.Owns inner) :
    Everywhere Q inner :=
  (everywhere_cons.1 h).2.1 inner howns

theorem Everywhere.others (h : Everywhere Q (.node n :: rest)) : Everywhere Q rest :=
  (everywhere_cons.1 h).2.2

theorem Everywhere.first (h : Everywhere Q (.node n :: rest)) : Everywhere Q [.node n] :=
  everywhere_cons.2 ⟨h.here, fun _ howns => h.of_owns howns, everywhere_nil⟩

theorem Everywhere.tail {item : Content} (h : Everywhere Q (item :: rest)) : Everywhere Q rest := by
  intro above n hocc
  cases hocc with
  | here hmem => exact h [] n (.here (List.mem_cons_of_mem item hmem))
  | inside hmem howns hocc => exact h _ n (.inside (List.mem_cons_of_mem item hmem) howns hocc)

/-- The same for the alternate of a conditional. -/
def Content.EverywhereAlternate (Q : Node → Prop) (c : Content) : Prop :=
  ∀ inner, (c = .list inner ∨ ∃ n, c = .node n ∧ inner = [.node n]) → Everywhere Q inner

theorem Everywhere.alternate {test : Datum} {items : List Content} {c : Content}
    (h : Everywhere Q [.node (.conditional test (.list items) c)]) (hc : c.WellTypedAlternate) :
    c.EverywhereAlternate Q := by
  rintro inner (rfl | ⟨n, rfl, rfl⟩)
  · cases hc with
    | list => exact h.of_owns (by simp)
  · cases hc with
    | conditional => exact h.of_owns (by simp)

theorem Everywhere.consequent {test : Datum} {items : List Content} {c : Content}
    (h : Everywhere Q [.node (.conditional test (.list items) c)]) (hc : c.WellTypedAlternate) :
    Everywhere Q items := by
  cases hc with
  | null => exact h.of_owns (by simp)
  | list => exact h.of_owns (by simp)
  | conditional => exact h.of_owns (by simp)

/-! ### The contents of a node -/

/-- The code by which a node opens a block for what it holds. -/
def Node.header : Node → Datum
  | code value _ _ => value
  | conditional test _ _ => test
  | switch expr _ => expr
  | loop test _ => test
  | _ => .null

/-- The content of a node that has only one. -/
def Node.children : Node → Content
  | tag _ _ children => children
  | code _ _ children => children
  | branch _ children => children
  | switch _ branches => branches
  | loop _ children => children
  | mixin _ _ _ children => children
  | call _ _ _ children => children
  | _ => .datum .null

/-- Every node in a content is of this kind, if the content is a list. -/
def Content.Everywhere (Q : Node → Prop) (c : Content) : Prop :=
  ∀ items, c = .list items → Hyperscript.Everywhere Q items

theorem Everywhere.children (h : Everywhere Q [.node n]) : n.children.Everywhere Q := by
  intro items hitems
  apply h.of_owns
  cases n <;> simp_all [Node.children]

theorem Everywhere.each {obj val key : Datum} {children alternate : Content}
    (h : Everywhere Q [.node (.each obj val key children alternate)])
    (hn : (Node.each obj val key children alternate).WellTyped) :
    children.Everywhere Q ∧ alternate.Everywhere Q := by
  cases hn with
  | each _ _ halternate =>
    refine ⟨?_, ?_⟩
    · rintro items ⟨⟩
      cases halternate <;> exact h.of_owns (by simp)
    · rintro items rfl
      exact h.of_owns (by simp)

theorem Everywhere.conditional {test : Datum} {consequent alternate : Content}
    (h : Everywhere Q [.node (.conditional test consequent alternate)])
    (hn : (Node.conditional test consequent alternate).WellTyped) :
    consequent.Everywhere Q ∧ alternate.EverywhereAlternate Q := by
  cases hn with
  | conditional _ halternate =>
    refine ⟨?_, h.alternate halternate⟩
    rintro items ⟨⟩
    exact h.consequent halternate

end Everywhere

/-! ## Walks -/

/-- The content is a node of the tree, below nodes that `enter` admits. -/
def Reached (enter : Node → Bool) (items : List Content) (c : Content) : Prop :=
  ∃ n above, c = .node n ∧ Occurs above n items ∧ ∀ m ∈ above, enter m = true

/-- The same for the trees that a node owns. -/
def Node.Reaches (enter : Node → Bool) (n : Node) (c : Content) : Prop :=
  ∃ inner, n.Owns inner ∧ Reached enter inner c

theorem not_reached_nil {enter : Node → Bool} {c : Content} : ¬Reached enter [] c := by
  rintro ⟨n, above, -, h, -⟩
  exact not_occurs_nil h

theorem reached_cons {enter : Node → Bool} {n : Node} {rest : List Content} {c : Content} :
    Reached enter (.node n :: rest) c ↔
      c = .node n ∨ (enter n = true ∧ n.Reaches enter c) ∨ Reached enter rest c := by
  constructor
  · rintro ⟨m, above, rfl, hocc, hall⟩
    rcases occurs_cons.1 hocc with ⟨rfl, rfl⟩ | ⟨above', inner, rfl, howns, hocc⟩ | hocc
    · exact .inl rfl
    · have hn := hall n (List.mem_cons_self ..)
      exact .inr (.inl ⟨hn, inner, howns, m, above', rfl, hocc,
        fun a ha => hall a (List.mem_cons_of_mem n ha)⟩)
    · exact .inr (.inr ⟨m, above, rfl, hocc, hall⟩)
  · rintro (rfl | ⟨hn, inner, howns, m, above, rfl, hocc, hall⟩ | ⟨m, above, rfl, hocc, hall⟩)
    · exact ⟨n, [], rfl, .here (List.mem_cons_self ..), by simp⟩
    · refine ⟨m, n :: above, rfl, .inside (List.mem_cons_self ..) howns hocc, ?_⟩
      intro a ha
      rcases List.mem_cons.1 ha with rfl | ha
      · exact hn
      · exact hall a ha
    · exact ⟨m, above, rfl, occurs_cons.2 (.inr (.inr hocc)), hall⟩

/-- A walk succeeds, and what it lists is given by `P`. -/
def Lists (walk : Except Fault (List Content)) (P : Content → Prop) : Prop :=
  ∃ found, walk = .ok found ∧ ∀ c, c ∈ found ↔ P c

theorem Lists.congr {walk : Except Fault (List Content)} {P Q : Content → Prop}
    (h : Lists walk P) (hPQ : ∀ c, P c ↔ Q c) : Lists walk Q := by
  obtain ⟨found, hwalk, hmem⟩ := h
  exact ⟨found, hwalk, fun c => (hmem c).trans (hPQ c)⟩

theorem lists_nil {P : Content → Prop} (h : ∀ c, ¬P c) : Lists (.ok []) P :=
  ⟨[], rfl, fun c => by simp [h c]⟩

theorem Lists.append {left right : Except Fault (List Content)} {P Q : Content → Prop}
    (hl : Lists left P) (hr : Lists right Q) :
    Lists (do return (← left) ++ (← right)) fun c => P c ∨ Q c := by
  obtain ⟨xs, rfl, hxs⟩ := hl
  obtain ⟨ys, rfl, hys⟩ := hr
  exact ⟨xs ++ ys, rfl, fun c => by rw [List.mem_append, hxs, hys]⟩

theorem Lists.cons {rest : Except Fault (List Content)} {P : Content → Prop} (item : Content)
    (h : Lists rest P) : Lists (do return item :: (← rest)) fun c => c = item ∨ P c := by
  obtain ⟨xs, rfl, hxs⟩ := h
  exact ⟨item :: xs, rfl, fun c => by rw [List.mem_cons, hxs]⟩

section Walk

variable (enter : Node → Bool)

/-- The nodes that the alternate of a conditional leads to. -/
def Content.AlternateReaches (c d : Content) : Prop :=
  (∃ items, c = .list items ∧ Reached enter items d) ∨
    ∃ n, c = .node n ∧ Reached enter [.node n] d

/-- A node is walked into only where `enter` admits it. -/
theorem Node.lists_ite {n : Node} (h : Lists (n.descendants enter) (n.Reaches enter)) :
    Lists (if enter n then n.descendants enter else .ok [])
      fun c => enter n = true ∧ n.Reaches enter c := by
  by_cases hn : enter n = true
  · rw [if_pos hn]
    exact h.congr fun c => by simp [hn]
  · rw [if_neg hn]
    exact lists_nil fun c => by simp [hn]

theorem walkItems_node (n : Node) (rest : List Content) :
    walkItems enter (.node n :: rest) = do
      let inner ← (if enter n then n.descendants enter else .ok [] : Except Fault (List Content))
      let found ← walkItems enter rest
      return .node n :: (inner ++ found) := by
  rw [walkItems]
  split <;> rfl

theorem walkAlternate_conditional {n : Node} (h : n.isConditional = true) :
    (Content.node n).walkAlternate enter = do
      let inner ← (if enter n then n.descendants enter else .ok [] : Except Fault (List Content))
      return .node n :: inner := by
  rw [Content.walkAlternate, if_pos h]
  split <;> rfl

theorem lists_descendants_conditional (test : Datum) {items : List Content} {alternate : Content}
    (hwt : alternate.WellTypedAlternate)
    (hc : Lists (walkItems enter items) (Reached enter items))
    (ha : Lists (alternate.walkAlternate enter) (alternate.AlternateReaches enter)) :
    Lists ((Node.conditional test (.list items) alternate).descendants enter)
      ((Node.conditional test (.list items) alternate).Reaches enter) := by
  refine (hc.append ha).congr fun c => ?_
  cases hwt <;> simp [Node.Reaches, Content.AlternateReaches]

mutual

theorem Node.WellTyped.lists_descendants :
    ∀ {n : Node}, n.WellTyped → Lists (n.descendants enter) (n.Reaches enter)
  | _, .tag _ hc | _, .loop hc | _, .mixin _ _ hc | _, .switch hc =>
    hc.lists_walk.congr fun c => by simp [Node.Reaches]
  | _, .text | _, .comment | _, .placeholder | _, .other =>
    lists_nil fun c => by simp [Node.Reaches]
  | _, .code h => h.lists_walk.congr fun c => by cases h <;> simp [Node.Reaches]
  | _, .call _ h => h.lists_walk.congr fun c => by cases h <;> simp [Node.Reaches]
  | _, .branch _ h => h.lists_walk.congr fun c => by cases h <;> simp [Node.Reaches]
  | _, .each _ hc ha => (hc.lists_walk.append ha.lists_walk).congr fun c => by
    cases ha <;> simp [Node.Reaches]
  | _, .conditional hc ha => lists_descendants_conditional enter _ ha hc.lists_walk ha.lists_walk

theorem WellTypedNodes.lists_walk : ∀ {items : List Content}, WellTypedNodes items →
    Lists (walkItems enter items) (Reached enter items)
  | _, .nil => lists_nil fun _ => not_reached_nil
  | _, .cons (n := n) hn hrest => by
    obtain ⟨inner, hinner, hin⟩ := Node.lists_ite enter hn.lists_descendants
    obtain ⟨found, hfound, hmem⟩ := hrest.lists_walk
    refine ⟨.node n :: (inner ++ found), by rw [walkItems_node, hinner, hfound]; rfl, fun c => ?_⟩
    rw [reached_cons, List.mem_cons, List.mem_append, hin, hmem]

theorem Content.WellTypedBlock.lists_walk : ∀ {c : Content}, c.WellTypedBlock →
    Lists (c.walkUnlessNull enter) fun d => ∃ items, c = .list items ∧ Reached enter items d
  | _, .null => lists_nil fun d => by simp
  | _, .list h => h.lists_walk.congr fun d => by simp

theorem Content.WellTypedAlternate.lists_walk : ∀ {c : Content}, c.WellTypedAlternate →
    Lists (c.walkAlternate enter) (c.AlternateReaches enter)
  | _, .null => lists_nil fun d => by simp [Content.AlternateReaches]
  | _, .list h => h.lists_walk.congr fun d => by simp [Content.AlternateReaches]
  | _, @Content.WellTypedAlternate.conditional t _ _ hc ha => by
    have h := lists_descendants_conditional enter (.str t) ha hc.lists_walk ha.lists_walk
    rw [walkAlternate_conditional enter rfl]
    refine ((Node.lists_ite enter h).cons _).congr fun d => ?_
    simp [Content.AlternateReaches, reached_cons, not_reached_nil]

end

end Walk

/-- The walk through a whole tree lists the nodes that occur in it. -/
theorem WellTypedNodes.walk {items : List Content} (h : WellTypedNodes items) :
    Lists (Content.list items).walk fun c => ∃ n above, c = .node n ∧ Occurs above n items :=
  (h.lists_walk fun _ => true).congr fun c => by simp [Reached]

end Hyperscript
