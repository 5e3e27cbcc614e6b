import Hyperscript.Proofs.Tree.Occurrence

/-!
# The places of a tree

The nodes directly in a node are its inner nodes.  The places of a tree are its nodes, each with the
nodes above it, in document order.  They are where nodes occur, and they come in the order in which
a walk lists them.
-/

namespace Hyperscript

/-! ## Nodes inside nodes -/

def Content.node? : Content → Option Node
  | node n => some n
  | _ => none

/-- The nodes of a list. -/
def Content.nodes : Content → List Node
  | list items => items.filterMap node?
  | _ => []

/-- The nodes of an alternate, which may also be another conditional. -/
def Content.alternateNodes : Content → List Node
  | node n => if n.isConditional then [n] else []
  | c => c.nodes

/-- The nodes directly in a node. -/
def Node.inner : Node → List Node
  | conditional _ consequent alternate => consequent.nodes ++ alternate.alternateNodes
  | each _ _ _ children alternate => children.nodes ++ alternate.nodes
  | n => n.children.nodes

theorem Content.mem_nodes {items : List Content} {m : Node} :
    m ∈ (Content.list items).nodes ↔ .node m ∈ items := by
  rw [Content.nodes, List.mem_filterMap]
  constructor
  · rintro ⟨c, hc, hm⟩
    cases c with
    | node n =>
      cases hm
      exact hc
    | list => cases hm
    | datum => cases hm
  · exact fun h => ⟨_, h, rfl⟩

theorem Content.nodes_cons (n : Node) (rest : List Content) :
    (Content.list (.node n :: rest)).nodes = n :: (Content.list rest).nodes :=
  rfl

theorem Content.nodes_other {item : Content} (h : ∀ n, item ≠ .node n) (rest : List Content) :
    (Content.list (item :: rest)).nodes = (Content.list rest).nodes := by
  cases item with
  | node n => exact absurd rfl (h n)
  | list | datum => rfl

theorem Content.nodes_of_isNull {c : Content} (h : c.isNull = true) : c.nodes = [] := by
  cases c with
  | datum => rfl
  | node | list => cases h

theorem Content.nodes_of_not_isTrue {c : Content} (h : c.isTrue = false) : c.nodes = [] := by
  cases c with
  | list items =>
    cases items with
    | nil => rfl
    | cons => cases h
  | node => cases h
  | datum => rfl

theorem Content.sizeOf_nodes {c : Content} {m : Node} (h : m ∈ c.nodes) : sizeOf m < sizeOf c := by
  cases c with
  | list items =>
    have hitem := List.sizeOf_lt_of_mem (Content.mem_nodes.1 h)
    simp only [Content.node.sizeOf_spec, Content.list.sizeOf_spec] at hitem ⊢
    omega
  | node => cases h
  | datum => cases h

theorem Content.sizeOf_alternateNodes {c : Content} {m : Node} (h : m ∈ c.alternateNodes) :
    sizeOf m < sizeOf c := by
  cases c with
  | node n =>
    rw [Content.alternateNodes] at h
    split at h
    · rw [List.mem_singleton.1 h, Content.node.sizeOf_spec]
      omega
    · cases h
  | list items => exact Content.sizeOf_nodes h
  | datum => cases h

theorem Node.sizeOf_inner {m n : Node} (h : m ∈ n.inner) : sizeOf m < sizeOf n := by
  cases n with
  | conditional test consequent alternate =>
    have hlt : sizeOf m < sizeOf consequent ∨ sizeOf m < sizeOf alternate :=
      (List.mem_append.1 h).imp Content.sizeOf_nodes Content.sizeOf_alternateNodes
    rw [Node.conditional.sizeOf_spec]
    omega
  | each obj val key children alternate =>
    have hlt : sizeOf m < sizeOf children ∨ sizeOf m < sizeOf alternate :=
      (List.mem_append.1 h).imp Content.sizeOf_nodes Content.sizeOf_nodes
    rw [Node.each.sizeOf_spec]
    omega
  | tag | code | branch | switch | loop | mixin | call =>
    have hlt : sizeOf m < sizeOf (Node.children _) := Content.sizeOf_nodes h
    simp only [Node.children, Node.tag.sizeOf_spec, Node.code.sizeOf_spec, Node.branch.sizeOf_spec,
      Node.switch.sizeOf_spec, Node.loop.sizeOf_spec, Node.mixin.sizeOf_spec,
      Node.call.sizeOf_spec] at hlt ⊢
    omega
  | text | comment | placeholder | other => cases h

theorem Node.inner_induction {P : Node → Prop} (step : ∀ n, (∀ m ∈ n.inner, P m) → P n) (n : Node) :
    P n :=
  step n fun m _ => Node.inner_induction step m
termination_by sizeOf n
decreasing_by exact Node.sizeOf_inner ‹_›

/-! ## Places -/

/-- The places in the tree of a node: the nodes above one, from the given node down, and the one. -/
def Node.places (n : Node) : List (List Node × Node) :=
  ([], n) :: (n.inner.attach.flatMap fun m => m.1.places).map fun place => (n :: place.1, place.2)
termination_by sizeOf n
decreasing_by exact Node.sizeOf_inner m.2

/-- The places in the trees of some nodes, in document order. -/
def placesOf (nodes : List Node) : List (List Node × Node) :=
  nodes.flatMap Node.places

theorem placesOf_nil : placesOf [] = [] := rfl

theorem placesOf_append (xs ys : List Node) : placesOf (xs ++ ys) = placesOf xs ++ placesOf ys :=
  List.flatMap_append

theorem Node.places_eq (n : Node) :
    n.places = ([], n) :: (placesOf n.inner).map fun place => (n :: place.1, place.2) := by
  rw [Node.places, List.flatMap_subtype (g := Node.places) fun _ _ => rfl, List.unattach_attach,
    placesOf]

theorem mem_placesOf_nil {nodes : List Node} {n : Node} : ([], n) ∈ placesOf nodes ↔ n ∈ nodes := by
  simp only [placesOf, List.mem_flatMap]
  constructor
  · rintro ⟨m, hm, h⟩
    rw [Node.places_eq] at h
    simp only [List.mem_cons, List.mem_map, Prod.mk.injEq, reduceCtorEq, false_and, and_false,
      exists_false, or_false, true_and] at h
    rwa [h]
  · intro h
    refine ⟨n, h, ?_⟩
    rw [Node.places_eq]
    exact List.mem_cons_self ..

theorem mem_placesOf_cons {nodes : List Node} {m n : Node} {above : List Node} :
    (m :: above, n) ∈ placesOf nodes ↔ m ∈ nodes ∧ (above, n) ∈ placesOf m.inner := by
  rw [placesOf, List.mem_flatMap]
  constructor
  · rintro ⟨o, ho, h⟩
    rw [Node.places_eq] at h
    simp only [List.mem_cons, List.mem_map, Prod.mk.injEq, reduceCtorEq, false_and, false_or,
      List.cons.injEq] at h
    obtain ⟨place, hplace, ⟨rfl, rfl⟩, rfl⟩ := h
    exact ⟨ho, hplace⟩
  · rintro ⟨hm, h⟩
    refine ⟨m, hm, ?_⟩
    rw [Node.places_eq]
    exact List.mem_cons_of_mem _ (List.mem_map.2 ⟨_, h, rfl⟩)

theorem Node.WellTyped.mem_inner {m n : Node} {items : List Content} (h : m.WellTyped)
    (howns : m.Owns items) (hn : .node n ∈ items) : n ∈ m.inner := by
  have hnode : n ∈ (Content.list items).nodes := Content.mem_nodes.2 hn
  cases h with
  | tag | loop | mixin | switch => simp_all [Node.inner, Node.children]
  | text | comment | placeholder | other => simp at howns
  | code h | call _ h | branch _ h => cases h <;> simp_all [Node.inner, Node.children]
  | each _ _ ha =>
    cases ha with
    | null =>
      rw [Node.owns_each_null.1 howns] at hnode
      exact List.mem_append_left _ hnode
    | list => rcases Node.owns_each.1 howns with rfl | rfl <;> simp [Node.inner, hnode]
  | conditional _ ha =>
    cases ha with
    | null =>
      rw [Node.owns_conditional_null.1 howns] at hnode
      exact List.mem_append_left _ hnode
    | list =>
      rcases Node.owns_conditional_list.1 howns with rfl | rfl <;>
        simp [Node.inner, Content.alternateNodes, hnode]
    | conditional =>
      rcases Node.owns_conditional_node.1 howns with rfl | rfl
      · exact List.mem_append_left _ hnode
      · exact List.mem_append_right _ hnode

theorem WellTypedNodes.mem_placesOf {above : List Node} {n : Node} {items : List Content}
    (h : WellTypedNodes items) (hocc : Occurs above n items) :
    (above, n) ∈ placesOf (Content.list items).nodes := by
  induction hocc with
  | here hmem => exact mem_placesOf_nil.2 (Content.mem_nodes.2 hmem)
  | inside hmem howns _ ih =>
    have hm := h.of_mem hmem
    refine mem_placesOf_cons.2 ⟨Content.mem_nodes.2 hmem, ?_⟩
    obtain ⟨o, ho, hplace⟩ := List.mem_flatMap.1 (ih (hm.of_owns howns))
    exact List.mem_flatMap.2 ⟨o, hm.mem_inner howns (Content.mem_nodes.1 ho), hplace⟩

/-! ### Walks -/

theorem map_snd_placesOf_cons (n : Node) (nodes : List Node) :
    (placesOf (n :: nodes)).map Prod.snd =
      n :: ((placesOf n.inner).map Prod.snd ++ (placesOf nodes).map Prod.snd) := by
  simp [placesOf, Node.places_eq, Function.comp_def]

/-- A walk that enters every node comes to the nodes place by place. -/
def Visits (walk : Except Fault (List Content)) (nodes : List Node) : Prop :=
  walk = .ok (((placesOf nodes).map Prod.snd).map Content.node)

theorem visits_nil : Visits (.ok []) [] := rfl

theorem Visits.append {left right : Except Fault (List Content)} {xs ys : List Node}
    (hl : Visits left xs) (hr : Visits right ys) :
    Visits (do return (← left) ++ (← right)) (xs ++ ys) := by
  rw [hl, hr, Visits, placesOf_append, List.map_append, List.map_append]
  rfl

theorem Visits.cons {n : Node} {inner rest : Except Fault (List Content)} {nodes : List Node}
    (hn : Visits inner n.inner) (hrest : Visits rest nodes) :
    Visits (do return .node n :: ((← inner) ++ (← rest))) (n :: nodes) := by
  rw [hn, hrest, Visits, map_snd_placesOf_cons, List.map_cons, List.map_append]
  rfl

mutual

theorem Node.WellTyped.visits : ∀ {n : Node}, n.WellTyped →
    Visits (n.descendants fun _ => true) n.inner
  | _, .tag _ hc | _, .loop hc | _, .mixin _ _ hc | _, .switch hc => hc.visits
  | _, .text | _, .comment | _, .placeholder | _, .other => visits_nil
  | _, .code h | _, .call _ h | _, .branch _ h => h.visits
  | _, .each _ hc ha => hc.visits.append ha.visits
  | _, .conditional hc ha => hc.visits.append ha.visits

theorem WellTypedNodes.visits : ∀ {items : List Content}, WellTypedNodes items →
    Visits (walkItems (fun _ => true) items) (Content.list items).nodes
  | _, .nil => visits_nil
  | _, .cons hn hrest => by
    rw [walkItems_node, if_pos rfl]
    exact hn.visits.cons hrest.visits

theorem Content.WellTypedBlock.visits : ∀ {c : Content}, c.WellTypedBlock →
    Visits (c.walkUnlessNull fun _ => true) c.nodes
  | _, .null => visits_nil
  | _, .list h => h.visits

theorem Content.WellTypedAlternate.visits : ∀ {c : Content}, c.WellTypedAlternate →
    Visits (c.walkAlternate fun _ => true) c.alternateNodes
  | _, .null => visits_nil
  | _, .list h => h.visits
  | _, @Content.WellTypedAlternate.conditional test items alternate hc ha => by
    -- the walk comes to the node itself before it enters it
    have h : Visits
        ((Node.conditional (.str test) (.list items) alternate).descendants fun _ => true)
        (Node.conditional (.str test) (.list items) alternate).inner := hc.visits.append ha.visits
    rw [walkAlternate_conditional _ rfl, if_pos rfl, h, Visits, Content.alternateNodes,
      if_pos (by rfl), map_snd_placesOf_cons, placesOf_nil, List.map_nil, List.append_nil]
    rfl

end

end Hyperscript
