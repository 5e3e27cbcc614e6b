import Mathlib.Data.List.Nodup
import Hyperscript.Proofs.Tree.Places

/-!
# Addresses in a tree

Equal nodes may stand in several positions of a tree.  The address of a position tells it from all
others: it is the way down to the node.  A spot is a node with its address.

A walk comes to the nodes spot by spot (`covers_walkItems`).  The scope above an address is the
innermost node on the way that opens a function scope.  The spots of a tree are parted by it: those
with no scope above them are what the walk through one scope comes to (`spotsOf_inScope`), and so
are those with the same scope above them, in the tree inside that scope (`filter_scopeAbove`).
-/

namespace Hyperscript

/-- The way to a node: its number among the nodes at the top, and then in each step its number among
the nodes directly in the node before. -/
abbrev Address := List Nat

/-- The node at the end of a way down from a node. -/
def Node.at? (n : Node) : Address → Option Node
  | [] => some n
  | i :: rest => n.inner[i]?.bind fun m => m.at? rest

/-- The node at an address. -/
def nodeAt? (nodes : List Node) : Address → Option Node
  | [] => none
  | i :: rest => nodes[i]?.bind fun n => n.at? rest

/-! ## Spots -/

/-- A node with its address. -/
structure Spot where
  address : Address
  node : Node

/-- The spot, seen from one node higher up, in which it is below the node of this number. -/
def Spot.below (i : Nat) (spot : Spot) : Spot :=
  ⟨i :: spot.address, spot.node⟩

/-- Puts the number of each list in front of the addresses in it. -/
def numbered (lists : List (List Spot)) : List Spot :=
  lists.zipIdx.flatMap fun list => list.1.map (.below list.2)

/-- The spots in the tree of a node, in document order, as far as `enter` admits to the nodes on the
way.  Their addresses start from the node. -/
def Node.spots (enter : Node → Bool) (n : Node) : List Spot :=
  ⟨[], n⟩ :: if enter n then numbered (n.inner.attach.map fun m => m.1.spots enter) else []
termination_by sizeOf n
decreasing_by exact Node.sizeOf_inner m.2

/-- The spots in the trees of some nodes. -/
def spotsOf (enter : Node → Bool) (nodes : List Node) : List Spot :=
  numbered (nodes.map (Node.spots enter))

section Spots

variable {enter : Node → Bool} {nodes : List Node}

theorem Node.spots_eq (n : Node) :
    n.spots enter = ⟨[], n⟩ :: if enter n then spotsOf enter n.inner else [] := by
  rw [Node.spots, spotsOf, List.attach_map_val]

theorem spotsOf_eq (nodes : List Node) :
    spotsOf enter nodes = nodes.zipIdx.flatMap fun n => (n.1.spots enter).map (.below n.2) := by
  rw [spotsOf, numbered, List.zipIdx_map, List.flatMap_map]
  rfl

theorem mem_spotsOf_cons {i : Nat} {rest : Address} {m : Node} :
    ⟨i :: rest, m⟩ ∈ spotsOf enter nodes ↔
      ∃ n, nodes[i]? = some n ∧ ⟨rest, m⟩ ∈ n.spots enter := by
  rw [spotsOf_eq, List.mem_flatMap]
  constructor
  · rintro ⟨⟨n, j⟩, hn, hspot⟩
    obtain ⟨spot, hmem, heq⟩ := List.mem_map.1 hspot
    cases heq
    exact ⟨n, List.mem_zipIdx_iff_getElem?.1 hn, hmem⟩
  · rintro ⟨n, hn, hspot⟩
    exact ⟨(n, i), List.mem_zipIdx_iff_getElem?.2 hn, List.mem_map.2 ⟨_, hspot, rfl⟩⟩

theorem address_ne_nil {spot : Spot} (h : spot ∈ spotsOf enter nodes) : spot.address ≠ [] := by
  rw [spotsOf_eq, List.mem_flatMap] at h
  obtain ⟨_, -, hspot⟩ := h
  obtain ⟨_, -, rfl⟩ := List.mem_map.1 hspot
  exact List.cons_ne_nil _ _

end Spots

/-- The spots of a tree are the nodes at its addresses. -/
theorem mem_spotsOf {nodes : List Node} {a : Address} {m : Node} :
    ⟨a, m⟩ ∈ spotsOf (fun _ => true) nodes ↔ nodeAt? nodes a = some m := by
  induction a generalizing nodes with
  | nil =>
    refine iff_of_false (fun h => address_ne_nil h rfl) ?_
    simp [nodeAt?]
  | cons i rest ih =>
    have hnode : ∀ n : Node, ⟨rest, m⟩ ∈ n.spots (fun _ => true) ↔ n.at? rest = some m := by
      intro n
      rw [n.spots_eq, if_pos rfl, List.mem_cons, ih]
      cases rest with
      | nil => simp [Node.at?, nodeAt?, eq_comm]
      | cons j rest => simp [Node.at?, nodeAt?]
    rw [mem_spotsOf_cons, nodeAt?, Option.bind_eq_some_iff]
    exact exists_congr fun n => and_congr_right fun _ => hnode n

theorem nodup_spotsOf_of_forall {nodes : List Node}
    (h : ∀ n ∈ nodes, ((n.spots fun _ => true).map Spot.address).Nodup) :
    ((spotsOf (fun _ => true) nodes).map Spot.address).Nodup := by
  rw [spotsOf_eq, List.map_flatMap, List.nodup_flatMap]
  constructor
  · rintro ⟨n, i⟩ hn
    have hnodup := (h n (List.fst_mem_of_mem_zipIdx hn)).map (List.cons_injective (a := i))
    rw [List.map_map] at hnodup ⊢
    exact hnodup
  · -- the numbers in front are different
    have hnumbers : (nodes.zipIdx.map Prod.snd).Nodup := by
      rw [List.zipIdx_map_snd]
      exact List.nodup_range'
    refine (List.pairwise_map.1 hnumbers).imp fun {x y} hne a hx hy => ?_
    simp only [List.map_map, List.mem_map] at hx hy
    obtain ⟨_, -, rfl⟩ := hx
    obtain ⟨_, -, heq⟩ := hy
    exact hne (List.cons.inj heq).1.symm

theorem Node.nodup_spots (n : Node) : ((n.spots fun _ => true).map Spot.address).Nodup := by
  induction n using Node.inner_induction with
  | step n ih =>
    rw [n.spots_eq, if_pos rfl, List.map_cons, List.nodup_cons]
    refine ⟨fun hmem => ?_, nodup_spotsOf_of_forall ih⟩
    obtain ⟨spot, hspot, hnil⟩ := List.mem_map.1 hmem
    exact address_ne_nil hspot hnil

/-- No two spots have the same address. -/
theorem nodup_spotsOf (nodes : List Node) :
    ((spotsOf (fun _ => true) nodes).map Spot.address).Nodup :=
  nodup_spotsOf_of_forall fun n _ => n.nodup_spots

/-! ## Walks -/

/-- A list of nodes. -/
def Content.IsNodes (c : Content) : Prop :=
  ∃ nodes : List Node, c = .list (nodes.map .node)

/-- A list of nodes, or null in its place. -/
def Content.IsBlock (c : Content) : Prop :=
  c.isNull = true ∨ c.IsNodes

/-- The alternate of a conditional: nothing, a list of nodes, or the next conditional. -/
def Content.IsAlternate (c : Content) : Prop :=
  c.IsBlock ∨ ∃ n, c = .node n ∧ n.isConditional = true

/-- Lists of nodes stand where children belong. -/
def Node.HoldsNodes : Node → Prop
  | tag _ _ children | loop _ children | mixin _ _ _ children | switch _ children =>
    children.IsNodes
  | code _ _ children | call _ _ _ children | branch _ children => children.IsBlock
  | each _ _ _ children alternate => children.IsNodes ∧ alternate.IsBlock
  | conditional _ consequent alternate => consequent.IsNodes ∧ alternate.IsAlternate
  | text _ | comment .. | placeholder | other _ => True

/-- In the whole tree of the node, lists of nodes stand where children belong.  The other slots may
hold anything. -/
inductive Node.Formed : Node → Prop where
  | mk {n : Node} : n.HoldsNodes → (∀ m ∈ n.inner, m.Formed) → n.Formed

theorem Content.nodes_map (nodes : List Node) : (Content.list (nodes.map .node)).nodes = nodes := by
  rw [Content.nodes, List.filterMap_map]
  exact List.filterMap_some

section Walk

variable (enter : Node → Bool)

/-- The nodes at the spots of a tree. -/
def visited (nodes : List Node) : List Content :=
  (spotsOf enter nodes).map fun spot => .node spot.node

/-- A walk comes to the nodes of a tree spot by spot. -/
def Covers (walk : Except Fault (List Content)) (nodes : List Node) : Prop :=
  walk = .ok (visited enter nodes)

variable {enter}

theorem visited_eq (nodes : List Node) :
    visited enter nodes =
      nodes.flatMap fun n => (n.spots enter).map fun spot => .node spot.node := by
  have hfst : nodes = nodes.zipIdx.map Prod.fst := (List.zipIdx_map_fst 0 nodes).symm
  rw [visited, spotsOf_eq, List.map_flatMap]
  conv_rhs => rw [hfst, List.flatMap_map]
  simp only [List.map_map]
  rfl

theorem visited_cons (n : Node) (nodes : List Node) :
    visited enter (n :: nodes) =
      .node n :: ((if enter n then visited enter n.inner else []) ++ visited enter nodes) := by
  rw [visited_eq, visited_eq nodes, List.flatMap_cons, n.spots_eq, List.map_cons, List.cons_append]
  split <;> rfl

theorem visited_append (xs ys : List Node) :
    visited enter (xs ++ ys) = visited enter xs ++ visited enter ys := by
  rw [visited_eq, visited_eq, visited_eq, List.flatMap_append]

theorem Covers.append {left right : Except Fault (List Content)} {xs ys : List Node}
    (hl : Covers enter left xs) (hr : Covers enter right ys) :
    Covers enter (do return (← left) ++ (← right)) (xs ++ ys) := by
  rw [hl, hr, Covers, visited_append]
  rfl

/-- A walk goes into a node only if it is admitted there. -/
theorem covers_ite {n : Node} (h : Covers enter (n.descendants enter) n.inner) :
    (if enter n then n.descendants enter else .ok [] : Except Fault (List Content)) =
      .ok (if enter n then visited enter n.inner else []) := by
  split
  · exact h
  · rfl

theorem covers_walkItems {nodes : List Node}
    (h : ∀ n ∈ nodes, Covers enter (n.descendants enter) n.inner) :
    Covers enter (walkItems enter (nodes.map .node)) nodes := by
  induction nodes with
  | nil => rfl
  | cons n nodes ih =>
    obtain ⟨hn, hrest⟩ := List.forall_mem_cons.1 h
    rw [List.map_cons, walkItems_node, covers_ite hn, ih hrest, Covers, visited_cons]
    rfl

section Contents

variable {c : Content}

theorem Content.IsNodes.covers (hc : c.IsNodes)
    (h : ∀ n ∈ c.nodes, Covers enter (n.descendants enter) n.inner) :
    Covers enter (c.walkWhere enter) c.nodes := by
  obtain ⟨nodes, rfl⟩ := hc
  rw [Content.nodes_map] at h ⊢
  exact covers_walkItems h

theorem Content.IsBlock.covers (hc : c.IsBlock)
    (h : ∀ n ∈ c.nodes, Covers enter (n.descendants enter) n.inner) :
    Covers enter (c.walkUnlessNull enter) c.nodes := by
  rcases hc with hnull | hc
  · cases c with
    | datum d => exact if_pos hnull
    | node | list => cases hnull
  · have hcovers := hc.covers h
    obtain ⟨nodes, rfl⟩ := hc
    exact hcovers

theorem Content.IsAlternate.covers (hc : c.IsAlternate)
    (h : ∀ n ∈ c.alternateNodes, Covers enter (n.descendants enter) n.inner) :
    Covers enter (c.walkAlternate enter) c.alternateNodes := by
  rcases hc with (hnull | hc) | ⟨n, rfl, hn⟩
  · cases c with
    | datum d =>
      cases d with
      | null => rfl
      | _ => cases hnull
    | node | list => cases hnull
  · obtain ⟨nodes, rfl⟩ := hc
    exact Content.IsNodes.covers ⟨nodes, rfl⟩ h
  · have hnodes : (Content.node n).alternateNodes = [n] := if_pos hn
    rw [hnodes] at h ⊢
    rw [walkAlternate_conditional enter hn, covers_ite (h n (List.mem_singleton_self n)), Covers,
      visited_cons]
    simp [visited, spotsOf, numbered, bind, Except.bind, pure, Except.pure]

end Contents

/-- By induction over the tree: each list of nodes is walked through by itself. -/
theorem Node.Formed.covers {n : Node} (h : n.Formed) :
    Covers enter (n.descendants enter) n.inner := by
  induction h with
  | @mk n hn _ ih =>
    cases n with
    | tag | loop | mixin | switch => exact Content.IsNodes.covers hn ih
    | code | call | branch => exact Content.IsBlock.covers hn ih
    | text | comment | placeholder | other => rfl
    | each obj val key children alternate =>
      obtain ⟨hchildren, halternate⟩ := List.forall_mem_append.1 ih
      exact (hn.1.covers hchildren).append (hn.2.covers halternate)
    | conditional test consequent alternate =>
      obtain ⟨hconsequent, halternate⟩ := List.forall_mem_append.1 ih
      exact (hn.1.covers hconsequent).append (hn.2.covers halternate)

theorem covers_of_formed {nodes : List Node} (h : ∀ n ∈ nodes, n.Formed) :
    Covers enter (walkItems enter (nodes.map .node)) nodes :=
  covers_walkItems fun n hn => (h n hn).covers

end Walk

/-! ## Scopes -/

/-- The way to the innermost node above the end of a way that opens a function scope, if there is
one from the given node on. -/
def Node.scopeTo (n : Node) : Address → Option Address
  | [] => none
  | i :: rest => (n.inner[i]?.bind fun m => (m.scopeTo rest).map (i :: ·)).or
      (if n.opensScope then some [] else none)

/-- The address of the innermost node above an address that opens a function scope. -/
def scopeAbove (nodes : List Node) : Address → Option Address
  | [] => none
  | i :: rest => nodes[i]?.bind fun n => (n.scopeTo rest).map (i :: ·)

section Scopes

variable {nodes : List Node} {n : Node} {a q : Address}

theorem scopeAbove_cons {i : Nat} (h : nodes[i]? = some n) (rest : Address) :
    scopeAbove nodes (i :: rest) = (n.scopeTo rest).map (i :: ·) := by
  rw [scopeAbove, h, Option.bind_some]

/-- The scope above is inside the node, or is opened by it. -/
theorem Node.scopeTo_eq (ha : a ≠ []) :
    n.scopeTo a = (scopeAbove n.inner a).or (if n.opensScope then some [] else none) := by
  cases a with
  | nil => exact absurd rfl ha
  | cons i rest => rfl

theorem scopeAbove_ne_nil : scopeAbove nodes a ≠ some [] := by
  cases a with
  | nil => simp [scopeAbove]
  | cons i rest =>
    rw [scopeAbove]
    cases nodes[i]? <;> simp

/-- What a walk through one function scope goes into. -/
def inScope (n : Node) : Bool :=
  !n.opensScope

theorem spotsOf_inScope_of_forall
    (h : ∀ n ∈ nodes, n.spots inScope =
      (n.spots fun _ => true).filter fun spot => n.scopeTo spot.address = none) :
    spotsOf inScope nodes =
      (spotsOf (fun _ => true) nodes).filter fun spot => scopeAbove nodes spot.address = none := by
  rw [spotsOf_eq, spotsOf_eq, List.filter_flatMap]
  refine List.flatMap_congr fun x hx => ?_
  rw [h x.1 (List.fst_mem_of_mem_zipIdx hx), List.filter_map]
  refine congrArg (List.map _) (List.filter_congr fun spot _ => ?_)
  rw [Function.comp_apply, Spot.below, scopeAbove_cons (List.mem_zipIdx_iff_getElem?.1 hx)]
  simp

theorem Node.spots_inScope (n : Node) : n.spots inScope =
    (n.spots fun _ => true).filter fun spot => n.scopeTo spot.address = none := by
  induction n using Node.inner_induction with
  | step n ih =>
    rw [n.spots_eq, n.spots_eq, if_pos rfl, List.filter_cons_of_pos (by simp [Node.scopeTo])]
    refine congrArg (List.cons _) ?_
    cases hn : n.opensScope with
    | true =>
      -- all that is in the node has the node above it
      rw [inScope, hn, if_neg (by decide), eq_comm, List.filter_eq_nil_iff]
      intro spot hspot
      rw [Node.scopeTo_eq (address_ne_nil hspot), hn]
      simp
    | false =>
      rw [inScope, hn, if_pos (by decide), spotsOf_inScope_of_forall ih]
      refine List.filter_congr fun spot hspot => ?_
      rw [Node.scopeTo_eq (address_ne_nil hspot), hn]
      simp

/-- The walk through one function scope comes to the spots that have no scope above them. -/
theorem spotsOf_inScope (nodes : List Node) :
    spotsOf inScope nodes =
      (spotsOf (fun _ => true) nodes).filter fun spot => scopeAbove nodes spot.address = none :=
  spotsOf_inScope_of_forall fun n _ => n.spots_inScope

theorem flatMap_zipIdx_ite {β : Type} {f : Node × Nat → List β} {i k : Nat}
    (h : nodes[i]? = some n) :
    ((nodes.zipIdx k).flatMap fun x => if x.2 = k + i then f x else []) = f (n, k + i) := by
  induction nodes generalizing i k with
  | nil => cases h
  | cons m nodes ih =>
    rw [List.zipIdx_cons, List.flatMap_cons]
    cases i with
    | zero =>
      cases h
      have hothers : ((nodes.zipIdx (k + 1)).flatMap fun x => if x.2 = k + 0 then f x else []) =
          [] := by
        rw [List.flatMap_eq_nil_iff]
        intro x hx
        have hle := List.le_snd_of_mem_zipIdx hx
        exact if_neg (by omega)
      rw [hothers, List.append_nil]
      exact if_pos rfl
    | succ i =>
      have hne : ¬(m, k).2 = k + (i + 1) := by simp
      rw [if_neg hne, List.nil_append, ← Nat.add_assoc, Nat.add_right_comm]
      exact ih h

/-- The spots below a scope are those inside the first node on the way to it. -/
theorem filter_scopeAbove_cons {i : Nat} (h : nodes[i]? = some n) (q : Address) :
    (spotsOf (fun _ => true) nodes).filter
        (fun spot => scopeAbove nodes spot.address = some (i :: q)) =
      ((n.spots fun _ => true).filter fun spot => n.scopeTo spot.address = some q).map
        (.below i) := by
  -- only the spots below the node with this number are left
  have hnumber : ∀ x ∈ nodes.zipIdx,
      ((x.1.spots fun _ => true).map (Spot.below x.2)).filter
          (fun spot => scopeAbove nodes spot.address = some (i :: q)) =
        if x.2 = 0 + i then ((x.1.spots fun _ => true).filter fun spot =>
          x.1.scopeTo spot.address = some q).map (Spot.below x.2) else [] := by
    rintro ⟨m, j⟩ hm
    have hscope : ∀ spot : Spot, scopeAbove nodes (spot.below j).address = some (i :: q) ↔
        j = i ∧ m.scopeTo spot.address = some q := by
      intro spot
      rw [Spot.below, scopeAbove_cons (List.mem_zipIdx_iff_getElem?.1 hm)]
      cases m.scopeTo spot.address <;> simp
    rw [List.filter_map, Nat.zero_add]
    by_cases hj : j = i
    · rw [if_pos hj]
      refine congrArg (List.map _) (List.filter_congr fun spot _ => ?_)
      exact decide_eq_decide.2 ((hscope spot).trans (and_iff_right hj))
    · rw [if_neg hj]
      simp [hscope, hj]
  rw [spotsOf_eq, List.filter_flatMap, List.flatMap_congr hnumber, flatMap_zipIdx_ite h,
    Nat.zero_add]

/-- The walk through the scope that a node opens comes to the spots that have this scope above
them. -/
theorem Node.filter_scopeTo {m : Node} (hq : m.at? q = some n) (hn : n.opensScope = true) :
    (m.spots fun _ => true).filter (fun spot => m.scopeTo spot.address = some q) =
      (spotsOf inScope n.inner).map fun spot => ⟨q ++ spot.address, spot.node⟩ := by
  induction q generalizing m with
  | nil =>
    cases hq
    rw [n.spots_eq, if_pos rfl, List.filter_cons_of_neg (by simp [Node.scopeTo]), spotsOf_inScope]
    refine (List.filter_congr fun spot hspot => ?_).trans (List.map_id _).symm
    rw [Node.scopeTo_eq (address_ne_nil hspot), hn]
    have hne := @scopeAbove_ne_nil n.inner spot.address
    cases hscope : scopeAbove n.inner spot.address <;> simp_all
  | cons i rest ih =>
    obtain ⟨o, ho, hrest⟩ := Option.bind_eq_some_iff.1 hq
    have hinner : (m.spots fun _ => true).filter
          (fun spot => m.scopeTo spot.address = some (i :: rest)) =
        (spotsOf (fun _ => true) m.inner).filter
          fun spot => scopeAbove m.inner spot.address = some (i :: rest) := by
      rw [m.spots_eq, if_pos rfl, List.filter_cons_of_neg (by simp [Node.scopeTo])]
      refine List.filter_congr fun spot hspot => ?_
      rw [Node.scopeTo_eq (address_ne_nil hspot)]
      cases scopeAbove m.inner spot.address with
      | none => split <;> simp
      | some q => simp
    rw [hinner, filter_scopeAbove_cons ho, ih hrest, List.map_map]
    rfl

theorem filter_scopeAbove (hq : nodeAt? nodes q = some n) (hn : n.opensScope = true) :
    (spotsOf (fun _ => true) nodes).filter (fun spot => scopeAbove nodes spot.address = some q) =
      (spotsOf inScope n.inner).map fun spot => ⟨q ++ spot.address, spot.node⟩ := by
  cases q with
  | nil => cases hq
  | cons i rest =>
    obtain ⟨m, hm, hrest⟩ := Option.bind_eq_some_iff.1 hq
    rw [filter_scopeAbove_cons hm, Node.filter_scopeTo hrest hn, List.map_map]
    rfl

theorem Node.exists_of_scopeTo {m : Node} (h : m.scopeTo a = some q) :
    ∃ n, m.at? q = some n ∧ n.opensScope = true := by
  induction a generalizing m q with
  | nil => cases h
  | cons i rest ih =>
    rw [Node.scopeTo, Option.or_eq_some_iff] at h
    rcases h with h | ⟨-, h⟩
    · obtain ⟨o, ho, hscope⟩ := Option.bind_eq_some_iff.1 h
      obtain ⟨q', hq', rfl⟩ := Option.map_eq_some_iff.1 hscope
      obtain ⟨n, hn, hopens⟩ := ih hq'
      exact ⟨n, by rw [Node.at?, ho, Option.bind_some, hn], hopens⟩
    · split at h
      next hopens =>
        cases h
        exact ⟨m, rfl, hopens⟩
      next => cases h

/-- At the scope above an address stands a node that opens it. -/
theorem exists_of_scopeAbove (h : scopeAbove nodes a = some q) :
    ∃ n, nodeAt? nodes q = some n ∧ n.opensScope = true := by
  cases a with
  | nil => cases h
  | cons i rest =>
    obtain ⟨m, hm, hscope⟩ := Option.bind_eq_some_iff.1 h
    obtain ⟨q', hq', rfl⟩ := Option.map_eq_some_iff.1 hscope
    obtain ⟨n, hn, hopens⟩ := Node.exists_of_scopeTo hq'
    exact ⟨n, by rw [nodeAt?, hm, Option.bind_some, hn], hopens⟩

end Scopes

end Hyperscript
