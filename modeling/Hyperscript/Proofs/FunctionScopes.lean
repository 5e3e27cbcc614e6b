import Hyperscript.Generate
import Hyperscript.Proofs.Tree.Addresses

/-!
# Declarations by function scope

A script has a function for the content of each mixin, of each `each` and of each call with
children, and defines the mixins declared in a function where it starts.  So each declaration has to
belong to one function: the innermost one around its address, or the script itself.

All declarations of a tree are listed by one walk, and those of a function by a walk of another
kind through its content.  The main statement is that the second kind of walk parts what the first
one lists.
-/

namespace Hyperscript

/-! ## Functions and declarations in a tree -/

/-- The content of the function that a node opens, if it opens one. -/
def Node.scopeBody? : Node → Option Content
  | each _ _ _ children alternate => (eachScope children alternate).toOption
  | mixin _ _ _ children => some children
  | call _ _ _ children => if children.isNull then none else some children
  | _ => none

section

variable (nodes : List Node)

/-- All addresses in a tree, in document order. -/
def addressesOf : List Address :=
  (spotsOf (fun _ => true) nodes).map Spot.address

/-- The content of the function that is opened at an address. -/
def bodyAt? (a : Address) : Option Content :=
  (nodeAt? nodes a).bind Node.scopeBody?

/-- The addresses at which a function is opened. -/
def scopesOf : List Address :=
  (addressesOf nodes).filter fun a => (bodyAt? nodes a).isSome

/-- The declaration at an address. -/
def declarationAt? (a : Address) : Option Declaration :=
  (nodeAt? nodes a).bind fun n => (Content.node n).declaration?

/-- The addresses of the declarations in a tree. -/
def declared : List Address :=
  (addressesOf nodes).filter fun a => (declarationAt? nodes a).isSome

/-- The addresses of the declarations that have this scope above them. -/
def declaredIn (scope : Option Address) : List Address :=
  (declared nodes).filter fun a => scopeAbove nodes a = scope

end

section

variable {nodes : List Node} {n : Node} {a q : Address}

theorem nodup_addressesOf (nodes : List Node) : (addressesOf nodes).Nodup :=
  nodup_spotsOf nodes

theorem mem_addressesOf : a ∈ addressesOf nodes ↔ (nodeAt? nodes a).isSome = true := by
  rw [addressesOf, List.mem_map, Option.isSome_iff_exists]
  constructor
  · rintro ⟨⟨a, m⟩, hspot, rfl⟩
    exact ⟨m, mem_spotsOf.1 hspot⟩
  · rintro ⟨m, hm⟩
    exact ⟨⟨a, m⟩, mem_spotsOf.2 hm, rfl⟩

theorem mem_declared : a ∈ declared nodes ↔ (declarationAt? nodes a).isSome = true := by
  rw [declared, List.mem_filter, mem_addressesOf, and_iff_right_iff_imp, declarationAt?]
  exact Option.isSome_of_isSome_bind

theorem mem_scopesOf : q ∈ scopesOf nodes ↔ (bodyAt? nodes q).isSome = true := by
  rw [scopesOf, List.mem_filter, mem_addressesOf, and_iff_right_iff_imp, bodyAt?]
  exact Option.isSome_of_isSome_bind

/-- At the address of a spot stands its node. -/
theorem filterMap_declared (p : Address → Bool) :
    ((declared nodes).filter p).filterMap (declarationAt? nodes) =
      ((spotsOf (fun _ => true) nodes).filter fun spot => p spot.address).filterMap
        fun spot => (Content.node spot.node).declaration? := by
  rw [declared, addressesOf, List.filterMap_filter, List.filterMap_filter, List.filterMap_map,
    List.filterMap_filter]
  refine List.filterMap_congr fun spot hspot => ?_
  have hnode : nodeAt? nodes spot.address = some spot.node := mem_spotsOf.1 hspot
  rw [Function.comp_apply, declarationAt?, hnode, Option.bind_some]
  cases hdeclaration : (Content.node spot.node).declaration? <;> simp

/-! ## The content of a function -/

/-- The content of a function has the nodes directly in the node that opens it, and a node that
opens a function but has no content for it has nothing in it. -/
theorem Node.HoldsNodes.scopeBody?_eq (h : n.HoldsNodes) (hopens : n.opensScope = true) :
    n.scopeBody? = some (.list (n.inner.map .node)) ∨ n.scopeBody? = none ∧ n.inner = [] := by
  cases n with
  | mixin name params rest children =>
    obtain ⟨nodes, rfl⟩ := h
    refine .inl ?_
    show some _ = some (Content.list ((Content.list (nodes.map .node)).nodes.map .node))
    rw [Content.nodes_map]
  | call name args attributes children =>
    rcases h with hnull | ⟨nodes, rfl⟩
    · exact .inr ⟨if_pos hnull, Content.nodes_of_isNull hnull⟩
    · refine .inl ?_
      show some _ = some (Content.list ((Content.list (nodes.map .node)).nodes.map .node))
      rw [Content.nodes_map]
  | each obj val key children alternate =>
    obtain ⟨⟨nodes, rfl⟩, halternate⟩ := h
    have hscope : eachScope (.list (nodes.map .node)) alternate =
        .ok (.list ((nodes ++ alternate.nodes).map .node)) := by
      rw [eachScope, List.map_append]
      rcases halternate with hnull | ⟨others, rfl⟩
      · cases alternate with
        | datum d =>
          cases d with
          | null => rfl
          | _ => cases hnull
        | node | list => cases hnull
      · rw [Content.nodes_map]
        cases others <;> rfl
    refine .inl ?_
    rw [Node.scopeBody?, hscope, Node.inner, Content.nodes_map]
    rfl
  | tag | text | code | comment | conditional | branch | switch | loop | placeholder | other =>
    cases hopens

theorem Node.opensScope_of_scopeBody? {body : Content} (h : n.scopeBody? = some body) :
    n.opensScope = true := by
  cases n <;> first | rfl | cases h

theorem Node.Formed.at? {m : Node} (h : m.Formed) (hn : m.at? a = some n) : n.Formed := by
  induction a generalizing m with
  | nil =>
    cases hn
    exact h
  | cons i rest ih =>
    obtain ⟨o, ho, hrest⟩ := Option.bind_eq_some_iff.1 hn
    cases h with
    | mk _ hinner => exact ih (hinner o (List.mem_of_getElem? ho)) hrest

theorem formed_of_nodeAt? (h : ∀ n ∈ nodes, n.Formed) (hn : nodeAt? nodes a = some n) :
    n.Formed := by
  cases a with
  | nil => cases hn
  | cons i rest =>
    obtain ⟨m, hm, hrest⟩ := Option.bind_eq_some_iff.1 hn
    exact (h m (List.mem_of_getElem? hm)).at? hrest

/-! ## Listing declarations -/

theorem declarations_of_formed (h : ∀ n ∈ nodes, n.Formed) :
    (Content.list (nodes.map .node)).declarations =
      .ok ((visited (fun _ => true) nodes).filterMap Content.declaration?) := by
  have hwalk : (Content.list (nodes.map .node)).walk = .ok (visited (fun _ => true) nodes) :=
    covers_of_formed h
  rw [Content.declarations, hwalk]
  rfl

theorem scopeDeclarations_of_formed (h : ∀ n ∈ nodes, n.Formed) :
    (Content.list (nodes.map .node)).scopeDeclarations =
      .ok ((visited inScope nodes).filterMap Content.declaration?) := by
  have hwalk : (Content.list (nodes.map .node)).walkScope = .ok (visited inScope nodes) :=
    covers_of_formed h
  rw [Content.scopeDeclarations, hwalk]
  rfl

theorem filterMap_visited (enter : Node → Bool) (nodes : List Node) :
    (visited enter nodes).filterMap Content.declaration? =
      (spotsOf enter nodes).filterMap fun spot => (Content.node spot.node).declaration? :=
  List.filterMap_map

/-- What the walk through a whole tree lists are the declarations at their addresses. -/
theorem declarations_eq (h : ∀ n ∈ nodes, n.Formed) :
    (Content.list (nodes.map .node)).declarations =
      .ok ((declared nodes).filterMap (declarationAt? nodes)) := by
  have hall := @filterMap_declared nodes fun _ => true
  rw [List.filter_true, List.filter_true] at hall
  rw [declarations_of_formed h, filterMap_visited, hall]

/-- What the walk through the outermost scope lists has no scope above it. -/
theorem scopeDeclarations_eq (h : ∀ n ∈ nodes, n.Formed) :
    (Content.list (nodes.map .node)).scopeDeclarations =
      .ok ((declaredIn nodes none).filterMap (declarationAt? nodes)) := by
  rw [scopeDeclarations_of_formed h, filterMap_visited, spotsOf_inScope, declaredIn,
    filterMap_declared]

/-- What the walk through the content of a function lists has that function above it. -/
theorem scopeDeclarations_body (h : ∀ n ∈ nodes, n.Formed) {body : Content}
    (hbody : bodyAt? nodes q = some body) :
    body.scopeDeclarations =
      .ok ((declaredIn nodes (some q)).filterMap (declarationAt? nodes)) := by
  obtain ⟨n, hq, hn⟩ := Option.bind_eq_some_iff.1 hbody
  have hopens := Node.opensScope_of_scopeBody? hn
  obtain ⟨hholds, hinner⟩ := formed_of_nodeAt? h hq
  obtain hsome | ⟨hnone, -⟩ := hholds.scopeBody?_eq hopens
  · cases hsome.symm.trans hn
    rw [scopeDeclarations_of_formed hinner, filterMap_visited, declaredIn, filterMap_declared,
      filter_scopeAbove hq hopens, List.filterMap_map]
    rfl
  · cases hnone.symm.trans hn

/-! ## Parts -/

/-- Only functions with a content are above an address. -/
theorem mem_scopesOf_of_scopeAbove (h : ∀ n ∈ nodes, n.Formed) (ha : a ∈ addressesOf nodes)
    (hscope : scopeAbove nodes a = some q) : q ∈ scopesOf nodes := by
  obtain ⟨n, hq, hopens⟩ := exists_of_scopeAbove hscope
  obtain ⟨spot, hspot, rfl⟩ := List.mem_map.1 ha
  have hbelow : spot ∈ (spotsOf (fun _ => true) nodes).filter
      fun spot => scopeAbove nodes spot.address = some q := by
    simp [hspot, hscope]
  obtain ⟨hholds, -⟩ := formed_of_nodeAt? h hq
  rw [mem_scopesOf, bodyAt?, hq, Option.bind_some]
  obtain hsome | ⟨-, hinner⟩ := hholds.scopeBody?_eq hopens
  · rw [hsome]
    rfl
  · -- the spot is in the node, so the node has something in it
    rw [filter_scopeAbove hq hopens, hinner] at hbelow
    cases hbelow

/-- A list is parted by where its members belong. -/
theorem perm_parts {α β : Type} [DecidableEq β] {l : List α} {keys : List β} {f : α → Option β}
    (hl : l.Nodup) (hkeys : keys.Nodup) (h : ∀ x ∈ l, ∀ key, f x = some key → key ∈ keys) :
    l.Perm (l.filter (f · = none) ++ keys.flatMap fun key => l.filter (f · = some key)) := by
  refine (List.perm_ext_iff_of_nodup hl ?_).2 fun x => ?_
  · rw [List.nodup_append', List.nodup_flatMap]
    refine ⟨hl.filter _, ⟨fun _ _ => hl.filter _, hkeys.imp fun {k k'} hne x hx hx' => ?_⟩,
      fun x hx hx' => ?_⟩
    · simp only [List.mem_filter, decide_eq_true_eq] at hx hx'
      exact hne (Option.some.inj (hx.2.symm.trans hx'.2))
    · simp only [List.mem_filter, List.mem_flatMap, decide_eq_true_eq] at hx hx'
      obtain ⟨_, -, -, hsome⟩ := hx'
      cases hx.2.symm.trans hsome
  · simp only [List.mem_append, List.mem_filter, List.mem_flatMap, decide_eq_true_eq]
    constructor
    · intro hx
      cases hf : f x with
      | none => exact .inl ⟨hx, rfl⟩
      | some key => exact .inr ⟨key, h x hx key hf, hx, rfl⟩
    · rintro (⟨hx, -⟩ | ⟨_, -, hx, -⟩)
      · exact hx
      · exact hx

end

/-- Each declaration of a tree belongs to one function.  The walk through the tree comes to every
address of the tree once.  Of the declarations that it lists, the walk through the outermost scope
lists those with no function above them, and the walk through the content of a function those with
that function above them.  So these lists part the first one, and in each of them the declarations
are in the same order as there. -/
theorem declarations_by_scope (nodes : List Node) (h : ∀ n ∈ nodes, n.Formed) :
    (Content.list (nodes.map .node)).walk =
      .ok ((addressesOf nodes).filterMap fun a => (nodeAt? nodes a).map .node) ∧
    (addressesOf nodes).Nodup ∧
    (∀ a, a ∈ declared nodes ↔ (declarationAt? nodes a).isSome = true) ∧
    (Content.list (nodes.map .node)).declarations =
      .ok ((declared nodes).filterMap (declarationAt? nodes)) ∧
    (Content.list (nodes.map .node)).scopeDeclarations =
      .ok ((declaredIn nodes none).filterMap (declarationAt? nodes)) ∧
    (∀ q body, bodyAt? nodes q = some body →
      body.scopeDeclarations =
        .ok ((declaredIn nodes (some q)).filterMap (declarationAt? nodes))) ∧
    (declared nodes).Perm
      (declaredIn nodes none ++ (scopesOf nodes).flatMap fun q => declaredIn nodes (some q)) ∧
    ∀ scope, (declaredIn nodes scope).Sublist (declared nodes) := by
  have haddresses := nodup_addressesOf nodes
  refine ⟨?_, haddresses, fun _ => mem_declared, declarations_eq h, scopeDeclarations_eq h,
    fun _ _ => scopeDeclarations_body h, ?_, fun _ => List.filter_sublist⟩
  · have hwalk : (Content.list (nodes.map .node)).walk = .ok (visited (fun _ => true) nodes) :=
      covers_of_formed h
    rw [hwalk, addressesOf, List.filterMap_map, visited, ← List.filterMap_eq_map]
    refine congrArg Except.ok (List.filterMap_congr fun spot hspot => ?_)
    have hnode : nodeAt? nodes spot.address = some spot.node := mem_spotsOf.1 hspot
    rw [Function.comp_apply, Function.comp_apply, hnode]
    rfl
  · exact perm_parts (haddresses.filter _) (haddresses.filter _) fun a ha q hscope =>
      mem_scopesOf_of_scopeAbove h (List.mem_of_mem_filter ha) hscope

/-- A mixin without parameters and content. -/
def noteMixin : Node := .mixin (.str "note") (.list []) .null (.list [])

/-- The same declaration at many addresses: in a mixin, in an `each` and its alternate, in a chain
of conditionals, in a case and in a call. -/
def scatteredNodes : List Node :=
  [.mixin (.str "outer") (.list []) .null (.list [.node noteMixin]),
    .each (.str "xs") (.str "x") .null (.list [.node noteMixin]) (.list [.node noteMixin]),
    .conditional (.str "a") (.list [.node noteMixin])
      (.node (.conditional (.str "b") (.list []) (.list [.node noteMixin]))),
    .switch (.str "c") (.list [.node (.branch .null (.list [.node noteMixin]))]),
    .call (.str "outer") (.str "") {} (.list [.node noteMixin]),
    .call (.str "outer") (.str "") {} (.datum .null)]

theorem formed_scatteredNodes : ∀ n ∈ scatteredNodes, n.Formed := by
  have hnone : ∀ m ∈ ([] : List Node), m.Formed := fun _ hm => absurd hm List.not_mem_nil
  have hnote : noteMixin.Formed := .mk ⟨[], rfl⟩ hnone
  have hone : ∀ m ∈ [noteMixin], m.Formed := List.forall_mem_singleton.2 hnote
  have htwo : ∀ m ∈ [noteMixin, noteMixin], m.Formed := List.forall_mem_cons.2 ⟨hnote, hone⟩
  have helse : (Node.conditional (.str "b") (.list []) (.list [.node noteMixin])).Formed :=
    .mk ⟨⟨[], rfl⟩, .inl (.inr ⟨[noteMixin], rfl⟩)⟩ hone
  have hbranch : (Node.branch .null (.list [.node noteMixin])).Formed :=
    .mk (.inr ⟨[noteMixin], rfl⟩) hone
  simp only [scatteredNodes, List.forall_mem_cons]
  refine ⟨.mk ⟨[noteMixin], rfl⟩ hone, .mk ⟨⟨[noteMixin], rfl⟩, .inr ⟨[noteMixin], rfl⟩⟩ htwo,
    .mk ⟨⟨[noteMixin], rfl⟩, .inr ⟨_, rfl, rfl⟩⟩ (List.forall_mem_cons.2 ⟨hnote, ?_⟩),
    .mk ⟨[_], rfl⟩ (List.forall_mem_singleton.2 hbranch), .mk (.inr ⟨[noteMixin], rfl⟩) hone,
    .mk (.inl rfl) hnone, hnone⟩
  exact List.forall_mem_singleton.2 helse

/-- The two declarations in the `each` belong to it, and those in the chain of conditionals and in
the case to the script. -/
theorem declarations_by_scope_scatteredNodes :
    (∀ n ∈ scatteredNodes, n.Formed) ∧
    bodyAt? scatteredNodes [1] = some (.list [.node noteMixin, .node noteMixin]) ∧
    (Content.list [.node noteMixin, .node noteMixin]).scopeDeclarations =
      .ok ((declaredIn scatteredNodes (some [1])).filterMap (declarationAt? scatteredNodes)) ∧
    [1, 0] ∈ declaredIn scatteredNodes (some [1]) ∧ [1, 1] ∈ declaredIn scatteredNodes (some [1]) ∧
    [2, 1, 0] ∈ declaredIn scatteredNodes none ∧ [3, 0, 0] ∈ declaredIn scatteredNodes none ∧
    (declared scatteredNodes).Perm (declaredIn scatteredNodes none ++
      (scopesOf scatteredNodes).flatMap fun q => declaredIn scatteredNodes (some q)) := by
  obtain ⟨-, -, hdeclared, -, -, hbody, hparts, -⟩ :=
    declarations_by_scope scatteredNodes formed_scatteredNodes
  have hmem : ∀ a scope, (declarationAt? scatteredNodes a).isSome = true →
      scopeAbove scatteredNodes a = scope → a ∈ declaredIn scatteredNodes scope :=
    fun a scope ha hscope => List.mem_filter.2 ⟨(hdeclared a).2 ha, by simpa using hscope⟩
  exact ⟨formed_scatteredNodes, rfl, hbody [1] _ rfl, hmem _ _ rfl rfl, hmem _ _ rfl rfl,
    hmem _ _ rfl rfl, hmem _ _ rfl rfl, hparts⟩

end Hyperscript
