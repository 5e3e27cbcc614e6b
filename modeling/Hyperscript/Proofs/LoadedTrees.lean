import Hyperscript.Proofs.Compilation
import Hyperscript.Proofs.Generation.Faults
import Hyperscript.Proofs.Loading

/-!
# Loaded trees can be compiled

Loading and generation agree on what a tree is.  A document promises nothing, but whatever tree is
loaded from it, generation has code for each of its nodes in its place and for each attribute value.
The faults that are left to the compilation of a loaded tree are those of `Fault.OfTree`.
-/

namespace Hyperscript

section Stages

variable {regular : Prop}

theorem ShapedNodes.forM_checkNode {nodes : List Content} (h : ShapedNodes regular nodes) :
    nodes.forM checkNode = .ok () := by
  induction nodes with
  | nil => rfl
  | cons c nodes ih =>
    cases h with
    | cons hn hrest => exact ih hrest

theorem bounded_root (nodes : List Content) : Bounded regular (root nodes) := by
  rcases root_cases nodes with ⟨-, hroot⟩ | ⟨-, f, hroot, hfamily⟩
  · exact bounded_of_ok hroot
  · rw [hroot]
    cases f with
    | rootKind kind => exact Fault.OfTree.rootKind kind
    | rootCount found => exact Fault.OfTree.rootCount found
    | _ => cases hfamily

theorem bounded_declare (r : Registry) {d : Declaration} (h : d.Shaped regular) :
    Bounded regular (Session.declare r d) := by
  obtain ⟨params, hparams⟩ := h.params
  unfold Session.declare Registry.declare Registry.contains
  rw [hparams]
  refine Meets.bind (P := fun _ => True) trivial fun items _ => ?_
  refine Meets.bind (P := fun _ => True) ?_ fun known _ => ?_
  · exact (bounded_checkKey d.name).bind fun _ _ => trivial
  · split
    · exact (bounded_written _ fun hr => isWritable_of_isText (h.name hr)).bind fun _ _ =>
        Fault.OfTree.duplicateMixin _
    · trivial

theorem bounded_foldlM_declare {ds : List Declaration} (r : Registry)
    (h : ∀ d ∈ ds, d.Shaped regular) : Bounded regular (ds.foldlM Session.declare r) := by
  induction ds generalizing r with
  | nil => trivial
  | cons d ds ih =>
    obtain ⟨hd, hds⟩ := List.forall_mem_cons.1 h
    rw [List.foldlM_cons]
    exact (bounded_declare r hd).bind fun r' _ => ih r' hds

theorem bounded_formatter (format : Formatter) (script : String) :
    Bounded regular (format.run script) := by
  cases format with
  | datum value => exact Fault.OfTree.notCallable _
  | _ => trivial

theorem ShapedNodes.isBounded_program {nodes : List Content} (h : ShapedNodes regular nodes)
    {s : Scope} (hs : 0 ≤ s.depth) : (Session.program s (.list nodes)).IsBounded regular := by
  unfold Session.program Content.hoisted
  refine Generation.isBounded_fresh.bind fun root => ?_
  refine Generation.IsBounded.bind ?_ fun definitions => ?_
  · refine (Generation.isBounded_lift (bounded_of_ok h.scopeDeclarations)).bind fun _ => ?_
    rw [Content.definitions]
    exact h.isBounded_definitions hs
  · rw [Content.generate]
    exact (h.isBounded_generate (Scope.filling_filling hs root) []).bind fun _ =>
      Generation.isBounded_pure _

/-- Each stage of the compilation of a shaped tree ends in no other faults than those of shaped
trees. -/
theorem ShapedNodes.bounded_compile {nodes : List Content} (h : ShapedNodes regular nodes)
    (options : Options) : Bounded regular (compile options (.list nodes)) := by
  obtain ⟨ds, hds, hshaped⟩ := h.declarations
  have hscript : Bounded regular (scriptOf options (.list nodes)) := by
    -- one stage after the other: top level, root, registry, generation
    unfold scriptOf
    refine Meets.bind (P := fun top => top = nodes) rfl fun top htop => ?_
    subst htop
    rw [h.forM_checkNode, hds]
    refine Meets.bind (P := fun _ => True) trivial fun _ _ => ?_
    refine (bounded_root top).bind fun _ _ => ?_
    refine (bounded_foldlM_declare {} hshaped).bind fun r _ => ?_
    exact (h.isBounded_program (Int.le_refl 0) 0).bind fun _ _ => trivial
  rw [compile_eq_scriptOf]
  refine hscript.bind fun (p, mixins) _ => ?_
  dsimp only
  split
  · exact (bounded_formatter _ _).bind fun _ _ => trivial
  · trivial

end Stages

/-- Whatever a document holds, a tree that is loaded from it is shaped.  However it is compiled, no
node of it is refused but a placeholder outside every mixin, and no attribute for its value. -/
theorem compile_loaded {d : Datum} {nodes : List Content} (h : Load.tree d = .ok nodes) :
    ShapedNodes False nodes ∧
      ∀ options f, compile options (.list nodes) = .error f →
        (f.family = .unsupportedNode → f = .strayPlaceholder) ∧
          ∀ name value, f ≠ .invalidAttribute name value := by
  -- nothing is promised about the document, so nothing about the slots of the tree
  have hloads : Loads False (ShapedNodes False) (Load.tree d) := Load.loads_tree False.elim
  rw [h] at hloads
  refine ⟨hloads, fun options f hf => ?_⟩
  have hbounded := ShapedNodes.bounded_compile hloads options
  rw [hf] at hbounded
  cases hbounded with
  | strayPlaceholder => exact ⟨fun _ => rfl, nofun⟩
  | _ => exact ⟨nofun, nofun⟩

/-- A document with a number for an attribute value, an `else if`, a case and a placeholder that
belongs to no mixin. -/
def oddDocument : Datum :=
  .map [(.str "type", .str "Tag"), (.str "name", .str "p"),
    (.str "attrs", .list [.map [(.str "name", .str "a"), (.str "val", .int 2)]]),
    (.str "block", .map [(.str "nodes", .list [
      .map [(.str "type", .str "Conditional"), (.str "test", .bool true),
        (.str "alternate", .map [(.str "type", .str "Conditional"), (.str "test", .null)])],
      .map [(.str "type", .str "Case"), (.str "expr", .str "x"),
        (.str "block", .map [(.str "nodes", .list [
          .map [(.str "type", .str "When"), (.str "expr", .str "default")]])])],
      .map [(.str "type", .str "MixinBlock")]])])]

theorem compile_loaded_oddDocument :
    ∃ nodes, Load.tree oddDocument = .ok nodes ∧ ShapedNodes False nodes ∧
      compile {} (.list nodes) = .error .strayPlaceholder :=
  ⟨_, rfl, (compile_loaded (d := oddDocument) rfl).1, rfl⟩

end Hyperscript
