import Hyperscript.Proofs.Compilation

/-!
# Which templates compile

A well-typed template compiles exactly if it has a single root, the names of its mixins are
distinct, and every node of it is supported where it stands.  The faults come in that order, and
there are no others.
-/

namespace Hyperscript

/-- The declarations among the nodes of a walk have distinct names. -/
def DistinctMixins (walked : List Content) : Prop :=
  ((walked.filterMap Content.declaration?).map Declaration.name).Nodup

/-- Every node of a template is supported where it stands; `walked` are the nodes of its walk. -/
structure Supported (nodes walked : List Content) : Prop where
  /-- Every call names a mixin that is declared somewhere. -/
  calls : ∀ name args attributes children, .node (.call name args attributes children) ∈ walked →
    ∃ params rest body, .node (.mixin name params rest body) ∈ walked
  /-- Every placeholder stands below a mixin declaration. -/
  placeholders : ∀ above, Occurs above .placeholder nodes → ∃ m ∈ above, m.isMixin = true
  /-- No node is of another kind. -/
  kinds : ∀ kind, .node (.other kind) ∉ walked
  /-- The branches are the nodes right below a case. -/
  branches : ∀ above n, Occurs above n nodes →
    (n.isBranch = true ↔ ∃ m, above.getLast? = some m ∧ m.isSwitch = true)

theorem supported_iff {nodes walked : List Content} (h : WellTypedNodes nodes)
    (hwalked : ∀ c, c ∈ walked ↔ ∃ n above, c = .node n ∧ Occurs above n nodes)
    (known : Datum → Prop)
    (hknown : ∀ s : String, known (.str s) ↔
      ∃ params rest body, .node (.mixin (.str s) params rest body) ∈ walked) :
    AllPermitted (fun _ => True) known False False nodes ↔ Supported nodes walked := by
  have hmem : ∀ {n : Node}, .node n ∈ walked ↔ ∃ above, Occurs above n nodes := by
    intro n
    rw [hwalked]
    exact ⟨fun ⟨m, above, hm, hocc⟩ => ⟨above, by cases hm; exact hocc⟩,
      fun ⟨above, hocc⟩ => ⟨n, above, rfl, hocc⟩⟩
  constructor
  · intro hall
    refine ⟨?_, ?_, ?_, ?_⟩
    · intro name args attributes children hcall
      obtain ⟨above, hocc⟩ := hmem.1 hcall
      have hfits := (hall above _ hocc trivial).2
      cases h.of_occurs hocc with
      | call => exact (hknown _).1 hfits
    · intro above hocc
      simpa [Node.Fits] using (hall above _ hocc trivial).2
    · intro kind hother
      obtain ⟨above, hocc⟩ := hmem.1 hother
      exact (hall above _ hocc trivial).2
    · intro above n hocc
      rw [(hall above n hocc trivial).1]
      cases above.getLast? <;> simp
  · rintro hs above n hocc -
    refine ⟨?_, ?_⟩
    · rw [hs.branches above n hocc]
      cases above.getLast? <;> simp
    · cases h.of_occurs hocc with
      | call => exact (hknown _).2 (hs.calls _ _ _ _ (hmem.2 ⟨above, hocc⟩))
      | placeholder => exact .inr (hs.placeholders above hocc)
      | other => exact hs.kinds _ (hmem.2 ⟨above, hocc⟩)
      | _ => trivial

/-- What the registry reads from the declarations of a well-typed template. -/
theorem WellTypedNodes.declaration_slots {nodes walked : List Content} (h : WellTypedNodes nodes)
    (hwalked : ∀ c, c ∈ walked ↔ ∃ n above, c = .node n ∧ Occurs above n nodes) :
    ∀ d ∈ walked.filterMap Content.declaration?,
      (∃ s, d.name = .str s) ∧ ∃ params, d.params.items = .ok params := by
  intro d hd
  obtain ⟨c, hc, hdecl⟩ := List.mem_filterMap.1 hd
  obtain ⟨n, above, rfl, hocc⟩ := (hwalked c).1 hc
  cases h.of_occurs hocc with
  | mixin params =>
    cases hdecl
    exact ⟨⟨_, rfl⟩, _, rfl⟩
  | _ => cases hdecl

theorem mem_declared_iff {walked : List Content} {name : Datum} :
    name ∈ (walked.filterMap Content.declaration?).map Declaration.name ↔
      ∃ params rest body, .node (.mixin name params rest body) ∈ walked := by
  rw [List.mem_map]
  constructor
  · rintro ⟨d, hd, rfl⟩
    obtain ⟨c, hc, hdecl⟩ := List.mem_filterMap.1 hd
    unfold Content.declaration? at hdecl
    split at hdecl
    · cases hdecl
      exact ⟨_, _, _, hc⟩
    · cases hdecl
  · rintro ⟨params, rest, body, hmem⟩
    exact ⟨⟨name, params, rest, body⟩, List.mem_filterMap.2 ⟨_, hmem, rfl⟩, rfl⟩

open Generation in
/-- The script of a well-typed template. -/
theorem decides_program (scope : Scope) (hd : 0 ≤ scope.depth) {nodes : List Content}
    (h : WellTypedNodes nodes) :
    Decides (Session.program scope (.list nodes))
      (AllPermitted (fun _ => True) scope.mixins.Knows (0 < scope.depth) False nodes) := by
  unfold Session.program Content.hoisted
  simp only [Content.generate, Content.definitions]
  refine (Decides.step decides_fresh fun root =>
    .bind (.step (decides_lift h.scopeDeclarations)
      fun _ => h.decides_definitions hd False) fun _ =>
    .last (P := AllPermitted Generated scope.mixins.Knows (0 < scope.depth) False nodes)
      (h.decides_generate (Scope.filling_filling hd root) [] (by simp)) fun _ =>
    decides_pure _).congr ?_
  exact allPermitted_true_iff.symm

/-! ## Compilation -/

open Generation in
/-- The stages of compilation: each ends it with a fault of its own, or hands on to the next. -/
theorem compile_cases {options : Options} (hformat : options.formatter = .absent)
    {nodes walked : List Content} (h : WellTypedNodes nodes)
    (hwalk : (Content.list nodes).walk = .ok walked)
    (hwalked : ∀ c, c ∈ walked ↔ ∃ n above, c = .node n ∧ Occurs above n nodes) :
    (¬SingleRoot nodes ∧
      ∃ f, compile options (.list nodes) = .error f ∧ f.family = .rootCount) ∨
    (SingleRoot nodes ∧ ¬DistinctMixins walked ∧
      ∃ f, compile options (.list nodes) = .error f ∧ f.family = .duplicateMixin) ∨
    (SingleRoot nodes ∧ DistinctMixins walked ∧ ¬Supported nodes walked ∧
      ∃ f, compile options (.list nodes) = .error f ∧ IsRefusal f) ∨
    (SingleRoot nodes ∧ DistinctMixins walked ∧ Supported nodes walked ∧
      ∃ c, compile options (.list nodes) = .ok c) := by
  have hfree :
      Registry.Free {} (walked.filterMap Content.declaration?) ↔ DistinctMixins walked := by
    simp [Registry.Free, Registry.Knows, Registry.find?, DistinctMixins]
  have hdecls : (Content.list nodes).declarations =
      .ok (walked.filterMap Content.declaration?) := by
    rw [Content.declarations, hwalk]
    rfl
  -- the stages in their order: the root, the registry, and then the script
  rcases root_cases nodes with ⟨hroot, c, hc⟩ | ⟨hroot, f, hf, hfamily⟩
  · rcases foldlM_declare_cases _ (h.declaration_slots hwalked) {} with
      ⟨hdistinct, r, hr, hknows⟩ | ⟨hdup, f, hf, hfamily⟩
    · rw [hfree] at hdistinct
      rw [compile_of_declared hformat h.forM_checkNode hc hdecls hr]
      have hsupported := supported_iff h hwalked r.Knows fun s => by
        rw [hknows, mem_declared_iff]
        simp [Registry.Knows, Registry.find?]
      have hprogram : Decides (Session.program ⟨options, r, none, 0⟩ (.list nodes))
          (Supported nodes walked) :=
        (decides_program _ (Int.le_refl 0) h).congr (by simpa using hsupported)
      rcases hprogram 0 with ⟨hs, p, hp⟩ | ⟨hs, f, hf, hrefusal⟩
      · exact .inr (.inr (.inr ⟨hroot, hdistinct, hs, _, by rw [hp]; rfl⟩))
      · exact .inr (.inr (.inl ⟨hroot, hdistinct, hs, f, by rw [hf]; rfl, hrefusal⟩))
    · rw [hfree] at hdup
      exact .inr (.inl ⟨hroot, hdup, f,
        compile_of_declare_error h.forM_checkNode hc hdecls hf, hfamily⟩)
  · exact .inl ⟨hroot, f, compile_of_root_error h.forM_checkNode hf, hfamily⟩

theorem supported_of_compile {options : Options} (hformat : options.formatter = .absent)
    {nodes walked : List Content} (h : WellTypedNodes nodes)
    (hwalk : (Content.list nodes).walk = .ok walked)
    (hwalked : ∀ c, c ∈ walked ↔ ∃ n above, c = .node n ∧ Occurs above n nodes)
    {compiled : Compiled} (hcompile : compile options (.list nodes) = .ok compiled) :
    SingleRoot nodes ∧ DistinctMixins walked ∧ Supported nodes walked := by
  have hnot : ∀ {f}, compile options (.list nodes) ≠ .error f := by
    intro f hf
    rw [hcompile] at hf
    cases hf
  rcases compile_cases hformat h hwalk hwalked with ⟨-, f, hf, -⟩ | ⟨-, -, f, hf, -⟩ |
    ⟨-, -, -, f, hf, -⟩ | ⟨hroot, hdistinct, hs, -⟩
  · exact absurd hf hnot
  · exact absurd hf hnot
  · exact absurd hf hnot
  · exact ⟨hroot, hdistinct, hs⟩

/-- A well-typed template compiles exactly if it has a single root, its mixins have distinct names
and its nodes are supported.  Otherwise the fault is one of the root, of a name declared twice, or a
refusal of some node, in this order of precedence. -/
theorem compile_succeeds_iff (options : Options) (hformat : options.formatter = .absent)
    {nodes : List Content} (h : WellTypedNodes nodes) :
    ∃ walked, (Content.list nodes).walk = .ok walked ∧
      ((∃ c, compile options (.list nodes) = .ok c) ↔
        SingleRoot nodes ∧ DistinctMixins walked ∧ Supported nodes walked) ∧
      ∀ f, compile options (.list nodes) = .error f →
        (f.family = .rootCount ↔ ¬SingleRoot nodes) ∧
        (SingleRoot nodes → (f.family = .duplicateMixin ↔ ¬DistinctMixins walked)) ∧
        (SingleRoot nodes → DistinctMixins walked →
          f.family = .unknownMixin ∨ f.family = .unsupportedNode) := by
  obtain ⟨walked, hwalk, hwalked⟩ := h.walk
  refine ⟨walked, hwalk, ?_⟩
  rcases compile_cases hformat h hwalk hwalked with ⟨hroot, f, hf, hfamily⟩ |
    ⟨hroot, hdup, f, hf, hfamily⟩ | ⟨hroot, hdistinct, hs, f, hf, hrefusal⟩ |
    ⟨hroot, hdistinct, hs, c, hc⟩
  · simp [hf, hroot, hfamily]
  · simp [hf, hroot, hdup, hfamily]
  · rcases hrefusal with hfamily | hfamily <;> simp [hf, hroot, hdistinct, hs, hfamily]
  · simp [hc, hroot, hdistinct, hs]

/-- A list whose entries come from a mixin: the block of the call goes into a loop. -/
def listTemplate : List Content :=
  [.node (.mixin (.str "entry") (.list [.str "xs"]) .null (.list [
      .node (.each (.str "xs") (.str "x") .null (.list [.node .placeholder]) (.datum .null))])),
    .node (.tag (.str "ul") {} (.list [
      .node (.call (.str "entry") (.str "all") {} (.list [.node (.text (.str "#\x7bx\x7d"))])),
      .node (.switch (.str "n") (.list [.node (.branch .null (.datum .null))]))]))]

theorem listTemplate_wellTyped : WellTypedNodes listTemplate :=
  .cons (.mixin ["xs"] .null (.cons (.each .null (.cons .placeholder .nil) .null) .nil))
    (.cons (.tag (.mk [] [] (by simp))
      (.cons (.call (.mk [] [] (by simp)) (.list (.cons .text .nil)))
        (.cons (.switch (.cons (.branch .null .null) .nil)) .nil))) .nil)

theorem compile_listTemplate_succeeds_iff :
    WellTypedNodes listTemplate ∧ (∃ c, compile {} (.list listTemplate) = .ok c) ∧
      ∃ walked, (Content.list listTemplate).walk = .ok walked ∧
        SingleRoot listTemplate ∧ DistinctMixins walked ∧ Supported listTemplate walked := by
  have hcompile : ∃ c, compile {} (.list listTemplate) = .ok c :=
    exists_compiled_of_scriptOf rfl ⟨_, rfl⟩
  obtain ⟨walked, hwalk, hiff, -⟩ := compile_succeeds_iff {} rfl listTemplate_wellTyped
  exact ⟨listTemplate_wellTyped, hcompile, walked, hwalk, hiff.1 hcompile⟩

end Hyperscript
