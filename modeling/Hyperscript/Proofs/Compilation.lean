import Mathlib.Tactic.Tauto
import Hyperscript.Compile
import Hyperscript.Proofs.Generation.Emission
import Hyperscript.Proofs.Generation.Outcome
import Hyperscript.Proofs.Session.Writing

/-!
# The stages of compilation

Compilation finds the root of a template, enters its mixins into a registry, generates a script and
lays it out.  Each stage ends it with faults of its own or hands on to the next.
-/

namespace Hyperscript

/-! ## The root -/

/-- A top-level node that adds nothing to the tree. -/
inductive Content.Silent : Content → Prop where
  | code (value : Datum) : Silent (.node (.code value (.bool false) (.datum .null)))
  | mixin (name params rest : Datum) (children : Content) :
      Silent (.node (.mixin name params rest children))
  | comment (value buffer : Datum) : Silent (.node (.comment value buffer))

/-- Exactly one tag stands at the top level, and otherwise only silent nodes. -/
def SingleRoot (nodes : List Content) : Prop :=
  ∃ before name attributes children after,
    nodes = before ++ .node (.tag name attributes children) :: after ∧
      ∀ c ∈ before ++ after, c.Silent

theorem Content.isSilent_iff {c : Content} : c.isSilent = true ↔ c.Silent := by
  constructor
  · intro h
    unfold Content.isSilent at h
    split at h
    · exact .code _
    · exact .mixin ..
    · exact .comment ..
    · cases h
  · intro h
    cases h <;> rfl

theorem Content.isTag_iff {c : Content} :
    c.isTag = true ↔ ∃ name attributes children, c = .node (.tag name attributes children) := by
  constructor
  · intro h
    unfold Content.isTag at h
    split at h
    · exact ⟨_, _, _, rfl⟩
    · cases h
  · rintro ⟨name, attributes, children, rfl⟩
    rfl

theorem Content.Silent.isTag {c : Content} (h : c.Silent) : c.isTag = false := by
  cases h <;> rfl

/-- The only tag is the root; anything else is a fault of the root. -/
theorem root_cases (nodes : List Content) :
    (SingleRoot nodes ∧ ∃ c, root nodes = .ok c) ∨
      (¬SingleRoot nodes ∧ ∃ f, root nodes = .error f ∧ f.family = .rootCount) := by
  unfold root
  split
  · -- some node is neither a tag nor silent
    rename_i c rest hothers
    refine .inr ⟨?_, _, rfl, rfl⟩
    have hc : c ∈ nodes.filter fun c => !c.isTag && !c.isSilent := by
      rw [hothers]
      exact List.mem_cons_self ..
    rw [List.mem_filter, Bool.and_eq_true, Bool.not_eq_true', Bool.not_eq_true'] at hc
    rintro ⟨before, name, attributes, children, after, rfl, hsilent⟩
    obtain ⟨hmem, htag, hnot⟩ := hc
    rcases List.mem_cons.1 (List.perm_middle.mem_iff.1 hmem) with rfl | hc
    · exact Bool.noConfusion htag
    · rw [Content.isSilent_iff.2 (hsilent c hc)] at hnot
      exact absurd hnot (by decide)
  · rename_i hothers
    have hall : ∀ c ∈ nodes, c.isTag = true ∨ c.Silent := by
      intro c hc
      have h := List.filter_eq_nil_iff.1 hothers c hc
      rw [Bool.and_eq_true, Bool.not_eq_true', Bool.not_eq_true', not_and_or,
        Bool.not_eq_false, Bool.not_eq_false] at h
      exact h.imp_right Content.isSilent_iff.1
    split
    · -- one tag: what stands around it is silent
      rename_i c htags
      refine .inl ⟨?_, c, rfl⟩
      obtain ⟨before, after, rfl, hbefore, hc, hafter⟩ := List.filter_eq_cons_iff.1 htags
      obtain ⟨name, attributes, children, rfl⟩ := Content.isTag_iff.1 hc
      refine ⟨before, name, attributes, children, after, rfl, fun c hmem => ?_⟩
      rcases hall c (List.perm_middle.mem_iff.2 (List.mem_cons_of_mem _ hmem)) with htag | hsilent
      · rcases List.mem_append.1 hmem with hb | ha
        · exact absurd htag (hbefore c hb)
        · exact absurd htag (List.filter_eq_nil_iff.1 hafter c ha)
      · exact hsilent
    · -- no tag, or several: a single root would be the only one that the filter keeps
      rename_i hcount
      refine .inr ⟨?_, _, rfl, rfl⟩
      rintro ⟨before, name, attributes, children, after, rfl, hsilent⟩
      have hnone : ∀ l : List Content, (∀ c ∈ l, c ∈ before ++ after) →
          l.filter Content.isTag = [] := by
        intro l hl
        rw [List.filter_eq_nil_iff]
        intro c hc
        rw [(hsilent c (hl c hc)).isTag]
        decide
      apply hcount (.node (.tag name attributes children))
      rw [List.filter_append, List.filter_cons_of_pos (by rfl),
        hnone before (fun c hc => List.mem_append_left _ hc),
        hnone after (fun c hc => List.mem_append_right _ hc), List.nil_append]

/-! ## The registry -/

theorem Registry.knows_append {r : Registry} {s t : String} {params : List Datum} {rest : Datum} :
    Registry.Knows ⟨r.signatures ++ [⟨.str s, params, rest⟩]⟩ (.str t) ↔
      r.Knows (.str t) ∨ s = t := by
  unfold Registry.Knows Registry.find?
  rw [List.find?_append, List.find?_singleton]
  cases r.signatures.find? fun signature => signature.name.sameKey (.str t) with
  | some => simp
  | none => simp [Datum.sameKey]

theorem declare_of_str {d : Declaration} {s : String} {params : List Datum} (hs : d.name = .str s)
    (hp : d.params.items = .ok params) (r : Registry) :
    (r.Knows (.str s) ∧ Session.declare r d = .error (.duplicateMixin s)) ∨
      (¬r.Knows (.str s) ∧
        Session.declare r d = .ok ⟨r.signatures ++ [⟨.str s, params, d.rest⟩]⟩) := by
  unfold Session.declare Registry.declare Registry.contains Registry.Knows
  simp only [hs, hp, Datum.checkKey, bind, Except.bind, pure, Except.pure]
  cases (r.find? (.str s)).isSome with
  | true => exact .inl ⟨rfl, rfl⟩
  | false => exact .inr ⟨by decide, rfl⟩

/-- The declarations `ds` can be entered into a registry: no name is taken or comes twice. -/
def Registry.Free (r : Registry) (ds : List Declaration) : Prop :=
  (ds.map Declaration.name).Nodup ∧ ∀ d ∈ ds, ¬r.Knows d.name

/-- Later declarations find their names free if these were free before and differ from the first. -/
theorem Registry.free_append {r : Registry} {s : String} {params : List Datum} {rest : Datum}
    {ds : List Declaration} (hds : ∀ d ∈ ds, ∃ t, d.name = .str t) :
    Registry.Free ⟨r.signatures ++ [⟨.str s, params, rest⟩]⟩ ds ↔
      r.Free ds ∧ Datum.str s ∉ ds.map Declaration.name := by
  have hknows : ∀ d ∈ ds, Registry.Knows ⟨r.signatures ++ [⟨.str s, params, rest⟩]⟩ d.name ↔
      r.Knows d.name ∨ Datum.str s = d.name := by
    intro d hd
    obtain ⟨t, ht⟩ := hds d hd
    rw [ht, Registry.knows_append, Datum.str.injEq]
  constructor
  · rintro ⟨hnodup, hfree⟩
    refine ⟨⟨hnodup, fun d hd hk => hfree d hd ((hknows d hd).2 (.inl hk))⟩, fun hmem => ?_⟩
    obtain ⟨d, hd, hname⟩ := List.mem_map.1 hmem
    exact hfree d hd ((hknows d hd).2 (.inr hname.symm))
  · rintro ⟨⟨hnodup, hfree⟩, hnot⟩
    refine ⟨hnodup, fun d hd hk => ?_⟩
    rcases (hknows d hd).1 hk with hk | hname
    · exact hfree d hd hk
    · exact hnot (List.mem_map.2 ⟨d, hd, hname.symm⟩)

/-- Declarations are entered one after the other until a name is taken. -/
theorem foldlM_declare_cases (ds : List Declaration)
    (hds : ∀ d ∈ ds, (∃ s, d.name = .str s) ∧ ∃ params, d.params.items = .ok params)
    (r : Registry) :
    (r.Free ds ∧ ∃ r', ds.foldlM Session.declare r = .ok r' ∧
      ∀ s : String, r'.Knows (.str s) ↔ r.Knows (.str s) ∨ .str s ∈ ds.map Declaration.name) ∨
    (¬r.Free ds ∧ ∃ f, ds.foldlM Session.declare r = .error f ∧ f.family = .duplicateMixin) := by
  induction ds generalizing r with
  | nil => exact .inl ⟨by simp [Registry.Free], r, rfl, by simp⟩
  | cons d ds ih =>
    obtain ⟨⟨s, hs⟩, params, hp⟩ := hds d (List.mem_cons_self ..)
    have htail := fun e he => hds e (List.mem_cons_of_mem d he)
    have hcons : r.Free (d :: ds) ↔
        ¬r.Knows (.str s) ∧ r.Free ds ∧ Datum.str s ∉ ds.map Declaration.name := by
      simp only [Registry.Free, List.map_cons, List.nodup_cons, List.forall_mem_cons, hs]
      tauto
    rw [List.foldlM_cons, hcons]
    -- the first name is taken already, or the rest is entered after it
    rcases declare_of_str hs hp r with ⟨hk, hd⟩ | ⟨hk, hd⟩
    · exact .inr ⟨fun h => h.1 hk, _, by rw [hd]; rfl, rfl⟩
    · rw [hd, ← Registry.free_append fun e he => (htail e he).1]
      rcases ih htail ⟨r.signatures ++ [⟨.str s, params, d.rest⟩]⟩ with
        ⟨hf, r', hr', hknows⟩ | ⟨hf, f, hfold, hfam⟩
      · refine .inl ⟨⟨hk, hf⟩, r', hr', fun t => ?_⟩
        rw [hknows, Registry.knows_append, List.map_cons, List.mem_cons, hs, Datum.str.injEq,
          or_assoc, @eq_comm _ s t]
      · exact .inr ⟨fun h => hf h.2, f, hfold, hfam⟩

/-! ## The script -/

theorem WellTypedNodes.forM_checkNode {nodes : List Content} (h : WellTypedNodes nodes) :
    nodes.forM checkNode = .ok () := by
  induction nodes with
  | nil => rfl
  | cons c nodes ih =>
    cases h with
    | cons hn hrest => exact ih hrest

section Stages

variable {options : Options} {nodes : List Content} {f : Fault}

theorem compile_of_root_error (h : nodes.forM checkNode = .ok ()) (hroot : root nodes = .error f) :
    compile options (.list nodes) = .error f := by
  simp only [compile, topLevel, Content.items, h, hroot, bind, Except.bind]

variable {c : Content} {ds : List Declaration}

theorem compile_of_declare_error (h : nodes.forM checkNode = .ok ()) (hroot : root nodes = .ok c)
    (hds : (Content.list nodes).declarations = .ok ds)
    (hfold : ds.foldlM Session.declare {} = .error f) :
    compile options (.list nodes) = .error f := by
  simp only [compile, topLevel, Content.items, h, hroot, Session.compileModule_eq, hds, hfold, bind,
    Except.bind]

/-- Past the registry, what is left is to generate the script and to render its lines. -/
theorem compile_of_declared (hformat : options.formatter = .absent)
    (h : nodes.forM checkNode = .ok ()) (hroot : root nodes = .ok c)
    (hds : (Content.list nodes).declarations = .ok ds) {r : Registry}
    (hfold : ds.foldlM Session.declare {} = .ok r) :
    compile options (.list nodes) =
      ((Session.program ⟨options, r, none, 0⟩ (.list nodes)).run 0).map fun (p, _) =>
        ⟨Line.renderAll options.pretty.isTrue (p.lines 0), r.size⟩ := by
  simp only [compile, topLevel, Content.items, h, hroot, Session.compileModule_eq, hds, hfold, bind,
    Except.bind, Session.scope, List.getLast?_nil]
  cases (Session.program ⟨options, r, none, 0⟩ (.list nodes)).run 0 with
  | error f => rfl
  | ok result =>
    simp only [hformat, Formatter.run, Except.map, Writer.put, pure, Except.pure, ite_self,
      String.empty_append]

/-- A compiled template is the rendering of a script that was generated for it. -/
theorem exists_program_of_compile (hformat : options.formatter = .absent) {compiled : Compiled}
    (h : compile options (.list nodes) = .ok compiled) :
    ∃ c ds r p next, root nodes = .ok c ∧ (Content.list nodes).declarations = .ok ds ∧
      ds.foldlM Session.declare {} = .ok r ∧
      (Session.program ⟨options, r, none, 0⟩ (.list nodes)).run 0 = .ok (p, next) ∧
      compiled = ⟨Line.renderAll options.pretty.isTrue (p.lines 0), r.size⟩ := by
  have hstages := h
  simp only [compile, topLevel, Content.items, Session.compileModule_eq, bind,
    Except.bind] at hstages
  cases hcheck : nodes.forM checkNode with
  | error f =>
    rw [hcheck] at hstages
    cases hstages
  | ok u =>
    rw [hcheck] at hstages
    cases hroot : root nodes with
    | error f =>
      rw [hroot] at hstages
      cases hstages
    | ok c =>
      rw [hroot] at hstages
      cases hds : (Content.list nodes).declarations with
      | error f =>
        simp only [hds] at hstages
        cases hstages
      | ok ds =>
        simp only [hds] at hstages
        cases hfold : ds.foldlM Session.declare {} with
        | error f =>
          simp only [hfold] at hstages
          cases hstages
        | ok r =>
          rw [compile_of_declared hformat hcheck hroot hds hfold] at h
          cases hp : (Session.program ⟨options, r, none, 0⟩ (.list nodes)).run 0 with
          | error f =>
            rw [hp] at h
            cases h
          | ok result =>
            rw [hp] at h
            cases h
            exact ⟨c, ds, r, result.1, result.2, rfl, rfl, hfold, hp, rfl⟩

end Stages

/-- The script of a template before it is laid out, and how many mixins the template declares. -/
def scriptOf (options : Options) (c : Content) : Except Fault (Program × Nat) := do
  let top ← topLevel c
  top.forM checkNode
  let _ ← root top
  let mixins ← (← (Content.list top).declarations).foldlM Session.declare {}
  let (program, _) ← (Session.program ⟨options, mixins, none, 0⟩ (.list top)).run 0
  return (program, mixins.size)

/-- Past the script, what is left is to lay it out and to run the formatter over an indented one. -/
theorem compile_eq_scriptOf (options : Options) (c : Content) :
    compile options c = scriptOf options c >>= fun (p, mixins) => do
      let script := Line.renderAll options.pretty.isTrue (p.lines 0)
      let script ← if options.pretty.isTrue then options.formatter.run script else .ok script
      return ⟨script, mixins⟩ := by
  unfold compile scriptOf
  simp only [Session.compileModule_eq, bind, Except.bind, Session.scope, List.getLast?_nil]
  cases topLevel c with
  | error f => rfl
  | ok top =>
    dsimp only
    cases top.forM checkNode with
    | error f => rfl
    | ok u =>
      dsimp only
      cases root top with
      | error f => rfl
      | ok r =>
        dsimp only
        cases (Content.list top).declarations with
        | error f => rfl
        | ok ds =>
          dsimp only
          cases ds.foldlM Session.declare {} with
          | error f => rfl
          | ok mixins =>
            dsimp only
            cases (Session.program ⟨options, mixins, none, 0⟩ (.list top)).run 0 with
            | error f => rfl
            | ok result => simp only [Writer.put, pure, Except.pure, String.empty_append]

theorem compile_eq_map_scriptOf {options : Options} (hformat : options.formatter = .absent)
    (c : Content) :
    compile options c = (scriptOf options c).map fun (p, mixins) =>
      ⟨Line.renderAll options.pretty.isTrue (p.lines 0), mixins⟩ := by
  rw [compile_eq_scriptOf, hformat]
  simp only [Formatter.run, ite_self]
  cases scriptOf options c <;> rfl

/-- A script that can be generated can be written. -/
theorem exists_compiled_of_scriptOf {options : Options} (hformat : options.formatter = .absent)
    {c : Content} (h : ∃ result, scriptOf options c = .ok result) :
    ∃ compiled, compile options c = .ok compiled := by
  obtain ⟨result, hresult⟩ := h
  rw [compile_eq_map_scriptOf hformat, hresult]
  exact ⟨_, rfl⟩

open Generation in
/-- The parts of a script: its definitions come first, then its body fills the root array. -/
theorem program_emits {scope : Scope} {nodes : List Content} {k : Nat} {p : Program} {k' : Nat}
    (h : (Session.program scope (.list nodes)).run k = .ok (p, k')) :
    p.root = .fresh k ∧ ∃ k₁, ItemsDefine nodes scope (k + 1) p.definitions k₁ ∧
      ItemsEmit nodes (scope.filling (.fresh k)) [] k₁ p.body k' := by
  unfold Session.program Content.hoisted at h
  obtain ⟨definitions, k₁, hdefinitions, h⟩ := run_bind_ok (run_fresh_bind_ok h)
  obtain ⟨ds, -, hdefinitions⟩ := run_lift_bind_ok hdefinitions
  obtain ⟨body, k₂, hbody, h⟩ := run_bind_ok h
  obtain ⟨rfl, rfl⟩ := run_pure_ok h
  rw [Content.definitions] at hdefinitions
  rw [Content.generate] at hbody
  exact ⟨rfl, k₁, itemsDefine_of_run nodes hdefinitions, itemsEmit_of_run nodes hbody⟩

end Hyperscript
