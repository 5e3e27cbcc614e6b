import Hyperscript.Proofs.Rendering
import Hyperscript.Proofs.Tree.Expansion

/-!
# The script of a template with mixins

Running the script of a template is expanding its mixins, call by call: with the same bound on
nested calls, both have the same result, or both have none.  The context of a call becomes the block
that the placeholders of its mixin insert, and a call without children has the context of the
function it stands in.

For sheltered templates that is what one expects of blocks: a placeholder stands for the children of
the very call that its mixin was called by, and for nothing if there are none.  Other templates may
show a block in a mixin that it was not passed to (`relayTemplate`), or never come to an end
(`wrapTemplate`).
-/

namespace Hyperscript

variable {δ : Type}

/-! ## Calls and blocks -/

/-- Lists of functions that render lists of children. -/
abbrev RenderAll (options : Options) : List Routine → List (List Content) → Prop :=
  List.Forall₂ (Routine.Renders options)

/-- The table holds for every mixin a function that renders its body. -/
def TableOf (options : Options) (bodies : String → Option (List Content)) (table : Mixins) : Prop :=
  ∀ name, (table name = none ∧ bodies name = none) ∨
    ∃ routine body, table name = some routine ∧ bodies name = some body ∧
      routine.Renders options body

section Run

variable {v : Valuation δ} {options : Options} {bodies : String → Option (List Content)}
  {table : Mixins}

/-- Inside a function, the machine and the reading agree if functions and expansions do. -/
theorem agree_inside (htable : TableOf options bodies table)
    {run : List Routine → List Routine → Routine → Mixins → Option (Returned δ)}
    {expand : List (List Content) → List (List Content) → List Content → Option (List (VTree δ))}
    (hrun : ∀ {this this' block block' routine children}, RenderAll options this this' →
      RenderAll options block block' → routine.Renders options children →
      run this block routine table = (expand this' block' children).map (·, table))
    {this block : List Routine} {this' block' : List (List Content)}
    (hthis : RenderAll options this this') (hblock : RenderAll options block block') :
    Agree true table (Machine.inside v run this block)
      (Reading.inside v options bodies true expand this' block') := by
  have hcall : ∀ name {context context'}, RenderAll options context context' →
      (do run context context (← table name) table) =
        (do expand context' context' (← bodies name)).map (·, table) := by
    intro name context context' hcontext
    rcases htable name with ⟨hnone, hnone'⟩ | ⟨routine, body, hroutine, hbody, hr⟩
    · rw [hnone, hnone']
      rfl
    · rw [hroutine, hbody]
      exact hrun hcontext hcontext hr
  refine ⟨rfl, fun _ name => ?_, fun _ name routine children hr => ?_, fun _ => ?_⟩
  · -- without children the context is the one at hand
    exact hcall name hthis
  · -- a block that is passed sees the block of the place where it is written
    exact hcall name (.cons hr hblock)
  · cases hblock with
    | nil => rfl
    | cons hr houter => exact hrun hthis houter hr

/-- A function that renders some nodes returns their expansion, at every depth. -/
theorem Routine.Renders.run (htable : TableOf options bodies table) (depth : Nat)
    {this block : List Routine} {this' block' : List (List Content)} {routine : Routine}
    {children : List Content} (hthis : RenderAll options this this')
    (hblock : RenderAll options block block') (hr : routine.Renders options children) :
    Routine.run v depth this block routine table =
      (expansion v options bodies true depth this' block' children).map (·, table) := by
  induction depth generalizing this block this' block' routine children with
  | zero => rfl
  | succ depth ih =>
    have hagree := agree_inside (v := v) htable ih hthis hblock
    exact Routine.Renders.exec hagree hr

/-! ## Definitions -/

theorem Stmt.execAll_define (m : Machine δ) (name : String) (routine : Routine) (rest : List Stmt)
    (st : State δ) :
    Stmt.execAll m
        (.define name "" none routine.definitions routine.array routine.body :: rest) st =
      Stmt.execAll m rest (st.define name routine) := by
  rw [Stmt.execAll, Stmt.exec, if_pos ⟨rfl, rfl⟩]
  rfl

/-- The function of a mixin renders its body. -/
theorem renders_of_defines {s : Scope} {k k' : Nat} {name : String} {body : List Content}
    {stmts : List Stmt} (hbody : MarkupNodes true false body)
    (h : (Node.mixin (.str name) (.list []) .null (.list body)).Defines s k stmts k') :
    ∃ routine : Routine, routine.Renders s.options body ∧
      stmts = [.define name "" none routine.definitions routine.array routine.body] := by
  cases h with
  | @mixin _ _ _ _ _ _ _ _ _ _ _ stmts _ hparams hname hdefines hemits =>
    cases hparams
    cases hname
    cases hdefines with
    | list hdefines =>
      cases hemits with
      | list hemits =>
        obtain ⟨rfl, rfl⟩ := hbody.defines_nil hdefines
        refine ⟨⟨[], .fresh k, stmts⟩, ⟨rfl, hbody, ?_⟩, rfl⟩
        exact ⟨s.inMixin.filling (.fresh k), k, k + 1, k', rfl, rfl, rfl, Nat.lt_succ_self k,
          hemits⟩

/-- The definitions of a template enter its mixins into the table, the last one of a name winning,
and leave everything else alone. -/
theorem MarkupNodes.execAll_definitions (m : Machine δ) {nodes : List Content}
    (h : MarkupNodes true true nodes) {s : Scope} {k k' : Nat} {stmts : List Stmt}
    (hdefine : ItemsDefine nodes s k stmts k') (st : State δ) :
    ∃ table, Stmt.execAll m stmts st = some ⟨st.arrays, table⟩ ∧
      ∀ name, (mixinBody nodes name = none ∧ table name = st.mixins name) ∨
        ∃ routine body, table name = some routine ∧ mixinBody nodes name = some body ∧
          routine.Renders s.options body := by
  induction nodes generalizing k stmts st with
  | nil =>
    cases hdefine
    exact ⟨st.mixins, rfl, fun name => .inl ⟨rfl, rfl⟩⟩
  | cons c nodes ih =>
    cases h with
    | @cons _ n _ hn hrest =>
      cases hdefine with
      | other hnode => exact absurd rfl (hnode n)
      | node hnode hothers =>
        -- below the top level nothing is defined
        obtain ⟨rfl, rfl⟩ := hn.defines_nil hnode
        have hskip : ∀ name, mixinBody (.node n :: nodes) name = mixinBody nodes name := by
          intro name
          rcases mixinBody_cons_cases (.node n) nodes name with
            ⟨s, params, rest, body, hc, -⟩ | hcons
          · cases hc
            cases hn
          · exact hcons
        simp only [hskip]
        exact ih hrest hothers st
    | @mixin name body _ _ hbody hrest =>
      cases hdefine with
      | other hnode => exact absurd rfl (hnode _)
      | node hnode hothers =>
        obtain ⟨routine, hr, rfl⟩ := renders_of_defines hbody hnode
        obtain ⟨table, hexec, htable⟩ := ih hrest hothers (st.define name routine)
        refine ⟨table, ?_, fun other => ?_⟩
        · rw [List.singleton_append, Stmt.execAll_define]
          exact hexec
        · rcases htable other with ⟨hnone, hsame⟩ | ⟨last, lastBody, hlast, hlastBody, hrlast⟩
          · -- no later declaration of this name: this one counts if it has it
            rw [mixinBody, hnone, Option.none_or]
            by_cases hname : name = other
            · subst hname
              refine .inr ⟨routine, body, ?_, by rw [if_pos rfl], hr⟩
              rw [hsame]
              exact Function.update_self ..
            · refine .inl ⟨by rw [if_neg hname], ?_⟩
              rw [hsame]
              exact Function.update_of_ne (Ne.symm hname) ..
          · -- a later declaration has overwritten it
            exact .inr ⟨last, lastBody, hlast, mixinBody_cons_of_eq_some hlastBody, hrlast⟩

end Run

/-! ## Scripts -/

/-- Mixins are declared at the top level of markup and nowhere else. -/
theorem MarkupNodes.mem_of_occurs_mixin {nodes : List Content} (h : MarkupNodes true true nodes)
    {above : List Node} {name params rest : Datum} {c : Content}
    (hocc : Occurs above (.mixin name params rest c) nodes) :
    ∃ body, c = .list body ∧ .node (.mixin name params rest (.list body)) ∈ nodes := by
  have hbelow : ∀ {above' inner}, MarkupNodes true false inner ∨ MarkupBranches true inner →
      ¬Occurs above' (.mixin name params rest c) inner := by
    intro above' inner hinner hocc'
    rcases MarkupNodes.of_occurs hocc' hinner with hn | ⟨expr, children, hbranch⟩
    · cases hn
    · cases hbranch
  cases hocc with
  | here hmem =>
    rcases h.of_mem hmem with hn | ⟨-, -, s, body, hn, -⟩
    · cases hn
    · cases hn
      exact ⟨body, rfl, hmem⟩
  | inside hmem howns hocc' =>
    rcases h.of_mem hmem with hn | ⟨-, -, s, body, rfl, hbody⟩
    · rcases hn.of_owns howns with ⟨-, hinner⟩ | ⟨-, hinner⟩
      · exact absurd hocc' (hbelow (.inr hinner))
      · exact absurd hocc' (hbelow (.inl hinner))
    · rw [Node.owns_mixin.1 howns] at hocc'
      exact absurd hocc' (hbelow (.inl hbody))

/-- In a template that compiles, every call names a mixin with a body. -/
theorem MarkupNodes.declared_of_compile {options : Options} (hformat : options.formatter = .absent)
    {nodes : List Content} (h : MarkupNodes true true nodes) {compiled : Compiled}
    (hcompile : compile options (.list nodes) = .ok compiled) :
    SingleRoot nodes ∧ ∀ above name args attributes c,
      Occurs above (.call (.str name) args attributes c) nodes →
      ∃ body, mixinBody nodes name = some body := by
  obtain ⟨walked, hwalk, hwalked⟩ := h.wellTyped.walk
  obtain ⟨hroot, -, hsupported⟩ :=
    supported_of_compile hformat h.wellTyped hwalk hwalked hcompile
  refine ⟨hroot, fun above name args attributes c hocc => ?_⟩
  have hcall : Content.node (.call (.str name) args attributes c) ∈ walked :=
    (hwalked _).2 ⟨_, above, rfl, hocc⟩
  obtain ⟨params, rest, body, hmem⟩ := hsupported.calls _ _ _ _ hcall
  obtain ⟨n, above', hn, hocc'⟩ := (hwalked _).1 hmem
  cases hn
  obtain ⟨items, -, hmem'⟩ := h.mem_of_occurs_mixin hocc'
  exact exists_mixinBody hmem'

/-- The script of a template runs like the expansion of its mixins, at every depth. -/
theorem MarkupNodes.run_program_eq_expansion {nodes : List Content}
    (h : MarkupNodes true true nodes) {s : Scope} {p : Program} {k' : Nat}
    (hp : (Session.program s (.list nodes)).run 0 = .ok (p, k')) (v : Valuation δ) (depth : Nat) :
    p.run v depth = (expansion v s.options (mixinBody nodes) true depth [] [] nodes).bind
      fun out => out.head? := by
  cases depth with
  | zero => rfl
  | succ depth =>
    obtain ⟨hroot, k₁, hdefine, hbody⟩ := program_emits hp
    let m := Machine.inside v (Routine.run v depth) [] []
    obtain ⟨table, hdefinitions, htable⟩ :=
      h.execAll_definitions m hdefine ⟨fun _ => none, fun _ => none⟩
    have htableOf : TableOf s.options (mixinBody nodes) table := by
      intro name
      rcases htable name with ⟨hnone, hsame⟩ | hsome
      · exact .inl ⟨hsame, hnone⟩
      · exact .inr hsome
    have hagree : Agree true table m (Reading.inside v s.options (mixinBody nodes) true
        (expansion v s.options (mixinBody nodes) true depth) [] []) :=
      agree_inside htableOf (Routine.Renders.run htableOf depth) .nil .nil
    have hexec : Routine.run v (depth + 1) [] [] ⟨p.definitions, p.root, p.body⟩ (fun _ => none) =
        (expansion v s.options (mixinBody nodes) true (depth + 1) [] [] nodes).map (·, table) :=
      Routine.exec_eq hagree hdefinitions h hbody rfl hroot rfl hdefine.le
    rw [Program.run, hexec]
    cases expansion v s.options (mixinBody nodes) true (depth + 1) [] [] nodes <;> rfl

/-- The mixin `outer` calls `inner` without children, and `inner` has a placeholder. -/
def relayTemplate : List Content :=
  [.node (.mixin (.str "outer") (.list []) .null
      (.list [.node (.call (.str "inner") (.str "") {} (.datum .null))])),
    .node (.mixin (.str "inner") (.list []) .null (.list [.node .placeholder])),
    .node (.tag (.str "div") {} (.list [
      .node (.call (.str "outer") (.str "") {} (.list [.node (.text (.str "x"))]))]))]

theorem relayTemplate_markup : MarkupNodes true true relayTemplate :=
  .mixin rfl (.cons (.call rfl .null) .nil) (.mixin rfl (.cons (.placeholder rfl) .nil)
    (.cons (.tag (.mk [] [] (by simp)) (.cons (.call rfl (.list (.cons .text .nil))) .nil)) .nil))

theorem relayTemplate_acyclic : AcyclicMixins relayTemplate := by
  apply acyclicMixins_of_rank fun name => if name = "outer" then 1 else 0
  rintro caller callee ⟨body, above, args, attributes, c, hbody, hocc⟩
  obtain ⟨params, rest, hmem⟩ := mem_of_mixinBody hbody
  simp only [relayTemplate, List.mem_cons, Content.node.injEq, Node.mixin.injEq, Datum.str.injEq,
    Content.list.injEq, List.not_mem_nil, reduceCtorEq, or_false] at hmem
  rcases hmem with ⟨rfl, -, -, rfl⟩ | ⟨rfl, -, -, rfl⟩
  · have hcallee : callee = "inner" := by
      simp [occurs_cons, not_occurs_nil] at hocc
      exact hocc.2.1
    subst hcallee
    decide
  · simp [occurs_cons, not_occurs_nil] at hocc

/-- What is passed to `outer` shows up in `inner`, which is called without children. -/
theorem relayTemplate_hands_block_on :
    MarkupNodes true true relayTemplate ∧ AcyclicMixins relayTemplate ∧
    ∃ (p : Program) (compiled : Compiled), compile {} (.list relayTemplate) = .ok compiled ∧
      compiled.script = Line.renderAll false (p.lines 0) ∧
      ∀ depth,
        p.run literally (depth + 4) = some (.element "\"div\"" none [.text "x"]) ∧
        expansion literally {} (mixinBody relayTemplate) false (depth + 4) [] [] relayTemplate =
          some [.element "\"div\"" none []] := by
  have hcompile : ∃ compiled, compile {} (.list relayTemplate) = .ok compiled :=
    exists_compiled_of_scriptOf rfl ⟨_, rfl⟩
  obtain ⟨compiled, hcompile⟩ := hcompile
  obtain ⟨-, -, r, p, next, -, -, -, hp, rfl⟩ := exists_program_of_compile rfl hcompile
  refine ⟨relayTemplate_markup, relayTemplate_acyclic, p, _, hcompile, rfl, fun depth => ⟨?_, ?_⟩⟩
  · have hexpansion : expansion literally {} (mixinBody relayTemplate) true (depth + 4) [] []
        relayTemplate = some [.element "\"div\"" none [.text "x"]] := by cbv
    rw [relayTemplate_markup.run_program_eq_expansion hp, hexpansion]
    rfl
  · cbv

/-- The mixin `wrap` shows what is passed to it, and what is passed to it calls it without
children. -/
def wrapTemplate : List Content :=
  [.node (.mixin (.str "wrap") (.list []) .null (.list [.node .placeholder])),
    .node (.tag (.str "div") {} (.list [
      .node (.call (.str "wrap") (.str "") {} (.list [
        .node (.call (.str "wrap") (.str "") {} (.datum .null))]))]))]

theorem wrapTemplate_markup : MarkupNodes true true wrapTemplate :=
  .mixin rfl (.cons (.placeholder rfl) .nil)
    (.cons (.tag (.mk [] [] (by simp)) (.cons (.call rfl (.list (.cons (.call rfl .null) .nil)))
      .nil)) .nil)

theorem wrapTemplate_acyclic : AcyclicMixins wrapTemplate := by
  apply acyclicMixins_of_rank fun _ => 0
  rintro caller callee ⟨body, above, args, attributes, c, hbody, hocc⟩
  obtain ⟨params, rest, hmem⟩ := mem_of_mixinBody hbody
  simp only [wrapTemplate, List.mem_cons, Content.node.injEq, Node.mixin.injEq, Datum.str.injEq,
    Content.list.injEq, List.not_mem_nil, reduceCtorEq, or_false] at hmem
  obtain ⟨rfl, -, -, rfl⟩ := hmem
  simp [occurs_cons, not_occurs_nil] at hocc

/-- The children and the placeholder that stands for them lead to each other. -/
theorem expansion_wrapTemplate (depth : Nat) :
    let children := [.node (.call (.str "wrap") (.str "") {} (.datum .null))]
    expansion literally {} (mixinBody wrapTemplate) true depth [children] [] children = none ∧
      expansion literally {} (mixinBody wrapTemplate) true depth [children] [children]
        [.node .placeholder] = none := by
  induction depth with
  | zero => exact ⟨rfl, rfl⟩
  | succ depth ih =>
    have hbody : mixinBody wrapTemplate "wrap" = some [.node .placeholder] := by cbv
    constructor
    · simp only [expansion, contributions, Content.contribution, Node.contribution, Reading.inside,
        Content.passed, hbody]
      simp [ih.2]
    · simp only [expansion, contributions, Content.contribution, Node.contribution, Reading.inside]
      simp [ih.1]

/-- No mixin leads back to itself, and still the script never returns. -/
theorem wrapTemplate_never_returns :
    MarkupNodes true true wrapTemplate ∧ AcyclicMixins wrapTemplate ∧
    ∃ (p : Program) (compiled : Compiled), compile {} (.list wrapTemplate) = .ok compiled ∧
      compiled.script = Line.renderAll false (p.lines 0) ∧
      ∀ depth, p.run literally depth = none := by
  have hcompile : ∃ compiled, compile {} (.list wrapTemplate) = .ok compiled :=
    exists_compiled_of_scriptOf rfl ⟨_, rfl⟩
  obtain ⟨compiled, hcompile⟩ := hcompile
  obtain ⟨-, -, r, p, next, -, -, -, hp, rfl⟩ := exists_program_of_compile rfl hcompile
  refine ⟨wrapTemplate_markup, wrapTemplate_acyclic, p, _, hcompile, rfl, fun depth => ?_⟩
  rw [wrapTemplate_markup.run_program_eq_expansion hp]
  cases depth with
  | zero => rfl
  | succ depth =>
    have hbody : mixinBody wrapTemplate "wrap" = some [.node .placeholder] := by cbv
    rw [expansion]
    nth_rewrite 3 [wrapTemplate]
    simp only [contributions, Content.contribution, Node.contribution, Reading.inside,
      Content.passed, hbody]
    simp [(expansion_wrapTemplate depth).2]

/-- Running the script of a template is expanding its mixins, where a call without children hands on
the context it runs in.  If no mixin leads back to itself, the script returns a tree unless such a
call leads back into the children it stands among.  The expansion in which a call without children
passes no block always comes to an end then; and if the template is sheltered, it is what the script
returns. -/
theorem compile_expands_mixins (options : Options) (hformat : options.formatter = .absent)
    {nodes : List Content} (h : MarkupNodes true true nodes) (hacyclic : AcyclicMixins nodes)
    {compiled : Compiled} (hcompile : compile options (.list nodes) = .ok compiled) :
    ∃ p : Program, compiled.script = String.join ((p.lines 0).map fun line =>
        (if options.pretty.isTrue then String.ofList (List.replicate line.indent.toNat ' ') else "")
          ++ line.code ++ "\n") ∧
      ∀ {δ : Type} (v : Valuation δ),
        (∀ depth tree, p.run v depth = some tree ↔
          expansion v options (mixinBody nodes) true depth [] [] nodes = some [tree]) ∧
        (NoReentry nodes → ∃ tree depth, ∀ d, depth ≤ d → p.run v d = some tree) ∧
        ∃ tree depth, ∀ d, depth ≤ d →
          expansion v options (mixinBody nodes) false d [] [] nodes = some [tree] ∧
          (Sheltered nodes → p.run v d = some tree) := by
  obtain ⟨hroot, hdeclared⟩ := h.declared_of_compile hformat hcompile
  obtain ⟨-, -, r, p, next, -, -, -, hp, rfl⟩ := exists_program_of_compile hformat hcompile
  have hrun : ∀ {δ : Type} (v : Valuation δ) depth tree, p.run v depth = some tree ↔
      expansion v options (mixinBody nodes) true depth [] [] nodes = some [tree] := by
    intro δ v depth tree
    rw [h.run_program_eq_expansion hp v depth]
    cases hout : expansion v options (mixinBody nodes) true depth [] [] nodes with
    | none => simp
    | some out =>
      cases depth with
      | zero => cases hout
      | succ depth =>
        obtain ⟨tag, properties, children, rfl⟩ := hroot.contributions_eq _ h hout
        simp
  -- either form of the expansion settles on a single tree
  have hsettles : ∀ {δ : Type} (v : Valuation δ) (inherits : Bool),
      (inherits = true → NoReentry nodes) → ∃ tree depth, ∀ d, depth ≤ d →
        expansion v options (mixinBody nodes) inherits d [] [] nodes = some [tree] := by
    intro δ v inherits hreentry
    obtain ⟨out, depth, hout⟩ := hacyclic.settles_expansion h hdeclared hreentry v options
    obtain ⟨tag, properties, children, rfl⟩ :=
      hroot.contributions_eq _ h (hout (depth + 1) (Nat.le_succ depth))
    exact ⟨_, depth, hout⟩
  refine ⟨p, rfl, fun {δ} v => ⟨hrun v, fun hreentry => ?_, ?_⟩⟩
  · obtain ⟨tree, depth, htree⟩ := hsettles v true fun _ => hreentry
    exact ⟨tree, depth, fun d hd => (hrun v d tree).2 (htree d hd)⟩
  · obtain ⟨tree, depth, htree⟩ := hsettles v false nofun
    refine ⟨tree, depth, fun d hd => ⟨htree d hd, fun hsheltered => ?_⟩⟩
    rw [hrun, hsheltered.expansion_eq h]
    exact htree d hd

/-- A page is a frame around what is passed to it and a last line.  One page gets a frame and a
rule, the other one nothing. -/
def pageTemplate : List Content :=
  [.node (.mixin (.str "frame") (.list []) .null
      (.list [.node (.tag (.str "section") {} (.list [.node .placeholder]))])),
    .node (.mixin (.str "page") (.list []) .null
      (.list [.node (.call (.str "frame") (.str "") {}
        (.list [.node .placeholder, .node (.text (.str "end"))]))])),
    .node (.mixin (.str "rule") (.list []) .null (.list [.node (.tag (.str "hr") {} (.list []))])),
    .node (.tag (.str "div") {} (.list [
      .node (.call (.str "page") (.str "") {} (.list [
        .node (.call (.str "frame") (.str "") {} (.list [.node (.text (.str "a"))])),
        .node (.call (.str "rule") (.str "") {} (.datum .null))])),
      .node (.call (.str "page") (.str "") {} (.datum .null))]))]

theorem pageTemplate_markup : MarkupNodes true true pageTemplate := by
  have hempty : Attributes.WellTyped {} := .mk [] [] (by simp)
  exact .mixin rfl (.cons (.tag hempty (.cons (.placeholder rfl) .nil)) .nil)
    (.mixin rfl (.cons (.call rfl (.list (.cons (.placeholder rfl) (.cons .text .nil)))) .nil)
      (.mixin rfl (.cons (.tag hempty .nil) .nil)
        (.cons (.tag hempty
          (.cons (.call rfl (.list (.cons (.call rfl (.list (.cons .text .nil)))
              (.cons (.call rfl .null) .nil))))
            (.cons (.call rfl .null) .nil))) .nil)))

theorem pageTemplate_acyclic : AcyclicMixins pageTemplate := by
  apply acyclicMixins_of_rank fun name => if name = "page" then 1 else 0
  rintro caller callee ⟨body, above, args, attributes, c, hbody, hocc⟩
  obtain ⟨params, rest, hmem⟩ := mem_of_mixinBody hbody
  simp only [pageTemplate, List.mem_cons, Content.node.injEq, Node.mixin.injEq, Datum.str.injEq,
    Content.list.injEq, List.not_mem_nil, reduceCtorEq, or_false] at hmem
  rcases hmem with ⟨rfl, -, -, rfl⟩ | ⟨rfl, -, -, rfl⟩ | ⟨rfl, -, -, rfl⟩
  · simp [occurs_cons, not_occurs_nil] at hocc
  · have hcallee : callee = "frame" := by
      simp [occurs_cons, not_occurs_nil] at hocc
      exact hocc.2.1
    subst hcallee
    decide
  · simp [occurs_cons, not_occurs_nil] at hocc

theorem pageTemplate_sheltered : Sheltered pageTemplate := by
  rintro above n hocc ⟨m, hm, hkind⟩ name args attributes body rfl hbody ⟨above', hocc'⟩
  simp [pageTemplate, occurs_cons, not_occurs_nil] at hocc
  obtain ⟨inner, rfl, ⟨-, rfl, -⟩ | ⟨rfl, -⟩⟩ := hocc
  · have hrule : mixinBody pageTemplate "rule" =
        some [.node (.tag (.str "hr") {} (.list []))] := by cbv
    rw [hrule] at hbody
    cases hbody
    simp [occurs_cons, not_occurs_nil] at hocc'
  · -- a call right below the root
    cases List.mem_singleton.1 hm
    simp at hkind

theorem compile_pageTemplate_expands_mixins :
    AcyclicMixins pageTemplate ∧ Sheltered pageTemplate ∧ NoReentry pageTemplate ∧
    ∃ (p : Program) (compiled : Compiled), compile {} (.list pageTemplate) = .ok compiled ∧
      compiled.script = Line.renderAll false (p.lines 0) ∧
      ∃ depth, ∀ d, depth ≤ d → p.run literally d = some (.element "\"div\"" none [
        .element "\"section\"" none [.element "\"section\"" none [.text "a"],
          .element "\"hr\"" none [], .text "end"],
        .element "\"section\"" none [.text "end"]]) := by
  have hcompile : ∃ compiled, compile {} (.list pageTemplate) = .ok compiled :=
    exists_compiled_of_scriptOf rfl ⟨_, rfl⟩
  obtain ⟨compiled, hcompile⟩ := hcompile
  obtain ⟨p, hscript, hrun⟩ :=
    compile_expands_mixins {} rfl pageTemplate_markup pageTemplate_acyclic hcompile
  obtain ⟨-, -, tree, depth, htree⟩ := hrun literally
  have hlexical : expansion literally {} (mixinBody pageTemplate) false (depth + 7) [] []
      pageTemplate = some [.element "\"div\"" none [
        .element "\"section\"" none [.element "\"section\"" none [.text "a"],
          .element "\"hr\"" none [], .text "end"],
        .element "\"section\"" none [.text "end"]]] := by cbv
  rw [(htree (depth + 7) (by omega)).1] at hlexical
  cases hlexical
  exact ⟨pageTemplate_acyclic, pageTemplate_sheltered, pageTemplate_sheltered.noReentry, p, compiled,
    hcompile, hscript, depth, fun d hd => (htree d hd).2 pageTemplate_sheltered⟩

end Hyperscript
