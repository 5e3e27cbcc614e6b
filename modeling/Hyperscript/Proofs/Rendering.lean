import Mathlib
import Hyperscript.Proofs.Acceptance
import Hyperscript.Proofs.Script.Simulation
import Hyperscript.Proofs.Tree.Compositional

/-!
# The script of markup builds the tree of the template

A template of markup compiles to a script of pushes, conditionals and switches.  Whatever values the
expressions have, the script returns the tree that the template stands for.
-/

namespace Hyperscript

variable {δ : Type}

/-! ## Plain statements -/

mutual

/-- Pushes, elements, conditionals and switches. -/
def Stmt.isPlain : Stmt → Bool
  | .push .. => true
  | .element _ _ _ _ body => Stmt.arePlain body
  | .cond _ body otherwise => Stmt.arePlain body && otherwise.isPlain
  | .switch _ clauses => Clause.arePlain clauses
  | _ => false

def Stmt.arePlain : List Stmt → Bool
  | [] => true
  | s :: rest => s.isPlain && Stmt.arePlain rest

def Otherwise.isPlain : Otherwise → Bool
  | .done => true
  | .body body => Stmt.arePlain body
  | .elseIf _ body otherwise => Stmt.arePlain body && otherwise.isPlain

def Clause.arePlain : List Clause → Bool
  | [] => true
  | .fallThrough _ :: rest => Clause.arePlain rest
  | .body _ body :: rest => Stmt.arePlain body && Clause.arePlain rest

end

theorem Stmt.arePlain_append {xs ys : List Stmt} (hx : Stmt.arePlain xs = true)
    (hy : Stmt.arePlain ys = true) : Stmt.arePlain (xs ++ ys) = true := by
  induction xs with
  | nil => exact hy
  | cons x xs ih =>
    rw [Stmt.arePlain, Bool.and_eq_true] at hx
    rw [List.cons_append, Stmt.arePlain, hx.1, ih hx.2]
    rfl

theorem Scope.flush_plain {s : Scope} {texts : List Datum} {before : List Stmt}
    (h : s.flush texts = .ok before) : Stmt.arePlain before = true := by
  rcases Scope.flush_cases h with ⟨-, rfl⟩ | ⟨target, text, -, -, rfl⟩
  · rfl
  · rfl

mutual

theorem Node.Markup.plain : ∀ {n : Node}, n.Markup false →
    ∀ {s : Scope} {k : Nat} {stmts : List Stmt} {k' : Nat}, n.Emits s k stmts k' →
    Stmt.arePlain stmts = true
  | _, .tag _ hc, _, _, _, _, .element _ _ _ _ (.list h) => by
    simp [Stmt.arePlain, Stmt.isPlain, hc.plain h]
  | _, .tag _ _, _, _, _, _, .leaf .. | _, .text, _, _, _, _, .text ..
  | _, .code _, _, _, _, _, .bareValue .. | _, .comment, _, _, _, _, .comment => rfl
  | _, .code hc, _, _, _, _, .value _ _ _ h => by
    simp [Stmt.arePlain, Stmt.isPlain, hc.plain h]
  | _, .code _, _, _, _, _, .splice hbuffer _ _
  | _, .code _, _, _, _, _, .codeBlock hbuffer _ _ => by
    cases hbuffer
  | _, .conditional hc ha, _, _, _, _, .conditional (.list h) h' => by
    simp [Stmt.arePlain, Stmt.isPlain, hc.plain h, ha.plain h']
  | _, .switch hb _, _, _, _, _, .switch (.list h) => by
    simp [Stmt.arePlain, Stmt.isPlain, hb.plain h]

theorem MarkupNodes.plain : ∀ {top : Bool} {items : List Content}, MarkupNodes false top items →
    ∀ {s : Scope} {texts : List Datum} {k : Nat} {stmts : List Stmt} {k' : Nat},
    ItemsEmit items s texts k stmts k' → Stmt.arePlain stmts = true
  | _, _, .nil, _, _, _, _, _, .nil h => Scope.flush_plain h
  | _, _, .cons _ hrest, _, _, _, _, _, .text h => hrest.plain h
  | _, _, .cons hn hrest, _, _, _, _, _, .cons _ hflush h h' =>
    Stmt.arePlain_append (Stmt.arePlain_append (Scope.flush_plain hflush) (hn.plain h))
      (hrest.plain h')

theorem MarkupBranches.plain : ∀ {items : List Content}, MarkupBranches false items →
    ∀ {s : Scope} {k : Nat} {clauses : List Clause} {k' : Nat},
    ItemsEmitClauses items s k clauses k' → Clause.arePlain clauses = true
  | _, .nil, _, _, _, _, .nil => rfl
  | _, .cons _ _ hrest, _, _, _, _, .fallThrough _ h => by
    rw [Clause.arePlain]
    exact hrest.plain h
  | _, .cons _ hc hrest, _, _, _, _, .body _ h h' => by
    simp [Clause.arePlain, hc.plain h, hrest.plain h']

theorem Content.MarkupBlock.plain : ∀ {c : Content}, c.MarkupBlock false →
    ∀ {s : Scope} {k : Nat} {stmts : List Stmt} {k' : Nat}, c.Emits s k stmts k' →
    Stmt.arePlain stmts = true
  | _, .null, _, _, _, _, .datum _ => rfl
  | _, .list hc, _, _, _, _, .list h => hc.plain h

theorem Content.MarkupAlternate.plain : ∀ {c : Content}, c.MarkupAlternate false →
    ∀ {s : Scope} {k : Nat} {otherwise : Otherwise} {k' : Nat}, c.Continues s k otherwise k' →
    otherwise.isPlain = true
  | _, .null, _, _, _, _, .done _ | _, .null, _, _, _, _, .emptyBody _ _ => rfl
  | _, .list _, _, _, _, _, .nil => rfl
  | _, .list hc, _, _, _, _, .body h => hc.plain h
  | _, .conditional hc ha, _, _, _, _, .elseIf (.list h) h' => by
    simp [Otherwise.isPlain, hc.plain h, ha.plain h']

end

/-! ## The root -/

section Root

variable {mixins top : Bool} (ρ : Reading δ)

/-- A silent node contributes nothing. -/
theorem contributions_cons_silent {c : Content} {rest : List Content}
    (h : MarkupNodes mixins top (c :: rest)) (hc : c.Silent) :
    contributions ρ (c :: rest) = contributions ρ rest ∧ MarkupNodes mixins top rest := by
  have hskip : ∀ {n : Node}, (∀ value, n ≠ .text value) → n.contribution ρ = some [] →
      contributions ρ (.node n :: rest) = contributions ρ rest := by
    intro n hn hnothing
    rw [contributions_cons_of_ne_text ρ hn, hnothing]
    cases contributions ρ rest <;> rfl
  cases h with
  | cons hn hrest =>
    cases hc with
    | comment => exact ⟨hskip (by simp) (by rw [Node.contribution]), hrest⟩
    | code => cases hn
    | mixin => cases hn
  | mixin _ _ hrest => exact ⟨hskip (by simp) (by rw [Node.contribution]), hrest⟩

theorem contributions_append_silent {before rest : List Content}
    (h : MarkupNodes mixins top (before ++ rest)) (hsilent : ∀ c ∈ before, c.Silent) :
    contributions ρ (before ++ rest) = contributions ρ rest ∧ MarkupNodes mixins top rest := by
  induction before with
  | nil => exact ⟨rfl, h⟩
  | cons c before ih =>
    have hfirst := contributions_cons_silent ρ h (hsilent c (List.mem_cons_self ..))
    have hrest := ih hfirst.2 fun d hd => hsilent d (List.mem_cons_of_mem c hd)
    exact ⟨hfirst.1.trans hrest.1, hrest.2⟩

/-- A template with a single root stands for a single element. -/
theorem SingleRoot.contributions_eq {nodes : List Content} (hroot : SingleRoot nodes)
    (h : MarkupNodes mixins top nodes) {out : List (VTree δ)}
    (hout : contributions ρ nodes = some out) :
    ∃ tag properties children, out = [.element tag properties children] := by
  obtain ⟨before, name, attributes, children, after, rfl, hsilent⟩ := hroot
  have hbefore := contributions_append_silent ρ h fun c hc => hsilent c (List.mem_append_left _ hc)
  have hafter : contributions ρ after = some [] := by
    cases hbefore.2 with
    | cons _ hrest =>
      rw [← List.append_nil after] at hrest ⊢
      exact (contributions_append_silent ρ hrest
        fun c hc => hsilent c (List.mem_append_right _ hc)).1
  rw [hbefore.1, contributions_cons_of_ne_text ρ (by simp), hafter, Node.contribution] at hout
  obtain ⟨first, hfirst, hout⟩ := Option.bind_eq_some_iff.1 hout
  -- name, attributes and children of the root all have to be defined
  obtain ⟨tag, -, hfirst⟩ := Option.bind_eq_some_iff.1 hfirst
  obtain ⟨properties, -, hfirst⟩ := Option.bind_eq_some_iff.1 hfirst
  obtain ⟨entries, -, hfirst⟩ := Option.bind_eq_some_iff.1 hfirst
  cases hfirst
  cases hout
  exact ⟨tag, properties, entries, rfl⟩

end Root

/-! ## Compilation -/

section Compile

variable {options : Options} {nodes : List Content}

/-- Markup without mixins compiles as soon as it has a root. -/
theorem MarkupNodes.exists_compile (hformat : options.formatter = .absent)
    (h : MarkupNodes false true nodes) (hroot : SingleRoot nodes) :
    ∃ compiled, compile options (.list nodes) = .ok compiled := by
  obtain ⟨walked, hwalk, hwalked⟩ := h.wellTyped.walk
  have hplain : ∀ c ∈ walked, c.declaration? = none := by
    intro c hc
    obtain ⟨n, above, rfl, hocc⟩ := (hwalked c).1 hc
    rcases MarkupNodes.of_occurs hocc (.inl h.below_top) with hn | ⟨expr, children, rfl⟩
    · cases hn <;> rfl
    · rfl
  have hdistinct : DistinctMixins walked := by
    unfold DistinctMixins
    rw [List.filterMap_eq_nil_iff.2 hplain]
    exact List.nodup_nil
  have hsupported : Supported nodes walked :=
    (supported_iff h.wellTyped hwalked
      (fun name => ∃ params rest body, .node (.mixin name params rest body) ∈ walked)
      fun _ => Iff.rfl).1 h.below_top.allPermitted
  -- none of the faults can come up
  rcases compile_cases hformat h.wellTyped hwalk hwalked with ⟨hnot, -⟩ | ⟨-, hnot, -⟩ |
    ⟨-, -, hnot, -⟩ | ⟨-, -, -, hcompile⟩
  · exact absurd hroot hnot
  · exact absurd hdistinct hnot
  · exact absurd hsupported hnot
  · exact hcompile

/-- The script of markup without mixins runs at any depth, and to the same result. -/
theorem MarkupNodes.run_program {s : Scope} {p : Program} {k' : Nat}
    (h : MarkupNodes false true nodes)
    (hp : (Session.program s (.list nodes)).run 0 = .ok (p, k')) (v : Valuation δ) (depth : Nat) :
    p.run v (depth + 1) =
      (contributions (.plain v s.options) nodes).bind fun out => out.head? := by
  obtain ⟨hroot, k₁, hdefine, hbody⟩ := program_emits hp
  obtain ⟨hdefinitions, rfl⟩ := h.below_top.defines_nil hdefine
  have hagree : Agree false (fun _ => none) (Machine.inside v (Routine.run v depth) [] [])
      (Reading.plain v s.options) :=
    ⟨rfl, nofun, nofun, nofun⟩
  have hnone : Stmt.execAll (Machine.inside v (Routine.run v depth) [] []) p.definitions
      ⟨fun _ => none, fun _ => none⟩ = some ⟨fun _ => none, fun _ => none⟩ := by
    rw [hdefinitions]
    rfl
  have hexec : Routine.run v (depth + 1) [] [] ⟨p.definitions, p.root, p.body⟩ (fun _ => none) =
      (contributions (.plain v s.options) nodes).map (·, fun _ => none) :=
    Routine.exec_eq hagree hnone h hbody rfl hroot rfl (Nat.lt_succ_self 0)
  rw [Program.run, hexec]
  cases contributions (.plain v s.options) nodes <;> rfl

end Compile

/-- Markup without mixins compiles, if it has a root, to the text of one script of pushes,
conditionals and switches; whatever values the expressions have, that script returns the tree that
the template stands for. -/
theorem compile_renders (options : Options) (hformat : options.formatter = .absent)
    {nodes : List Content} (h : MarkupNodes false true nodes) {c : Content}
    (hroot : root nodes = .ok c) :
    ∃ (p : Program) (compiled : Compiled), compile options (.list nodes) = .ok compiled ∧
      compiled.script = String.join ((p.lines 0).map fun line =>
        (if options.pretty.isTrue then String.ofList (List.replicate line.indent.toNat ' ') else "")
          ++ line.code ++ "\n") ∧
      p.root = .fresh 0 ∧ p.definitions = [] ∧ Stmt.arePlain p.body = true ∧
      ∀ {δ : Type} (v : Valuation δ), ∃ tree, contributions (.plain v options) nodes = some [tree] ∧
        ∀ depth, p.run v (depth + 1) = some tree := by
  have hsingle : SingleRoot nodes := by
    rcases root_cases nodes with ⟨hsingle, -⟩ | ⟨-, f, hf, -⟩
    · exact hsingle
    · rw [hroot] at hf
      cases hf
  obtain ⟨compiled, hcompile⟩ := h.exists_compile hformat hsingle
  obtain ⟨-, -, r, p, next, -, -, -, hp, rfl⟩ := exists_program_of_compile hformat hcompile
  obtain ⟨hrootArray, k₁, hdefine, hbody⟩ := program_emits hp
  refine ⟨p, _, hcompile, rfl, hrootArray, (h.below_top.defines_nil hdefine).1, h.plain hbody, ?_⟩
  intro δ v
  obtain ⟨out, hout⟩ := h.exists_contributions v options
  obtain ⟨tag, properties, children, rfl⟩ := hsingle.contributions_eq _ h hout
  refine ⟨_, hout, fun depth => ?_⟩
  rw [h.run_program hp v depth, hout]
  rfl

/-- A greeting in two lines, a choice of three and a case with a default that falls through. -/
def greetingTemplate : List Content :=
  [.node (.comment (.str "greeting") (.bool true)),
    .node (.tag (.str "p") {} (.list [
      .node (.text (.str "Hello")),
      .node (.text (.str "#\x7bname\x7d!")),
      .node (.conditional (.str "late") (.list [])
        (.node (.conditional (.str "early") (.list [.node (.tag (.str "br") {} (.list []))])
          (.list [.node (.code (.str "hour") (.bool true) (.datum .null))])))),
      .node (.switch (.str "count") (.list [
        .node (.branch (.str "zero") (.list [.node (.text (.str "none"))])),
        .node (.branch .null (.datum .null)),
        .node (.branch (.str "one") (.list [.node (.text (.str "some"))]))]))]))]

theorem greetingTemplate_markup : MarkupNodes false true greetingTemplate :=
  .cons .comment (.cons (.tag (.mk [] [] (by simp))
    (.cons .text (.cons .text
      (.cons (.conditional .nil (.conditional (.cons (.tag (.mk [] [] (by simp)) .nil) .nil)
        (.list (.cons (.code .null) .nil))))
        (.cons (.switch (.cons (.str _) (.list (.cons .text .nil)) (.cons .null .null
          (.cons (.str _) (.list (.cons .text .nil)) .nil))) (by decide)) .nil))))) .nil)

/-- Expressions are their own values, and only the test `early` holds. -/
def literally : Valuation String :=
  ⟨id, id, fun test => test = "early", fun x y => x = y⟩

theorem compile_greetingTemplate_renders :
    MarkupNodes false true greetingTemplate ∧
    ∃ (p : Program) (compiled : Compiled), compile {} (.list greetingTemplate) = .ok compiled ∧
      compiled.script = Line.renderAll false (p.lines 0) ∧
      ∀ depth, p.run literally (depth + 1) = some (.element "\"p\"" none
        [.text "Hello\nname!", .element "\"br\"" none [], .text "some"]) := by
  obtain ⟨p, compiled, hcompile, hscript, -, -, -, hrun⟩ :=
    compile_renders {} rfl greetingTemplate_markup rfl
  obtain ⟨tree, htree, hrun⟩ := hrun literally
  have hmeaning : contributions (.plain literally {}) greetingTemplate = some [.element "\"p\"" none
      [.text "Hello\nname!", .element "\"br\"" none [], .text "some"]] := by cbv
  rw [hmeaning] at htree
  cases htree
  exact ⟨greetingTemplate_markup, p, compiled, hcompile, hscript, hrun⟩

end Hyperscript
