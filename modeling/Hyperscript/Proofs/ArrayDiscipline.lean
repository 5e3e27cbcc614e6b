import Hyperscript.Proofs.Compilation
import Hyperscript.Proofs.Script.Lines

/-!
# The discipline of child arrays

The compiler hands out the names of child arrays one after the other.  In the script of a template
each of them is declared once, then pushed onto, and then consumed once: by the element, the
function or the script that it was filled for.  No other array is used.

All of this is read off the text of the script, line by line.  A template may itself name a child
array in its code; if no text in it holds the letters of such a name, no line has them but for a
use that the compiler wrote.

The main statement is `compile_array_discipline`.
-/

namespace Hyperscript

/-! ## Quiet templates -/

/-- Well-typed nodes with quiet texts. -/
structure Calm (items : List Content) : Prop where
  wellTyped : WellTypedNodes items
  quiet : Everywhere Node.TextsQuiet items

section Calm

variable {n : Node} {items inner rest : List Content}

theorem Calm.first (h : Calm (.node n :: rest)) : Calm [.node n] := by
  refine ⟨?_, h.quiet.first⟩
  cases h.wellTyped with
  | cons hn hrest => exact .cons hn .nil

theorem Calm.others (h : Calm (.node n :: rest)) : Calm rest := by
  refine ⟨?_, h.quiet.others⟩
  cases h.wellTyped with
  | cons hn hrest => exact hrest

theorem Calm.node (h : Calm [.node n]) : n.WellTyped := by
  cases h.wellTyped with
  | cons hn hrest => exact hn

theorem Calm.of_owns (h : Calm [.node n]) (howns : n.Owns inner) : Calm inner :=
  ⟨h.node.of_owns howns, h.quiet.of_owns howns⟩

end Calm

/-- A content that is a list of calm nodes, if it is a list at all. -/
def Content.Calm (c : Content) : Prop :=
  ∀ items, c = .list items → Hyperscript.Calm items

/-- The same for the alternate of a conditional. -/
def Content.CalmAlternate (c : Content) : Prop :=
  c.Calm ∧ ∀ n, c = .node n → Hyperscript.Calm [.node n]

namespace Calm

variable {n : Node} {d e f : Datum} {a : Attributes} {c alternate : Content}

theorem owned (h : Calm [.node n]) (howns : ∀ items, c = .list items → n.Owns items) :
    c.Calm :=
  fun items hitems => h.of_owns (howns items hitems)

theorem children (h : Calm [.node n]) : n.children.Calm := by
  apply h.owned
  intro items hitems
  cases n <;> simp_all [Node.children]

theorem each (h : Calm [.node (.each d e f c alternate)]) :
    c.Calm ∧ alternate.Calm := by
  cases h.node with
  | each _ hchildren halternate =>
    cases halternate with
    | null =>
      refine ⟨h.owned ?_, nofun⟩
      rintro items ⟨⟩
      simp
    | list hothers =>
      refine ⟨h.owned ?_, h.owned ?_⟩
      · rintro items ⟨⟩
        simp
      · rintro items ⟨⟩
        simp

theorem conditional (h : Calm [.node (.conditional d c alternate)]) :
    c.Calm ∧ alternate.CalmAlternate := by
  cases h.node with
  | conditional hchildren halternate =>
    cases halternate with
    | null =>
      refine ⟨h.owned ?_, nofun, nofun⟩
      rintro items ⟨⟩
      simp
    | list hothers =>
      refine ⟨h.owned ?_, h.owned ?_, nofun⟩
      · rintro items ⟨⟩
        simp
      · rintro items ⟨⟩
        simp
    | conditional hinner hnext =>
      refine ⟨h.owned ?_, nofun, ?_⟩
      · rintro items ⟨⟩
        simp
      · rintro n ⟨⟩
        exact h.of_owns (by simp)

/-! ### Slots -/

theorem tag_slots (h : Calm [.node (.tag d a c)]) {options : Options} {tag : String}
    {properties : Option String} (htag : tagCode options d = .ok tag)
    (hproperties : a.code? options = .ok properties) :
    Quiet tag ∧ ∀ code ∈ properties, Quiet code := by
  have hquiet := h.quiet.here
  cases h.node with
  | tag hattributes hitems =>
    refine ⟨quiet_tagCode (hquiet _ (by simp [Node.texts, Datum.texts])) htag, ?_⟩
    rintro code ⟨⟩
    exact quiet_attributes hattributes (fun s hs => hquiet s (List.mem_append_right _ hs))
      hproperties

theorem call_slots (h : Calm [.node (.call d e a c)]) {options : Options}
    {mixin args : String} {properties : Option String} (hmixin : Mixin.nameText d = .ok mixin)
    (hproperties : a.code? options = .ok properties) (hargs : e.text = .ok args) :
    Quiet mixin ∧ (∀ code ∈ properties, Quiet code) ∧ Quiet (Text.trim args) := by
  have hquiet := h.quiet.here
  cases h.node with
  | call hattributes hblock =>
    cases hmixin
    cases hargs
    refine ⟨hquiet _ (by simp [Node.texts, Datum.texts]), ?_,
      quiet_trim (hquiet _ (by simp [Node.texts, Datum.texts]))⟩
    rintro code ⟨⟩
    exact quiet_attributes hattributes (fun s hs => hquiet s (List.mem_append_right _ hs))
      hproperties

theorem mixin_slots (h : Calm [.node (.mixin d e f c)]) {mixin params : String} {count : Nat}
    (hmixin : Mixin.nameText d = .ok mixin) (hparams : Mixin.paramList e = .ok (params, count)) :
    Quiet mixin ∧ Quiet params ∧
      ∀ parameter ∈ (if f.isNull then none else some (f.spell, count)), Quiet parameter.1 := by
  have hquiet := h.quiet.here
  cases h.node with
  | mixin names hrest hitems =>
    cases hmixin
    rw [paramList_str] at hparams
    cases hparams
    refine ⟨hquiet _ (by simp [Node.texts, Datum.texts]),
      quiet_intercalate (by decide) fun name hname => hquiet name ?_, ?_⟩
    · rw [Node.texts, Datum.texts_list_str]
      exact List.mem_append_left _ (List.mem_append_right _ hname)
    · cases hrest with
      | null =>
        intro parameter hparameter
        cases hparameter
      | str rest =>
        rintro parameter ⟨⟩
        exact hquiet rest (by simp [Node.texts, Datum.texts])

theorem each_slots (h : Calm [.node (.each d e f c alternate)]) :
    Quiet d.spell ∧ Quiet e.spell ∧ Quiet (loopKey f) := by
  have hquiet := h.quiet.here
  cases h.node with
  | each hkey hchildren halternate =>
    refine ⟨hquiet _ (by simp [Node.texts, Datum.texts, Datum.spell]),
      hquiet _ (by simp [Node.texts, Datum.texts, Datum.spell]), ?_⟩
    unfold loopKey
    cases hkey with
    | null =>
      show Quiet "$index"
      decide
    | str key =>
      split
      · exact hquiet key (by simp [Node.texts, Datum.texts])
      · decide

theorem branch_slots (h : Calm [.node (.branch d c)]) :
    ∀ label ∈ branchLabel d, Quiet label := by
  have hquiet := h.quiet.here
  cases h.node with
  | branch hexpr hblock =>
    cases hexpr with
    | null => nofun
    | str expr =>
      rintro label ⟨⟩
      exact hquiet expr (by simp [Node.texts, Datum.texts])

theorem quiet_header (h : Calm [.node n]) : Quiet n.header.spell := by
  have hquiet := h.quiet.here
  cases h.node with
  | code | conditional | switch | loop =>
    exact hquiet _ (by simp [Node.texts, Node.header, Datum.texts, Datum.spell])
  | tag | text | comment | branch | each | mixin | call | placeholder | other =>
    show Quiet (Datum.spell .null)
    decide

theorem text_slots (h : Calm [.node (.text d)]) : ∃ s, d = .str s ∧ Quiet s := by
  have hquiet := h.quiet.here
  cases h.node with
  | text => exact ⟨_, rfl, hquiet _ (by simp [Node.texts, Datum.texts])⟩

end Calm

/-! ## Tidy code -/

/-- The texts before a node are quiet. -/
def QuietRun (texts : List Datum) : Prop :=
  ∃ strings : List String, texts = strings.map .str ∧ ∀ s ∈ strings, Quiet s

theorem quietRun_nil : QuietRun [] :=
  ⟨[], rfl, nofun⟩

theorem QuietRun.append {texts : List Datum} {d : Datum} (h : QuietRun texts)
    (hd : ∃ s, d = .str s ∧ Quiet s) : QuietRun (texts ++ [d]) := by
  obtain ⟨strings, rfl, hstrings⟩ := h
  obtain ⟨s, rfl, hs⟩ := hd
  refine ⟨strings ++ [s], by simp, fun t ht => ?_⟩
  rcases List.mem_append.1 ht with ht | ht
  · exact hstrings t ht
  · cases List.mem_singleton.1 ht
    exact hs

theorem QuietRun.tidyAll {s : Scope} {texts : List Datum} {before : List Stmt} (h : QuietRun texts)
    (hflush : s.flush texts = .ok before) : Stmt.TidyAll before := by
  obtain ⟨strings, rfl, hstrings⟩ := h
  rcases Scope.flush_cases hflush with ⟨-, rfl⟩ | ⟨target, text, -, htext, rfl⟩
  · trivial
  · rw [ofRun_str] at htext
    cases htext
    exact ⟨quiet_spans hstrings, trivial⟩

mutual

theorem Node.Emits.tidy : ∀ {n : Node} {s : Scope} {k : Nat} {stmts : List Stmt} {k' : Nat},
    n.Emits s k stmts k' → Calm [.node n] → Stmt.TidyAll stmts
  | _, _, _, _, _, .element htag hproperties _ _ hbody, h => by
    have hbody := hbody.tidy h.children
    have hslots := h.tag_slots htag hproperties
    exact ⟨⟨hslots.1, hslots.2, hbody⟩, trivial⟩
  | _, _, _, _, _, .leaf htag hproperties _ _, h => ⟨h.tag_slots htag hproperties, trivial⟩
  | _, _, _, _, _, .text _ htext, h => by
    obtain ⟨text, rfl, hquiet⟩ := h.text_slots
    cases htext
    have hquiet : ∀ s ∈ [text], Quiet s := by simpa using hquiet
    exact ⟨quiet_spans hquiet, trivial⟩
  | _, _, _, _, _, .value _ _ _ hrest, h =>
    ⟨h.quiet_header, hrest.tidy h.children⟩
  | _, _, _, _, _, .bareValue _ _ _, h => ⟨h.quiet_header, trivial⟩
  | _, _, _, _, _, .splice _ _ hcode, h => by
    -- code that is spliced in has to be text, and is then its own spelling
    have hquiet := h.quiet_header
    cases h.node with
    | code hblock =>
      cases hcode
      exact ⟨hquiet, trivial⟩
  | _, _, _, _, _, .codeBlock _ _ hbody, h =>
    ⟨⟨h.quiet_header, hbody.tidy h.children⟩, trivial⟩
  | _, _, _, _, _, .comment, _ => trivial
  | _, _, _, _, _, .mixin, _ => trivial
  | _, _, _, _, _, .conditional hbody hotherwise, h =>
    ⟨⟨h.quiet_header, hbody.tidy h.conditional.1,
      hotherwise.tidy h.conditional.2⟩, trivial⟩
  | _, _, _, _, _, .switch hclauses, h =>
    ⟨⟨h.quiet_header, hclauses.tidy h.children⟩, trivial⟩
  | _, _, _, _, _, .each hd₁ hd₂ hb₁ ht₁ hb₂ ht₂, h => by
    have hchildren := h.each.1
    have halternate := h.each.2
    exact ⟨⟨h.each_slots, Stmt.tidyAll_append (hd₁.tidy hchildren) (hd₂.tidy halternate),
      hb₁.tidy hchildren, ht₁.tidy halternate, hb₂.tidy hchildren, ht₂.tidy halternate⟩, trivial⟩
  | _, _, _, _, _, .loop hbody, h =>
    ⟨⟨h.quiet_header, hbody.tidy h.children⟩, trivial⟩
  | _, _, _, _, _, .call _ _ hproperties hargs hmixin _, h =>
    ⟨h.call_slots hmixin hproperties hargs, trivial⟩
  | _, _, _, _, _, .callWith _ _ hproperties hargs hmixin _ hdefinitions hbody, h => by
    have hdefinitions := hdefinitions.tidy h.children
    have hbody := hbody.tidy h.children
    exact ⟨⟨h.call_slots hmixin hproperties hargs, hdefinitions, hbody⟩, trivial⟩
  | _, _, _, _, _, .placeholder _ _, _ => ⟨trivial, trivial⟩

theorem Content.Emits.tidy : ∀ {c : Content} {s : Scope} {k : Nat} {stmts : List Stmt} {k' : Nat},
    c.Emits s k stmts k' → c.Calm → Stmt.TidyAll stmts
  | _, _, _, _, _, .list h, hc => h.tidy quietRun_nil (hc _ rfl)
  | _, _, _, _, _, .datum _, _ => trivial

theorem ItemsEmit.tidy : ∀ {items : List Content} {s : Scope} {texts : List Datum} {k : Nat}
    {stmts : List Stmt} {k' : Nat}, ItemsEmit items s texts k stmts k' → QuietRun texts →
    Calm items → Stmt.TidyAll stmts
  | _, _, _, _, _, _, .nil h, htexts, _ => htexts.tidyAll h
  | _, _, _, _, _, _, .text h, htexts, hitems =>
    h.tidy (htexts.append hitems.first.text_slots) hitems.others
  | _, _, _, _, _, _, .cons _ hflush h h', htexts, hitems =>
    Stmt.tidyAll_append (Stmt.tidyAll_append (htexts.tidyAll hflush) (h.tidy hitems.first))
      (h'.tidy quietRun_nil hitems.others)

theorem Content.Continues.tidy : ∀ {c : Content} {s : Scope} {k : Nat}
    {otherwise : Otherwise} {k' : Nat}, c.Continues s k otherwise k' → c.CalmAlternate →
    otherwise.Tidy
  | _, _, _, _, _, .elseIf hbody hotherwise, hc => by
    have h := hc.2 _ rfl
    exact ⟨h.quiet_header, hbody.tidy h.conditional.1,
      hotherwise.tidy h.conditional.2⟩
  | _, _, _, _, _, .nil, _ => trivial
  | _, _, _, _, _, .body h, hc => h.tidy quietRun_nil (hc.1 _ rfl)
  | _, _, _, _, _, .emptyBody _ _, _ => trivial
  | _, _, _, _, _, .done _, _ => trivial

theorem Content.EmitsClauses.tidy : ∀ {c : Content} {s : Scope} {k : Nat}
    {clauses : List Clause} {k' : Nat}, c.EmitsClauses s k clauses k' → c.Calm →
    Clause.TidyAll clauses
  | _, _, _, _, _, .list h, hc => h.tidy (hc _ rfl)
  | _, _, _, _, _, .datum _, _ => trivial

theorem ItemsEmitClauses.tidy : ∀ {items : List Content} {s : Scope} {k : Nat}
    {clauses : List Clause} {k' : Nat}, ItemsEmitClauses items s k clauses k' → Calm items →
    Clause.TidyAll clauses
  | _, _, _, _, _, .nil, _ => trivial
  | _, _, _, _, _, .fallThrough _ h, hitems => ⟨hitems.first.branch_slots, h.tidy hitems.others⟩
  | _, _, _, _, _, .body _ h h', hitems =>
    ⟨⟨hitems.first.branch_slots, h.tidy hitems.first.children⟩,
      h'.tidy hitems.others⟩

theorem Content.Trails.tidy : ∀ {c : Content} {s : Scope} {k : Nat} {stmts : List Stmt}
    {k' : Nat}, c.Trails s k stmts k' → c.Calm → Stmt.TidyAll stmts
  | _, _, _, _, _, .list h, hc =>
    ⟨⟨by decide, h.tidy quietRun_nil (hc _ rfl), trivial⟩, trivial⟩
  | _, _, _, _, _, .null _, _ => trivial
  | _, _, _, _, _, .datum _ _, _ => ⟨⟨by decide, trivial, trivial⟩, trivial⟩

theorem Node.Defines.tidy : ∀ {n : Node} {s : Scope} {k : Nat} {stmts : List Stmt}
    {k' : Nat}, n.Defines s k stmts k' → Calm [.node n] → Stmt.TidyAll stmts
  | _, _, _, _, _, .tag hc, h | _, _, _, _, _, .code hc, h | _, _, _, _, _, .loop hc, h
  | _, _, _, _, _, .branch hc, h | _, _, _, _, _, .switch hc, h =>
    hc.tidy h.children
  | _, _, _, _, _, .conditional hc hc', h =>
    Stmt.tidyAll_append (hc.tidy h.conditional.1) (hc'.tidy h.conditional.2)
  | _, _, _, _, _, .mixin hparams hmixin hdefinitions hbody, h => by
    have hdefinitions := hdefinitions.tidy h.children
    have hbody := hbody.tidy h.children
    exact ⟨⟨h.mixin_slots hmixin hparams, hdefinitions, hbody⟩, trivial⟩
  | _, _, _, _, _, .text, _ | _, _, _, _, _, .comment, _ | _, _, _, _, _, .each, _
  | _, _, _, _, _, .call, _ | _, _, _, _, _, .placeholder, _ | _, _, _, _, _, .other, _ => trivial

theorem Content.Defines.tidy : ∀ {c : Content} {s : Scope} {k : Nat} {stmts : List Stmt}
    {k' : Nat}, c.Defines s k stmts k' → c.Calm → Stmt.TidyAll stmts
  | _, _, _, _, _, .list h, hc => h.tidy (hc _ rfl)
  | _, _, _, _, _, .node, _ | _, _, _, _, _, .datum, _ => trivial

theorem Content.DefinesAlternate.tidy : ∀ {c : Content} {s : Scope} {k : Nat}
    {stmts : List Stmt} {k' : Nat}, c.DefinesAlternate s k stmts k' → c.CalmAlternate →
    Stmt.TidyAll stmts
  | _, _, _, _, _, .list h, hc => h.tidy (hc.1 _ rfl)
  | _, _, _, _, _, .conditional _ h, hc => h.tidy (hc.2 _ rfl)
  | _, _, _, _, _, .node _, _ | _, _, _, _, _, .datum, _ => trivial

theorem ItemsDefine.tidy : ∀ {items : List Content} {s : Scope} {k : Nat}
    {stmts : List Stmt} {k' : Nat}, ItemsDefine items s k stmts k' → Calm items →
    Stmt.TidyAll stmts
  | _, _, _, _, _, .nil, _ => trivial
  | _, _, _, _, _, .node h h', hitems =>
    Stmt.tidyAll_append (h.tidy hitems.first) (h'.tidy hitems.others)
  | _, _, _, _, _, .other hne _, hitems => by
    -- there are only nodes among well-typed items
    cases hitems.wellTyped with
    | cons => exact absurd rfl (hne _)

end

/-! ## Compilation -/

/-- Compilation of a well-typed template takes the names of the arrays from `n0Child` on.  The
script is the text of a program in which each of them is declared, pushed onto and then consumed by
its owner, and no other array is used.  Every line shows these uses; it has no other trace of an
array if no text of the template holds the letters of one. -/
theorem compile_array_discipline (options : Options) (hformat : options.formatter = .absent)
    {nodes : List Content} (h : WellTypedNodes nodes) {compiled : Compiled}
    (hcompile : compile options (.list nodes) = .ok compiled) :
    Function.Injective (fun k => (ArrayName.fresh k).text) ∧
    ∃ ds mixins p count, (Content.list nodes).declarations = .ok ds ∧
      ds.foldlM Session.declare {} = .ok mixins ∧
      (Session.program ⟨options, mixins, none, 0⟩ (.list nodes)).run 0 = .ok (p, count) ∧
      compiled.script = String.join ((p.lines 0).map fun line =>
        (if options.pretty.isTrue then String.ofList (List.replicate line.indent.toNat ' ') else "")
          ++ line.code ++ "\n") ∧
      LinesShow (Everywhere Node.TextsQuiet nodes) (p.lines 0) p.marks ∧ p.Orderly count := by
  obtain ⟨c, ds, mixins, p, count, -, hds, hmixins, hrun, rfl⟩ :=
    exists_program_of_compile hformat hcompile
  obtain ⟨hroot, k₁, hdefine, hbody⟩ := program_emits hrun
  -- the lines show the marks in any case; quiet texts are needed for what stands around them
  have hlines : LinesShow (Everywhere Node.TextsQuiet nodes) (p.lines 0) p.marks :=
    p.lines_show 0 (fun hquiet => hdefine.tidy ⟨h, hquiet⟩)
      fun hquiet => hbody.tidy quietRun_nil ⟨h, hquiet⟩
  exact ⟨ArrayName.text_fresh_injective, ds, mixins, p, count, hds, hmixins, hrun, rfl, hlines,
    Program.orderly hroot hdefine hbody⟩

/-- A mixin with a block that is called in a loop.  The body of the loop is there twice, and there
is an array for either of the blocks that are passed. -/
def cardTemplate : List Content :=
  [.node (.mixin (.str "card") (.list [.str "title"]) (.str "more") (.list [
      .node (.tag (.str "section") {} (.list [
        .node (.code (.str "title") (.bool true) (.datum .null)), .node .placeholder]))])),
    .node (.tag (.str "ul") {} (.list [
      .node (.each (.str "rows") (.str "row") .null (.list [
        .node (.call (.str "card") (.str "row, 1") {} (.list [
          .node (.text (.str "no #\x7brow\x7d"))]))]) (.datum .null))]))]

theorem cardTemplate_wellTyped : WellTypedNodes cardTemplate :=
  .cons (.mixin ["title"] (.str _) (.cons (.tag (.mk [] [] (by simp))
      (.cons (.code .null) (.cons .placeholder .nil))) .nil))
    (.cons (.tag (.mk [] [] (by simp)) (.cons (.each .null
      (.cons (.call (.mk [] [] (by simp)) (.list (.cons .text .nil))) .nil) .null) .nil)) .nil)

theorem cardTemplate_quiet : Everywhere Node.TextsQuiet cardTemplate := by
  simp only [cardTemplate, everywhere_cons, everywhere_nil, Node.owns_mixin, Node.owns_tag,
    Node.owns_each_null, Node.owns_call, Node.not_owns_text, Node.not_owns_placeholder,
    Node.not_owns_code_null, forall_eq, false_implies, implies_true, and_true]
  decide

theorem compile_cardTemplate_array_discipline :
    WellTypedNodes cardTemplate ∧ Everywhere Node.TextsQuiet cardTemplate ∧
    ∃ (compiled : Compiled) (p : Program), compile {} (.list cardTemplate) = .ok compiled ∧
      compiled.script = Line.renderAll false (p.lines 0) ∧
      LinesShow (Everywhere Node.TextsQuiet cardTemplate) (p.lines 0) p.marks ∧ p.Orderly 6 := by
  have hcompile : ∃ compiled, compile {} (.list cardTemplate) = .ok compiled :=
    exists_compiled_of_scriptOf rfl ⟨_, rfl⟩
  obtain ⟨compiled, hcompile⟩ := hcompile
  obtain ⟨-, ds, mixins, p, count, hds, hmixins, hrun, hscript, hlines, horderly⟩ :=
    compile_array_discipline {} rfl cardTemplate_wellTyped hcompile
  cases hds
  cases hmixins
  cases hrun
  exact ⟨cardTemplate_wellTyped, cardTemplate_quiet, compiled, _, hcompile, hscript, hlines,
    horderly⟩

end Hyperscript
