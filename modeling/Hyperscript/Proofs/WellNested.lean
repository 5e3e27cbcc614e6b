import Hyperscript.Proofs.Compilation
import Hyperscript.Proofs.Script.Lines
import Hyperscript.Proofs.Text.Nesting

/-!
# Nesting of scripts

A script is put together from code of the compiler and code of the template.  The brackets of the
compiler are opened in one line and closed in another, with any amount of code between them; names,
literal texts and static values are quoted.  If the code of the template is closed, piece by piece,
then so is the script.

The main statement is `compile_script_closed`.
-/

namespace Hyperscript

open Nesting

/-! ## Code of the template -/

/-- The expression that is passed on from an attribute. -/
def AttributeEntry.fragments : AttributeEntry → List String
  | .attr a => if a.dynamic.isTrue then a.value.texts else []
  | .datum _ => []

def AttributeSlot.fragments : AttributeSlot → List String
  | .list entries => entries.flatMap AttributeEntry.fragments
  | .datum _ => []

def Attributes.fragments (a : Attributes) : List String :=
  a.entries.fragments ++ a.blocks.texts

/-- The expressions in the spans of a text. -/
def Datum.spanTexts : Datum → List String
  | .str s => (Interpolated.split s.toList).spans.map Span.expr
  | _ => []

/-- The code in the slots of a node.  Names, static values, literal text and comments are not
code. -/
def Node.fragments : Node → List String
  | tag _ attributes _ => attributes.fragments
  | text value => value.spanTexts
  | code value _ _ => value.texts
  | conditional test _ _ => test.texts
  | branch expr _ => expr.texts
  | switch expr _ => expr.texts
  | each obj val key _ _ => obj.texts ++ val.texts ++ key.texts
  | loop test _ => test.texts
  | mixin _ params rest _ => params.texts ++ rest.texts
  | call _ args attributes _ => args.texts ++ attributes.fragments
  | comment .. | placeholder | other _ => []

/-- Every piece of code in the node is closed. -/
def Node.FragmentsClosed (n : Node) : Prop :=
  ∀ code ∈ n.fragments, Closed code

instance (n : Node) : Decidable n.FragmentsClosed :=
  inferInstanceAs (Decidable (∀ code ∈ n.fragments, Closed code))

/-! ### Attributes -/

theorem closed_valueCode {a : Attribute} (h : a.WellTyped)
    (hclosed : ∀ code ∈ AttributeEntry.fragments (.attr a), Closed code) {value : String}
    (hvalue : a.valueCode = .ok value) : Closed value := by
  unfold Attribute.valueCode at hvalue
  rcases h.value with ⟨b, hb⟩ | ⟨s, hs⟩
  · rw [hb] at hvalue
    cases hvalue
    cases b
    · show Closed "false"
      decide
    · show Closed "true"
      decide
  · rw [hs] at hvalue
    cases hvalue
    by_cases hdynamic : a.dynamic.isTrue = true
    · rw [if_pos hdynamic]
      apply closed_parens
      apply hclosed
      simp [AttributeEntry.fragments, hdynamic, hs, Datum.texts]
    · rw [if_neg hdynamic]
      exact closed_literal s

theorem closed_attributeObject {attributes : List Attribute} (h : ∀ a ∈ attributes, a.WellTyped)
    (hclosed : ∀ code ∈ (AttributeSlot.list (attributes.map .attr)).fragments, Closed code)
    {options : Options} {object : String}
    (hobject : (AttributeSlot.list (attributes.map .attr)).object options = .ok object) :
    Closed object := by
  obtain ⟨properties, rfl, hproperties⟩ := AttributeSlot.exists_of_object hobject
  apply closed_object
  apply Property.forall_entries
  · intro p hmem
    obtain ⟨a, ha, hproperty⟩ := hproperties p hmem
    obtain ⟨name, hname⟩ := (h a ha).name
    obtain ⟨key, value, -, hvalue, hcode⟩ := Attribute.code_of_property hname hproperty
    rw [hcode]
    apply closed_property
    apply closed_valueCode (h a ha) _ hvalue
    intro code hmem
    exact hclosed code (List.mem_flatMap.2 ⟨_, List.mem_map_of_mem ha, hmem⟩)
  · intro entries hentries
    exact closed_property (closed_object hentries)

theorem closed_attributes {a : Attributes} (h : a.WellTyped)
    (hclosed : ∀ code ∈ a.fragments, Closed code) {options : Options} {code : String}
    (hcode : a.code? options = .ok (some code)) : Closed code := by
  obtain ⟨attributes, blocks, h⟩ := h
  obtain ⟨object, hobject, hcases⟩ := attributesCode_cases hcode
  have hobject : Closed object :=
    closed_attributeObject h (fun s hs => hclosed s (List.mem_append_left _ hs)) hobject
  have hblocks : ∀ entry ∈ blocks.map (fun block => "(" ++ block ++ ")"), Closed entry := by
    intro entry hentry
    obtain ⟨block, hblock, rfl⟩ := List.mem_map.1 hentry
    apply closed_parens
    apply hclosed
    apply List.mem_append_right
    show block ∈ (Datum.list (blocks.map .str)).texts
    rwa [Datum.texts_list_str]
  rcases hcases with rfl | rfl
  · exact hobject
  · have hfirst : Turns [] "Object.assign(\x7b\x7d, " [.round] := turns_ofList (by decide)
    have hobjects := (hfirst.append_closed hobject).append_closed (show Closed ", " by decide)
    have hall := hobjects.append_closed (closed_intercalate (show Closed ", " by decide) hblocks)
    exact hall.append (by decide)

/-! ## Code of the compiler -/

section Code

variable {code value array : String} {properties : Option String} {args : String}

theorem closed_declare (h : Closed array) : Closed (Code.declare array) :=
  (Closed.append (by decide) h).append (by decide)

theorem closed_push (harray : Closed array) (hvalue : Closed value) :
    Closed (Code.push array value) := by
  have hhead : Turns [] (array ++ ".push(") [.round] := harray.append_turns (by decide)
  exact hhead.wrap hvalue (by decide)

theorem closed_result (h : Closed value) : Closed (Code.result value) :=
  (Closed.append (by decide) h).append (by decide)

theorem closed_element {arguments : List String} (h : ∀ argument ∈ arguments, Closed argument) :
    Closed (Code.element arguments) :=
  Turns.wrap (b := [.round]) (by decide) (closed_intercalate (by decide) h) (by decide)

theorem closed_leaf {tag : String} (htag : Closed tag) (h : ∀ code ∈ properties, Closed code) :
    Closed (Value.leaf tag properties).expr := by
  cases properties with
  | none => exact closed_element (by simpa using htag)
  | some code => exact closed_element (by simpa using ⟨htag, h code rfl⟩)

theorem closed_getD (h : ∀ code ∈ properties, Closed code) :
    Closed (properties.getD "\x7b\x7d") := by
  cases properties with
  | none =>
    show Closed "\x7b\x7d"
    decide
  | some code => exact h code rfl

theorem closed_furtherArguments (h : Closed args) : Closed (Code.furtherArguments args) := by
  unfold Code.furtherArguments
  split
  · exact closed_empty
  · exact Closed.append (by decide) h

theorem closed_labelCode {label : Option String} (h : ∀ expr ∈ label, Closed expr) :
    Closed (Clause.labelCode label) := by
  cases label with
  | none =>
    show Closed "default:"
    decide
  | some expr => exact (Closed.append (by decide) (h expr rfl)).append (by decide)

/-- A header with something in parentheses opens a block. -/
theorem turns_opening {start : String} (hstart : Turns [] start [.round]) (h : Closed code) :
    Turns [] (Code.opening (start ++ code ++ ")")) [.curly] := by
  have hheader : Closed (start ++ code ++ ")") := hstart.wrap h (by decide)
  exact hheader.append_turns (by decide)

theorem turns_reopening (h : Closed code) :
    Turns [.curly] (Code.reopening ("else if (" ++ code ++ ")")) [.curly] := by
  have hstart : Turns [] "else if (" [.round] := turns_ofList (by decide)
  have hheader : Closed ("else if (" ++ code ++ ")") := hstart.wrap h (by decide)
  have hbrace : Turns [.curly] "\x7d " [] := by decide
  exact hbrace.wrap hheader (by decide)

theorem turns_closing : Turns [.curly] Code.closing [] := by
  decide

/-- The head of a call leaves two parentheses open. -/
theorem turns_callHead (harray : Closed array) (mixin : String) :
    Turns [] (Code.callHead array mixin) [.round, .round] := by
  have happly : Turns [] (array ++ ".push.apply(") [.round] :=
    harray.append_turns (turns_ofList (by decide))
  have harguments := (happly.append_closed harray).append_closed (show Closed ", " by decide)
  exact (harguments.append_closed (closed_reference mixin)).append (by decide)

end Code

/-! ## Lines of statements -/

/-- The lines of these statements are closed. -/
def StmtsClosed (pretty : Bool) (stmts : List Stmt) : Prop :=
  ∀ indent, LinesTurn pretty [] (Stmt.linesAll indent stmts) []

section Statements

variable {pretty : Bool} {target array : ArrayName} {body definitions : List Stmt}

theorem stmtsClosed_nil : StmtsClosed pretty [] :=
  fun _ => linesTurn_nil

theorem StmtsClosed.append {xs ys : List Stmt} (hx : StmtsClosed pretty xs)
    (hy : StmtsClosed pretty ys) : StmtsClosed pretty (xs ++ ys) := by
  intro indent
  rw [Stmt.linesAll_append]
  exact (hx indent).append (hy indent)

theorem stmtsClosed_singleton {s : Stmt} (h : ∀ indent, LinesTurn pretty [] (s.lines indent) []) :
    StmtsClosed pretty [s] := by
  intro indent
  rw [Stmt.linesAll, Stmt.linesAll, List.append_nil]
  exact h indent

theorem stmtsClosed_push {value : Value} (htarget : Closed target.text)
    (hvalue : Closed value.expr) : StmtsClosed pretty [.push target value] :=
  stmtsClosed_singleton fun indent => linesTurn_singleton indent (closed_push htarget hvalue)

theorem stmtsClosed_element {tag : String} {properties : Option String}
    (htarget : Closed target.text) (harray : Closed array.text) (htag : Closed tag)
    (hproperties : ∀ code ∈ properties, Closed code) (hbody : StmtsClosed pretty body) :
    StmtsClosed pretty [.element target array tag properties body] := by
  apply stmtsClosed_singleton
  intro indent
  have helement : Closed (Code.element [tag, properties.getD "\x7b\x7d", array.text]) := by
    apply closed_element
    simp only [List.forall_mem_cons, List.not_mem_nil, false_implies, implies_true, and_true]
    exact ⟨htag, closed_getD hproperties, harray⟩
  exact LinesTurn.block indent (closed_declare harray) (hbody _) (closed_push htarget helement)

theorem stmtsClosed_splice {code : String} (h : Closed code) :
    StmtsClosed pretty [.splice code] :=
  stmtsClosed_singleton fun indent => linesTurn_codeLines indent h

theorem stmtsClosed_codeBlock {header : String} (h : Closed header)
    (hbody : StmtsClosed pretty body) : StmtsClosed pretty [.codeBlock header body] := by
  apply stmtsClosed_singleton
  intro indent
  have hopening : Turns [] (Code.opening header) [.curly] := h.append_turns (by decide)
  have hfirst : LinesTurn pretty [] _ _ := linesTurn_codeLines indent hopening
  exact (hfirst.append ((hbody _).frame _)).append (linesTurn_singleton indent turns_closing)

theorem stmtsClosed_cond {test : String} {otherwise : Otherwise} (h : Closed test)
    (hbody : StmtsClosed pretty body)
    (hotherwise : ∀ indent, LinesTurn pretty [.curly] (otherwise.lines indent) []) :
    StmtsClosed pretty [.cond test body otherwise] := by
  apply stmtsClosed_singleton
  intro indent
  have hfirst := turns_opening (show Turns [] "if (" [.round] by decide) h
  exact (LinesTurn.cons indent hfirst ((hbody _).frame _)).append (hotherwise indent)

theorem stmtsClosed_switch {subject : String} {clauses : List Clause} (h : Closed subject)
    (hclauses : ∀ indent, LinesTurn pretty [] (Clause.linesAll indent clauses) []) :
    StmtsClosed pretty [.switch subject clauses] := by
  apply stmtsClosed_singleton
  intro indent
  have hfirst := turns_opening (show Turns [] "switch (" [.round] by decide) h
  exact LinesTurn.block indent hfirst (hclauses _) turns_closing

theorem stmtsClosed_loop {test : String} (h : Closed test) (hbody : StmtsClosed pretty body) :
    StmtsClosed pretty [.loop test body] := by
  apply stmtsClosed_singleton
  intro indent
  have hfirst := turns_opening (show Turns [] "while (" [.round] by decide) h
  exact LinesTurn.block indent hfirst (hbody _) turns_closing

/-- One of the two loops of an `each`, with what follows it. -/
theorem linesTurn_eachLines {header : String} {first : List String} {lines rest : List Line}
    (indent : Int) (hheader : Closed header) (hfirst : ∀ code ∈ first, Closed code)
    (hlines : LinesTurn pretty [] lines []) (hrest : LinesTurn pretty [] rest []) :
    LinesTurn pretty [] (eachLines indent header first lines rest) [] := by
  have hbindings : LinesTurn pretty [] (first.map (⟨indent + 2, ·⟩)) [] := by
    induction first with
    | nil => exact linesTurn_nil
    | cons code first ih =>
      exact LinesTurn.cons _ (hfirst code (List.mem_cons_self ..))
        (ih fun other hmem => hfirst other (List.mem_cons_of_mem code hmem))
  have hopening : Turns [] (Code.opening header) [.curly] := hheader.append_turns (by decide)
  have hstart := LinesTurn.cons indent hopening (hbindings.frame _)
  exact (hstart.append (hlines.frame _)).append (LinesTurn.cons indent turns_closing hrest)

theorem stmtsClosed_each {source item key : String}
    {arrayBody arrayRest objectBody objectRest : List Stmt} (hsource : Closed source)
    (hitem : Closed item) (hkey : Closed key) (hdefinitions : StmtsClosed pretty definitions)
    (harray : StmtsClosed pretty arrayBody) (harrayRest : StmtsClosed pretty arrayRest)
    (hobject : StmtsClosed pretty objectBody) (hobjectRest : StmtsClosed pretty objectRest) :
    StmtsClosed pretty
      [.each source item key definitions arrayBody arrayRest objectBody objectRest] := by
  apply stmtsClosed_singleton
  intro indent
  have hbind : Closed ("var " ++ item ++ " = $$obj[" ++ key ++ "];") := by
    have hvar : Closed ("var " ++ item) := Closed.append (by decide) hitem
    have hhead : Turns [] ("var " ++ item ++ " = $$obj[") [.square] := hvar.append_turns (by decide)
    exact hhead.wrap hkey (by decide)
  have harrayHead : Closed ("for (var " ++ key ++ " = 0, $$l = $$obj.length; " ++ key ++
      " < $$l; " ++ key ++ "++)") := by
    have hstart : Turns [] "for (var " [.round] := by decide
    have hinit := (hstart.append_closed hkey).append_closed
      (show Closed " = 0, $$l = $$obj.length; " from turns_ofList (by decide))
    have htest := (hinit.append_closed hkey).append_closed (show Closed " < $$l; " by decide)
    exact htest.wrap hkey (by decide)
  have hobjectHead : Closed ("for (var " ++ key ++ " in $$obj)") :=
    Turns.wrap (b := [.round]) (by decide) hkey (by decide)
  have hsourceLine : Closed ("var $$obj = " ++ source ++ ";") :=
    (Closed.append (by decide) hsource).append (by decide)
  have hone : ∀ code ∈ ["var " ++ item ++ " = $$obj[" ++ key ++ "];"], Closed code :=
    List.forall_mem_singleton.2 hbind
  have htwo : ∀ code ∈ ["$$l++;", "var " ++ item ++ " = $$obj[" ++ key ++ "];"], Closed code :=
    List.forall_mem_cons.2 ⟨by decide, hone⟩
  have harrayLoop := linesTurn_eachLines (indent + 4) harrayHead hone (harray (indent + 6))
    (harrayRest (indent + 4))
  have hobjectLoop := linesTurn_eachLines (indent + 4) hobjectHead htwo (hobject (indent + 6))
    (hobjectRest (indent + 4))
  -- the function around the loops leaves a brace and a parenthesis open, the conditional in it a
  -- further brace
  have hfirst : LinesTurn pretty [] [⟨indent, ";(function()\x7b"⟩,
      ⟨indent + 2, "var $$obj = " ++ source ++ ";"⟩] [.curly, .round] :=
    LinesTurn.cons indent (turns_ofList (by decide)) (linesTurn_singleton _ (hsourceLine.turns _))
  have htest : Closed "if ('number' == typeof $$obj.length)" := turns_ofList (by decide)
  have hif : Turns [.curly, .round] (Code.opening "if ('number' == typeof $$obj.length)")
      [.curly, .curly, .round] := htest.append_turns (by decide)
  have helse : LinesTurn pretty [.curly, .curly, .round]
      [⟨indent + 2, Code.reopening "else"⟩, ⟨indent + 4, "var $$l = 0;"⟩]
      [.curly, .curly, .round] :=
    LinesTurn.cons (b := [.curly, .curly, .round]) _ (by decide)
      (linesTurn_singleton _ (by decide))
  have hlast : LinesTurn pretty [.curly, .curly, .round]
      [⟨indent + 2, Code.closing⟩, ⟨indent, "\x7d).call(this);"⟩] [] :=
    LinesTurn.cons (b := [.curly, .round]) _ (by decide)
      (linesTurn_singleton indent (turns_ofList (by decide)))
  exact ((((hfirst.append ((hdefinitions _).frame _)).append
    (LinesTurn.cons _ hif (harrayLoop.frame _))).append helse).append
    (hobjectLoop.frame _)).append hlast

/-- The lines of a function that fills an array and returns it. -/
theorem linesTurn_functionLines {lines bodyLines : List Line} (indent : Int)
    (harray : Closed array.text) (hlines : LinesTurn pretty [] lines [])
    (hbody : LinesTurn pretty [] bodyLines []) :
    LinesTurn pretty [] (functionLines indent lines array bodyLines) [] := by
  have hfill := hlines.append (LinesTurn.cons indent (closed_declare harray) hbody)
  exact hfill.append (linesTurn_singleton indent (closed_result harray))

theorem stmtsClosed_define {mixin params : String} {rest : Option (String × Nat)}
    (harray : Closed array.text) (hparams : Closed params)
    (hrest : ∀ parameter ∈ rest, Closed parameter.1) (hdefinitions : StmtsClosed pretty definitions)
    (hbody : StmtsClosed pretty body) :
    StmtsClosed pretty [.define mixin params rest definitions array body] := by
  apply stmtsClosed_singleton
  intro indent
  have hhead :
      Turns [] (Mixin.reference mixin ++ " = function(" ++ params ++ ") \x7b") [.curly] := by
    have hstart : Turns [] (Mixin.reference mixin ++ " = function(") [.round] :=
      (closed_reference mixin).append_turns (turns_ofList (by decide))
    exact hstart.wrap hparams (by decide)
  have hcontext : Closed ("var block = (this && this.block), " ++
      "attributes = (this && this.attributes) || \x7b\x7d;") :=
    Closed.append (turns_ofList (by decide)) (turns_ofList (by decide))
  have hfirst : LinesTurn pretty [] [⟨indent, Mixin.reference mixin ++ " = function(" ++ params ++
      ") \x7b"⟩, ⟨indent + 2, "var block = (this && this.block), " ++
        "attributes = (this && this.attributes) || \x7b\x7d;"⟩] [.curly] :=
    LinesTurn.cons indent hhead (linesTurn_singleton _ (hcontext.turns _))
  have hfunction := linesTurn_functionLines (indent + 2) harray (hdefinitions (indent + 2))
    (hbody (indent + 2))
  have hlast : LinesTurn pretty [.curly] [⟨indent, "\x7d;"⟩] [] :=
    linesTurn_singleton indent (by decide)
  -- the rest parameter, if there is one, has a line of its own
  cases rest with
  | none => exact ((hfirst.append linesTurn_nil).append (hfunction.frame _)).append hlast
  | some parameter =>
    have hvar : Closed ("var " ++ parameter.1) := Closed.append (by decide) (hrest parameter rfl)
    have hcall : Turns [] ("var " ++ parameter.1 ++ " = Array.prototype.slice.call(arguments, ")
        [.round] := hvar.append_turns (turns_ofList (by decide))
    have hline : Closed ("var " ++ parameter.1 ++ " = Array.prototype.slice.call(arguments, " ++
        toString parameter.2 ++ ");") := hcall.wrap (closed_toString parameter.2) (by decide)
    exact ((hfirst.append (linesTurn_singleton _ (hline.turns _))).append
      (hfunction.frame _)).append hlast

theorem closed_attributesField {properties : String} (h : Closed properties) :
    Closed (Code.attributesField properties) :=
  Closed.append (by decide) h

theorem stmtsClosed_call {mixin args : String} {properties : Option String}
    (htarget : Closed target.text) (hproperties : ∀ code ∈ properties, Closed code)
    (hargs : Closed args) : StmtsClosed pretty [.call target mixin properties args] := by
  apply stmtsClosed_singleton
  intro indent
  have hline : ∀ context, Closed context → Turns [] (Code.callHead target.text mixin ++ context ++
      Code.furtherArguments args ++ "));") [] := by
    intro context hcontext
    have hhead := (turns_callHead htarget mixin).append_closed hcontext
    exact (hhead.append_closed (closed_furtherArguments hargs)).append (by decide)
  cases properties with
  | none => exact linesTurn_singleton indent (hline "this" (by decide))
  | some code =>
    have hcontext : Closed ("\x7b" ++ Code.attributesField code ++ "\x7d") :=
      Turns.wrap (b := [.curly]) (by decide) (closed_attributesField (hproperties code rfl))
        (by decide)
    exact linesTurn_singleton indent (hline _ hcontext)

theorem stmtsClosed_callWith {mixin args : String} {properties : Option String}
    (htarget : Closed target.text) (harray : Closed array.text)
    (hproperties : ∀ code ∈ properties, Closed code) (hargs : Closed args)
    (hdefinitions : StmtsClosed pretty definitions) (hbody : StmtsClosed pretty body) :
    StmtsClosed pretty [.callWith target mixin properties args definitions array body] := by
  apply stmtsClosed_singleton
  intro indent
  have hfunction := linesTurn_functionLines (indent + 2) harray (hdefinitions (indent + 2))
    (hbody (indent + 2))
  -- the braces of the context and of the block stay open between the first line and the last
  have hhead : Turns [] (Code.callHead target.text mixin ++ "\x7bblock: function() \x7b")
      [.curly, .curly, .round, .round] :=
    (turns_callHead htarget mixin).append (turns_ofList (by decide))
  have hlast : ∀ field, Closed field → Turns [.curly, .curly, .round, .round]
      ("\x7d" ++ field ++ "\x7d" ++ Code.furtherArguments args ++ "));") [] := by
    intro field hfield
    have hbraces : Turns [.curly, .curly, .round, .round] ("\x7d" ++ field ++ "\x7d")
        [.round, .round] :=
      Turns.wrap (b := [.curly, .round, .round]) (by decide) hfield (by decide)
    exact (hbraces.append_closed (closed_furtherArguments hargs)).append (by decide)
  cases properties with
  | none => exact LinesTurn.block indent hhead hfunction (hlast "" closed_empty)
  | some code =>
    have hfield : Closed (", " ++ Code.attributesField code) :=
      Closed.append (by decide) (closed_attributesField (hproperties code rfl))
    exact LinesTurn.block indent hhead hfunction (hlast _ hfield)

theorem stmtsClosed_insertBlock (htarget : Closed target.text) :
    StmtsClosed pretty [.insertBlock target] := by
  apply stmtsClosed_singleton
  intro indent
  have hpush : Closed (Code.pushAll target.text "block.call(this)") := by
    have happly : Turns [] (target.text ++ ".push.apply(") [.round] :=
      htarget.append_turns (by decide)
    have harguments := (happly.append_closed htarget).append_closed (show Closed ", " by decide)
    have hcall : Closed "block.call(this)" := turns_ofList (by decide)
    exact (harguments.append_closed hcall).append (by decide)
  have htest : Closed "if (block)" := turns_ofList (by decide)
  have hif : Turns [] (Code.opening "if (block)") [.curly] := htest.append_turns (by decide)
  exact LinesTurn.cons indent hif (LinesTurn.cons _ (hpush.turns _)
    (linesTurn_singleton indent turns_closing))

end Statements

/-! ## Slots of nodes -/

/-- A well-typed node in which all code is closed. -/
structure Node.Sound (n : Node) : Prop where
  wellTyped : n.WellTyped
  closed : n.FragmentsClosed

namespace Node.Sound

variable {d e f : Datum} {a : Attributes} {c alternate : Content} {options : Options}

theorem header {n : Node} (h : n.Sound) : Closed n.header.spell := by
  obtain ⟨hn, hclosed⟩ := h
  cases hn with
  | code | conditional | switch | loop =>
    exact hclosed _ (by simp [Node.fragments, Node.header, Datum.texts, Datum.spell])
  | tag | text | comment | branch | each | mixin | call | placeholder | other =>
    show Closed (Datum.spell .null)
    decide

theorem tag_slots (h : (Node.tag d a c).Sound) {tag : String} {properties : Option String}
    (htag : tagCode options d = .ok tag) (hproperties : a.code? options = .ok properties) :
    Closed tag ∧ ∀ code ∈ properties, Closed code := by
  obtain ⟨hn, hclosed⟩ := h
  cases hn with
  | tag hattributes hitems =>
    refine ⟨closed_tagCode htag, ?_⟩
    rintro code ⟨⟩
    exact closed_attributes hattributes hclosed hproperties

theorem call_slots (h : (Node.call d e a c).Sound) {args : String} {properties : Option String}
    (hproperties : a.code? options = .ok properties) (hargs : e.text = .ok args) :
    (∀ code ∈ properties, Closed code) ∧ Closed (Text.trim args) := by
  obtain ⟨hn, hclosed⟩ := h
  cases hn with
  | call hattributes hblock =>
    cases hargs
    refine ⟨?_, (hclosed _ (by simp [Node.fragments, Datum.texts])).trim⟩
    rintro code ⟨⟩
    exact closed_attributes hattributes (fun s hs => hclosed s (List.mem_append_right _ hs))
      hproperties

theorem mixin_slots (h : (Node.mixin d e f c).Sound) {params : String} {count : Nat}
    (hparams : Mixin.paramList e = .ok (params, count)) :
    Closed params ∧
      ∀ parameter ∈ (if f.isNull then none else some (f.spell, count)), Closed parameter.1 := by
  obtain ⟨hn, hclosed⟩ := h
  cases hn with
  | mixin names hrest hitems =>
    rw [paramList_str] at hparams
    cases hparams
    refine ⟨closed_intercalate (by decide) fun name hname => hclosed name ?_, ?_⟩
    · rw [Node.fragments, Datum.texts_list_str]
      exact List.mem_append_left _ hname
    · cases hrest with
      | null =>
        intro parameter hparameter
        cases hparameter
      | str rest =>
        rintro parameter ⟨⟩
        exact hclosed rest (by simp [Node.fragments, Datum.texts])

theorem each_slots (h : (Node.each d e f c alternate).Sound) :
    Closed d.spell ∧ Closed e.spell ∧ Closed (loopKey f) := by
  obtain ⟨hn, hclosed⟩ := h
  cases hn with
  | each hkey hchildren halternate =>
    refine ⟨hclosed _ (by simp [Node.fragments, Datum.texts, Datum.spell]),
      hclosed _ (by simp [Node.fragments, Datum.texts, Datum.spell]), ?_⟩
    unfold loopKey
    cases hkey with
    | null =>
      show Closed "$index"
      decide
    | str key =>
      split
      · exact hclosed key (by simp [Node.fragments, Datum.texts])
      · decide

theorem branch_slots (h : (Node.branch d c).Sound) : ∀ label ∈ branchLabel d, Closed label := by
  obtain ⟨hn, hclosed⟩ := h
  cases hn with
  | branch hexpr hblock =>
    cases hexpr with
    | null => nofun
    | str expr =>
      rintro label ⟨⟩
      exact hclosed expr (by simp [Node.fragments, Datum.texts])

theorem splice_slots (h : (Node.code d e c).Sound) {code : String} (hcode : d.text = .ok code) :
    Closed code := by
  have hheader := h.header
  cases h.wellTyped with
  | code hblock =>
    cases hcode
    exact hheader

/-- The spans of a text are closed. -/
theorem text_slots (h : (Node.text d).Sound) :
    ∃ s, d = .str s ∧ ∀ span ∈ (Interpolated.split s.toList).spans, Closed span.expr := by
  obtain ⟨hn, hclosed⟩ := h
  cases hn with
  | text => exact ⟨_, rfl, fun span hspan => hclosed _ (List.mem_map_of_mem hspan)⟩

end Node.Sound

/-! ## Generated code -/

/-- The texts before a node are texts with closed spans. -/
def ClosedRun (texts : List Datum) : Prop :=
  ∃ strings : List String, texts = strings.map .str ∧
    ∀ s ∈ strings, ∀ span ∈ (Interpolated.split s.toList).spans, Closed span.expr

theorem closedRun_nil : ClosedRun [] :=
  ⟨[], rfl, nofun⟩

theorem ClosedRun.append {texts : List Datum} {d : Datum} (h : ClosedRun texts)
    (hd : (Node.text d).Sound) : ClosedRun (texts ++ [d]) := by
  obtain ⟨strings, rfl, hstrings⟩ := h
  obtain ⟨s, rfl, hs⟩ := hd.text_slots
  refine ⟨strings ++ [s], by simp, ?_⟩
  rw [List.forall_mem_append, List.forall_mem_singleton]
  exact ⟨hstrings, hs⟩

/-- The array to push onto has a closed name. -/
def Scope.ParentClosed (s : Scope) : Prop :=
  ∀ a, s.parent = some a → Closed a.text

theorem Scope.parentClosed_filling (s : Scope) (k : Nat) :
    (s.filling (.fresh k)).ParentClosed := by
  intro a ha
  cases ha
  exact closed_fresh k

theorem Scope.ParentClosed.target {s : Scope} (h : s.ParentClosed) {a : ArrayName}
    (ha : s.target = .ok a) : Closed a.text :=
  h a (Scope.parent_of_target ha)

theorem ClosedRun.flush {pretty : Bool} {s : Scope} {texts : List Datum} {before : List Stmt}
    (h : ClosedRun texts) (hs : s.ParentClosed) (hflush : s.flush texts = .ok before) :
    StmtsClosed pretty before := by
  obtain ⟨strings, rfl, hstrings⟩ := h
  rcases Scope.flush_cases hflush with ⟨-, rfl⟩ | ⟨target, text, htarget, htext, rfl⟩
  · exact stmtsClosed_nil
  · rw [ofRun_str] at htext
    cases htext
    apply stmtsClosed_push (hs.target htarget)
    apply closed_text
    intro span hspan
    rw [Interpolated.spans_ofLines, List.mem_flatMap] at hspan
    obtain ⟨cs, hcs, hspan⟩ := hspan
    obtain ⟨s, hs, rfl⟩ := List.mem_map.1 hcs
    exact hstrings s hs span hspan

section Emission

variable {pretty : Bool}

mutual

theorem Node.Emits.stmtsClosed : ∀ {n : Node} {s : Scope} {k : Nat} {stmts : List Stmt} {k' : Nat},
    n.Emits s k stmts k' → s.ParentClosed → Everywhere Node.Sound [.node n] →
    StmtsClosed pretty stmts
  | _, s, k, _, _, .element htag hproperties htarget _ hbody, hs, h => by
    have hbody := hbody.stmtsClosed (s.parentClosed_filling k) h.children
    have hslots := h.here.tag_slots htag hproperties
    exact stmtsClosed_element (hs.target htarget) (closed_fresh k) hslots.1 hslots.2 hbody
  | _, _, _, _, _, .leaf htag hproperties htarget _, hs, h => by
    have hslots := h.here.tag_slots htag hproperties
    exact stmtsClosed_push (hs.target htarget) (closed_leaf hslots.1 hslots.2)
  | _, _, _, _, _, .text htarget htext, hs, h => by
    obtain ⟨text, rfl, hspans⟩ := h.here.text_slots
    cases htext
    exact stmtsClosed_push (hs.target htarget) (closed_text hspans)
  | _, _, _, _, _, .value _ htarget _ hrest, hs, h => by
    have hvalue : StmtsClosed pretty [.push _ (.code _)] :=
      stmtsClosed_push (hs.target htarget) (closed_parens h.here.header)
    exact hvalue.append (hrest.stmtsClosed hs h.children)
  | _, _, _, _, _, .bareValue _ htarget _, hs, h =>
    stmtsClosed_push (hs.target htarget) (closed_parens h.here.header)
  | _, _, _, _, _, .splice _ _ hcode, _, h => stmtsClosed_splice (h.here.splice_slots hcode)
  | _, _, _, _, _, .codeBlock _ _ hbody, hs, h =>
    stmtsClosed_codeBlock h.here.header (hbody.stmtsClosed hs h.children)
  | _, _, _, _, _, .comment, _, _ | _, _, _, _, _, .mixin, _, _ => stmtsClosed_nil
  | _, _, _, _, _, .conditional hbody hotherwise, hs, h => by
    have hparts := h.conditional h.here.wellTyped
    exact stmtsClosed_cond h.here.header (hbody.stmtsClosed hs hparts.1)
      (hotherwise.linesTurn hs hparts.2)
  | _, _, _, _, _, .switch hclauses, hs, h =>
    stmtsClosed_switch h.here.header (hclauses.linesTurn hs h.children)
  | _, _, _, _, _, .each hd₁ hd₂ hb₁ ht₁ hb₂ ht₂, hs, h => by
    have hparts := h.each h.here.wellTyped
    have hslots := h.here.each_slots
    have hdefinitions := (hd₁.stmtsClosed hparts.1).append (hd₂.stmtsClosed hparts.2)
    exact stmtsClosed_each hslots.1 hslots.2.1 hslots.2.2 hdefinitions
      (hb₁.stmtsClosed hs hparts.1) (ht₁.stmtsClosed hs hparts.2)
      (hb₂.stmtsClosed hs hparts.1) (ht₂.stmtsClosed hs hparts.2)
  | _, _, _, _, _, .loop hbody, hs, h =>
    stmtsClosed_loop h.here.header (hbody.stmtsClosed hs h.children)
  | _, _, _, _, _, .call _ htarget hproperties hargs _ _, hs, h => by
    have hslots := h.here.call_slots hproperties hargs
    exact stmtsClosed_call (hs.target htarget) hslots.1 hslots.2
  | _, s, k, _, _, .callWith _ htarget hproperties hargs _ _ hdefinitions hbody, hs, h => by
    have hslots := h.here.call_slots hproperties hargs
    have hdefinitions := hdefinitions.stmtsClosed h.children
    have hbody := hbody.stmtsClosed (s.parentClosed_filling k) h.children
    exact stmtsClosed_callWith (hs.target htarget) (closed_fresh k) hslots.1 hslots.2
      hdefinitions hbody
  | _, _, _, _, _, .placeholder _ htarget, hs, _ => stmtsClosed_insertBlock (hs.target htarget)

theorem Content.Emits.stmtsClosed : ∀ {c : Content} {s : Scope} {k : Nat} {stmts : List Stmt}
    {k' : Nat}, c.Emits s k stmts k' → s.ParentClosed → c.Everywhere Node.Sound →
    StmtsClosed pretty stmts
  | _, _, _, _, _, .list h, hs, hc => h.stmtsClosed hs closedRun_nil (hc _ rfl)
  | _, _, _, _, _, .datum _, _, _ => stmtsClosed_nil

theorem ItemsEmit.stmtsClosed : ∀ {items : List Content} {s : Scope} {texts : List Datum} {k : Nat}
    {stmts : List Stmt} {k' : Nat}, ItemsEmit items s texts k stmts k' → s.ParentClosed →
    ClosedRun texts → Everywhere Node.Sound items → StmtsClosed pretty stmts
  | _, _, _, _, _, _, .nil hflush, hs, htexts, _ => htexts.flush hs hflush
  | _, _, _, _, _, _, .text h, hs, htexts, hitems =>
    h.stmtsClosed hs (htexts.append hitems.here) hitems.others
  | _, _, _, _, _, _, .cons _ hflush h h', hs, htexts, hitems =>
    ((htexts.flush hs hflush).append (h.stmtsClosed hs hitems.first)).append
      (h'.stmtsClosed hs closedRun_nil hitems.others)

/-- What follows the first body of a conditional closes its brace. -/
theorem Content.Continues.linesTurn : ∀ {c : Content} {s : Scope} {k : Nat}
    {otherwise : Otherwise} {k' : Nat}, c.Continues s k otherwise k' → s.ParentClosed →
    c.EverywhereAlternate Node.Sound → ∀ indent,
    LinesTurn pretty [.curly] (otherwise.lines indent) []
  | _, _, _, _, _, .elseIf hbody hotherwise, hs, hc, indent => by
    have h := hc _ (.inr ⟨_, rfl, rfl⟩)
    have hparts := h.conditional h.here.wellTyped
    have hbody := (hbody.stmtsClosed hs hparts.1 (indent + 2)).frame [.curly]
    exact (LinesTurn.cons indent (turns_reopening h.here.header) hbody).append
      (hotherwise.linesTurn hs hparts.2 indent)
  | _, _, _, _, _, .nil, _, _, indent | _, _, _, _, _, .done _, _, _, indent =>
    linesTurn_singleton indent turns_closing
  | _, _, _, _, _, .body h, hs, hc, indent => by
    have helse : Turns [.curly] (Code.reopening "else") [.curly] := by decide
    have hbody := h.stmtsClosed hs closedRun_nil (hc _ (.inl rfl)) (indent + 2)
    exact LinesTurn.block indent helse hbody turns_closing
  | _, _, _, _, _, .emptyBody _ _, _, _, indent => by
    have helse : Turns [.curly] (Code.reopening "else") [.curly] := by decide
    exact LinesTurn.block indent helse linesTurn_nil turns_closing

theorem Content.EmitsClauses.linesTurn : ∀ {c : Content} {s : Scope} {k : Nat}
    {clauses : List Clause} {k' : Nat}, c.EmitsClauses s k clauses k' → s.ParentClosed →
    c.Everywhere Node.Sound → ∀ indent, LinesTurn pretty [] (Clause.linesAll indent clauses) []
  | _, _, _, _, _, .list h, hs, hc, indent => h.linesTurn hs (hc _ rfl) indent
  | _, _, _, _, _, .datum _, _, _, _ => linesTurn_nil

theorem ItemsEmitClauses.linesTurn : ∀ {items : List Content} {s : Scope} {k : Nat}
    {clauses : List Clause} {k' : Nat}, ItemsEmitClauses items s k clauses k' → s.ParentClosed →
    Everywhere Node.Sound items → ∀ indent,
    LinesTurn pretty [] (Clause.linesAll indent clauses) []
  | _, _, _, _, _, .nil, _, _, _ => linesTurn_nil
  | _, _, _, _, _, .fallThrough _ h, hs, hitems, indent =>
    LinesTurn.cons indent (closed_labelCode hitems.here.branch_slots)
      (h.linesTurn hs hitems.others indent)
  | _, _, _, _, _, .body _ h h', hs, hitems, indent => by
    have hlabel := closed_labelCode hitems.here.branch_slots
    have hbody := h.stmtsClosed hs hitems.first.children (indent + 2)
    have hbreak : LinesTurn pretty [] [⟨indent + 2, "break;"⟩] [] :=
      linesTurn_singleton _ (by decide)
    exact ((LinesTurn.cons indent hlabel hbody).append hbreak).append
      (h'.linesTurn hs hitems.others indent)

theorem Content.Trails.stmtsClosed : ∀ {c : Content} {s : Scope} {k : Nat} {stmts : List Stmt}
    {k' : Nat}, c.Trails s k stmts k' → s.ParentClosed → c.Everywhere Node.Sound →
    StmtsClosed pretty stmts
  | _, _, _, _, _, .list h, hs, hc =>
    stmtsClosed_cond (by decide) (h.stmtsClosed hs closedRun_nil (hc _ rfl)) fun indent =>
      linesTurn_singleton indent turns_closing
  | _, _, _, _, _, .null _, _, _ => stmtsClosed_nil
  | _, _, _, _, _, .datum _ _, _, _ =>
    stmtsClosed_cond (by decide) stmtsClosed_nil fun indent =>
      linesTurn_singleton indent turns_closing

theorem Node.Defines.stmtsClosed : ∀ {n : Node} {s : Scope} {k : Nat} {stmts : List Stmt}
    {k' : Nat}, n.Defines s k stmts k' → Everywhere Node.Sound [.node n] →
    StmtsClosed pretty stmts
  | _, _, _, _, _, .tag hc, h | _, _, _, _, _, .code hc, h | _, _, _, _, _, .loop hc, h
  | _, _, _, _, _, .branch hc, h | _, _, _, _, _, .switch hc, h => hc.stmtsClosed h.children
  | _, _, _, _, _, .conditional hc hc', h => by
    have hparts := h.conditional h.here.wellTyped
    exact (hc.stmtsClosed hparts.1).append (hc'.stmtsClosed hparts.2)
  | _, s, k, _, _, .mixin hparams _ hdefinitions hbody, h => by
    have hslots := h.here.mixin_slots hparams
    have hdefinitions := hdefinitions.stmtsClosed h.children
    have hbody := hbody.stmtsClosed (s.inMixin.parentClosed_filling k) h.children
    exact stmtsClosed_define (closed_fresh k) hslots.1 hslots.2 hdefinitions hbody
  | _, _, _, _, _, .text, _ | _, _, _, _, _, .comment, _ | _, _, _, _, _, .each, _
  | _, _, _, _, _, .call, _ | _, _, _, _, _, .placeholder, _ | _, _, _, _, _, .other, _ =>
    stmtsClosed_nil

theorem Content.Defines.stmtsClosed : ∀ {c : Content} {s : Scope} {k : Nat} {stmts : List Stmt}
    {k' : Nat}, c.Defines s k stmts k' → c.Everywhere Node.Sound → StmtsClosed pretty stmts
  | _, _, _, _, _, .list h, hc => h.stmtsClosed (hc _ rfl)
  | _, _, _, _, _, .node, _ | _, _, _, _, _, .datum, _ => stmtsClosed_nil

theorem Content.DefinesAlternate.stmtsClosed : ∀ {c : Content} {s : Scope} {k : Nat}
    {stmts : List Stmt} {k' : Nat}, c.DefinesAlternate s k stmts k' →
    c.EverywhereAlternate Node.Sound → StmtsClosed pretty stmts
  | _, _, _, _, _, .list h, hc => h.stmtsClosed (hc _ (.inl rfl))
  | _, _, _, _, _, .conditional _ h, hc => h.stmtsClosed (hc _ (.inr ⟨_, rfl, rfl⟩))
  | _, _, _, _, _, .node _, _ | _, _, _, _, _, .datum, _ => stmtsClosed_nil

theorem ItemsDefine.stmtsClosed : ∀ {items : List Content} {s : Scope} {k : Nat}
    {stmts : List Stmt} {k' : Nat}, ItemsDefine items s k stmts k' →
    Everywhere Node.Sound items → StmtsClosed pretty stmts
  | _, _, _, _, _, .nil, _ => stmtsClosed_nil
  | _, _, _, _, _, .node h h', hitems =>
    (h.stmtsClosed hitems.first).append (h'.stmtsClosed hitems.others)
  | _, _, _, _, _, .other _ h, hitems => h.stmtsClosed hitems.tail

end

end Emission

/-! ## Scripts -/

theorem Program.linesTurn {pretty : Bool} {p : Program} (hroot : Closed p.root.text)
    (hdefinitions : StmtsClosed pretty p.definitions) (hbody : StmtsClosed pretty p.body) :
    LinesTurn pretty [] (p.lines 0) [] := by
  have hruntime : LinesTurn pretty []
      (if p.runtime then (Text.codeLines Program.bindingCode).map (⟨0, ·⟩) else []) [] := by
    split
    · exact linesTurn_codeLines 0 (by decide)
    · exact linesTurn_nil
  have htable : Closed ("var " ++ Mixin.table ++ " = \x7b\x7d;") := by decide
  have hentry : Closed (p.root.text ++ "[0]") := hroot.append (by decide)
  exact ((hruntime.append (LinesTurn.cons 0 htable (hdefinitions 0))).append
    (LinesTurn.cons 0 (closed_declare hroot) (hbody 0))).append
    (linesTurn_singleton 0 (closed_result hentry))

/-- If all code of a well-typed template is closed, then so is the script it compiles to. -/
theorem compile_script_closed (options : Options) (hformat : options.formatter = .absent)
    {nodes : List Content} (h : WellTypedNodes nodes)
    (hclosed : Everywhere Node.FragmentsClosed nodes) {compiled : Compiled}
    (hcompile : compile options (.list nodes) = .ok compiled) : Closed compiled.script := by
  obtain ⟨c, ds, mixins, p, count, -, hds, hmixins, hrun, rfl⟩ :=
    exists_program_of_compile hformat hcompile
  obtain ⟨hroot, k₁, hdefine, hbody⟩ := program_emits hrun
  have hsound : Everywhere Node.Sound nodes := fun above n hocc =>
    ⟨h.of_occurs hocc, hclosed above n hocc⟩
  have hname : Closed p.root.text := by
    rw [hroot]
    exact closed_fresh 0
  exact Program.linesTurn hname (hdefine.stmtsClosed hsound)
    (hbody.stmtsClosed (Scope.parentClosed_filling _ 0) closedRun_nil hsound)

/-- Brackets, quotes and backslashes in names, values and texts, and code with a string of its own
over two lines. -/
def tangledTemplate : List Content :=
  [.node (.mixin (.str "it's \x7b") (.list [.str "a = [']']"]) (.str "more") (.list [
      .node (.text (.str ")] #\x7bf('\x7d')\x7d \\"))])),
    .node (.code (.str "var s = (\x60\x7d\n)\x60);") (.bool false) (.datum .null)),
    .node (.tag (.str "p\x27(")
      ⟨.list ([⟨.str "data-\x22", .str "\\\x22[", .bool false, .bool true⟩,
        ⟨.str "on]", .str "\x7bx: [1]\x7d", .bool true, .bool true⟩].map .attr),
        .list (["more[0]"].map .str)⟩
      (.list [
        .node (.conditional (.str "f('(')") (.list [.node (.text (.str "(["))]) (.datum .null)),
        .node (.call (.str "it's \x7b") (.str " [1], 2 ") {}
          (.list [.node (.text (.str "(["))]))]))]

theorem tangledTemplate_wellTyped : WellTypedNodes tangledTemplate :=
  .cons (.mixin ["a = [']']"] (.str _) (.cons .text .nil)) (.cons (.code .null)
    (.cons (.tag (.mk _ ["more[0]"] (by
        simp only [List.forall_mem_cons, List.not_mem_nil, false_implies, implies_true, and_true]
        exact ⟨⟨⟨_, rfl⟩, .inr ⟨_, rfl⟩, ⟨_, rfl⟩, ⟨_, rfl⟩⟩,
          ⟨⟨_, rfl⟩, .inr ⟨_, rfl⟩, ⟨_, rfl⟩, ⟨_, rfl⟩⟩⟩))
      (.cons (.conditional (.cons .text .nil) .null)
        (.cons (.call (.mk [] [] (by simp)) (.list (.cons .text .nil))) .nil))) .nil))

theorem tangledTemplate_fragmentsClosed : Everywhere Node.FragmentsClosed tangledTemplate := by
  simp only [tangledTemplate, everywhere_cons, everywhere_nil, Node.owns_mixin, Node.owns_tag,
    Node.owns_conditional_null, Node.owns_call, Node.not_owns_text, Node.not_owns_code_null,
    forall_eq, false_implies, implies_true, and_true]
  have hspan : (Node.text (.str ")] #\x7bf('\x7d')\x7d \\")).fragments = ["f('\x7d')"] := by cbv
  have hplain : (Node.text (.str "([")).fragments = [] := by cbv
  refine ⟨by decide, ?_, by decide, trivial, by decide, by decide, ?_, by decide, ?_⟩
  · rw [Node.FragmentsClosed, hspan]
    decide
  · rw [Node.FragmentsClosed, hplain]
    decide
  · rw [Node.FragmentsClosed, hplain]
    decide

theorem compile_tangledTemplate_script_closed :
    WellTypedNodes tangledTemplate ∧ Everywhere Node.FragmentsClosed tangledTemplate ∧
    ∃ compiled, compile { pretty := .bool true } (.list tangledTemplate) = .ok compiled ∧
      Closed compiled.script := by
  have hcompile : ∃ compiled,
      compile { pretty := .bool true } (.list tangledTemplate) = .ok compiled :=
    exists_compiled_of_scriptOf rfl ⟨_, rfl⟩
  obtain ⟨compiled, hcompile⟩ := hcompile
  exact ⟨tangledTemplate_wellTyped, tangledTemplate_fragmentsClosed, compiled, hcompile,
    compile_script_closed { pretty := .bool true } rfl tangledTemplate_wellTyped
      tangledTemplate_fragmentsClosed hcompile⟩

end Hyperscript
