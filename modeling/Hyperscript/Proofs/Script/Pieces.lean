import Hyperscript.Script.Layout

/-!
# Code up to the numbering of its arrays

A script numbers its arrays in the order in which they are taken, so what it says depends on the
number with which the supply starts.  A list of pieces is code without that choice: a piece is a
fixed text, or an array that is so many places after the first one.  Something written for every
start is relocatable if one list of pieces, filled in for the start, gives all of it.

The main statements are about the layout of statements: each kind of statement is relocatable if its
arrays and its parts are.
-/

namespace Hyperscript

/-- A piece of a script: a fixed text, or the array so many places after the first one taken. -/
inductive Piece where
  | text (text : String)
  | array (index : Nat)
  deriving DecidableEq, Repr

/-- The text of some pieces, if the first array taken has the number `start`. -/
def Piece.fill (start : Nat) : List Piece → String
  | [] => ""
  | .text t :: rest => t ++ fill start rest
  | .array index :: rest => (ArrayName.fresh (start + index)).text ++ fill start rest

theorem Piece.fill_append (start : Nat) (xs ys : List Piece) :
    fill start (xs ++ ys) = fill start xs ++ fill start ys := by
  induction xs with
  | nil => exact String.empty_append.symm
  | cons x xs ih =>
    cases x with
    | text t => rw [List.cons_append, fill, fill, ih, String.append_assoc]
    | array index => rw [List.cons_append, fill, fill, ih, String.append_assoc]

/-! ## Texts and lines -/

/-- One list of pieces gives the text for every start. -/
def Relocatable (text : Nat → String) : Prop :=
  ∃ pieces, ∀ start, text start = Piece.fill start pieces

/-- The lines are relocatable, indented or not. -/
def LinesRelocatable (lines : Nat → List Line) : Prop :=
  ∀ pretty, Relocatable fun start => Line.renderAll pretty (lines start)

theorem relocatable_const (t : String) : Relocatable fun _ => t :=
  ⟨[.text t], fun _ => String.append_empty.symm⟩

theorem relocatable_fresh (index : Nat) :
    Relocatable fun start => (ArrayName.fresh (start + index)).text :=
  ⟨[.array index], fun _ => String.append_empty.symm⟩

section Texts

variable {text text' : Nat → String}

theorem Relocatable.append (h : Relocatable text) (h' : Relocatable text') :
    Relocatable fun start => text start ++ text' start := by
  obtain ⟨pieces, hpieces⟩ := h
  obtain ⟨pieces', hpieces'⟩ := h'
  refine ⟨pieces ++ pieces', fun start => ?_⟩
  show text start ++ text' start = _
  rw [hpieces, hpieces', Piece.fill_append]

theorem Relocatable.before (h : Relocatable text) (t : String) :
    Relocatable fun start => text start ++ t :=
  h.append (relocatable_const t)

theorem Relocatable.behind (t : String) (h : Relocatable text) :
    Relocatable fun start => t ++ text start :=
  (relocatable_const t).append h

end Texts

section Lines

variable {lines lines' : Nat → List Line} {code : Nat → String}

theorem linesRelocatable_const (lines : List Line) : LinesRelocatable fun _ => lines :=
  fun _ => relocatable_const _

theorem LinesRelocatable.append (h : LinesRelocatable lines) (h' : LinesRelocatable lines') :
    LinesRelocatable fun start => lines start ++ lines' start := by
  intro pretty
  simp only [Line.renderAll_append]
  exact (h pretty).append (h' pretty)

theorem Relocatable.line (h : Relocatable code) (indent : Int) :
    LinesRelocatable fun start => [⟨indent, code start⟩] := by
  intro pretty
  simp only [Line.renderAll, List.map_cons, List.map_nil, String.join_cons, String.join_nil,
    String.append_empty, Line.render]
  exact (h.behind _).before _

/-- A fixed line before others. -/
theorem LinesRelocatable.cons (line : Line) (h : LinesRelocatable lines) :
    LinesRelocatable fun start => line :: lines start :=
  (linesRelocatable_const [line]).append h

/-- Others before a fixed line. -/
theorem LinesRelocatable.concat (h : LinesRelocatable lines) (line : Line) :
    LinesRelocatable fun start => lines start ++ [line] :=
  h.append (linesRelocatable_const [line])

end Lines

/-! ## Statements -/

/-- The lines of the statements are relocatable at every indentation. -/
def StmtsRelocatable (stmts : Nat → List Stmt) : Prop :=
  ∀ indent, LinesRelocatable fun start => Stmt.linesAll indent (stmts start)

def ClausesRelocatable (clauses : Nat → List Clause) : Prop :=
  ∀ indent, LinesRelocatable fun start => Clause.linesAll indent (clauses start)

def OtherwiseRelocatable (otherwise : Nat → Otherwise) : Prop :=
  ∀ indent, LinesRelocatable fun start => (otherwise start).lines indent

/-- The array is relocatable by its name. -/
def ArrayRelocatable (array : Nat → ArrayName) : Prop :=
  Relocatable fun start => (array start).text

section Statements

attribute [local simp] Stmt.lines Stmt.linesAll

variable {stmts definitions arrayBody arrayRest objectBody objectRest : Nat → List Stmt}
  {target array : Nat → ArrayName}

theorem stmtsRelocatable_nil : StmtsRelocatable fun _ => [] :=
  fun _ => linesRelocatable_const []

theorem StmtsRelocatable.append {others : Nat → List Stmt} (h : StmtsRelocatable stmts)
    (h' : StmtsRelocatable others) : StmtsRelocatable fun start => stmts start ++ others start := by
  intro indent
  simp only [Stmt.linesAll_append]
  exact (h indent).append (h' indent)

theorem stmtsRelocatable_singleton {stmt : Nat → Stmt}
    (h : ∀ indent, LinesRelocatable fun start => (stmt start).lines indent) :
    StmtsRelocatable fun start => [stmt start] := by
  intro indent
  simp only [Stmt.linesAll, List.append_nil]
  exact h indent

theorem stmtsRelocatable_push (ht : ArrayRelocatable target) (value : Value) :
    StmtsRelocatable fun start => [.push (target start) value] := by
  refine stmtsRelocatable_singleton fun indent => ?_
  simp only [Stmt.lines, Code.push]
  exact (((ht.before ".push(").before value.expr).before ");").line indent

theorem stmtsRelocatable_element (ht : ArrayRelocatable target) (ha : ArrayRelocatable array)
    (tag : String) (properties : Option String) (hb : StmtsRelocatable stmts) :
    StmtsRelocatable fun start =>
      [.element (target start) (array start) tag properties (stmts start)] := by
  have hcall : Relocatable fun start =>
      Code.element [tag, properties.getD "\x7b\x7d", (array start).text] :=
    -- the array is the last of the three arguments
    ((Relocatable.behind (tag ++ ", " ++ properties.getD "\x7b\x7d" ++ ", ") ha).behind "h(").before
      ")"
  refine stmtsRelocatable_singleton fun indent => ?_
  simp only [Stmt.lines, Code.declare, Code.push]
  have hdeclare := ((ha.behind "var ").before " = [];").line indent
  have hpush := (((ht.before ".push(").append hcall).before ");").line indent
  exact (hdeclare.append (hb (indent + 2))).append hpush

theorem stmtsRelocatable_splice (code : String) : StmtsRelocatable fun _ => [.splice code] :=
  fun _ => linesRelocatable_const _

theorem stmtsRelocatable_codeBlock (header : String) (hb : StmtsRelocatable stmts) :
    StmtsRelocatable fun start => [.codeBlock header (stmts start)] := by
  refine stmtsRelocatable_singleton fun indent => ?_
  simp only [Stmt.lines]
  exact ((linesRelocatable_const _).append (hb (indent + 2))).concat _

theorem stmtsRelocatable_cond (test : String) (hb : StmtsRelocatable stmts)
    {otherwise : Nat → Otherwise} (ho : OtherwiseRelocatable otherwise) :
    StmtsRelocatable fun start => [.cond test (stmts start) (otherwise start)] := by
  refine stmtsRelocatable_singleton fun indent => ?_
  simp only [Stmt.lines]
  exact ((hb (indent + 2)).cons _).append (ho indent)

theorem stmtsRelocatable_switch (subject : String) {clauses : Nat → List Clause}
    (hc : ClausesRelocatable clauses) :
    StmtsRelocatable fun start => [.switch subject (clauses start)] := by
  refine stmtsRelocatable_singleton fun indent => ?_
  simp only [Stmt.lines]
  exact ((hc (indent + 2)).cons _).concat _

theorem linesRelocatable_eachLines (indent : Int) (header : String) (first : List String)
    {body rest : Nat → List Line} (hb : LinesRelocatable body) (hr : LinesRelocatable rest) :
    LinesRelocatable fun start => eachLines indent header first (body start) (rest start) := by
  simp only [eachLines]
  exact (((linesRelocatable_const _).append hb).cons _).append (hr.cons _)

theorem stmtsRelocatable_each (source item key : String) (hd : StmtsRelocatable definitions)
    (ha : StmtsRelocatable arrayBody) (har : StmtsRelocatable arrayRest)
    (ho : StmtsRelocatable objectBody) (hor : StmtsRelocatable objectRest) :
    StmtsRelocatable fun start => [.each source item key (definitions start) (arrayBody start)
      (arrayRest start) (objectBody start) (objectRest start)] := by
  refine stmtsRelocatable_singleton fun indent => ?_
  simp only [Stmt.lines]
  have harray := linesRelocatable_eachLines (indent + 4)
    ("for (var " ++ key ++ " = 0, $$l = $$obj.length; " ++ key ++ " < $$l; " ++ key ++ "++)")
    ["var " ++ item ++ " = $$obj[" ++ key ++ "];"] (ha (indent + 6)) (har (indent + 4))
  have hobject := linesRelocatable_eachLines (indent + 4) ("for (var " ++ key ++ " in $$obj)")
    ["$$l++;", "var " ++ item ++ " = $$obj[" ++ key ++ "];"] (ho (indent + 6)) (hor (indent + 4))
  exact (((((linesRelocatable_const _).append (hd (indent + 2))).append (harray.cons _)).append
    (linesRelocatable_const _)).append hobject).append (linesRelocatable_const _)

theorem stmtsRelocatable_loop (test : String) (hb : StmtsRelocatable stmts) :
    StmtsRelocatable fun start => [.loop test (stmts start)] := by
  refine stmtsRelocatable_singleton fun indent => ?_
  simp only [Stmt.lines]
  exact ((hb (indent + 2)).cons _).concat _

theorem linesRelocatable_functionLines (indent : Int) {definitions body : Nat → List Line}
    (hd : LinesRelocatable definitions) (ha : ArrayRelocatable array)
    (hb : LinesRelocatable body) :
    LinesRelocatable fun start =>
      functionLines indent (definitions start) (array start) (body start) := by
  simp only [functionLines, Code.declare, Code.result]
  -- the array is named where it is declared and where it is returned
  have hdeclare := ((ha.behind "var ").before " = [];").line indent
  have hresult := ((ha.behind "return ").before ";").line indent
  exact (hd.append (hdeclare.append hb)).append hresult

theorem stmtsRelocatable_define (mixin params : String) (rest : Option (String × Nat))
    (hd : StmtsRelocatable definitions) (ha : ArrayRelocatable array)
    (hb : StmtsRelocatable stmts) :
    StmtsRelocatable fun start =>
      [.define mixin params rest (definitions start) (array start) (stmts start)] := by
  refine stmtsRelocatable_singleton fun indent => ?_
  simp only [Stmt.lines]
  have hfunction := linesRelocatable_functionLines (indent + 2) (hd (indent + 2)) ha
    (hb (indent + 2))
  exact (((linesRelocatable_const _).append (linesRelocatable_const _)).append hfunction).concat _

/-- The name of the array that takes what a call returns stands twice before the call. -/
theorem relocatable_callHead (ht : ArrayRelocatable target) (mixin : String) :
    Relocatable fun start => Code.callHead (target start).text mixin := by
  simp only [Code.callHead]
  exact ((((ht.before ".push.apply(").append ht).before ", ").before _).before ".call("

theorem stmtsRelocatable_call (ht : ArrayRelocatable target) (mixin : String)
    (properties : Option String) (args : String) :
    StmtsRelocatable fun start => [.call (target start) mixin properties args] := by
  refine stmtsRelocatable_singleton fun indent => ?_
  simp only [Stmt.lines]
  exact ((((relocatable_callHead ht mixin).before _).before _).before _).line indent

theorem stmtsRelocatable_callWith (ht : ArrayRelocatable target) (mixin : String)
    (properties : Option String) (args : String) (hd : StmtsRelocatable definitions)
    (ha : ArrayRelocatable array) (hb : StmtsRelocatable stmts) :
    StmtsRelocatable fun start => [.callWith (target start) mixin properties args
      (definitions start) (array start) (stmts start)] := by
  refine stmtsRelocatable_singleton fun indent => ?_
  simp only [Stmt.lines]
  have hhead := ((relocatable_callHead ht mixin).before "\x7bblock: function() \x7b").line indent
  have hfunction := linesRelocatable_functionLines (indent + 2) (hd (indent + 2)) ha
    (hb (indent + 2))
  exact (hhead.append hfunction).concat _

theorem stmtsRelocatable_insertBlock (ht : ArrayRelocatable target) :
    StmtsRelocatable fun start => [.insertBlock (target start)] := by
  refine stmtsRelocatable_singleton fun indent => ?_
  simp only [Stmt.lines, Code.pushAll]
  have hpush := ((((ht.before ".push.apply(").append ht).before ", ").before
    "block.call(this)").before ");"
  exact ((hpush.line (indent + 2)).concat _).cons _

end Statements

/-! ## Parts of statements -/

section Parts

variable {stmts : Nat → List Stmt}

theorem otherwiseRelocatable_done : OtherwiseRelocatable fun _ => .done :=
  fun _ => linesRelocatable_const _

theorem otherwiseRelocatable_body (hb : StmtsRelocatable stmts) :
    OtherwiseRelocatable fun start => .body (stmts start) := by
  intro indent
  simp only [Otherwise.lines]
  exact ((hb (indent + 2)).cons _).concat _

theorem otherwiseRelocatable_elseIf (test : String) (hb : StmtsRelocatable stmts)
    {otherwise : Nat → Otherwise} (ho : OtherwiseRelocatable otherwise) :
    OtherwiseRelocatable fun start => .elseIf test (stmts start) (otherwise start) := by
  intro indent
  simp only [Otherwise.lines]
  exact ((hb (indent + 2)).cons _).append (ho indent)

theorem clausesRelocatable_nil : ClausesRelocatable fun _ => [] :=
  fun _ => linesRelocatable_const []

variable {clauses : Nat → List Clause}

theorem clausesRelocatable_fallThrough (label : Option String) (hc : ClausesRelocatable clauses) :
    ClausesRelocatable fun start => .fallThrough label :: clauses start := by
  intro indent
  simp only [Clause.linesAll, Clause.lines]
  exact (hc indent).cons _

theorem clausesRelocatable_body (label : Option String) (hb : StmtsRelocatable stmts)
    (hc : ClausesRelocatable clauses) :
    ClausesRelocatable fun start => .body label (stmts start) :: clauses start := by
  intro indent
  simp only [Clause.linesAll, Clause.lines]
  exact (((hb (indent + 2)).cons _).concat _).append (hc indent)

end Parts

end Hyperscript
