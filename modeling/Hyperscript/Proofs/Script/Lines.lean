import Mathlib.Data.List.Forall2
import Hyperscript.Proofs.Script.Uses
import Hyperscript.Proofs.Text.Quiet

/-!
# Uses of child arrays in the text of a script

The marks of a script are read off its text: `line.Shows quiet uses` says that the line is the code
of these uses, and that nothing else in it, a string literal apart, holds the letters of an array
if `quiet` is the case.

A statement is tidy if the code of the template that it carries is quiet.  The lines of a statement
show its marks, and they show nothing else if it is tidy.
-/

namespace Hyperscript

/-! ## Lines -/

/-- Different arrays have different names. -/
theorem ArrayName.text_fresh_injective : Function.Injective fun k => (ArrayName.fresh k).text := by
  intro i j h
  have hnames : "n" ++ toString i ++ "Child" = "n" ++ toString j ++ "Child" := h
  have hstrings : toString i = toString j := by simpa using hnames
  have hdigits : Nat.toDigits 10 i = Nat.toDigits 10 j := String.ofList_injective hstrings
  calc
    i = Nat.ofDigitChars 10 (Nat.toDigits 10 i) 0 := Nat.ofDigitChars_ten_toDigits.symm
    _ = Nat.ofDigitChars 10 (Nat.toDigits 10 j) 0 := by rw [hdigits]
    _ = j := Nat.ofDigitChars_ten_toDigits

/-- The line is the code of these uses.  If `quiet` is the case, the code around them is quiet. -/
inductive Line.Shows (quiet : Prop) : Line → List Use → Prop where
  | declare {indent a owner} : Shows quiet ⟨indent, Code.declare a.text⟩ [.declare a owner]
  /-- The literals of a text are not code: its spans are. -/
  | text {indent a} {t : Interpolated} : (quiet → ∀ span ∈ t.spans, Quiet span.expr) →
      Shows quiet ⟨indent, Code.push a.text t.code⟩ [.push a]
  | push {indent a value} : (quiet → Quiet value) →
      Shows quiet ⟨indent, Code.push a.text value⟩ [.push a]
  | pushAll {indent a rest} : (quiet → Quiet rest) →
      Shows quiet ⟨indent, a.text ++ ".push.apply(" ++ a.text ++ ", " ++ rest⟩ [.push a]
  /-- The children are the third argument of the call that makes the element. -/
  | element {indent a b tag properties} : (quiet → Quiet tag) → (quiet → Quiet properties) →
      Shows quiet ⟨indent, Code.push a.text (Code.element [tag, properties, b.text])⟩
        [.consume b (.element tag), .push a]
  | result {indent a} : Shows quiet ⟨indent, Code.result a.text⟩ [.consume a .function]
  | final {indent a} : Shows quiet ⟨indent, Code.result (a.text ++ "[0]")⟩ [.consume a .script]
  | other {indent code} : (quiet → Quiet code) → Shows quiet ⟨indent, code⟩ []

/-- Line by line. -/
abbrev LinesShow (quiet : Prop) : List Line → List (List Use) → Prop :=
  List.Forall₂ (Line.Shows quiet)

section LinesShow

variable {quiet : Prop} {lines others : List Line} {marks others' : List (List Use)}

theorem LinesShow.append (h : LinesShow quiet lines marks) (h' : LinesShow quiet others others') :
    LinesShow quiet (lines ++ others) (marks ++ others') :=
  List.rel_append h h'

theorem linesShow_singleton {line : Line} {uses : List Use} (h : line.Shows quiet uses) :
    LinesShow quiet [line] [uses] :=
  .cons h .nil

theorem linesShow_other {code : String} (indent : Int) (h : quiet → Quiet code) :
    LinesShow quiet [⟨indent, code⟩] [[]] :=
  linesShow_singleton (.other h)

theorem linesShow_unmarked (indent : Int) {codes : List String}
    (h : quiet → ∀ code ∈ codes, Quiet code) :
    LinesShow quiet (codes.map (⟨indent, ·⟩)) (unmarked codes.length) := by
  induction codes with
  | nil => exact .nil
  | cons code codes ih =>
    refine .cons (.other fun hq => h hq code (List.mem_cons_self ..)) (ih fun hq other hmem => ?_)
    exact h hq other (List.mem_cons_of_mem code hmem)

theorem linesShow_codeLines (indent : Int) {code : String} (h : quiet → Quiet code) :
    LinesShow quiet ((Text.codeLines code).map (⟨indent, ·⟩))
      (unmarked (Text.codeLines code).length) :=
  linesShow_unmarked indent fun hq => quiet_codeLines (h hq)

theorem linesShow_functionLines (indent : Int) {definitions body : List Line}
    {marks bodyMarks : List (List Use)} (array : ArrayName)
    (hdefinitions : LinesShow quiet definitions marks) (hbody : LinesShow quiet body bodyMarks) :
    LinesShow quiet (functionLines indent definitions array body)
      (functionMarks marks array bodyMarks) :=
  (hdefinitions.append (.cons .declare hbody)).append (linesShow_singleton .result)

theorem linesShow_eachLines (indent : Int) {header : String} {first : List String}
    {body rest : List Line} {bodyMarks restMarks : List (List Use)}
    (hheader : quiet → Quiet header) (hfirst : quiet → ∀ code ∈ first, Quiet code)
    (hbody : LinesShow quiet body bodyMarks) (hrest : LinesShow quiet rest restMarks) :
    LinesShow quiet (eachLines indent header first body rest)
      (eachMarks first.length bodyMarks restMarks) := by
  have hopening : LinesShow quiet [⟨indent, Code.opening header⟩] [[]] :=
    linesShow_other indent fun hq => (hheader hq).append_wall (by decide)
  have hclosing : LinesShow quiet (⟨indent, Code.closing⟩ :: rest) ([] :: restMarks) :=
    .cons (.other fun _ => by decide) hrest
  exact ((hopening.append (linesShow_unmarked (indent + 2) hfirst)).append hbody).append hclosing

end LinesShow

/-! ## Tidy statements -/

/-- The code of the template in what a push adds is quiet. -/
def Value.Tidy : Value → Prop
  | text t => ∀ span ∈ t.spans, Quiet span.expr
  | code expr => Quiet expr
  | leaf tag properties => Quiet tag ∧ ∀ code ∈ properties, Quiet code

mutual

/-- The code of the template in a statement is quiet. -/
def Stmt.Tidy : Stmt → Prop
  | .push _ value => value.Tidy
  | .element _ _ tag properties body =>
    Quiet tag ∧ (∀ code ∈ properties, Quiet code) ∧ Stmt.TidyAll body
  | .splice code => Quiet code
  | .codeBlock header body => Quiet header ∧ Stmt.TidyAll body
  | .cond test body otherwise => Quiet test ∧ Stmt.TidyAll body ∧ otherwise.Tidy
  | .switch subject clauses => Quiet subject ∧ Clause.TidyAll clauses
  | .each source item key definitions arrayBody arrayRest objectBody objectRest =>
    (Quiet source ∧ Quiet item ∧ Quiet key) ∧ Stmt.TidyAll definitions ∧
      Stmt.TidyAll arrayBody ∧ Stmt.TidyAll arrayRest ∧
      Stmt.TidyAll objectBody ∧ Stmt.TidyAll objectRest
  | .loop test body => Quiet test ∧ Stmt.TidyAll body
  | .define mixin params rest definitions _ body =>
    (Quiet mixin ∧ Quiet params ∧ ∀ parameter ∈ rest, Quiet parameter.1) ∧
      Stmt.TidyAll definitions ∧ Stmt.TidyAll body
  | .call _ mixin properties args =>
    Quiet mixin ∧ (∀ code ∈ properties, Quiet code) ∧ Quiet args
  | .callWith _ mixin properties args definitions _ body =>
    (Quiet mixin ∧ (∀ code ∈ properties, Quiet code) ∧ Quiet args) ∧
      Stmt.TidyAll definitions ∧ Stmt.TidyAll body
  | .insertBlock _ => True

def Stmt.TidyAll : List Stmt → Prop
  | [] => True
  | s :: rest => s.Tidy ∧ Stmt.TidyAll rest

def Otherwise.Tidy : Otherwise → Prop
  | .done => True
  | .body body => Stmt.TidyAll body
  | .elseIf test body otherwise => Quiet test ∧ Stmt.TidyAll body ∧ otherwise.Tidy

def Clause.Tidy : Clause → Prop
  | .fallThrough label => ∀ expr ∈ label, Quiet expr
  | .body label body => (∀ expr ∈ label, Quiet expr) ∧ Stmt.TidyAll body

def Clause.TidyAll : List Clause → Prop
  | [] => True
  | c :: rest => c.Tidy ∧ Clause.TidyAll rest

end

theorem Stmt.tidyAll_append {xs ys : List Stmt} (hx : Stmt.TidyAll xs) (hy : Stmt.TidyAll ys) :
    Stmt.TidyAll (xs ++ ys) := by
  induction xs with
  | nil => exact hy
  | cons x xs ih => exact ⟨hx.1, ih hx.2⟩

/-! ## Code around uses -/

section Code

variable {quiet : Prop} {start code key : String} {properties : Option String} {args : String}

/-- The line that opens a block with a test or a subject. -/
theorem quiet_opening (hstart : Wall start) (h : Quiet code) :
    Quiet (Code.opening (start ++ code ++ ")")) :=
  (Wall.wrap hstart h (by decide)).quiet.append_wall (by decide)

theorem quiet_reopening (h : Quiet code) :
    Quiet (Code.reopening ("else if (" ++ code ++ ")")) := by
  have hheader : Wall ("else if (" ++ code ++ ")") := Wall.wrap (by decide) h (by decide)
  exact (Wall.wrap (show Wall "\x7d " by decide) hheader.quiet (by decide)).quiet

theorem quiet_getD (h : ∀ code ∈ properties, Quiet code) : Quiet (properties.getD "\x7b\x7d") := by
  cases properties with
  | none =>
    show Quiet "\x7b\x7d"
    decide
  | some code => exact h code rfl

theorem quiet_leaf {tag : String} (htag : Quiet tag) (h : ∀ code ∈ properties, Quiet code) :
    Quiet (Value.leaf tag properties).expr := by
  have helement : ∀ {arguments : List String}, (∀ argument ∈ arguments, Quiet argument) →
      Quiet (Code.element arguments) := fun h =>
    (Wall.wrap (by decide) (quiet_intercalate (by decide) h) (by decide)).quiet
  cases properties with
  | none => exact helement (by simpa using htag)
  | some code => exact helement (by simpa using ⟨htag, h code rfl⟩)

theorem quiet_furtherArguments (h : Quiet args) : Quiet (Code.furtherArguments args) := by
  unfold Code.furtherArguments
  split
  · decide
  · exact Wall.append_quiet (by decide) h

theorem quiet_labelCode {label : Option String} (h : ∀ expr ∈ label, Quiet expr) :
    Quiet (Clause.labelCode label) := by
  cases label with
  | none =>
    show Quiet "default:"
    decide
  | some expr => exact (Wall.wrap (by decide) (h expr rfl) (by decide)).quiet

/-- The head of the loop over an array names the key three times. -/
theorem quiet_arrayLoop (h : Quiet key) :
    Quiet ("for (var " ++ key ++ " = 0, $$l = $$obj.length; " ++ key ++ " < $$l; " ++ key ++
      "++)") := by
  have hvar : Quiet ("for (var " ++ key) := Wall.append_quiet (by decide) h
  have hinit := hvar.join (show Wall " = 0, $$l = $$obj.length; " by decide) h
  have htest := hinit.join (show Wall " < $$l; " by decide) h
  exact htest.append_wall (by decide)

theorem quiet_objectLoop (h : Quiet key) : Quiet ("for (var " ++ key ++ " in $$obj)") :=
  (Wall.wrap (by decide) h (by decide)).quiet

theorem quiet_eachBinding {item : String} (hitem : Quiet item) (hkey : Quiet key) :
    Quiet ("var " ++ item ++ " = $$obj[" ++ key ++ "];") := by
  have hvar : Quiet ("var " ++ item) := Wall.append_quiet (by decide) hitem
  exact (hvar.join (show Wall " = $$obj[" by decide) hkey).append_wall (by decide)

theorem quiet_restBinding {name : String} (position : Nat) (h : Quiet name) :
    Quiet ("var " ++ name ++ " = Array.prototype.slice.call(arguments, " ++ toString position ++
      ");") := by
  have hvar : Quiet ("var " ++ name) := Wall.append_quiet (by decide) h
  have hcall := hvar.join (show Wall " = Array.prototype.slice.call(arguments, " by decide)
    (quiet_toString position)
  exact hcall.append_wall (by decide)

theorem quiet_functionHead {mixin params : String} (hmixin : Quiet mixin) (hparams : Quiet params) :
    Quiet (Mixin.reference mixin ++ " = function(" ++ params ++ ") \x7b") :=
  ((quiet_reference hmixin).join (by decide) hparams).append_wall (by decide)

theorem quiet_attributesField {field : String} (h : Quiet field) :
    Quiet (Code.attributesField field) :=
  Wall.append_quiet (by decide) h

/-- The end of a call after its context, and the line that it closes. -/
theorem quiet_callEnd {context : String} (hcontext : Wall context) (hargs : Quiet args) :
    Quiet (context ++ Code.furtherArguments args ++ "));") :=
  (hcontext.append_quiet (quiet_furtherArguments hargs)).append_wall (by decide)

theorem shows_callHead {indent : Int} {a : ArrayName} {mixin tail : String}
    (hmixin : quiet → Quiet mixin) (htail : quiet → Quiet tail) :
    Line.Shows quiet ⟨indent, Code.callHead a.text mixin ++ tail⟩ [.push a] := by
  have hcall : quiet → Quiet (Mixin.reference mixin ++ ".call(" ++ tail) := fun hq =>
    (quiet_reference (hmixin hq)).join (by decide) (htail hq)
  have hshows : Line.Shows quiet ⟨indent, a.text ++ ".push.apply(" ++ a.text ++ ", " ++
      (Mixin.reference mixin ++ ".call(" ++ tail)⟩ [.push a] := .pushAll hcall
  simpa only [Code.callHead, String.append_assoc] using hshows

theorem linesShow_call (indent : Int) (a : ArrayName) {mixin context : String}
    (hmixin : quiet → Quiet mixin) (hcontext : quiet → Wall context) (hargs : quiet → Quiet args) :
    LinesShow quiet
      [⟨indent, Code.callHead a.text mixin ++ context ++ Code.furtherArguments args ++ "));"⟩]
      [[.push a]] := by
  have hcall : Line.Shows quiet ⟨indent, Code.callHead a.text mixin ++
      (context ++ Code.furtherArguments args ++ "));")⟩ [.push a] :=
    shows_callHead hmixin fun hq => quiet_callEnd (hcontext hq) (hargs hq)
  refine linesShow_singleton ?_
  simpa only [String.append_assoc] using hcall

theorem shows_push {indent : Int} {a : ArrayName} {value : Value} (h : quiet → value.Tidy) :
    Line.Shows quiet ⟨indent, Code.push a.text value.expr⟩ [.push a] := by
  cases value with
  | text t => exact .text h
  | code expr => exact .push fun hq => (Wall.wrap (by decide) (h hq) (by decide)).quiet
  | leaf tag properties => exact .push fun hq => quiet_leaf (h hq).1 (h hq).2

end Code

/-! ## Lines of statements -/

section Statements

variable {quiet : Prop} {indent : Int} {target array : ArrayName}

/-- A loop over an array or an object: the source is bound first, and each of the two loops binds
the item. -/
theorem Stmt.each_lines_show {source item key : String}
    {definitions arrayBody arrayRest objectBody objectRest : List Stmt}
    (hnames : quiet → Quiet source ∧ Quiet item ∧ Quiet key)
    (hdefinitions : LinesShow quiet (linesAll (indent + 2) definitions) (marksAll definitions))
    (harray : LinesShow quiet (linesAll (indent + 6) arrayBody) (marksAll arrayBody))
    (harrayRest : LinesShow quiet (linesAll (indent + 4) arrayRest) (marksAll arrayRest))
    (hobject : LinesShow quiet (linesAll (indent + 6) objectBody) (marksAll objectBody))
    (hobjectRest : LinesShow quiet (linesAll (indent + 4) objectRest) (marksAll objectRest)) :
    LinesShow quiet
      ((each source item key definitions arrayBody arrayRest objectBody objectRest).lines indent)
      (each source item key definitions arrayBody arrayRest objectBody objectRest).marks := by
  have hsource : quiet → Quiet ("var $$obj = " ++ source ++ ";") := fun hq =>
    (Wall.wrap (by decide) (hnames hq).1 (by decide)).quiet
  have hfirst : LinesShow quiet
      [⟨indent, ";(function()\x7b"⟩, ⟨indent + 2, "var $$obj = " ++ source ++ ";"⟩] [[], []] :=
    .cons (.other fun _ => by decide) (linesShow_other _ hsource)
  -- the loop over an object also counts its turns
  have hone : quiet → ∀ code ∈ ["var " ++ item ++ " = $$obj[" ++ key ++ "];"], Quiet code :=
    fun hq => List.forall_mem_singleton.2 (quiet_eachBinding (hnames hq).2.1 (hnames hq).2.2)
  have htwo : quiet → ∀ code ∈ ["$$l++;", "var " ++ item ++ " = $$obj[" ++ key ++ "];"],
      Quiet code :=
    fun hq => List.forall_mem_cons.2 ⟨by decide, hone hq⟩
  have harrayLoop := linesShow_eachLines (indent + 4)
    (fun hq => quiet_arrayLoop (hnames hq).2.2) hone harray harrayRest
  have hobjectLoop := linesShow_eachLines (indent + 4)
    (fun hq => quiet_objectLoop (hnames hq).2.2) htwo hobject hobjectRest
  have helse : LinesShow quiet
      [⟨indent + 2, Code.reopening "else"⟩, ⟨indent + 4, "var $$l = 0;"⟩] [[], []] :=
    .cons (.other fun _ => by decide) (linesShow_other _ fun _ => by decide)
  have hlast : LinesShow quiet
      [⟨indent + 2, Code.closing⟩, ⟨indent, "\x7d).call(this);"⟩] [[], []] :=
    .cons (.other fun _ => by decide) (linesShow_other _ fun _ => by decide)
  exact ((((hfirst.append hdefinitions).append
    (.cons (.other fun _ => by decide) harrayLoop)).append helse).append hobjectLoop).append hlast

theorem Stmt.define_lines_show {mixin params : String} {rest : Option (String × Nat)}
    {definitions body : List Stmt}
    (hnames : quiet → Quiet mixin ∧ Quiet params ∧ ∀ parameter ∈ rest, Quiet parameter.1)
    (hdefinitions : LinesShow quiet (linesAll (indent + 2) definitions) (marksAll definitions))
    (hbody : LinesShow quiet (linesAll (indent + 2) body) (marksAll body)) :
    LinesShow quiet ((define mixin params rest definitions array body).lines indent)
      (define mixin params rest definitions array body).marks := by
  have hfirst : LinesShow quiet
      [⟨indent, Mixin.reference mixin ++ " = function(" ++ params ++ ") \x7b"⟩,
        ⟨indent + 2, "var block = (this && this.block), " ++
          "attributes = (this && this.attributes) || \x7b\x7d;"⟩] [[], []] :=
    .cons (.other fun hq => quiet_functionHead (hnames hq).1 (hnames hq).2.1)
      (linesShow_other _ fun _ => by decide)
  have hfunction := linesShow_functionLines (indent + 2) array hdefinitions hbody
  have hlast : LinesShow quiet [⟨indent, "\x7d;"⟩] [[]] := linesShow_other _ fun _ => by decide
  -- the rest parameter, if there is one, has a line of its own
  cases rest with
  | none => exact ((hfirst.append .nil).append hfunction).append hlast
  | some parameter =>
    have hrest : LinesShow quiet [⟨indent + 2, "var " ++ parameter.1 ++
        " = Array.prototype.slice.call(arguments, " ++ toString parameter.2 ++ ");"⟩] [[]] :=
      linesShow_other _ fun hq => quiet_restBinding parameter.2 ((hnames hq).2.2 parameter rfl)
    exact ((hfirst.append hrest).append hfunction).append hlast

theorem Stmt.callWith_lines_show {mixin args : String} {properties : Option String}
    {definitions body : List Stmt}
    (hnames : quiet → Quiet mixin ∧ (∀ code ∈ properties, Quiet code) ∧ Quiet args)
    (hdefinitions : LinesShow quiet (linesAll (indent + 2) definitions) (marksAll definitions))
    (hbody : LinesShow quiet (linesAll (indent + 2) body) (marksAll body)) :
    LinesShow quiet
      ((callWith target mixin properties args definitions array body).lines indent)
      (callWith target mixin properties args definitions array body).marks := by
  have hfunction := linesShow_functionLines (indent + 2) array hdefinitions hbody
  have hhead : Line.Shows quiet
      ⟨indent, Code.callHead target.text mixin ++ "\x7bblock: function() \x7b"⟩ [.push target] :=
    shows_callHead (fun hq => (hnames hq).1) fun _ => by decide
  -- the last line closes the block and the context, with the attributes in between
  have hlast : ∀ field, (quiet → Quiet field) → LinesShow quiet
      [⟨indent, "\x7d" ++ field ++ "\x7d" ++ Code.furtherArguments args ++ "));"⟩] [[]] :=
    fun field hfield => linesShow_other indent fun hq =>
      quiet_callEnd (Wall.wrap (by decide) (hfield hq) (by decide)) (hnames hq).2.2
  refine LinesShow.append (.cons hhead hfunction) ?_
  cases properties with
  | none => exact hlast "" fun _ => by decide
  | some code =>
    exact hlast _ fun hq =>
      Wall.append_quiet (by decide) (quiet_attributesField ((hnames hq).2.1 code rfl))

theorem Stmt.insertBlock_lines_show :
    LinesShow quiet ((insertBlock target).lines indent) (insertBlock target).marks := by
  have hpush : Line.Shows quiet ⟨indent + 2, Code.pushAll target.text "block.call(this)"⟩
      [.push target] := by
    have hshows : Line.Shows quiet ⟨indent + 2, target.text ++ ".push.apply(" ++ target.text ++
        ", " ++ ("block.call(this)" ++ ");")⟩ [.push target] := .pushAll fun _ => by decide
    simpa only [Code.pushAll, String.append_assoc] using hshows
  exact .cons (.other fun _ => by decide)
    (.cons hpush (linesShow_other indent fun _ => by decide))

end Statements

mutual

/-- The lines of a statement show its marks. -/
theorem Stmt.lines_show {quiet : Prop} : ∀ (s : Stmt) (indent : Int), (quiet → s.Tidy) →
    LinesShow quiet (s.lines indent) s.marks
  | .push target value, indent, h => linesShow_singleton (shows_push h)
  | .element target array tag properties body, indent, h => by
    have hbody := Stmt.linesAll_show body (indent + 2) fun hq => (h hq).2.2
    have hpush : Line.Shows quiet ⟨indent, Code.push target.text
        (Code.element [tag, properties.getD "\x7b\x7d", array.text])⟩
        [.consume array (.element tag), .push target] :=
      .element (fun hq => (h hq).1) fun hq => quiet_getD (h hq).2.1
    exact LinesShow.append (.cons .declare hbody) (linesShow_singleton hpush)
  | .splice code, indent, h => linesShow_codeLines indent h
  | .codeBlock header body, indent, h => by
    have hheader : quiet → Quiet (Code.opening header) := fun hq =>
      (h hq).1.append_wall (by decide)
    have hopening := linesShow_codeLines indent hheader
    have hbody := Stmt.linesAll_show body (indent + 2) fun hq => (h hq).2
    exact (hopening.append hbody).append (linesShow_other indent fun _ => by decide)
  | .cond test body otherwise, indent, h => by
    have hbody := Stmt.linesAll_show body (indent + 2) fun hq => (h hq).2.1
    have hotherwise := Otherwise.lines_show otherwise indent fun hq => (h hq).2.2
    exact LinesShow.append
      (.cons (.other fun hq => quiet_opening (by decide) (h hq).1) hbody) hotherwise
  | .switch subject clauses, indent, h => by
    have hclauses := Clause.linesAll_show clauses (indent + 2) fun hq => (h hq).2
    exact LinesShow.append
      (.cons (.other fun hq => quiet_opening (by decide) (h hq).1) hclauses)
      (linesShow_other indent fun _ => by decide)
  | .each source item key definitions arrayBody arrayRest objectBody objectRest, indent, h => by
    have hdefinitions := Stmt.linesAll_show definitions (indent + 2) fun hq => (h hq).2.1
    have harray := Stmt.linesAll_show arrayBody (indent + 6) fun hq => (h hq).2.2.1
    have harrayRest := Stmt.linesAll_show arrayRest (indent + 4) fun hq => (h hq).2.2.2.1
    have hobject := Stmt.linesAll_show objectBody (indent + 6) fun hq => (h hq).2.2.2.2.1
    have hobjectRest := Stmt.linesAll_show objectRest (indent + 4) fun hq => (h hq).2.2.2.2.2
    exact Stmt.each_lines_show (fun hq => (h hq).1) hdefinitions harray harrayRest hobject
      hobjectRest
  | .loop test body, indent, h => by
    have hbody := Stmt.linesAll_show body (indent + 2) fun hq => (h hq).2
    exact LinesShow.append
      (.cons (.other fun hq => quiet_opening (by decide) (h hq).1) hbody)
      (linesShow_other indent fun _ => by decide)
  | .define mixin params rest definitions array body, indent, h => by
    have hdefinitions := Stmt.linesAll_show definitions (indent + 2) fun hq => (h hq).2.1
    have hbody := Stmt.linesAll_show body (indent + 2) fun hq => (h hq).2.2
    exact Stmt.define_lines_show (fun hq => (h hq).1) hdefinitions hbody
  | .call target mixin none args, indent, h =>
    linesShow_call indent target (fun hq => (h hq).1) (fun _ => by decide) fun hq => (h hq).2.2
  | .call target mixin (some code) args, indent, h => by
    have hcontext : quiet → Wall ("\x7b" ++ Code.attributesField code ++ "\x7d") := fun hq =>
      Wall.wrap (by decide) (quiet_attributesField ((h hq).2.1 code rfl)) (by decide)
    exact linesShow_call indent target (fun hq => (h hq).1) hcontext fun hq => (h hq).2.2
  | .callWith target mixin properties args definitions array body, indent, h => by
    have hdefinitions := Stmt.linesAll_show definitions (indent + 2) fun hq => (h hq).2.1
    have hbody := Stmt.linesAll_show body (indent + 2) fun hq => (h hq).2.2
    exact Stmt.callWith_lines_show (fun hq => (h hq).1) hdefinitions hbody
  | .insertBlock target, indent, _ => Stmt.insertBlock_lines_show

theorem Stmt.linesAll_show {quiet : Prop} : ∀ (stmts : List Stmt) (indent : Int),
    (quiet → Stmt.TidyAll stmts) →
    LinesShow quiet (Stmt.linesAll indent stmts) (Stmt.marksAll stmts)
  | [], _, _ => .nil
  | s :: stmts, indent, h => by
    have hfirst := Stmt.lines_show s indent fun hq => (h hq).1
    exact hfirst.append (Stmt.linesAll_show stmts indent fun hq => (h hq).2)

theorem Otherwise.lines_show {quiet : Prop} : ∀ (otherwise : Otherwise) (indent : Int),
    (quiet → otherwise.Tidy) → LinesShow quiet (otherwise.lines indent) otherwise.marks
  | .done, indent, _ => linesShow_other indent fun _ => by decide
  | .body body, indent, h => by
    have hbody := Stmt.linesAll_show body (indent + 2) h
    exact LinesShow.append (.cons (.other fun _ => by decide) hbody)
      (linesShow_other indent fun _ => by decide)
  | .elseIf test body otherwise, indent, h => by
    have hbody := Stmt.linesAll_show body (indent + 2) fun hq => (h hq).2.1
    have hotherwise := Otherwise.lines_show otherwise indent fun hq => (h hq).2.2
    exact LinesShow.append (.cons (.other fun hq => quiet_reopening (h hq).1) hbody) hotherwise

theorem Clause.lines_show {quiet : Prop} : ∀ (clause : Clause) (indent : Int),
    (quiet → clause.Tidy) → LinesShow quiet (clause.lines indent) clause.marks
  | .fallThrough label, indent, h => linesShow_other indent fun hq => quiet_labelCode (h hq)
  | .body label body, indent, h => by
    have hbody := Stmt.linesAll_show body (indent + 2) fun hq => (h hq).2
    exact LinesShow.append (.cons (.other fun hq => quiet_labelCode (h hq).1) hbody)
      (linesShow_other (indent + 2) fun _ => by decide)

theorem Clause.linesAll_show {quiet : Prop} : ∀ (clauses : List Clause) (indent : Int),
    (quiet → Clause.TidyAll clauses) →
    LinesShow quiet (Clause.linesAll indent clauses) (Clause.marksAll clauses)
  | [], _, _ => .nil
  | c :: clauses, indent, h => by
    have hfirst := Clause.lines_show c indent fun hq => (h hq).1
    exact hfirst.append (Clause.linesAll_show clauses indent fun hq => (h hq).2)

end

/-- The lines of a script show its marks. -/
theorem Program.lines_show {quiet : Prop} (p : Program) (indent : Int)
    (hdefinitions : quiet → Stmt.TidyAll p.definitions) (hbody : quiet → Stmt.TidyAll p.body) :
    LinesShow quiet (p.lines indent) p.marks := by
  have hbindings : LinesShow quiet
      (if p.runtime then (Text.codeLines bindingCode).map (⟨indent, ·⟩) else [])
      (if p.runtime then unmarked (Text.codeLines bindingCode).length else []) := by
    split
    · exact linesShow_codeLines indent fun _ => by decide
    · exact .nil
  have htable : LinesShow quiet
      (⟨indent, "var " ++ Mixin.table ++ " = \x7b\x7d;"⟩ :: Stmt.linesAll indent p.definitions)
      ([] :: Stmt.marksAll p.definitions) :=
    .cons (.other fun _ => by decide) (Stmt.linesAll_show p.definitions indent hdefinitions)
  have hroot : LinesShow quiet
      (⟨indent, Code.declare p.root.text⟩ :: Stmt.linesAll indent p.body)
      ([.declare p.root .script] :: Stmt.marksAll p.body) :=
    .cons .declare (Stmt.linesAll_show p.body indent hbody)
  exact ((hbindings.append htable).append hroot).append (linesShow_singleton .final)

end Hyperscript
