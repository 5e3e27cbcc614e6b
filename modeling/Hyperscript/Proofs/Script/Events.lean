import Mathlib.Data.List.ReduceOption
import Hyperscript.Proofs.Generation.Emission
import Hyperscript.Proofs.Script.Lines
import Hyperscript.Proofs.Tree.Schedule

/-!
# Definitions and calls in the text of a script

`line.Bears (some e)` says that the line is the code of the event `e`, and `line.Bears none` that
the line is plain: it neither defines a mixin nor starts a call of one.  The lines of a script bear
the events of the template's schedule in their order, and all other lines are plain, as long as no
text of the template names the table of mixins.
-/

namespace Hyperscript

/-! ## References to mixins -/

theorem encodeNameChar_append_inj {x y : Char} {s t : List Char}
    (h : Text.encodeNameChar x ++ s = Text.encodeNameChar y ++ t) : x = y ∧ s = t := by
  grind [Text.encodeNameChar]

theorem encodeNameChar_append_ne (x : Char) (s t : List Char) :
    Text.encodeNameChar x ++ s ≠ '\x27' :: t := by
  grind [Text.encodeNameChar]

/-- The quote that ends a name is the first one that is not escaped. -/
theorem encodeName_append_inj {xs ys s t : List Char}
    (h : xs.flatMap Text.encodeNameChar ++ '\x27' :: s =
      ys.flatMap Text.encodeNameChar ++ '\x27' :: t) : xs = ys ∧ s = t := by
  induction xs generalizing ys with
  | nil =>
    cases ys with
    | nil => exact ⟨rfl, (List.cons.inj h).2⟩
    | cons y ys =>
      rw [List.flatMap_cons, List.append_assoc] at h
      exact absurd h.symm (encodeNameChar_append_ne y _ _)
  | cons x xs ih =>
    cases ys with
    | nil =>
      rw [List.flatMap_cons, List.append_assoc] at h
      exact absurd h (encodeNameChar_append_ne x _ _)
    | cons y ys =>
      simp only [List.flatMap_cons, List.append_assoc] at h
      obtain ⟨rfl, hrest⟩ := encodeNameChar_append_inj h
      obtain ⟨rfl, hst⟩ := ih hrest
      exact ⟨rfl, hst⟩

theorem reference_append_inj {a b s t : String}
    (h : Mixin.reference a ++ s = Mixin.reference b ++ t) : a = b ∧ s = t := by
  have hlist := congrArg String.toList h
  simp only [Mixin.reference, Text.nameLiteral, String.toList_append, String.toList_ofList,
    List.append_assoc, List.append_cancel_left_eq, List.cons_append, List.cons.injEq, true_and,
    List.nil_append] at hlist
  obtain ⟨hname, hrest⟩ := encodeName_append_inj hlist
  exact ⟨String.toList_injective hname, String.toList_injective (List.append_cancel_left hrest)⟩

/-- The digits in the name of an array end at its first letter. -/
theorem fresh_append_inj {j k : Nat} {s t : String}
    (h : (ArrayName.fresh j).text ++ s = (ArrayName.fresh k).text ++ t) : j = k ∧ s = t := by
  have htake : ∀ (n : Nat) (u : String),
      (((ArrayName.fresh n).text ++ u).toList.drop 1).takeWhile Char.isDigit =
        Nat.toDigits 10 n := by
    intro n u
    have hdigits : (toString n).toList = Nat.toDigits 10 n := String.toList_ofList
    have hchild : "Child".toList = 'C' :: "hild".toList := rfl
    have hn : "n".toList = ['n'] := rfl
    simp only [ArrayName.text, String.toList_append, hdigits, hchild, hn, List.append_assoc,
      List.cons_append, List.drop_succ_cons, List.drop_zero, List.nil_append]
    rw [List.takeWhile_append_of_pos fun c hc =>
      Nat.isDigit_of_mem_toDigits (by decide) (by decide) hc,
      List.takeWhile_cons_of_neg (by decide), List.append_nil]
  have hjk : j = k := by
    have hdigits : Nat.toDigits 10 j = Nat.toDigits 10 k := by
      rw [← htake j s, h, htake k t]
    exact ArrayName.text_fresh_injective
      (congrArg (fun digits => "n" ++ String.ofList digits ++ "Child") hdigits)
  subst hjk
  exact ⟨rfl, (String.append_right_inj _).1 h⟩

/-! ## Plain lines -/

/-- The code neither defines a mixin nor starts a call of one. -/
def Plain (code : String) : Prop :=
  ∀ name rest, code ≠ Mixin.reference name ++ rest ∧
    ∀ k, code ≠ Code.callHead (ArrayName.fresh k).text name ++ rest

/-- The first character of the code differs from that of a definition and that of a call. -/
def Foreign (code : String) : Prop :=
  code.toList.head?.any (fun c => c != 'j' && c != 'n') = true

instance (code : String) : Decidable (Foreign code) :=
  inferInstanceAs (Decidable (_ = true))

theorem Foreign.append {start : String} (h : Foreign start) (rest : String) :
    Foreign (start ++ rest) := by
  unfold Foreign at h ⊢
  rw [String.toList_append, List.head?_append]
  cases hhead : start.toList.head? with
  | none =>
    rw [hhead] at h
    cases h
  | some c =>
    rw [hhead] at h
    exact h

theorem head_reference (name rest : String) :
    (Mixin.reference name ++ rest).toList.head? = some 'j' := by
  simp only [Mixin.reference, Mixin.table, String.toList_append, List.head?_append]
  rfl

theorem head_fresh (k : Nat) (rest : String) :
    ((ArrayName.fresh k).text ++ rest).toList.head? = some 'n' := by
  simp only [ArrayName.text, String.toList_append, List.head?_append]
  rfl

theorem callHead_eq (k : Nat) (name rest : String) :
    Code.callHead (ArrayName.fresh k).text name ++ rest =
      (ArrayName.fresh k).text ++ (".push.apply(" ++ ((ArrayName.fresh k).text ++ (", " ++
        (Mixin.reference name ++ (".call(" ++ rest))))) := by
  simp only [Code.callHead, String.append_assoc]

theorem Foreign.plain {code : String} (h : Foreign code) : Plain code := by
  unfold Foreign at h
  intro name rest
  refine ⟨?_, fun k => ?_⟩
  · rintro rfl
    rw [head_reference] at h
    exact absurd h (by decide)
  · rintro rfl
    rw [callHead_eq, head_fresh] at h
    exact absurd h (by decide)

/-- Code of the template is plain if it does not name the table of mixins. -/
theorem plain_of_not_isInfix {code : String} (h : ¬Mixin.table.toList <:+: code.toList) :
    Plain code := by
  have htable : ∀ name, Mixin.table.toList <:+: (Mixin.reference name).toList := by
    intro name
    simp only [Mixin.reference, String.toList_append, List.append_assoc]
    exact (List.prefix_append _ _).isInfix
  intro name rest
  refine ⟨?_, fun k => ?_⟩
  · rintro rfl
    rw [String.toList_append] at h
    exact h ((htable name).trans (List.prefix_append _ _).isInfix)
  · rintro rfl
    simp only [Code.callHead, String.toList_append] at h
    exact h (((htable name).trans (List.infix_append _ _ _)).trans (List.prefix_append _ _).isInfix)

/-- A line that starts with an array is plain unless it applies a push to a reference. -/
theorem plain_of_fresh {k : Nat} {rest : String}
    (h : ∀ tail : String, rest ≠ ".push.apply(" ++ ((ArrayName.fresh k).text ++ (", j" ++ tail))) :
    Plain ((ArrayName.fresh k).text ++ rest) := by
  intro name tail
  refine ⟨fun heq => ?_, fun j heq => ?_⟩
  · have hhead := head_reference name tail
    rw [← heq, head_fresh] at hhead
    cases hhead
  · rw [callHead_eq] at heq
    obtain ⟨rfl, hrest⟩ := fresh_append_inj heq
    apply h ("ade_mixins[" ++ (Text.nameLiteral name ++ ("]" ++ (".call(" ++ tail))))
    rw [hrest]
    have hj : ", " ++ (Mixin.reference name ++ (".call(" ++ tail)) = ", j" ++ ("ade_mixins[" ++
        (Text.nameLiteral name ++ ("]" ++ (".call(" ++ tail)))) := by
      have htable : ", " ++ Mixin.table ++ "[" = ", j" ++ "ade_mixins[" := by decide
      simp only [Mixin.reference, ← String.append_assoc]
      rw [htable]
    rw [hj]

theorem plain_push (k : Nat) (value : String) :
    Plain (Code.push (ArrayName.fresh k).text value) := by
  rw [Code.push, String.append_assoc, String.append_assoc]
  apply plain_of_fresh
  intro tail h
  have hlist := congrArg (fun s => s.toList.take 6) h
  simp [String.toList_append] at hlist

theorem plain_insertBlock (k : Nat) :
    Plain (Code.pushAll (ArrayName.fresh k).text "block.call(this)") := by
  simp only [Code.pushAll, String.append_assoc]
  apply plain_of_fresh
  intro tail h
  have hrest := (String.append_right_inj _).1 ((String.append_right_inj _).1 h)
  have hlist := congrArg (fun s => s.toList.take 3) hrest
  simp [String.toList_append] at hlist

/-! ## Events in lines -/

/-- The line is the code of this event; without an event, it is plain. -/
inductive Line.Bears : Line → Option Event → Prop where
  | define {indent above mixin params paramList count rest children} :
      Mixin.paramList params = .ok (paramList, count) →
      Bears ⟨indent, Mixin.reference mixin ++ " = function(" ++ paramList ++ ") \x7b"⟩
        (some (.define above (.mixin (.str mixin) params rest children)))
  /-- The line that calls the mixin. -/
  | call {indent above k mixin tail args attributes children} :
      Bears ⟨indent, Code.callHead (ArrayName.fresh k).text mixin ++ tail⟩
        (some (.call above (.call (.str mixin) args attributes children)))
  /-- The lines of the function that a call passes. -/
  | declare {indent above k name args attributes children} :
      Bears ⟨indent, Code.declare (ArrayName.fresh k).text⟩
        (some (.call above (.call name args attributes children)))
  | result {indent above k name args attributes children} :
      Bears ⟨indent, Code.result (ArrayName.fresh k).text⟩
        (some (.call above (.call name args attributes children)))
  /-- The line after it. -/
  | last {indent above tail name args attributes children} :
      Bears ⟨indent, "\x7d" ++ tail⟩ (some (.call above (.call name args attributes children)))
  | plain {indent code} : Plain code → Bears ⟨indent, code⟩ none

/-- The lines bear these events one after the other. -/
def LinesBear (lines : List Line) (events : List Event) : Prop :=
  ∃ labels, List.Forall₂ Line.Bears lines labels ∧ labels.reduceOption = events

section LinesBear

variable {lines others : List Line} {events others' : List Event}

theorem linesBear_nil : LinesBear [] [] :=
  ⟨[], .nil, rfl⟩

theorem LinesBear.append (h : LinesBear lines events) (h' : LinesBear others others') :
    LinesBear (lines ++ others) (events ++ others') := by
  obtain ⟨labels, hlabels, rfl⟩ := h
  obtain ⟨labels', hlabels', rfl⟩ := h'
  exact ⟨labels ++ labels', List.rel_append hlabels hlabels', List.reduceOption_append _ _⟩

/-- Lines without events may follow. -/
theorem LinesBear.silent (h : LinesBear lines events) (h' : LinesBear others []) :
    LinesBear (lines ++ others) events := by
  have hall := h.append h'
  rwa [List.append_nil] at hall

theorem linesBear_plain (indent : Int) {code : String} (h : Plain code) :
    LinesBear [⟨indent, code⟩] [] :=
  ⟨[none], .cons (.plain h) .nil, rfl⟩

theorem LinesBear.plain (indent : Int) {code : String} (hcode : Plain code)
    (h : LinesBear lines events) : LinesBear (⟨indent, code⟩ :: lines) events :=
  (linesBear_plain indent hcode).append h

theorem LinesBear.event {line : Line} {e : Event} (he : line.Bears (some e))
    (h : LinesBear lines events) : LinesBear (line :: lines) (e :: events) := by
  obtain ⟨labels, hlabels, rfl⟩ := h
  exact ⟨some e :: labels, .cons he hlabels, rfl⟩

/-- Lines between two plain ones. -/
theorem LinesBear.block (indent : Int) {first last : String} (hfirst : Plain first)
    (h : LinesBear lines events) (hlast : Plain last) :
    LinesBear (⟨indent, first⟩ :: lines ++ [⟨indent, last⟩]) events :=
  (h.plain indent hfirst).silent (linesBear_plain indent hlast)

theorem linesBear_map (indent : Int) {codes : List String} (h : ∀ code ∈ codes, Plain code) :
    LinesBear (codes.map (⟨indent, ·⟩)) [] := by
  induction codes with
  | nil => exact linesBear_nil
  | cons code codes ih =>
    rw [List.forall_mem_cons] at h
    exact (ih h.2).plain indent h.1

/-- The lines do not show what stands above a node. -/
theorem Line.Bears.below {line : Line} {label : Option Event} (h : line.Bears label) (n : Node) :
    line.Bears (label.map (.below n)) := by
  cases h with
  | define hparams => exact .define hparams
  | call => exact .call
  | declare => exact .declare
  | result => exact .result
  | last => exact .last
  | plain hcode => exact .plain hcode

theorem LinesBear.below (h : LinesBear lines events) (n : Node) :
    LinesBear lines (events.map (.below n)) := by
  obtain ⟨labels, hlabels, rfl⟩ := h
  refine ⟨labels.map (.map (.below n)), ?_, List.reduceOption_map⟩
  rw [List.forall₂_map_right_iff]
  exact hlabels.imp fun line label h => h.below n

end LinesBear

/-! ## Statements -/

/-- The lines of these statements bear the events. -/
def StmtsBear (stmts : List Stmt) (events : List Event) : Prop :=
  ∀ indent, LinesBear (Stmt.linesAll indent stmts) events

section Statements

variable {k j : Nat} {body definitions : List Stmt} {events hoisted : List Event}

theorem stmtsBear_nil : StmtsBear [] [] :=
  fun _ => linesBear_nil

theorem StmtsBear.append {xs ys : List Stmt} {es fs : List Event} (hx : StmtsBear xs es)
    (hy : StmtsBear ys fs) : StmtsBear (xs ++ ys) (es ++ fs) := by
  intro indent
  rw [Stmt.linesAll_append]
  exact (hx indent).append (hy indent)

theorem StmtsBear.below {stmts : List Stmt} (h : StmtsBear stmts events) (n : Node) :
    StmtsBear stmts (events.map (.below n)) :=
  fun indent => (h indent).below n

theorem stmtsBear_singleton {s : Stmt} (h : ∀ indent, LinesBear (s.lines indent) events) :
    StmtsBear [s] events := by
  intro indent
  rw [Stmt.linesAll, Stmt.linesAll, List.append_nil]
  exact h indent

theorem plain_closing : Plain Code.closing :=
  Foreign.plain (by decide)

theorem plain_declare (array : String) : Plain (Code.declare array) :=
  ((Foreign.append (by decide) array).append _).plain

theorem plain_result (value : String) : Plain (Code.result value) :=
  ((Foreign.append (by decide) value).append _).plain

/-- A header with something in parentheses. -/
theorem plain_opening {start : String} (h : Foreign start) (code : String) :
    Plain (Code.opening (start ++ code ++ ")")) :=
  (((h.append code).append _).append _).plain

theorem plain_reopening (header : String) : Plain (Code.reopening header) :=
  ((Foreign.append (by decide) header).append _).plain

theorem plain_labelCode (label : Option String) : Plain (Clause.labelCode label) := by
  cases label with
  | none => exact Foreign.plain (show Foreign "default:" by decide)
  | some expr => exact ((Foreign.append (show Foreign "case " by decide) expr).append _).plain

theorem stmtsBear_push (k : Nat) (value : Value) : StmtsBear [.push (.fresh k) value] [] :=
  stmtsBear_singleton fun indent => linesBear_plain indent (plain_push k value.expr)

theorem stmtsBear_element (tag : String) (properties : Option String) (h : StmtsBear body events) :
    StmtsBear [.element (.fresh j) (.fresh k) tag properties body] events :=
  stmtsBear_singleton fun indent =>
    (h (indent + 2)).block indent (plain_declare _) (plain_push j _)

theorem stmtsBear_splice {code : String} (h : ∀ line ∈ Text.codeLines code, Plain line) :
    StmtsBear [.splice code] [] :=
  stmtsBear_singleton fun indent => linesBear_map indent h

theorem stmtsBear_codeBlock {header : String}
    (hheader : ∀ line ∈ Text.codeLines (Code.opening header), Plain line)
    (h : StmtsBear body events) : StmtsBear [.codeBlock header body] events :=
  stmtsBear_singleton fun indent => ((linesBear_map indent hheader).append (h (indent + 2))).silent
    (linesBear_plain indent plain_closing)

theorem stmtsBear_cond (test : String) {otherwise : Otherwise} {others : List Event}
    (h : StmtsBear body events) (hotherwise : ∀ indent, LinesBear (otherwise.lines indent) others) :
    StmtsBear [.cond test body otherwise] (events ++ others) :=
  stmtsBear_singleton fun indent =>
    ((h (indent + 2)).plain indent (plain_opening (by decide) test)).append (hotherwise indent)

theorem stmtsBear_cond_done (test : String) (h : StmtsBear body events) :
    StmtsBear [.cond test body .done] events :=
  stmtsBear_singleton fun indent =>
    (h (indent + 2)).block indent (plain_opening (by decide) test) plain_closing

theorem stmtsBear_switch (subject : String) {clauses : List Clause}
    (h : ∀ indent, LinesBear (Clause.linesAll indent clauses) events) :
    StmtsBear [.switch subject clauses] events :=
  stmtsBear_singleton fun indent =>
    (h (indent + 2)).block indent (plain_opening (by decide) subject) plain_closing

theorem stmtsBear_loop (test : String) (h : StmtsBear body events) :
    StmtsBear [.loop test body] events :=
  stmtsBear_singleton fun indent =>
    (h (indent + 2)).block indent (plain_opening (by decide) test) plain_closing

theorem linesBear_eachLines {header : String} {first : List String} {lines rest : List Line}
    {others : List Event} (indent : Int) (hheader : Foreign header)
    (hfirst : ∀ code ∈ first, Plain code) (hlines : LinesBear lines events)
    (hrest : LinesBear rest others) :
    LinesBear (eachLines indent header first lines rest) (events ++ others) := by
  have hheader : Plain (Code.opening header) := (hheader.append _).plain
  have hopening := LinesBear.plain indent hheader (linesBear_map (indent + 2) hfirst)
  exact (hopening.append hlines).append (hrest.plain indent plain_closing)

theorem stmtsBear_each (source item key : String)
    {arrayBody arrayRest objectBody objectRest : List Stmt} {inLoop after : List Event}
    (hdefinitions : StmtsBear definitions hoisted) (harray : StmtsBear arrayBody inLoop)
    (harrayRest : StmtsBear arrayRest after) (hobject : StmtsBear objectBody inLoop)
    (hobjectRest : StmtsBear objectRest after) :
    StmtsBear [.each source item key definitions arrayBody arrayRest objectBody objectRest]
      (hoisted ++ (inLoop ++ after) ++ (inLoop ++ after)) := by
  apply stmtsBear_singleton
  intro indent
  have hbind : Plain ("var " ++ item ++ " = $$obj[" ++ key ++ "];") :=
    ((((Foreign.append (by decide) item).append _).append key).append _).plain
  have hcount : Plain "$$l++;" := Foreign.plain (by decide)
  have hfor : Foreign ("for (var " ++ key) := Foreign.append (by decide) key
  have harrayHead : Foreign ("for (var " ++ key ++ " = 0, $$l = $$obj.length; " ++ key ++
      " < $$l; " ++ key ++ "++)") :=
    ((((hfor.append _).append key).append _).append key).append _
  have harrayLoop := linesBear_eachLines (indent + 4) harrayHead
    (List.forall_mem_singleton.2 hbind) (harray (indent + 6)) (harrayRest (indent + 4))
  have hobjectHead : Foreign ("for (var " ++ key ++ " in $$obj)") := hfor.append _
  have hobjectLoop := linesBear_eachLines (indent + 4) hobjectHead
    (List.forall_mem_cons.2 ⟨hcount, List.forall_mem_singleton.2 hbind⟩) (hobject (indent + 6))
    (hobjectRest (indent + 4))
  have hsource : Plain ("var $$obj = " ++ source ++ ";") :=
    ((Foreign.append (by decide) source).append _).plain
  have hif : Plain (Code.opening "if ('number' == typeof $$obj.length)") :=
    (Foreign.append (by decide) _).plain
  have hfirst : LinesBear [⟨indent, ";(function()\x7b"⟩,
      ⟨indent + 2, "var $$obj = " ++ source ++ ";"⟩] [] :=
    LinesBear.plain indent (Foreign.plain (by decide)) (linesBear_plain _ hsource)
  have helse : LinesBear [⟨indent + 2, Code.reopening "else"⟩, ⟨indent + 4, "var $$l = 0;"⟩] [] :=
    LinesBear.plain _ (plain_reopening _) (linesBear_plain _ (Foreign.plain (by decide)))
  have hlast : LinesBear [⟨indent + 2, Code.closing⟩, ⟨indent, "\x7d).call(this);"⟩] [] :=
    LinesBear.plain _ plain_closing (linesBear_plain indent (Foreign.plain (by decide)))
  have hstart := (hfirst.append (hdefinitions (indent + 2))).append
    (harrayLoop.plain (indent + 2) hif)
  exact ((hstart.silent helse).append hobjectLoop).silent hlast

theorem stmtsBear_define {d : Node} {mixin paramList : String} {params rest : Datum} {count : Nat}
    {children : Content} (hd : d = .mixin (.str mixin) params rest children)
    (hparams : Mixin.paramList params = .ok (paramList, count))
    (restParameter : Option (String × Nat)) (hdefinitions : StmtsBear definitions hoisted)
    (hbody : StmtsBear body events) :
    StmtsBear [.define mixin paramList restParameter definitions (.fresh k) body]
      (.define [] d :: hoisted ++ events) := by
  apply stmtsBear_singleton
  intro indent
  have hcontext : Plain ("var block = (this && this.block), " ++
      "attributes = (this && this.attributes) || \x7b\x7d;") :=
    (Foreign.append (by decide) _).plain
  have hfirst : LinesBear [⟨indent, Mixin.reference mixin ++ " = function(" ++ paramList ++
      ") \x7b"⟩, ⟨indent + 2, "var block = (this && this.block), " ++
        "attributes = (this && this.attributes) || \x7b\x7d;"⟩] [.define [] d] := by
    rw [hd]
    exact LinesBear.event (.define hparams) (linesBear_plain _ hcontext)
  have hfunction : LinesBear (functionLines (indent + 2) (Stmt.linesAll (indent + 2) definitions)
      (.fresh k) (Stmt.linesAll (indent + 2) body)) (hoisted ++ events) :=
    ((hdefinitions _).append ((hbody _).plain _ (plain_declare _))).silent
      (linesBear_plain _ (plain_result _))
  have hlast : Plain "\x7d;" := Foreign.plain (by decide)
  cases restParameter with
  | none =>
    exact ((hfirst.silent linesBear_nil).append hfunction).silent (linesBear_plain indent hlast)
  | some parameter =>
    have hrest : Plain ("var " ++ parameter.1 ++ " = Array.prototype.slice.call(arguments, " ++
        toString parameter.2 ++ ");") :=
      ((((Foreign.append (by decide) _).append _).append _).append _).plain
    exact ((hfirst.silent (linesBear_plain _ hrest)).append hfunction).silent
      (linesBear_plain indent hlast)

section Call

variable {c : Node} {mixin : String} {args : Datum} {attributes : Attributes} {children : Content}
variable (hc : c = .call (.str mixin) args attributes children)
variable (properties : Option String) (argText : String)

include hc in
theorem linesBear_call (indent : Int) (k : Nat) (context further last : String) :
    LinesBear [⟨indent, Code.callHead (ArrayName.fresh k).text mixin ++ context ++ further ++ last⟩]
      [.call [] c] := by
  rw [String.append_assoc, String.append_assoc, hc]
  exact LinesBear.event .call linesBear_nil

include hc in
theorem linesBear_last (indent : Int) (field brace further last : String) :
    LinesBear [⟨indent, "\x7d" ++ field ++ brace ++ further ++ last⟩] [.call [] c] := by
  rw [String.append_assoc, String.append_assoc, String.append_assoc, hc]
  exact LinesBear.event .last linesBear_nil

include hc in
theorem stmtsBear_call :
    StmtsBear [.call (.fresh k) mixin properties argText] [.call [] c] := by
  apply stmtsBear_singleton
  intro indent
  cases properties with
  | none => exact linesBear_call hc indent k "this" _ _
  | some code =>
    exact linesBear_call hc indent k ("\x7b" ++ Code.attributesField code ++ "\x7d") _ _

include hc in
/-- Between the line that calls the mixin and the last one is the function that the call passes. -/
theorem stmtsBear_callWith (hdefinitions : StmtsBear definitions hoisted)
    (hbody : StmtsBear body events) :
    StmtsBear [.callWith (.fresh j) mixin properties argText definitions (.fresh k) body]
      (.call [] c :: hoisted ++ .call [] c :: events ++ [.call [] c, .call [] c]) := by
  apply stmtsBear_singleton
  intro indent
  have hhead : LinesBear [⟨indent, Code.callHead (ArrayName.fresh j).text mixin ++
      "\x7bblock: function() \x7b"⟩] [.call [] c] := by
    rw [hc]
    exact LinesBear.event .call linesBear_nil
  have hfill : LinesBear (⟨indent + 2, Code.declare (ArrayName.fresh k).text⟩ ::
      Stmt.linesAll (indent + 2) body) (.call [] c :: events) := by
    rw [hc]
    exact LinesBear.event .declare (hbody _)
  have hresult : LinesBear [⟨indent + 2, Code.result (ArrayName.fresh k).text⟩] [.call [] c] := by
    rw [hc]
    exact LinesBear.event .result linesBear_nil
  have hfunction := hhead.append (((hdefinitions (indent + 2)).append hfill).append hresult)
  have hlines : ∀ field, LinesBear (⟨indent, Code.callHead (ArrayName.fresh j).text mixin ++
      "\x7bblock: function() \x7b"⟩ :: functionLines (indent + 2)
        (Stmt.linesAll (indent + 2) definitions) (.fresh k) (Stmt.linesAll (indent + 2) body) ++
      [⟨indent, "\x7d" ++ field ++ "\x7d" ++ Code.furtherArguments argText ++ "));"⟩])
      (.call [] c :: hoisted ++ .call [] c :: events ++ [.call [] c, .call [] c]) := by
    intro field
    have hall := hfunction.append (linesBear_last hc indent field "\x7d"
      (Code.furtherArguments argText) "));")
    simpa only [functionLines, List.append_assoc, List.cons_append, List.nil_append] using hall
  cases properties with
  | none => exact hlines ""
  | some code => exact hlines (", " ++ Code.attributesField code)

end Call

theorem stmtsBear_insertBlock (k : Nat) : StmtsBear [.insertBlock (.fresh k)] [] := by
  apply stmtsBear_singleton
  intro indent
  have hif : Plain (Code.opening "if (block)") := (Foreign.append (by decide) _).plain
  exact LinesBear.plain indent hif (LinesBear.plain _ (plain_insertBlock k)
    (linesBear_plain indent plain_closing))

end Statements

/-! ## Generated code -/

/-- No text of the node names the table of mixins. -/
def Node.AvoidsTable (n : Node) : Prop :=
  ∀ s ∈ n.texts, ¬Mixin.table.toList <:+: s.toList

instance (n : Node) : Decidable n.AvoidsTable :=
  inferInstanceAs (Decidable (∀ s ∈ n.texts, ¬Mixin.table.toList <:+: s.toList))

/-- A well-typed node whose texts do not name the table. -/
structure Node.Clear (n : Node) : Prop where
  wellTyped : n.WellTyped
  avoids : n.AvoidsTable

theorem not_isInfix_opening {code : String} (h : ¬Mixin.table.toList <:+: code.toList) :
    ¬Mixin.table.toList <:+: (Code.opening code).toList := by
  rintro ⟨before, after, heq⟩
  have hbrace : (Code.opening code).toList = code.toList ++ [' ', '\x7b'] := String.toList_append
  rw [hbrace] at heq
  -- what ends in the name of the table does not end in a blank or a brace
  rcases List.append_eq_append_iff.1 heq with ⟨rest, hcode, -⟩ | ⟨rest, hname, hrest⟩
  · exact h ⟨before, rest, hcode.symm⟩
  · cases rest with
    | nil => exact h ⟨before, [], by rw [hname, List.append_nil, List.append_nil]⟩
    | cons c rest =>
      have hlast : (before ++ Mixin.table.toList).getLast? = some 's' := by
        rw [List.getLast?_append]
        rfl
      rw [hname, List.getLast?_append_cons] at hlast
      have hmem : 's' ∈ [' ', '\x7b'] := by
        rw [hrest]
        exact List.mem_append_left _ (List.mem_of_getLast? hlast)
      exact absurd hmem (by decide)

theorem plain_codeLines {code : String} (h : ¬Mixin.table.toList <:+: code.toList) :
    ∀ line ∈ Text.codeLines code, Plain line :=
  fun _ hline => plain_of_not_isInfix fun htable => h (htable.trans (codeLines_isInfix hline))

theorem Node.Clear.splice {d e : Datum} {c : Content} (h : (Node.code d e c).Clear) {code : String}
    (hcode : d.text = .ok code) : ∀ line ∈ Text.codeLines code, Plain line := by
  obtain ⟨hn, havoids⟩ := h
  cases hn with
  | code =>
    cases hcode
    exact plain_codeLines (havoids _ (List.mem_singleton_self _))

theorem Node.Clear.codeBlock {d e : Datum} {c : Content} (h : (Node.code d e c).Clear) :
    ∀ line ∈ Text.codeLines (Code.opening d.spell), Plain line := by
  obtain ⟨hn, havoids⟩ := h
  cases hn with
  | code => exact plain_codeLines (not_isInfix_opening (havoids _ (List.mem_singleton_self _)))

/-- The array to push onto, if there is one, is named by a number. -/
def Scope.FillsFresh (s : Scope) : Prop :=
  ∀ a, s.parent = some a → ∃ k, a = .fresh k

theorem Scope.fillsFresh_filling (s : Scope) (k : Nat) : (s.filling (.fresh k)).FillsFresh := by
  rintro a ⟨⟩
  exact ⟨k, rfl⟩

theorem Scope.FillsFresh.target {s : Scope} (h : s.FillsFresh) {a : ArrayName}
    (ha : s.target = .ok a) : ∃ k, a = .fresh k :=
  h a (Scope.parent_of_target ha)

theorem Scope.FillsFresh.flush {s : Scope} (h : s.FillsFresh) {texts : List Datum}
    {before : List Stmt} (hflush : s.flush texts = .ok before) : StmtsBear before [] := by
  rcases Scope.flush_cases hflush with ⟨-, rfl⟩ | ⟨target, text, htarget, -, rfl⟩
  · exact stmtsBear_nil
  · obtain ⟨k, rfl⟩ := h.target htarget
    exact stmtsBear_push k _

theorem Datum.eq_str_of_text {d : Datum} {s : String} (h : d.text = .ok s) : d = .str s := by
  cases d <;> cases h
  rfl

mutual

theorem Node.Emits.stmtsBear : ∀ {n : Node} {s : Scope} {k : Nat} {stmts : List Stmt} {k' : Nat},
    n.Emits s k stmts k' → s.FillsFresh → Everywhere Node.Clear [.node n] →
    StmtsBear stmts n.schedule.placed
  | _, s, k, _, _, .element _ _ htarget _ hbody, hs, h => by
    obtain ⟨j, rfl⟩ := hs.target htarget
    rw [Node.placed_of_not_opensScope rfl]
    exact stmtsBear_element _ _ ((hbody.stmtsBear (s.fillsFresh_filling k) h.children).below _)
  | _, _, _, _, _, .leaf _ _ htarget hchildren, hs, _ => by
    obtain ⟨j, rfl⟩ := hs.target htarget
    rw [Node.placed_eq_nil rfl (by exact Content.nodes_of_not_isTrue hchildren)]
    exact stmtsBear_push j _
  | _, _, _, _, _, .text htarget _, hs, _ => by
    obtain ⟨j, rfl⟩ := hs.target htarget
    rw [Node.placed_eq_nil rfl rfl]
    exact stmtsBear_push j _
  | _, _, _, _, _, .value _ htarget _ hrest, hs, h => by
    obtain ⟨j, rfl⟩ := hs.target htarget
    rw [Node.placed_of_not_opensScope rfl]
    exact (stmtsBear_push j _).append ((hrest.stmtsBear hs h.children).below _)
  | _, _, _, _, _, .bareValue _ htarget hchildren, hs, _ => by
    obtain ⟨j, rfl⟩ := hs.target htarget
    rw [Node.placed_eq_nil rfl (by exact Content.nodes_of_not_isTrue hchildren)]
    exact stmtsBear_push j _
  | _, _, _, _, _, .splice _ hchildren hcode, _, h => by
    rw [Node.placed_eq_nil rfl (by exact Content.nodes_of_isNull hchildren)]
    exact stmtsBear_splice (h.here.splice hcode)
  | _, _, _, _, _, .codeBlock _ _ hbody, hs, h => by
    rw [Node.placed_of_not_opensScope rfl]
    exact stmtsBear_codeBlock h.here.codeBlock ((hbody.stmtsBear hs h.children).below _)
  | _, _, _, _, _, .comment, _, _ => by
    rw [Node.placed_eq_nil rfl rfl]
    exact stmtsBear_nil
  | _, _, _, _, _, .mixin, _, _ => by
    rw [Node.schedule_eq]
    exact stmtsBear_nil
  | _, _, _, _, _, .conditional hbody hotherwise, hs, h => by
    have hparts := h.conditional h.here.wellTyped
    rw [Node.placed_of_not_opensScope rfl, Node.inner, placedOf_append, List.map_append]
    exact stmtsBear_cond _ ((hbody.stmtsBear hs hparts.1).below _) fun indent =>
      (hotherwise.linesBear hs hparts.2 indent).below _
  | _, _, _, _, _, .switch hclauses, hs, h => by
    rw [Node.placed_of_not_opensScope rfl]
    exact stmtsBear_switch _ fun indent => (hclauses.linesBear hs h.children indent).below _
  | _, _, _, _, _, .each hd₁ hd₂ hb₁ ht₁ hb₂ ht₂, hs, h => by
    have hparts := h.each h.here.wellTyped
    -- the definitions of the body and of the alternate come once, for both loops
    rw [Node.schedule_eq, Node.inner, placedOf_append, hoistedOf_append, List.map_append,
      List.map_append]
    exact stmtsBear_each _ _ _
      (((hd₁.stmtsBear hparts.1).below _).append ((hd₂.stmtsBear hparts.2).below _))
      ((hb₁.stmtsBear hs hparts.1).below _) ((ht₁.stmtsBear hs hparts.2).below _)
      ((hb₂.stmtsBear hs hparts.1).below _) ((ht₂.stmtsBear hs hparts.2).below _)
  | _, _, _, _, _, .loop hbody, hs, h => by
    rw [Node.placed_of_not_opensScope rfl]
    exact stmtsBear_loop _ ((hbody.stmtsBear hs h.children).below _)
  | _, _, _, _, _, .call _ htarget _ _ hname hchildren, hs, _ => by
    obtain ⟨j, rfl⟩ := hs.target htarget
    rw [Node.schedule_eq, Node.arrange, if_pos hchildren]
    cases Datum.eq_str_of_text hname
    exact stmtsBear_call rfl _ _
  | _, s, k, _, _, .callWith _ htarget _ _ hname hchildren hdefinitions hbody, hs, h => by
    obtain ⟨j, rfl⟩ := hs.target htarget
    rw [Node.schedule_eq, Node.arrange, if_neg (by rw [hchildren]; decide)]
    cases Datum.eq_str_of_text hname
    exact stmtsBear_callWith rfl _ _ ((hdefinitions.stmtsBear h.children).below _)
      ((hbody.stmtsBear (s.fillsFresh_filling k) h.children).below _)
  | _, _, _, _, _, .placeholder _ htarget, hs, _ => by
    obtain ⟨j, rfl⟩ := hs.target htarget
    rw [Node.placed_eq_nil rfl rfl]
    exact stmtsBear_insertBlock j

theorem Content.Emits.stmtsBear : ∀ {c : Content} {s : Scope} {k : Nat} {stmts : List Stmt}
    {k' : Nat}, c.Emits s k stmts k' → s.FillsFresh → c.Everywhere Node.Clear →
    StmtsBear stmts (placedOf c.nodes)
  | _, _, _, _, _, .list h, hs, hc => h.stmtsBear hs (hc _ rfl)
  | _, _, _, _, _, .datum _, _, _ => stmtsBear_nil

theorem ItemsEmit.stmtsBear : ∀ {items : List Content} {s : Scope} {texts : List Datum} {k : Nat}
    {stmts : List Stmt} {k' : Nat}, ItemsEmit items s texts k stmts k' → s.FillsFresh →
    Everywhere Node.Clear items → StmtsBear stmts (placedOf (Content.list items).nodes)
  | _, _, _, _, _, _, .nil hflush, hs, _ => hs.flush hflush
  | _, _, _, _, _, _, .text h, hs, hitems => by
    rw [Content.nodes_cons, placedOf_cons, Node.placed_eq_nil rfl rfl]
    exact h.stmtsBear hs hitems.others
  | _, _, _, _, _, _, .cons _ hflush h h', hs, hitems =>
    ((hs.flush hflush).append (h.stmtsBear hs hitems.first)).append (h'.stmtsBear hs hitems.others)

theorem Content.Continues.linesBear : ∀ {c : Content} {s : Scope} {k : Nat}
    {otherwise : Otherwise} {k' : Nat}, c.Continues s k otherwise k' → s.FillsFresh →
    c.EverywhereAlternate Node.Clear → ∀ indent,
    LinesBear (otherwise.lines indent) (placedOf c.alternateNodes)
  | _, _, _, _, _, .elseIf hbody hotherwise, hs, hc, indent => by
    have h := hc _ (.inr ⟨_, rfl, rfl⟩)
    have hparts := h.conditional h.here.wellTyped
    have hbody := hbody.stmtsBear hs hparts.1 (indent + 2)
    rw [Content.alternateNodes, if_pos (by rfl), placedOf_singleton,
      Node.placed_of_not_opensScope rfl, Node.inner, placedOf_append, List.map_append]
    exact ((hbody.below _).plain indent (plain_reopening _)).append
      ((hotherwise.linesBear hs hparts.2 indent).below _)
  | _, _, _, _, _, .nil, _, _, indent | _, _, _, _, _, .done _, _, _, indent =>
    linesBear_plain indent plain_closing
  | _, _, _, _, _, .body h, hs, hc, indent =>
    (h.stmtsBear hs (hc _ (.inl rfl)) (indent + 2)).block indent (plain_reopening _) plain_closing
  | _, _, _, _, _, .emptyBody _ _, _, _, indent =>
    linesBear_nil.block indent (plain_reopening _) plain_closing

theorem Content.EmitsClauses.linesBear : ∀ {c : Content} {s : Scope} {k : Nat}
    {clauses : List Clause} {k' : Nat}, c.EmitsClauses s k clauses k' → s.FillsFresh →
    c.Everywhere Node.Clear → ∀ indent,
    LinesBear (Clause.linesAll indent clauses) (placedOf c.nodes)
  | _, _, _, _, _, .list h, hs, hc, indent => h.linesBear hs (hc _ rfl) indent
  | _, _, _, _, _, .datum _, _, _, _ => linesBear_nil

theorem ItemsEmitClauses.linesBear : ∀ {items : List Content} {s : Scope} {k : Nat}
    {clauses : List Clause} {k' : Nat}, ItemsEmitClauses items s k clauses k' → s.FillsFresh →
    Everywhere Node.Clear items → ∀ indent,
    LinesBear (Clause.linesAll indent clauses) (placedOf (Content.list items).nodes)
  | _, _, _, _, _, .nil, _, _, _ => linesBear_nil
  | _, _, _, _, _, .fallThrough hchildren h, hs, hitems, indent => by
    rw [Content.nodes_cons, placedOf_cons,
      Node.placed_eq_nil rfl (by exact Content.nodes_of_isNull hchildren)]
    exact (h.linesBear hs hitems.others indent).plain indent (plain_labelCode _)
  | _, _, _, _, _, .body _ h h', hs, hitems, indent => by
    have hbody := h.stmtsBear hs hitems.first.children (indent + 2)
    have hbreak : LinesBear [⟨indent + 2, "break;"⟩] [] :=
      linesBear_plain _ (Foreign.plain (by decide))
    rw [Content.nodes_cons, placedOf_cons, Node.placed_of_not_opensScope rfl]
    exact (((hbody.below _).plain indent (plain_labelCode _)).silent hbreak).append
      (h'.linesBear hs hitems.others indent)

theorem Content.Trails.stmtsBear : ∀ {c : Content} {s : Scope} {k : Nat} {stmts : List Stmt}
    {k' : Nat}, c.Trails s k stmts k' → s.FillsFresh → c.Everywhere Node.Clear →
    StmtsBear stmts (placedOf c.nodes)
  | _, _, _, _, _, .list h, hs, hc => stmtsBear_cond_done _ (h.stmtsBear hs (hc _ rfl))
  | _, _, _, _, _, .null _, _, _ => stmtsBear_nil
  | _, _, _, _, _, .datum _ _, _, _ => stmtsBear_cond_done _ stmtsBear_nil

theorem Node.Defines.stmtsBear : ∀ {n : Node} {s : Scope} {k : Nat} {stmts : List Stmt}
    {k' : Nat}, n.Defines s k stmts k' → Everywhere Node.Clear [.node n] →
    StmtsBear stmts n.schedule.hoisted
  | _, _, _, _, _, .tag hc, h | _, _, _, _, _, .code hc, h | _, _, _, _, _, .loop hc, h
  | _, _, _, _, _, .branch hc, h | _, _, _, _, _, .switch hc, h => by
    rw [Node.hoisted_of_not_opensScope rfl]
    exact (hc.stmtsBear h.children).below _
  | _, _, _, _, _, .conditional hc hc', h => by
    have hparts := h.conditional h.here.wellTyped
    rw [Node.hoisted_of_not_opensScope rfl, Node.inner, hoistedOf_append, List.map_append]
    exact ((hc.stmtsBear hparts.1).below _).append ((hc'.stmtsBear hparts.2).below _)
  | _, s, k, _, _, .mixin hparams hname hdefinitions hbody, h => by
    rw [Node.schedule_eq]
    cases Datum.eq_str_of_text hname
    exact stmtsBear_define rfl hparams _ ((hdefinitions.stmtsBear h.children).below _)
      ((hbody.stmtsBear (s.inMixin.fillsFresh_filling k) h.children).below _)
  | _, _, _, _, _, .text, _ | _, _, _, _, _, .comment, _ | _, _, _, _, _, .placeholder, _
  | _, _, _, _, _, .other, _ => by
    rw [Node.hoisted_of_not_opensScope rfl]
    exact stmtsBear_nil
  | _, _, _, _, _, .each, _ => by
    rw [Node.schedule_eq]
    exact stmtsBear_nil
  | _, _, _, _, _, .call, _ => by
    rw [Node.schedule_eq, Node.arrange]
    split <;> exact stmtsBear_nil

theorem Content.Defines.stmtsBear : ∀ {c : Content} {s : Scope} {k : Nat} {stmts : List Stmt}
    {k' : Nat}, c.Defines s k stmts k' → c.Everywhere Node.Clear →
    StmtsBear stmts (hoistedOf c.nodes)
  | _, _, _, _, _, .list h, hc => h.stmtsBear (hc _ rfl)
  | _, _, _, _, _, .node, _ | _, _, _, _, _, .datum, _ => stmtsBear_nil

theorem Content.DefinesAlternate.stmtsBear : ∀ {c : Content} {s : Scope} {k : Nat}
    {stmts : List Stmt} {k' : Nat}, c.DefinesAlternate s k stmts k' →
    c.EverywhereAlternate Node.Clear → StmtsBear stmts (hoistedOf c.alternateNodes)
  | _, _, _, _, _, .list h, hc => h.stmtsBear (hc _ (.inl rfl))
  | _, _, _, _, _, .conditional hn h, hc => by
    rw [Content.alternateNodes, if_pos hn, hoistedOf_singleton]
    exact h.stmtsBear (hc _ (.inr ⟨_, rfl, rfl⟩))
  | _, _, _, _, _, .node hn, _ => by
    rw [Content.alternateNodes, if_neg (by rw [hn]; decide)]
    exact stmtsBear_nil
  | _, _, _, _, _, .datum, _ => stmtsBear_nil

theorem ItemsDefine.stmtsBear : ∀ {items : List Content} {s : Scope} {k : Nat}
    {stmts : List Stmt} {k' : Nat}, ItemsDefine items s k stmts k' →
    Everywhere Node.Clear items → StmtsBear stmts (hoistedOf (Content.list items).nodes)
  | _, _, _, _, _, .nil, _ => stmtsBear_nil
  | _, _, _, _, _, .node h h', hitems =>
    (h.stmtsBear hitems.first).append (h'.stmtsBear hitems.others)
  | _, _, _, _, _, .other hne h, hitems => by
    rw [Content.nodes_other hne]
    exact h.stmtsBear hitems.tail

end

/-- The lines of a script follow the schedule of the template. -/
theorem Program.linesBear {p : Program} {hoisted placed : List Event}
    (hdefinitions : StmtsBear p.definitions hoisted) (hbody : StmtsBear p.body placed) :
    LinesBear (p.lines 0) (hoisted ++ placed) := by
  have hruntime : LinesBear
      (if p.runtime then (Text.codeLines Program.bindingCode).map (⟨0, ·⟩) else []) [] := by
    split
    · exact linesBear_map 0 fun line hline => Foreign.plain (by revert line; decide)
    · exact linesBear_nil
  have htable : Plain ("var " ++ Mixin.table ++ " = \x7b\x7d;") := Foreign.plain (by decide)
  have hresult : Plain (Code.result (p.root.text ++ "[0]")) := plain_result _
  exact ((hruntime.append ((hdefinitions 0).plain 0 htable)).append
    ((hbody 0).plain 0 (plain_declare _))).silent (linesBear_plain 0 hresult)

end Hyperscript
