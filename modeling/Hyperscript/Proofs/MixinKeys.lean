import Hyperscript.Proofs.Script.Events
import Hyperscript.Proofs.Session.Writing
import Hyperscript.Proofs.Text.ScriptString

/-!
# The keys of mixins

A script keeps its mixins in a table, under keys.  The definition of a mixin and every call of it
refer to the table by the same expression, which quotes the name of the mixin.  Where the quoted
name can be read, the key is the name, so no two mixins share one.

A name with a line feed or a carriage return in it is quoted as it is, and what comes out is no
literal.
-/

namespace Hyperscript

open StringLiteral (value? units isLineBreak)

namespace Mixin

/-- The expression refers to a key of the table, by a literal in single quotes. -/
def RefersTo (reference : String) (key : List Nat) : Prop :=
  ∃ body, reference = "jade_mixins['" ++ body ++ "']" ∧
    value? ("'" ++ body ++ "'").toList = some key

/-- A quoted name is read as the name, unless there is a line break in it. -/
theorem value?_nameLiteral (name : String) :
    value? (Text.nameLiteral name).toList =
      if name.toList.any isLineBreak then none else some (units name.toList) := by
  rw [Text.nameLiteral, String.toList_ofList]
  refine StringLiteral.value?_spelled (.inl rfl) Text.encodeNameChar isLineBreak
    fun c _ rest => ?_
  unfold Text.encodeNameChar
  -- backslash and quote are escaped, all else stands as it is
  by_cases hback : c = '\\'
  · subst hback
    exact StringLiteral.reads_escape (by decide) (by decide) rest
  by_cases hquote : c = '\x27'
  · subst hquote
    exact StringLiteral.reads_escape (by decide) (by decide) rest
  rw [if_neg hback, if_neg hquote]
  exact StringLiteral.read_plain hquote hback rest

/-- There is one way to take a reference apart. -/
theorem reference_eq_iff {name body : String} :
    reference name = "jade_mixins['" ++ body ++ "']" ↔
      Text.nameLiteral name = "'" ++ body ++ "'" := by
  have hreference : "jade_mixins['" ++ body ++ "']" =
      table ++ "[" ++ ("'" ++ body ++ "'") ++ "]" := by
    rw [table, ← String.toList_inj]
    simp
  rw [hreference, reference, String.append_left_inj, String.append_right_inj]

theorem refersTo_reference_iff {name : String} {key : List Nat} :
    RefersTo (reference name) key ↔
      name.toList.any isLineBreak = false ∧ key = units name.toList := by
  have hliteral : ∃ body, Text.nameLiteral name = "'" ++ body ++ "'" :=
    ⟨String.ofList (name.toList.flatMap Text.encodeNameChar), by
      rw [Text.nameLiteral, ← String.toList_inj]
      simp⟩
  have hvalue := value?_nameLiteral name
  constructor
  · rintro ⟨body, hbody, hkey⟩
    rw [← reference_eq_iff.1 hbody, hvalue] at hkey
    cases hbreak : name.toList.any isLineBreak with
    | true => simp [hbreak] at hkey
    | false => simpa [hbreak, eq_comm] using hkey
  · rintro ⟨hbreak, rfl⟩
    obtain ⟨body, hbody⟩ := hliteral
    refine ⟨body, reference_eq_iff.2 hbody, ?_⟩
    rw [← hbody, hvalue, hbreak]
    rfl

theorem reference_injective {a b : String} (h : reference a = reference b) : a = b :=
  (reference_append_inj (congrArg (· ++ "") h)).1

theorem eq_of_refersTo {a b : String} {key : List Nat} (ha : RefersTo (reference a) key)
    (hb : RefersTo (reference b) key) : a = b := by
  obtain ⟨-, rfl⟩ := refersTo_reference_iff.1 ha
  obtain ⟨-, hunits⟩ := refersTo_reference_iff.1 hb
  exact String.toList_injective (StringLiteral.units_injective hunits)

end Mixin

/-! ## Definitions and calls -/

/-- The first of these lines begins with the code. -/
def LinesBegin (indent : Int) (lines : List Line) (code : String) : Prop :=
  ∃ tail more, lines = ⟨indent, code ++ tail⟩ :: more

theorem linesBegin_cons {indent : Int} {first code tail : String} (h : first = code ++ tail)
    (more : List Line) : LinesBegin indent (⟨indent, first⟩ :: more) code :=
  ⟨tail, more, by rw [h]⟩

section Sites

variable {s : Scope} {k k' : Nat} {mixin : String} {children : Content} {stmts : List Stmt}

theorem Node.Defines.linesBegin {params rest : Datum}
    (h : Node.Defines (.mixin (.str mixin) params rest children) s k stmts k') (indent : Int) :
    LinesBegin indent (Stmt.linesAll indent stmts) (Mixin.reference mixin ++ " = function(") := by
  cases h with
  | mixin hparams hname =>
    cases Datum.eq_str_of_text hname
    simp only [Stmt.linesAll, Stmt.lines, List.cons_append]
    exact linesBegin_cons (String.append_assoc ..) _

theorem Node.Emits.linesBegin_call {args : Datum} {attributes : Attributes}
    (h : Node.Emits (.call (.str mixin) args attributes children) s k stmts k') (indent : Int) :
    ∃ array, LinesBegin indent (Stmt.linesAll indent stmts) (Code.callHead array mixin) := by
  cases h with
  | @call _ _ _ _ _ _ _ target _ _ _ _ _ _ _ hname =>
    cases Datum.eq_str_of_text hname
    refine ⟨target.text, ?_⟩
    simp only [Stmt.linesAll, Stmt.lines, List.cons_append, String.append_assoc]
    exact linesBegin_cons rfl _
  | @callWith _ _ _ _ _ _ _ target _ _ _ _ _ _ _ _ _ _ _ hname =>
    cases Datum.eq_str_of_text hname
    refine ⟨target.text, ?_⟩
    simp only [Stmt.linesAll, Stmt.lines, List.cons_append]
    exact linesBegin_cons rfl _

end Sites

namespace Session

/-- What was written between two states of a session begins with the code. -/
def Begins (s s' : Session) (code : String) : Prop :=
  ∃ lines, LinesBegin s.writer.indent lines code ∧
    s'.writer.text = s.writer.text ++ Line.renderAll s.writer.pretty lines

variable {s s' : Session} {mixin : String} {children : Content}

theorem begins_of_compileDefinition {params rest : Datum}
    (h : s.compileDefinition (.node (.mixin (.str mixin) params rest children)) = .ok s') :
    s.Begins s' (Mixin.reference mixin ++ " = function(") := by
  rw [compileDefinition_eq] at h
  obtain ⟨stmts, next, hrun, rfl⟩ := write_eq_ok_iff.1 h
  exact ⟨_, (Node.defines_of_run _ hrun).linesBegin s.writer.indent, rfl⟩

theorem begins_of_compileNode_call {args : Datum} {attributes : Attributes}
    (h : s.compileNode (.node (.call (.str mixin) args attributes children)) = .ok s') :
    ∃ array, s.Begins s' (Code.callHead array mixin) := by
  rw [compileNode_eq] at h
  obtain ⟨stmts, next, hrun, rfl⟩ := write_eq_ok_iff.1 h
  obtain ⟨array, hlines⟩ := (Node.emits_of_run _ hrun).linesBegin_call s.writer.indent
  exact ⟨array, _, hlines, rfl⟩

end Session

/-- The reference to a mixin names a key of the table exactly if no line break is in the mixin's
name, and the key is the name.  No other mixin has the same reference or the same key, and the
definition of the mixin and every call of it hold the reference. -/
theorem reference_refersTo_name (name : String) :
    (∀ key, Mixin.RefersTo (Mixin.reference name) key ↔
      name.toList.any isLineBreak = false ∧ key = units name.toList) ∧
    (∀ other, Mixin.reference name = Mixin.reference other → name = other) ∧
    (∀ other key, Mixin.RefersTo (Mixin.reference name) key →
      Mixin.RefersTo (Mixin.reference other) key → name = other) ∧
    (∀ (s s' : Session) params rest children,
      s.compileDefinition (.node (.mixin (.str name) params rest children)) = .ok s' →
      s.Begins s' (Mixin.reference name ++ " = function(")) ∧
    ∀ (s s' : Session) args attributes children,
      s.compileNode (.node (.call (.str name) args attributes children)) = .ok s' →
      ∃ array, s.Begins s'
        (array ++ ".push.apply(" ++ array ++ ", " ++ Mixin.reference name ++ ".call(") :=
  ⟨fun _ => Mixin.refersTo_reference_iff, fun _ => Mixin.reference_injective,
    fun _ _ => Mixin.eq_of_refersTo, fun _ _ _ _ _ => Session.begins_of_compileDefinition,
    fun _ _ _ _ _ => Session.begins_of_compileNode_call⟩

/-- A session in which a mixin with an awkward name is declared. -/
def awkwardSession : Session where
  mixins := ⟨[⟨.str "it's a \\", [], .null⟩]⟩
  parents := [.named "top"]

/-- A quote and a backslash in the name are escaped, at the definition and at the call. -/
theorem reference_refersTo_awkwardName :
    Mixin.RefersTo (Mixin.reference "it's a \\") (units "it's a \\".toList) ∧
    (∃ s', awkwardSession.compileDefinition
        (.node (.mixin (.str "it's a \\") (.list []) .null (.list []))) = .ok s' ∧
      awkwardSession.Begins s' (Mixin.reference "it's a \\" ++ " = function(")) ∧
    ∃ s', awkwardSession.compileNode
        (.node (.call (.str "it's a \\") (.str "") {} (.datum .null))) = .ok s' ∧
      ∃ array, awkwardSession.Begins s'
        (array ++ ".push.apply(" ++ array ++ ", " ++ Mixin.reference "it's a \\" ++ ".call(") := by
  obtain ⟨hkey, -, -, hdefinition, hcall⟩ := reference_refersTo_name "it's a \\"
  refine ⟨(hkey _).2 ⟨by decide, rfl⟩, ?_, ?_⟩
  · have hrequest : ∃ s', awkwardSession.compileDefinition
        (.node (.mixin (.str "it's a \\") (.list []) .null (.list []))) = .ok s' := by
      rw [Session.compileDefinition_eq]
      exact ⟨_, rfl⟩
    obtain ⟨s', hs'⟩ := hrequest
    exact ⟨s', hs', hdefinition _ _ _ _ _ hs'⟩
  · have hrequest : ∃ s', awkwardSession.compileNode
        (.node (.call (.str "it's a \\") (.str "") {} (.datum .null))) = .ok s' := by
      rw [Session.compileNode_eq]
      exact ⟨_, rfl⟩
    obtain ⟨s', hs'⟩ := hrequest
    exact ⟨s', hs', hcall _ _ _ _ _ hs'⟩

/-- A line feed in the name stays as it is, so the reference names no key at all. -/
theorem reference_lineFeed_refersTo_nothing :
    Mixin.reference "a\nb" = "jade_mixins['a\nb']" ∧
    ∀ key, ¬Mixin.RefersTo (Mixin.reference "a\nb") key := by
  refine ⟨by decide, fun key hkey => ?_⟩
  cases (Mixin.refersTo_reference_iff.1 hkey).1

end Hyperscript
