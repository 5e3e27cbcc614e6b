import Hyperscript.Proofs.Script.Simulation
import Hyperscript.Proofs.Text.Spans

/-!
# Runs of adjacent texts

Adjacent texts make one expression.  Each of them is taken apart on its own, and the literals that
meet at a seam are joined by a line feed.

If no text but the last leaves a span open, this comes to the same as taking apart the texts joined
by line feeds.  In any case it is a sum that starts with a literal, so that every addition in it
concatenates texts, and its value is that of the single texts, line by line.
-/

namespace Hyperscript

open Interpolation (isMark closeSpan)

namespace Interpolated

/-! ## Joining -/

theorem prepend_join (cs : List Char) (t next : Interpolated) :
    (t.prepend cs).join next = (t.join next).prepend cs := by
  obtain ⟨head, tail⟩ := t
  cases tail with
  | nil => simp [prepend, join, joinFrom]
  | cons part tail => rfl

theorem prependSpan_join (span : Span) (t next : Interpolated) :
    (t.prependSpan span).join next = (t.join next).prependSpan span := rfl

theorem join_cons (head : List Char) (span : Span) (literal : List Char)
    (tail : List (Span × List Char)) (next : Interpolated) :
    (Interpolated.mk head ((span, literal) :: tail)).join next =
      (((Interpolated.mk literal tail).join next).prependSpan span).prepend head := by
  simp [prepend, prependSpan, join, joinFrom]

theorem join_assoc (t u next : Interpolated) : (t.join u).join next = t.join (u.join next) := by
  obtain ⟨head, tail⟩ := t
  induction tail generalizing head with
  | nil =>
    have hprepend := prepend_join (head ++ ['\n']) u next
    simpa [prepend, join, joinFrom] using hprepend
  | cons part tail ih =>
    rw [join_cons, join_cons, prepend_join, prependSpan_join, ih]

theorem ofLines_cons_cons (text next : List Char) (texts : List (List Char)) :
    ofLines (text :: next :: texts) = (split text).join (ofLines (next :: texts)) := rfl

/-- A run can be put together from the left. -/
theorem ofLines_cons_eq_foldl (text : List Char) (texts : List (List Char)) :
    ofLines (text :: texts) = texts.foldl (fun t next => t.join (split next)) (split text) := by
  have hjoin : ∀ (texts : List (List Char)) (t u : Interpolated),
      texts.foldl (fun t next => t.join (split next)) (t.join u) =
        t.join (texts.foldl (fun t next => t.join (split next)) u) := by
    intro texts
    induction texts with
    | nil => exact fun _ _ => rfl
    | cons text texts ih =>
      intro t u
      rw [List.foldl_cons, List.foldl_cons, join_assoc, ih]
  induction texts generalizing text with
  | nil => rfl
  | cons next texts ih => rw [ofLines_cons_cons, List.foldl_cons, hjoin, ih]

/-! ## Texts whose spans are closed -/

/-- Every opening that is met when the text is taken apart has its closing brace in the text. -/
inductive SpansClosed : List Char → Prop where
  | nil : SpansClosed []
  | plain {c : Char} {rest : List Char} : opens (c :: rest) = false →
      (c = '\\' → opens rest = false) → SpansClosed rest → SpansClosed (c :: rest)
  | escaped {mark : Char} {rest : List Char} : isMark mark = true →
      SpansClosed rest → SpansClosed ('\\' :: mark :: '\x7b' :: rest)
  | span {mark : Char} {rest inside after : List Char} : isMark mark = true →
      closeSpan 0 none rest = some (inside, after) → SpansClosed after →
      SpansClosed (mark :: '\x7b' :: rest)

theorem opens_append_line (text rest : List Char) : opens (text ++ '\n' :: rest) = opens text := by
  cases text with
  | nil =>
    rw [List.nil_append, opens_cons]
    rfl
  | cons c text => cases text <;> simp [opens_cons]

/-- A line feed after closed spans is a seam. -/
theorem SpansClosed.split_append_line {text : List Char} (h : SpansClosed text)
    (rest : List Char) : split (text ++ '\n' :: rest) = (split text).join (split rest) := by
  induction h with
  | nil =>
    rw [List.nil_append, split_cons (by simp [opens_cons, isMark]) (by simp), split]
    rfl
  | @plain c text hopens hescapes _ ih =>
    rw [split_cons hopens hescapes, prepend_join, ← ih, List.cons_append, split_cons]
    · rw [← List.cons_append, opens_append_line, hopens]
    · intro hback
      rw [opens_append_line, hescapes hback]
  | @escaped mark text hmark _ ih =>
    rw [split_escaped hmark, prepend_join, ← ih]
    exact split_escaped hmark _
  | @span mark text inside after hmark hclose _ ih =>
    -- the span ends at the same brace with the next lines after it
    have hclose' := Interpolation.closeSpan_append hclose ('\n' :: rest)
    rw [List.cons_append, List.cons_append, split_span hmark hclose', split_span hmark hclose, ih]
    split
    · rfl
    · rfl

theorem ofLines_eq_split {texts : List String} (hne : texts ≠ [])
    (h : ∀ text ∈ texts.dropLast, SpansClosed text.toList) :
    ofLines (texts.map String.toList) = split ("\n".intercalate texts).toList := by
  induction texts with
  | nil => exact absurd rfl hne
  | cons text texts ih =>
    cases texts with
    | nil => simp [ofLines]
    | cons next texts =>
      have hrest := ih (List.cons_ne_nil _ _) fun other hother => h other (by simp [hother])
      have hjoined : ("\n".intercalate (text :: next :: texts)).toList =
          text.toList ++ '\n' :: ("\n".intercalate (next :: texts)).toList := by
        simp [String.intercalate_cons_cons]
      rw [List.map_cons, List.map_cons, ofLines_cons_cons, ← List.map_cons, hrest, hjoined,
        (h text (by simp)).split_append_line]

end Interpolated

theorem Interpolation.runCode_str {texts : List String} (hne : texts ≠ []) :
    runCode (texts.map .str) = .ok (Interpolated.ofLines (texts.map String.toList)).code := by
  unfold runCode
  rw [if_neg (by simpa using hne), ofRun_str]
  rfl

/-- The expression of a run is that of the texts joined by line feeds, if only the last of them may
leave a span open. -/
theorem runCode_eq_joined {texts : List String} (hne : texts ≠ [])
    (hclosed : ∀ text ∈ texts.dropLast, Interpolated.SpansClosed text.toList) :
    Interpolation.runCode (texts.map .str) =
      (Interpolation.ofDatum (.str ("\n".intercalate texts))).map Interpolated.code := by
  rw [Interpolation.runCode_str hne, Interpolated.ofLines_eq_split hne hclosed]
  rfl

/-- Texts with a brace in a string, an escaped opening, nothing at all, and an open span. -/
def seamTexts : List String :=
  ["a#\x7b '\x7d' \x7d", "\\#\x7bb", "", "c #\x7bd"]

theorem seamTexts_spansClosed :
    ∀ text ∈ seamTexts.dropLast, Interpolated.SpansClosed text.toList := by
  have hfirst : Interpolated.SpansClosed
      ['a', '#', '\x7b', ' ', '\x27', '\x7d', '\x27', ' ', '\x7d'] :=
    .plain (by decide) (by decide) (.span (by decide) rfl .nil)
  have hsecond : Interpolated.SpansClosed ['\\', '#', '\x7b', 'b'] :=
    .escaped (by decide) (.plain (by decide) (by decide) .nil)
  simpa [seamTexts] using ⟨hfirst, hsecond, Interpolated.SpansClosed.nil⟩

theorem runCode_seamTexts :
    (seamTexts ≠ [] ∧ ∀ text ∈ seamTexts.dropLast, Interpolated.SpansClosed text.toList) ∧
      Interpolation.runCode (seamTexts.map .str) =
        (Interpolation.ofDatum (.str ("\n".intercalate seamTexts))).map Interpolated.code :=
  ⟨⟨by decide, seamTexts_spansClosed⟩, runCode_eq_joined (by decide) seamTexts_spansClosed⟩

/-! ## The value of a run -/

variable {δ : Type}

/-- What stands in a sum: a text, or a value that is shown where it is added to a text. -/
inductive Operand (δ : Type) where
  | text (text : String)
  | value (value : δ)

/-- The sum of two operands.  What two values come to that are no texts is left open. -/
def Operand.plus (v : Valuation δ) (add : δ → δ → Operand δ) : Operand δ → Operand δ → Operand δ
  | .text left, .text right => .text (left ++ right)
  | .text left, .value right => .text (left ++ v.shown right)
  | .value left, .text right => .text (v.shown left ++ right)
  | .value left, .value right => add left right

namespace Part

def operand (v : Valuation δ) : Part → Operand δ
  | .literal text => .text text
  | .span s => .value (v.value s.expr)

/-- Adds parts from left to right to what stands before them. -/
def addAll (v : Valuation δ) (add : δ → δ → Operand δ) (total : Operand δ) (parts : List Part) :
    Operand δ :=
  parts.foldl (fun total part => total.plus v add (part.operand v)) total

/-- The sum of parts. -/
def sum (v : Valuation δ) (add : δ → δ → Operand δ) : List Part → Option (Operand δ)
  | [] => none
  | first :: rest => some (addAll v add (first.operand v) rest)

/-- The spans among parts, in order. -/
def spans (parts : List Part) : List Span :=
  parts.filterMap fun
    | .literal _ => none
    | .span s => some s

end Part

namespace Interpolated

theorem spans_parts (t : Interpolated) : Part.spans t.parts = t.spans := by
  obtain ⟨head, tail⟩ := t
  induction tail generalizing head with
  | nil => rfl
  | cons part tail ih =>
    rw [parts_cons]
    show part.1 :: Part.spans (Interpolated.mk part.2 tail).parts = part.1 :: _
    rw [ih]
    rfl

/-- What is added to a text is appended to it. -/
theorem addAll_parts (v : Valuation δ) (add : δ → δ → Operand δ) (text : String)
    (t : Interpolated) :
    Part.addAll v add (.text text) t.parts = .text (text ++ String.ofList (t.eval v)) := by
  obtain ⟨head, tail⟩ := t
  induction tail generalizing text head with
  | nil => simp [parts_nil, Part.addAll, Part.operand, Operand.plus, eval]
  | cons part tail ih =>
    obtain ⟨span, literal⟩ := part
    have hadded : Part.addAll v add (.text text)
        (Interpolated.mk head ((span, literal) :: tail)).parts =
        Part.addAll v add (.text (text ++ String.ofList head ++ v.shown (v.value span.expr)))
          (Interpolated.mk literal tail).parts := rfl
    rw [hadded, ih]
    congr 1
    apply String.ext
    simp [eval]

theorem sum_parts (v : Valuation δ) (add : δ → δ → Operand δ) (t : Interpolated) :
    Part.sum v add t.parts = some (.text (String.ofList (t.eval v))) := by
  -- the first literal may as well be added to the empty text
  have hempty : Part.sum v add t.parts = some (Part.addAll v add (.text "") t.parts) := by
    simp [parts, Part.sum, Part.addAll, Part.operand, Operand.plus]
  rw [hempty, addAll_parts, String.empty_append]

theorem eval_ofLines (v : Valuation δ) {texts : List String} (hne : texts ≠ []) :
    String.ofList ((ofLines (texts.map String.toList)).eval v) =
      "\n".intercalate (texts.map v.text) := by
  induction texts with
  | nil => exact absurd rfl hne
  | cons text texts ih =>
    cases texts with
    | nil => simp [ofLines, Valuation.text]
    | cons next texts =>
      have hvalues : "\n".intercalate ((text :: next :: texts).map v.text) =
          v.text text ++ "\n" ++ "\n".intercalate ((next :: texts).map v.text) :=
        String.intercalate_cons_cons
      rw [List.map_cons, List.map_cons, ofLines_cons_cons, ← List.map_cons, eval_join, hvalues,
        ← ih (List.cons_ne_nil _ _), Valuation.text]
      apply String.ext
      simp

end Interpolated

/-! ## Putting a run together from left to right

Here nothing is known of the parts that meet at a seam, and a span among them would be written out
into the text.  That this does not happen is what the two ends of a split are literals for. -/

namespace Part

/-- A part as text; a span comes out as it is displayed. -/
def display : Part → String
  | .literal text => text
  | .span s =>
    "Span(expr=" ++ Text.inspect s.expr ++ ", escaped=" ++ (Datum.bool s.escaped).spell ++ ")"

/-- Adds a text on a line of its own to parts.  Where there are parts already, the last of them and
the first of the new ones become one literal, whatever they are. -/
def addLine (parts : List Part) (text : String) : List Part :=
  match parts.getLast?, (Interpolated.split text.toList).parts with
  | some last, first :: rest =>
    parts.dropLast ++ .literal (last.display ++ "\n" ++ first.display) :: rest
  | _, next => parts ++ next

theorem addLine_cons (part : Part) {parts : List Part} (hne : parts ≠ []) (text : String) :
    addLine (part :: parts) text = part :: addLine parts text := by
  obtain ⟨next, parts, rfl⟩ := List.exists_cons_of_ne_nil hne
  rfl

/-- Both ends of the parts of a text are literals, so that no span is displayed. -/
theorem addLine_parts (t : Interpolated) (text : String) :
    addLine t.parts text = (t.join (Interpolated.split text.toList)).parts := by
  obtain ⟨head, tail⟩ := t
  induction tail generalizing head with
  | nil =>
    simp [addLine, Interpolated.parts, Interpolated.join, Interpolated.joinFrom, display,
      String.append_assoc]
  | cons part tail ih =>
    have hne : (Interpolated.mk part.2 tail).parts ≠ [] := List.cons_ne_nil _ _
    rw [Interpolated.parts_cons, addLine_cons _ (List.cons_ne_nil _ _), addLine_cons _ hne, ih]
    rfl

theorem foldl_addLine {texts : List String} (hne : texts ≠ []) :
    texts.foldl addLine [] = (Interpolated.ofLines (texts.map String.toList)).parts := by
  have hfold : ∀ (texts : List String) (t : Interpolated),
      texts.foldl addLine t.parts = ((texts.map String.toList).foldl
        (fun t next => t.join (Interpolated.split next)) t).parts := by
    intro texts
    induction texts with
    | nil => exact fun _ => rfl
    | cons text texts ih =>
      intro t
      rw [List.foldl_cons, addLine_parts, ih]
      rfl
  obtain ⟨text, texts, rfl⟩ := List.exists_cons_of_ne_nil hne
  rw [List.map_cons, Interpolated.ofLines_cons_eq_foldl, ← hfold]
  rfl

end Part

/-- How a part is written as an operand. -/
inductive Part.Written : Part → String → Prop where
  | literal (text : String) : Written (.literal text) (Text.literal text)
  | span (s : Span) : Written (.span s) ("(" ++ s.expr ++ ")")

theorem Part.written_code (part : Part) : part.Written part.code := by
  cases part with
  | literal text => exact .literal text
  | span s => exact .span s

/-- The expression of a run is a sum of literals and spans in turns, with the spans of the single
texts and a literal at either end.  Whatever the expressions in its spans come to, its value is that
of the single texts, joined by line feeds. -/
theorem runCode_sum {texts : List String} (hne : texts ≠ []) :
    (∃ operands, Interpolation.runCode (texts.map .str) = .ok (" + ".intercalate operands) ∧
        List.Forall₂ Part.Written (texts.foldl Part.addLine []) operands) ∧
      Part.Alternates (texts.foldl Part.addLine []) ∧
      Part.spans (texts.foldl Part.addLine []) =
        texts.flatMap (fun text => Part.spans (Interpolated.split text.toList).parts) ∧
      ∀ (δ : Type) (v : Valuation δ) (add : δ → δ → Operand δ),
        (∀ text, Part.sum v add (Interpolated.split text.toList).parts =
          some (.text (v.text text))) ∧
        Part.sum v add (texts.foldl Part.addLine []) =
          some (.text ("\n".intercalate (texts.map v.text))) := by
  rw [Part.foldl_addLine hne]
  refine ⟨⟨(Interpolated.ofLines (texts.map String.toList)).parts.map Part.code,
      Interpolation.runCode_str hne, ?_⟩, Interpolated.alternates_parts _, ?_,
    fun δ v add => ⟨?_, ?_⟩⟩
  · rw [List.forall₂_map_right_iff, List.forall₂_same]
    exact fun part _ => part.written_code
  · simp only [Interpolated.spans_parts, Interpolated.spans_ofLines, List.flatMap_map]
  · exact fun text => Interpolated.sum_parts v add (Interpolated.split text.toList)
  · rw [Interpolated.sum_parts, Interpolated.eval_ofLines v hne]

theorem runCode_seamTexts_sum :
    seamTexts ≠ [] ∧
      (∃ operands, Interpolation.runCode (seamTexts.map .str) = .ok (" + ".intercalate operands) ∧
        List.Forall₂ Part.Written (seamTexts.foldl Part.addLine []) operands) ∧
      Part.spans (seamTexts.foldl Part.addLine []) = [⟨"'\x7d'", true⟩] := by
  obtain ⟨hcode, -, hspans, -⟩ := @runCode_sum seamTexts (by decide)
  refine ⟨by decide, hcode, ?_⟩
  rw [hspans]
  decide +kernel

end Hyperscript
