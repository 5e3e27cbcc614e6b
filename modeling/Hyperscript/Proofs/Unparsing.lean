import Hyperscript.Proofs.Text.Spans

/-!
# Taking a text apart and writing it down again

Many texts are taken apart into the same parts: blanks at the ends of an expression, spans without
an expression and needless backslashes leave no trace.  The lists of parts that come about in this
way are those of `Part.Canonical` form, and each of them is found again in its own written form.
-/

namespace Hyperscript

open Interpolation (isMark closeSpan Enclosed)

/-! ## Canonical parts -/

/-- The expression stands in the text of its span just as it is. -/
structure Span.Fits (s : Span) : Prop where
  nonempty : s.expr ≠ ""
  trimmed : Text.Trimmed s.expr.toList
  enclosed : Enclosed s.expr.toList

instance (s : Span) : Decidable s.Fits :=
  decidable_of_iff (s.expr ≠ "" ∧ Text.Trimmed s.expr.toList ∧ Enclosed s.expr.toList)
    ⟨fun h => ⟨h.1, h.2.1, h.2.2⟩, fun h => ⟨h.nonempty, h.trimmed, h.enclosed⟩⟩

namespace Part

/-- The form of the parts of a text. -/
structure Canonical (parts : List Part) : Prop where
  alternates : Alternates parts
  fits : ∀ span, .span span ∈ parts → span.Fits
  /-- A backslash right before a span would escape its opening. -/
  unescaped : ∀ text span, [.literal text, .span span] <:+: parts →
    text.toList.getLast? ≠ some '\\'

theorem canonical_singleton (text : String) : Canonical [.literal text] where
  alternates := .last text
  fits := by simp
  unescaped := by
    intro text' span h
    have hlength := h.length_le
    simp at hlength

theorem canonical_cons_iff {text : String} {span : Span} {rest : List Part} :
    Canonical (.literal text :: .span span :: rest) ↔
      text.toList.getLast? ≠ some '\\' ∧ span.Fits ∧ Canonical rest := by
  constructor
  · rintro ⟨halternates, hfits, hunescaped⟩
    refine ⟨hunescaped text span ⟨[], rest, rfl⟩, hfits span (by simp), ?_, ?_, ?_⟩
    · cases halternates with
      | cons _ _ h => exact h
    · exact fun other hother => hfits other (by simp [hother])
    · exact fun text' other hother => hunescaped text' other
        (hother.trans ⟨[.literal text, .span span], [], by simp⟩)
  · rintro ⟨hlast, hspan, hrest⟩
    refine ⟨.cons text span hrest.alternates, ?_, ?_⟩
    · intro other hother
      simp only [List.mem_cons, reduceCtorEq, false_or, Part.span.injEq] at hother
      rcases hother with rfl | hother
      · exact hspan
      · exact hrest.fits other hother
    · intro text' other hother
      rw [List.infix_cons_iff, List.infix_cons_iff] at hother
      rcases hother with hother | hother | hother
      · cases (List.cons_prefix_cons.1 hother).1
        exact hlast
      · cases (List.cons_prefix_cons.1 hother).1
      · exact hrest.unescaped text' other hother

/-- A part as it is written. -/
def written : Part → List Char
  | .literal text => Interpolated.escapeOpenings text.toList
  | .span s => Interpolated.spanText s

/-- Writes parts down. -/
def unparse (parts : List Part) : String :=
  String.ofList (parts.flatMap written)

end Part

namespace Interpolated

theorem unparse_cons (head : List Char) (span : Span) (literal : List Char)
    (tail : List (Span × List Char)) :
    (Interpolated.mk head ((span, literal) :: tail)).unparse =
      escapeOpenings head ++ (spanText span ++ (Interpolated.mk literal tail).unparse) := by
  simp [unparse]

theorem unparse_parts (t : Interpolated) : Part.unparse t.parts = String.ofList t.unparse := by
  obtain ⟨head, tail⟩ := t
  unfold Part.unparse
  congr 1
  induction tail generalizing head with
  | nil => simp [parts_nil, Part.written, unparse]
  | cons part tail ih =>
    rw [parts_cons, unparse_cons, List.flatMap_cons, List.flatMap_cons, ih]
    simp [Part.written]

/-! ## Written parts are found again -/

theorem prepend_prepend (first second : List Char) (t : Interpolated) :
    (t.prepend second).prepend first = t.prepend (first ++ second) := by
  simp [prepend]

theorem head?_escapeOpenings (c : Char) (text : List Char) :
    (escapeOpenings (c :: text)).head? = some c ∨
      (escapeOpenings (c :: text)).head? = some '\\' := by
  cases text with
  | nil => exact .inl rfl
  | cons d text =>
    rw [escapeOpenings]
    split
    · exact .inr rfl
    · exact .inl rfl

theorem escapeOpenings_brace (text : List Char) :
    escapeOpenings ('\x7b' :: text) = '\x7b' :: escapeOpenings text := by
  cases text with
  | nil => rfl
  | cons d text => rw [escapeOpenings, if_neg (by simp [isMark])]

/-- No span opens at the start of a literal that is written down. -/
theorem opens_escapeOpenings_append (c : Char) (text : List Char) {rest : List Char}
    (hbrace : rest.head? ≠ some '\x7b') : opens (escapeOpenings (c :: text) ++ rest) = false := by
  cases text with
  | nil => simp [escapeOpenings, opens_cons, hbrace]
  | cons d text =>
    rw [escapeOpenings]
    split
    · -- an opening is written with a backslash first
      rw [List.cons_append, opens_cons]
      rfl
    · rename_i hopening
      rw [List.cons_append, opens_cons]
      rcases head?_escapeOpenings d text with hhead | hhead
      · simpa [List.head?_append, hhead] using hopening
      · simp [List.head?_append, hhead]

/-- A literal that is written down is read back, if what follows does not make an opening of its
last character and is not escaped by it. -/
theorem split_escapeOpenings_append {text rest : List Char} (hbrace : rest.head? ≠ some '\x7b')
    (hback : text.getLast? = some '\\' → opens rest = false) :
    split (escapeOpenings text ++ rest) = (split rest).prepend text := by
  fun_induction escapeOpenings text with
  | case1 => rfl
  | case2 c =>
    apply split_cons
    · simp [opens_cons, hbrace]
    · rintro rfl
      exact hback rfl
  | case3 c d text hopening ih =>
    -- the brace that the induction hypothesis reads on its own goes with the escaped mark
    have hrest := ih (by simpa [List.getLast?_cons_cons] using hback)
    obtain ⟨hmark, rfl⟩ : isMark c = true ∧ d = '\x7b' := by simpa using hopening
    rw [escapeOpenings_brace, List.cons_append, split_cons (by simp [opens_cons, isMark])
      (by simp)] at hrest
    rw [escapeOpenings_brace, List.cons_append, List.cons_append, List.cons_append,
      split_escaped hmark]
    show (split _).prepend ([c] ++ ['\x7b']) = _
    rw [← prepend_prepend, hrest, prepend_prepend]
    rfl
  | case4 c d text hopening ih =>
    have hrest := ih (by simpa [List.getLast?_cons_cons] using hback)
    rw [List.cons_append, split_cons, hrest, prepend_prepend]
    · rfl
    · have hopens := opens_escapeOpenings_append c (d :: text) hbrace
      rw [escapeOpenings, if_neg hopening] at hopens
      exact hopens
    · exact fun _ => opens_escapeOpenings_append d text hbrace

theorem split_spanText_append {span : Span} (h : span.Fits) (rest : List Char) :
    split (spanText span ++ rest) = (split rest).prependSpan span := by
  obtain ⟨expr, escaped⟩ := span
  obtain ⟨hnonempty, htrimmed, henclosed⟩ := h
  have hclose : closeSpan 0 none (expr.toList ++ '\x7d' :: rest) = some (expr.toList, rest) :=
    Interpolation.closeSpan_eq_some_iff.2 ⟨rfl, henclosed⟩
  have hmark : isMark (if escaped then '#' else '!') = true := by cases escaped <;> rfl
  have hescaped : decide ((if escaped then '#' else '!') = '#') = escaped := by
    cases escaped <;> rfl
  simp only [spanText, List.cons_append, List.append_assoc, List.nil_append]
  generalize (if escaped then '#' else '!') = mark at hmark hescaped
  rw [split_span hmark hclose, htrimmed.trimWhere_eq, if_neg (by simpa using hnonempty),
    String.ofList_toList, hescaped]

theorem split_unparse {t : Interpolated} (h : Part.Canonical t.parts) : split t.unparse = t := by
  obtain ⟨head, tail⟩ := t
  induction tail generalizing head with
  | nil =>
    have hsplit := @split_escapeOpenings_append head [] (by simp) fun _ => rfl
    simpa [unparse, split, prepend] using hsplit
  | cons part tail ih =>
    obtain ⟨span, literal⟩ := part
    rw [parts_cons, Part.canonical_cons_iff] at h
    obtain ⟨hlast, hspan, hrest⟩ := h
    rw [unparse_cons, split_escapeOpenings_append, split_spanText_append hspan, ih literal hrest]
    · simp [prependSpan, prepend]
    · -- a span starts with a mark and not with a brace
      simp only [spanText, List.cons_append, List.head?_cons]
      cases span.escaped <;> simp
    · intro h
      rw [String.toList_ofList] at hlast
      exact absurd h hlast

/-! ## The parts of a text are canonical -/

theorem canonical_prepend {t : Interpolated} {cs : List Char} (h : Part.Canonical t.parts)
    (hlast : t.head = [] → t.tail ≠ [] → cs.getLast? ≠ some '\\') :
    Part.Canonical (t.prepend cs).parts := by
  obtain ⟨head, tail⟩ := t
  cases tail with
  | nil => exact Part.canonical_singleton _
  | cons part tail =>
    rw [parts_cons, Part.canonical_cons_iff, String.toList_ofList] at h
    rw [prepend, parts_cons, Part.canonical_cons_iff, String.toList_ofList]
    refine ⟨?_, h.2⟩
    -- what is put in front is last only if there was nothing
    cases head with
    | nil => simpa using hlast rfl (List.cons_ne_nil _ _)
    | cons c head => simpa [List.getLast?_append] using h.1

theorem canonical_prependSpan {t : Interpolated} {span : Span} (h : Part.Canonical t.parts)
    (hspan : span.Fits) : Part.Canonical (t.prependSpan span).parts := by
  rw [prependSpan, parts_cons, Part.canonical_cons_iff]
  exact ⟨by simp, hspan, h⟩

/-- Only an opening puts a span first. -/
theorem opens_of_split {text : List Char} (hhead : (split text).head = [])
    (htail : (split text).tail ≠ []) : opens text = true := by
  cases text with
  | nil => simp [split] at htail
  | cons c rest =>
    by_contra hopens
    -- otherwise the first character, or the one after a backslash, is the start of a literal
    by_cases hescapes : c = '\\' → opens rest = false
    · rw [split_cons (by simpa using hopens) hescapes] at hhead
      cases hhead
    · simp only [Classical.not_imp, Bool.not_eq_false] at hescapes
      obtain ⟨rfl, hrest⟩ := hescapes
      obtain ⟨mark, rest, hmark, rfl⟩ := exists_of_opens hrest
      rw [split_escaped hmark] at hhead
      cases hhead

/-- What a closed span holds, without the blanks around it, fits a span. -/
theorem fits_of_closeSpan {rest inside after : List Char} {escaped : Bool}
    (hclose : closeSpan 0 none rest = some (inside, after))
    (hne : ¬(Text.trimWhere Text.isBlank inside).isEmpty = true) :
    Span.Fits ⟨String.ofList (Text.trimWhere Text.isBlank inside), escaped⟩ where
  nonempty := by simpa using hne
  trimmed := by
    rw [String.toList_ofList]
    exact Text.trimmed_trimWhere inside
  enclosed := by
    rw [String.toList_ofList]
    exact (Interpolation.closeSpan_eq_some_iff.1 hclose).2.trim

theorem canonical_split (text : List Char) : Part.Canonical (split text).parts := by
  -- a backslash is kept only where no opening follows, so the literal after it is not empty
  fun_induction split text with
  | case1 => exact Part.canonical_singleton _
  | case2 mark rest hmark ih => exact canonical_prepend ih fun _ _ => by simp
  | case3 mark rest hmark ih =>
    refine canonical_prepend ih fun hhead htail => ?_
    have hopens := opens_of_split hhead htail
    simp [opens, hmark] at hopens
  | case4 => exact Part.canonical_singleton _
  | case5 mark rest _ hmark inside after hclose hlt expr hempty ih => exact ih
  | case6 mark rest _ hmark inside after hclose hlt expr hempty ih =>
    exact canonical_prependSpan ih (fits_of_closeSpan hclose hempty)
  | case7 mark rest _ hmark ih =>
    refine canonical_prepend ih fun hhead htail => ?_
    have hopens := opens_of_split hhead htail
    simp [opens_cons, isMark] at hopens
  | case8 c rest hescapes hbrace ih =>
    refine canonical_prepend ih fun hhead htail => ?_
    obtain ⟨mark, rest, hmark, rfl⟩ := exists_of_opens (opens_of_split hhead htail)
    intro hback
    exact hescapes mark rest (by simpa using hback) rfl

end Interpolated

/-! ## The two directions -/

/-- The parts of every text are canonical, and a canonical list of parts is what its written form is
taken apart into.  So nothing is lost when the parts of a text are written down. -/
theorem split_canonical :
    (∀ text : String, Part.Canonical (Interpolated.split text.toList).parts) ∧
      (∀ parts : List Part, Part.Canonical parts →
        (Interpolated.split (Part.unparse parts).toList).parts = parts) ∧
      ∀ text : String,
        Interpolated.split (Part.unparse (Interpolated.split text.toList).parts).toList =
          Interpolated.split text.toList := by
  have hsection : ∀ t : Interpolated, Part.Canonical t.parts →
      Interpolated.split (Part.unparse t.parts).toList = t := by
    intro t ht
    rw [Interpolated.unparse_parts, String.toList_ofList, Interpolated.split_unparse ht]
  refine ⟨fun text => Interpolated.canonical_split text.toList, fun parts hparts => ?_,
    fun text => hsection _ (Interpolated.canonical_split text.toList)⟩
  obtain ⟨t, rfl⟩ := hparts.alternates.exists_parts
  rw [hsection t hparts]

/-- Parts with an opening in a literal, a backslash before an opening, a brace in a string and a
mark right before a span. -/
def markedParts : List Part :=
  [.literal "a \\#\x7bb", .span ⟨"f(\x7bx: '\x7d'\x7d)", true⟩, .literal "#", .span ⟨"y", false⟩,
    .literal "\x7b\\"]

theorem markedParts_canonical : Part.Canonical markedParts := by
  unfold markedParts
  rw [Part.canonical_cons_iff, Part.canonical_cons_iff]
  exact ⟨by decide, by decide, by decide, by decide, Part.canonical_singleton _⟩

theorem split_markedParts :
    Part.Canonical markedParts ∧
      (Interpolated.split (Part.unparse markedParts).toList).parts = markedParts :=
  ⟨markedParts_canonical, split_canonical.2.1 markedParts markedParts_canonical⟩

end Hyperscript
