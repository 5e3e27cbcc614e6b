import Hyperscript.Proofs.Text.Nesting
import Hyperscript.Proofs.Text.Slots

/-!
# Spans in a text

Where a span ends is decided by a scanner that counts the open brackets, whatever their kind, and
skips strings.  A text is `Enclosed` if it takes the scanner from no open bracket back to none: the
span ends at the first closing brace after such a text.

What taking a text apart does at each place of the text is said by one equation for each of the
three things that may stand there: a plain character, an escaped opening, and an opening with its
closing brace.
-/

namespace Hyperscript.Interpolation

open Nesting (Mode Sign sign isPlain)

/-! ## The scanner -/

/-- The number of open brackets, and where the next character stands. -/
structure Scan where
  depth : Nat
  mode : Mode
  deriving DecidableEq

namespace Scan

/-- The state outside brackets and strings. -/
def outside : Scan := ⟨0, .code⟩

/-- Closes a bracket; one has to be open. -/
def close : Nat → Option Scan
  | 0 => none
  | depth + 1 => some ⟨depth, .code⟩

/-- Reads a character. -/
def step : Scan → Char → Option Scan
  | ⟨depth, .code⟩, c =>
    match sign c with
    | .quote q => some ⟨depth, .quoted q⟩
    | .opener _ => some ⟨depth + 1, .code⟩
    | .closer _ => close depth
    | .plain => some ⟨depth, .code⟩
  | ⟨depth, .quoted q⟩, c =>
    if c = '\\' then some ⟨depth, .escaped q⟩
    else if c = q.char then some ⟨depth, .code⟩
    else some ⟨depth, .quoted q⟩
  | ⟨depth, .escaped q⟩, _ => some ⟨depth, .quoted q⟩

def run (s : Scan) (cs : List Char) : Option Scan :=
  cs.foldlM step s

theorem run_cons (s : Scan) (c : Char) (cs : List Char) :
    s.run (c :: cs) = s.step c >>= (run · cs) := by
  rw [run, List.foldlM_cons]
  rfl

/-- Only outside brackets and strings is a character refused. -/
theorem eq_outside_of_step {s : Scan} {c : Char} (h : s.step c = none) : s = outside := by
  obtain ⟨depth, mode⟩ := s
  cases mode with
  | code =>
    simp only [step] at h
    cases hc : sign c with
    | closer b =>
      rw [hc] at h
      cases depth with
      | zero => rfl
      | succ depth => cases h
    | quote q | opener b | plain =>
      rw [hc] at h
      cases h
  | quoted q =>
    simp only [step] at h
    split at h
    · cases h
    · split at h <;> cases h
  | escaped q => cases h

theorem step_code_of_isPlain {c : Char} (h : isPlain c = true) (depth : Nat) :
    step ⟨depth, .code⟩ c = some ⟨depth, .code⟩ := by
  simp only [step, Nesting.sign_eq_plain h]

theorem eq_of_step_plain {s : Scan} {c : Char} {depth : Nat} (hc : isPlain c = true)
    (h : s.step c = some ⟨depth, .code⟩) : s = ⟨depth, .code⟩ := by
  obtain ⟨inner, mode⟩ := s
  cases mode with
  | code =>
    rw [step_code_of_isPlain hc] at h
    exact Option.some.inj h
  | quoted q =>
    have hquote : c ≠ q.char := by
      rintro rfl
      revert hc
      cases q <;> decide
    simp [step, Nesting.ne_backslash hc, hquote] at h
  | escaped q => cases h

end Scan

/-! ## Reading up to the closing brace -/

/-- Whether a sign is a quote, an opening or a closing bracket. -/
def classes : Sign → Bool × Bool × Bool
  | .quote _ => (true, false, false)
  | .opener _ => (false, true, false)
  | .closer _ => (false, false, true)
  | .plain => (false, false, false)

theorem classes_sign (c : Char) : classes (sign c) = (isQuote c, isOpener c, isCloser c) := by
  by_cases hmem : c ∈ Nesting.special
  · have hall : Nesting.special.all
        (fun d => classes (sign d) == (isQuote d, isOpener d, isCloser d)) = true := by decide
    exact eq_of_beq (List.all_eq_true.1 hall c hmem)
  · rw [Nesting.sign_eq_plain (Nesting.isPlain_of_not_mem hmem)]
    simp only [Nesting.special, List.mem_cons, List.not_mem_nil, or_false, not_or] at hmem
    simp [classes, isQuote, isOpener, isCloser, hmem]

/-- Goes on reading a span from a state of the scanner. -/
def closeFrom : Scan → List Char → Option (List Char × List Char)
  | ⟨depth, .code⟩, cs => closeSpan depth none cs
  | ⟨depth, .quoted q⟩, cs => closeSpan depth (some q.char) cs
  | ⟨_, .escaped _⟩, [] => none
  | ⟨depth, .escaped q⟩, c :: cs => (closeSpan depth (some q.char) cs).map (keep c)

theorem closeFrom_nil (s : Scan) : closeFrom s [] = none := by
  obtain ⟨depth, mode⟩ := s
  cases mode <;> simp [closeFrom, closeSpan]

/-- A span goes on as long as the scanner does; a brace that it refuses closes the span. -/
theorem closeFrom_cons (s : Scan) (c : Char) (cs : List Char) :
    closeFrom s (c :: cs) =
      match s.step c with
      | some next => (closeFrom next cs).map (keep c)
      | none => if c = '\x7d' then some ([], cs) else none := by
  obtain ⟨depth, mode⟩ := s
  cases mode with
  | code =>
    have hclasses := (classes_sign c).symm
    cases hc : sign c with
    | quote q =>
      simp only [hc, classes, Prod.mk.injEq] at hclasses
      simp only [closeFrom, Scan.step, hc, closeSpan, hclasses, if_true]
      rw [← Nesting.eq_of_sign_quote hc]
    | opener b | plain =>
      simp only [hc, classes, Prod.mk.injEq] at hclasses
      simp [closeFrom, Scan.step, hc, closeSpan, hclasses]
    | closer b =>
      simp only [hc, classes, Prod.mk.injEq] at hclasses
      cases depth <;> simp [closeFrom, Scan.step, Scan.close, hc, closeSpan, hclasses]
  | quoted q =>
    by_cases hback : c = '\\'
    · cases cs <;> simp [closeFrom, Scan.step, closeSpan, hback]
    · have hread : closeSpan depth (some q.char) (c :: cs) =
          if c = q.char then (closeSpan depth none cs).map (keep c)
          else (closeSpan depth (some q.char) cs).map (keep c) := by
        rw [closeSpan.eq_def]
        simp only [if_neg hback]
      by_cases hquote : c = q.char
      · simp only [closeFrom, Scan.step, hread, if_neg hback, if_pos hquote]
      · simp only [closeFrom, Scan.step, hread, if_neg hback, if_neg hquote]
  | escaped q => rfl

/-- The brackets and strings that a text opens are closed again in it, and no bracket is closed that
it did not open. -/
def Enclosed (cs : List Char) : Prop :=
  Scan.outside.run cs = some .outside

instance (cs : List Char) : Decidable (Enclosed cs) :=
  inferInstanceAs (Decidable (_ = _))

theorem closeFrom_eq_some_iff {s : Scan} {cs inside rest : List Char} :
    closeFrom s cs = some (inside, rest) ↔
      cs = inside ++ '\x7d' :: rest ∧ s.run inside = some .outside := by
  constructor
  · intro h
    induction cs generalizing s inside with
    | nil =>
      rw [closeFrom_nil] at h
      cases h
    | cons c cs ih =>
      rw [closeFrom_cons] at h
      split at h
      · rename_i next hstep
        obtain ⟨inside, hinside, rfl⟩ := map_keep_eq_some h
        obtain ⟨rfl, hrun⟩ := ih hinside
        rw [Scan.run_cons, hstep]
        exact ⟨rfl, hrun⟩
      · -- the scanner stops only outside, and only a brace closes the span there
        rename_i hstep
        split at h
        · rename_i hbrace
          cases h
          rw [hbrace, Scan.eq_outside_of_step hstep]
          exact ⟨rfl, rfl⟩
        · cases h
  · rintro ⟨rfl, hrun⟩
    induction inside generalizing s with
    | nil =>
      cases hrun
      rw [List.nil_append, closeFrom_cons]
      rfl
    | cons c inside ih =>
      rw [Scan.run_cons] at hrun
      obtain ⟨next, hstep, hrun⟩ := Option.bind_eq_some_iff.1 hrun
      rw [List.cons_append, closeFrom_cons, hstep]
      simp only [ih hrun, Option.map_some, keep]

/-- A span ends at the first closing brace after a text that is enclosed. -/
theorem closeSpan_eq_some_iff {cs inside rest : List Char} :
    closeSpan 0 none cs = some (inside, rest) ↔
      cs = inside ++ '\x7d' :: rest ∧ Enclosed inside :=
  closeFrom_eq_some_iff (s := .outside)

/-- Text that follows a closed span does not change where it ends. -/
theorem closeSpan_append {cs inside rest : List Char}
    (h : closeSpan 0 none cs = some (inside, rest)) (more : List Char) :
    closeSpan 0 none (cs ++ more) = some (inside, rest ++ more) := by
  obtain ⟨rfl, henclosed⟩ := closeSpan_eq_some_iff.1 h
  exact closeSpan_eq_some_iff.2 ⟨by simp, henclosed⟩

theorem Enclosed.trim {cs : List Char} (h : Enclosed cs) :
    Enclosed (Text.trimWhere Text.isBlank cs) := by
  have hplain : ∀ c, Text.isBlank c = true → isPlain c = true := fun _ =>
    Nesting.isPlain_of_class (by decide)
  exact Nesting.foldlM_trimWhere (fun c hc => Scan.step_code_of_isPlain (hplain c hc) 0)
    (fun _ c hc => Scan.eq_of_step_plain (hplain c hc)) h

end Hyperscript.Interpolation

namespace Hyperscript.Interpolated

open Interpolation (isMark closeSpan)

/-! ## Taking a text apart, place by place -/

/-- The opening of a span stands at the start of the text. -/
def opens : List Char → Bool
  | mark :: '\x7b' :: _ => isMark mark
  | _ => false

theorem opens_cons (c : Char) (rest : List Char) :
    opens (c :: rest) = (isMark c && rest.head? == some '\x7b') := by
  cases rest with
  | nil => simp [opens]
  | cons d rest =>
    by_cases hd : d = '\x7b'
    · simp [opens, hd]
    · simp [opens, hd]

theorem exists_of_opens {text : List Char} (h : opens text = true) :
    ∃ mark rest, isMark mark = true ∧ text = mark :: '\x7b' :: rest := by
  unfold opens at h
  split at h
  · exact ⟨_, _, h, rfl⟩
  · cases h

/-- A character that neither opens a span nor escapes an opening is kept. -/
theorem split_cons {c : Char} {rest : List Char} (hopens : opens (c :: rest) = false)
    (hescapes : c = '\\' → opens rest = false) : split (c :: rest) = (split rest).prepend [c] := by
  rw [split.eq_def]
  split
  next h => cases h
  next mark rest h =>
    cases h
    rw [if_neg (by simpa [opens] using hescapes rfl)]
  next mark rest _ h =>
    cases h
    rw [if_neg (by simpa [opens] using hopens)]
  next h =>
    cases h
    rfl

/-- An escaped opening is kept without its backslash. -/
theorem split_escaped {mark : Char} (hmark : isMark mark = true) (rest : List Char) :
    split ('\\' :: mark :: '\x7b' :: rest) = (split rest).prepend [mark, '\x7b'] := by
  rw [split, if_pos hmark]

/-- A closed span is kept if its expression is not blank. -/
theorem split_span {mark : Char} {rest inside after : List Char} (hmark : isMark mark = true)
    (hclose : closeSpan 0 none rest = some (inside, after)) :
    split (mark :: '\x7b' :: rest) =
      if (Text.trimWhere Text.isBlank inside).isEmpty then split after
      else (split after).prependSpan
        ⟨String.ofList (Text.trimWhere Text.isBlank inside), mark = '#'⟩ := by
  have hback : mark ≠ '\\' := by
    rintro rfl
    cases hmark
  rw [split, if_pos hmark]
  · split
    · rename_i h
      rw [hclose] at h
      cases h
    · rename_i h
      rw [hclose] at h
      cases h
      rfl
  · exact fun _ h => absurd h hback

end Hyperscript.Interpolated

/-! ## Parts -/

namespace Hyperscript

/-- Literals and spans take turns, with a literal at either end. -/
inductive Part.Alternates : List Part → Prop where
  | last (text : String) : Alternates [.literal text]
  | cons (text : String) (span : Span) {rest : List Part} :
      Alternates rest → Alternates (.literal text :: .span span :: rest)

namespace Interpolated

theorem parts_nil (head : List Char) :
    (Interpolated.mk head []).parts = [.literal (String.ofList head)] := rfl

theorem parts_cons (head : List Char) (span : Span) (literal : List Char)
    (tail : List (Span × List Char)) :
    (Interpolated.mk head ((span, literal) :: tail)).parts =
      .literal (String.ofList head) :: .span span :: (Interpolated.mk literal tail).parts := rfl

theorem alternates_parts (t : Interpolated) : Part.Alternates t.parts := by
  obtain ⟨head, tail⟩ := t
  induction tail generalizing head with
  | nil => exact .last _
  | cons part tail ih => exact .cons _ _ (ih part.2)

end Interpolated

theorem Part.Alternates.exists_parts {parts : List Part} (h : Alternates parts) :
    ∃ t : Interpolated, t.parts = parts := by
  induction h with
  | last text => exact ⟨⟨text.toList, []⟩, by simp [Interpolated.parts_nil]⟩
  | cons text span _ ih =>
    obtain ⟨t, rfl⟩ := ih
    exact ⟨⟨text.toList, (span, t.head) :: t.tail⟩, by simp [Interpolated.parts_cons]⟩

end Hyperscript
