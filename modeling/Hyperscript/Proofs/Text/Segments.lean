import Hyperscript.Proofs.Text.Spans

/-!
# The grammar of spans

The brace that closes a span is found by one pass over the text that counts brackets and skips
strings.  What may stand before that brace is said here by a grammar: in a `Segment` every string is
closed, and brackets nest, whatever their kind.

The texts that the pass goes through without a bracket left open or closed too often are exactly the
segments (`enclosed_iff_segment`).  So at most one closing brace has a segment before it, and it is
the one that is found.
-/

namespace Hyperscript.Interpolation

open Nesting (Quote sign)

/-! ## Segments -/

/-- What may stand between the quotes of a string: a backslash goes with the character after it. -/
inductive Quoted (quote : Char) : List Char → Prop where
  | nil : Quoted quote []
  | escape (c : Char) {rest : List Char} : Quoted quote rest → Quoted quote ('\\' :: c :: rest)
  | char {c : Char} {rest : List Char} : c ≠ quote → c ≠ '\\' → Quoted quote rest →
      Quoted quote (c :: rest)

/-- Characters, strings and segments in brackets, one after the other. -/
inductive Segment : List Char → Prop where
  | nil : Segment []
  | char {c : Char} {rest : List Char} : isQuote c = false → isOpener c = false →
      isCloser c = false → Segment rest → Segment (c :: rest)
  | string {quote : Char} {body rest : List Char} : isQuote quote = true → Quoted quote body →
      Segment rest → Segment (quote :: body ++ quote :: rest)
  | brackets {opener closer : Char} {inner rest : List Char} : isOpener opener = true →
      Segment inner → isCloser closer = true → Segment rest →
      Segment (opener :: inner ++ closer :: rest)

theorem Segment.append {xs ys : List Char} (hxs : Segment xs) (hys : Segment ys) :
    Segment (xs ++ ys) := by
  induction hxs with
  | nil => exact hys
  | char hquote hopener hcloser _ ih => exact .char hquote hopener hcloser ih
  | string hquote hbody _ ih => simpa using Segment.string hquote hbody ih
  | brackets hopener hinner hcloser _ _ ih =>
    simpa using Segment.brackets hopener hinner hcloser ih

/-! ## The scanner on a segment -/

namespace Scan

variable {c : Char}

theorem run_of_step {s t : Scan} (h : s.step c = some t) (cs : List Char) :
    s.run (c :: cs) = t.run cs := by
  rw [run_cons, h]
  rfl

theorem run_append_of_run {s t : Scan} {xs : List Char} (h : s.run xs = some t)
    (ys : List Char) : s.run (xs ++ ys) = t.run ys := by
  rw [run, List.foldlM_append]
  exact congrArg (· >>= (run · ys)) h

theorem exists_step_code_of_isQuote (h : isQuote c = true) (depth : Nat) :
    ∃ q : Quote, c = q.char ∧ step ⟨depth, .code⟩ c = some ⟨depth, .quoted q⟩ := by
  have hclasses := classes_sign c
  rw [h] at hclasses
  cases hc : sign c with
  | quote q => exact ⟨q, Nesting.eq_of_sign_quote hc, by simp only [step, hc]⟩
  | opener b | closer b | plain => simp [hc, classes] at hclasses

theorem step_code_of_isOpener (h : isOpener c = true) (depth : Nat) :
    step ⟨depth, .code⟩ c = some ⟨depth + 1, .code⟩ := by
  have hclasses := classes_sign c
  rw [h] at hclasses
  cases hc : sign c with
  | opener b => simp only [step, hc]
  | quote q | closer b | plain => simp [hc, classes] at hclasses

theorem step_code_of_isCloser (h : isCloser c = true) (depth : Nat) :
    step ⟨depth, .code⟩ c = close depth := by
  have hclasses := classes_sign c
  rw [h] at hclasses
  cases hc : sign c with
  | closer b => simp only [step, hc]
  | quote q | opener b | plain => simp [hc, classes] at hclasses

theorem step_code_of_other (hquote : isQuote c = false) (hopener : isOpener c = false)
    (hcloser : isCloser c = false) (depth : Nat) :
    step ⟨depth, .code⟩ c = some ⟨depth, .code⟩ := by
  have hclasses := classes_sign c
  rw [hquote, hopener, hcloser] at hclasses
  cases hc : sign c with
  | plain => simp only [step, hc]
  | quote q | opener b | closer b => simp [hc, classes] at hclasses

/-- The quote that opened a string closes it. -/
theorem step_quoted_char (q : Quote) (depth : Nat) :
    step ⟨depth, .quoted q⟩ q.char = some ⟨depth, .code⟩ := by
  cases q <;> rfl

end Scan

theorem Quoted.run {q : Quote} {body : List Char} (h : Quoted q.char body) (depth : Nat) :
    Scan.run ⟨depth, .quoted q⟩ body = some ⟨depth, .quoted q⟩ := by
  induction h with
  | nil => rfl
  | escape c _ ih => exact ih
  | char hquote hback _ ih =>
    rw [Scan.run_of_step (by rw [Scan.step, if_neg hback, if_neg hquote])]
    exact ih

/-- A segment leaves the number of open brackets as it is. -/
theorem Segment.run {cs : List Char} (h : Segment cs) (depth : Nat) :
    Scan.run ⟨depth, .code⟩ cs = some ⟨depth, .code⟩ := by
  -- the inside of brackets is read with one more of them open
  induction h generalizing depth with
  | nil => rfl
  | char hquote hopener hcloser _ ih =>
    rw [Scan.run_of_step (Scan.step_code_of_other hquote hopener hcloser depth)]
    exact ih depth
  | string hquote hbody _ ih =>
    obtain ⟨q, rfl, hstep⟩ := Scan.exists_step_code_of_isQuote hquote depth
    rw [List.cons_append, Scan.run_of_step hstep, Scan.run_append_of_run (hbody.run depth),
      Scan.run_of_step (Scan.step_quoted_char q depth)]
    exact ih depth
  | brackets hopener _ hcloser _ ihinner ihrest =>
    rw [List.cons_append, Scan.run_of_step (Scan.step_code_of_isOpener hopener depth),
      Scan.run_append_of_run (ihinner (depth + 1)),
      Scan.run_of_step (Scan.step_code_of_isCloser hcloser (depth + 1))]
    exact ihrest depth

/-! ## What the scanner still has to read -/

/-- What closes `depth` brackets: each closing bracket has a segment before it, and so has the
end. -/
def Unwinds : Nat → List Char → Prop
  | 0, cs => Segment cs
  | depth + 1, cs => ∃ inner closer rest,
      cs = inner ++ closer :: rest ∧ Segment inner ∧ isCloser closer = true ∧ Unwinds depth rest

theorem Unwinds.append {front cs : List Char} {depth : Nat} (hfront : Segment front)
    (h : Unwinds depth cs) : Unwinds depth (front ++ cs) := by
  cases depth with
  | zero => exact hfront.append h
  | succ depth =>
    obtain ⟨inner, closer, rest, rfl, hinner, hcloser, hrest⟩ := h
    exact ⟨front ++ inner, closer, rest, by simp, hfront.append hinner, hcloser, hrest⟩

/-- What leads out of all brackets, and out of the string if one is open. -/
def Scan.Completed : Scan → List Char → Prop
  | ⟨depth, .code⟩, cs => Unwinds depth cs
  | ⟨depth, .quoted q⟩, cs => ∃ body rest,
      cs = body ++ q.char :: rest ∧ Quoted q.char body ∧ Unwinds depth rest
  | ⟨depth, .escaped q⟩, cs => ∃ c body rest,
      cs = c :: body ++ q.char :: rest ∧ Quoted q.char body ∧ Unwinds depth rest

namespace Scan

variable {c : Char} {cs : List Char} {s : Scan} {depth : Nat}

theorem completed_cons_code (hstep : step ⟨depth, .code⟩ c = some s) (h : s.Completed cs) :
    Completed ⟨depth, .code⟩ (c :: cs) := by
  cases hquote : isQuote c with
  | true =>
    obtain ⟨q, rfl, hq⟩ := exists_step_code_of_isQuote hquote depth
    cases hq.symm.trans hstep
    -- the string that opens here and the rest behind it
    obtain ⟨body, rest, rfl, hbody, hrest⟩ := h
    simpa [Completed] using hrest.append (Segment.string hquote hbody .nil)
  | false =>
    cases hopener : isOpener c with
    | true =>
      cases (step_code_of_isOpener hopener depth).symm.trans hstep
      -- the first of the closing brackets to come belongs to this one
      obtain ⟨inner, closer, rest, rfl, hinner, hcloser, hrest⟩ := h
      simpa [Completed] using hrest.append (Segment.brackets hopener hinner hcloser .nil)
    | false =>
      cases hcloser : isCloser c with
      | true =>
        rw [step_code_of_isCloser hcloser] at hstep
        cases depth with
        | zero => cases hstep
        | succ depth =>
          cases hstep
          exact ⟨[], c, cs, rfl, .nil, hcloser, h⟩
      | false =>
        cases (step_code_of_other hquote hopener hcloser depth).symm.trans hstep
        exact Unwinds.append (.char hquote hopener hcloser .nil) h

theorem completed_cons_quoted {q : Quote} (hstep : step ⟨depth, .quoted q⟩ c = some s)
    (h : s.Completed cs) : Completed ⟨depth, .quoted q⟩ (c :: cs) := by
  rw [step] at hstep
  by_cases hback : c = '\\'
  · rw [if_pos hback] at hstep
    cases hstep
    obtain ⟨escaped, body, rest, rfl, hbody, hrest⟩ := h
    exact ⟨c :: escaped :: body, rest, rfl, hback ▸ hbody.escape escaped, hrest⟩
  · rw [if_neg hback] at hstep
    by_cases hquote : c = q.char
    · rw [if_pos hquote] at hstep
      cases hstep
      exact ⟨[], cs, by rw [hquote, List.nil_append], .nil, h⟩
    · rw [if_neg hquote] at hstep
      cases hstep
      obtain ⟨body, rest, rfl, hbody, hrest⟩ := h
      exact ⟨c :: body, rest, rfl, .char hquote hback hbody, hrest⟩

/-- What takes the scanner outside completes what was open. -/
theorem completed_of_run (h : s.run cs = some outside) : s.Completed cs := by
  -- from the end of the text, where nothing is open, back to its start
  induction cs generalizing s with
  | nil =>
    cases h
    exact Segment.nil
  | cons c cs ih =>
    rw [run_cons] at h
    obtain ⟨next, hstep, hrun⟩ := Option.bind_eq_some_iff.1 h
    have hnext := ih hrun
    obtain ⟨depth, mode⟩ := s
    cases mode with
    | code => exact completed_cons_code hstep hnext
    | quoted q => exact completed_cons_quoted hstep hnext
    | escaped q =>
      cases hstep
      obtain ⟨body, rest, rfl, hbody, hrest⟩ := hnext
      exact ⟨c, body, rest, rfl, hbody, hrest⟩

end Scan

theorem enclosed_iff_segment {cs : List Char} : Enclosed cs ↔ Segment cs :=
  ⟨Scan.completed_of_run, fun h => h.run 0⟩

instance (cs : List Char) : Decidable (Segment cs) :=
  decidable_of_iff _ enclosed_iff_segment

/-! ## The closing brace -/

/-- A closing brace stands at `i`, with a segment between `start` and it. -/
def ClosesAt (text : String) (start i : Nat) : Prop :=
  start ≤ i ∧ text.toList[i]? = some '\x7d' ∧ Segment ((text.toList.take i).drop start)

instance (text : String) (start i : Nat) : Decidable (ClosesAt text start i) :=
  inferInstanceAs (Decidable (_ ∧ _))

theorem closesAt_iff {text : String} {start i : Nat} :
    ClosesAt text start i ↔ ∃ inside rest, text.toList.drop start = inside ++ '\x7d' :: rest ∧
      Segment inside ∧ i = start + inside.length := by
  constructor
  · rintro ⟨hle, hbrace, hsegment⟩
    -- positions are counted from `start`
    obtain ⟨n, rfl⟩ := Nat.exists_eq_add_of_le hle
    rw [← List.getElem?_drop] at hbrace
    rw [List.drop_take, Nat.add_sub_cancel_left] at hsegment
    obtain ⟨hn, hget⟩ := List.getElem?_eq_some_iff.1 hbrace
    refine ⟨_, (text.toList.drop start).drop (n + 1), ?_, hsegment, ?_⟩
    · rw [← hget, List.cons_getElem_drop_succ, List.take_append_drop]
    · rw [List.length_take, Nat.min_eq_left (Nat.le_of_lt hn)]
  · rintro ⟨inside, rest, hdrop, hsegment, rfl⟩
    refine ⟨Nat.le_add_right .., ?_, ?_⟩
    · rw [← List.getElem?_drop, hdrop]
      simp
    · rw [List.drop_take, Nat.add_sub_cancel_left, hdrop, List.take_left]
      exact hsegment

theorem closingBrace?_eq_some_iff {text : String} {start i : Nat} :
    closingBrace? text start = some i ↔ ClosesAt text start i := by
  rw [closesAt_iff, closingBrace?, Option.map_eq_some_iff]
  constructor
  · rintro ⟨⟨inside, rest⟩, hclose, rfl⟩
    obtain ⟨hdrop, henclosed⟩ := closeSpan_eq_some_iff.1 hclose
    exact ⟨inside, rest, hdrop, enclosed_iff_segment.1 henclosed, rfl⟩
  · rintro ⟨inside, rest, hdrop, hsegment, rfl⟩
    exact ⟨(inside, rest),
      closeSpan_eq_some_iff.2 ⟨hdrop, enclosed_iff_segment.2 hsegment⟩, rfl⟩

/-- At most one closing brace has a segment before it.  It is found if there is one, and otherwise
none is found. -/
theorem closingBrace?_closesAt (text : String) (start : Nat) :
    (∀ i j, ClosesAt text start i → ClosesAt text start j → i = j) ∧
    (∀ i, closingBrace? text start = some i ↔ ClosesAt text start i) ∧
    (closingBrace? text start = none ↔ ∀ i, ¬ClosesAt text start i) := by
  refine ⟨fun i j hi hj => ?_, fun i => closingBrace?_eq_some_iff, ?_⟩
  · rw [← closingBrace?_eq_some_iff] at hi hj
    exact Option.some.inj (hi.symm.trans hj)
  · rw [Option.eq_none_iff_forall_ne_some]
    exact forall_congr' fun i => not_congr closingBrace?_eq_some_iff

/-- The brace in the string, the nested one and the bracket of another kind are passed over. -/
theorem closingBrace?_closesAt_nested :
    ClosesAt "#\x7bf('\\'\x7d', [\x7b a: 1)])\x7d\x7d" 2 21 ∧
    closingBrace? "#\x7bf('\\'\x7d', [\x7b a: 1)])\x7d\x7d" 2 = some 21 := by
  have hcloses : ClosesAt "#\x7bf('\\'\x7d', [\x7b a: 1)])\x7d\x7d" 2 21 := by decide +kernel
  exact ⟨hcloses, ((closingBrace?_closesAt _ _).2.1 21).2 hcloses⟩

end Hyperscript.Interpolation
