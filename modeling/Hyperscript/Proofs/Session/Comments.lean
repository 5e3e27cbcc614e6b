import Hyperscript.Proofs.Generation.Emission
import Hyperscript.Proofs.Session.Alike
import Hyperscript.Proofs.Session.Writing
import Hyperscript.Proofs.Text.Literal
import Hyperscript.Proofs.Text.Spans

/-!
# Comments among child nodes

A comment writes nothing.  It is a node all the same, and every node that is no text ends the run of
texts before it: where comments stand between two texts, the texts become two entries and not one.
This is the only trace that comments leave.

Writing child nodes with and without the comments among them comes to the same but for the text,
also if a fault stops it (`sameOutcome_writeItems_withoutComments`).  If no comments stand between
two texts, the text is the same as well (`writeItems_withoutComments`).  If some do and there is no
fault, it has fewer lines without them (`run_generateItems_withoutComments`).
-/

namespace Hyperscript

open Generation
open Writing (SameOutcome flush)

namespace Content

def isComment : Content → Bool
  | node (.comment ..) => true
  | _ => false

def isText : Content → Bool
  | node (.text _) => true
  | _ => false

/-- The items that are no comments. -/
def withoutComments (items : List Content) : List Content :=
  items.filter (!·.isComment)

/-- Somewhere there is a text, then comments and nothing else, then a text again. -/
def TextsParted (items : List Content) : Prop :=
  ∃ left comments right, left.isText = true ∧ right.isText = true ∧ comments ≠ [] ∧
    (∀ c ∈ comments, c.isComment = true) ∧ left :: comments ++ [right] <:+: items

section

variable {item : Content} {items rest : List Content}

theorem exists_of_isComment (h : item.isComment = true) :
    ∃ value buffer, item = .node (.comment value buffer) := by
  unfold isComment at h
  split at h
  · exact ⟨_, _, rfl⟩
  · cases h

theorem exists_of_isText (h : item.isText = true) : ∃ value, item = .node (.text value) := by
  unfold isText at h
  split at h
  · exact ⟨_, rfl⟩
  · cases h

theorem isComment_of_isText (h : item.isText = true) : item.isComment = false := by
  obtain ⟨value, rfl⟩ := exists_of_isText h
  rfl

theorem isText_of_isComment (h : item.isComment = true) : item.isText = false := by
  obtain ⟨value, buffer, rfl⟩ := exists_of_isComment h
  rfl

theorem withoutComments_cons_comment (h : item.isComment = true) :
    withoutComments (item :: rest) = withoutComments rest := by
  simp [withoutComments, h]

theorem withoutComments_cons (h : item.isComment = false) :
    withoutComments (item :: rest) = item :: withoutComments rest := by
  simp [withoutComments, h]

theorem withoutComments_append (xs ys : List Content) :
    withoutComments (xs ++ ys) = withoutComments xs ++ withoutComments ys :=
  List.filter_append ..

/-- Before the first item that is no comment there are only comments. -/
theorem exists_of_head?_withoutComments (h : (withoutComments items).head? = some item) :
    ∃ comments, (∀ c ∈ comments, c.isComment = true) ∧ comments ++ [item] <+: items := by
  induction items with
  | nil => cases h
  | cons first rest ih =>
    cases hfirst : first.isComment with
    | true =>
      rw [withoutComments_cons_comment hfirst] at h
      obtain ⟨comments, hcomments, hprefix⟩ := ih h
      exact ⟨first :: comments, by simpa [hfirst] using hcomments,
        List.cons_prefix_cons.2 ⟨rfl, hprefix⟩⟩
    | false =>
      rw [withoutComments_cons hfirst] at h
      cases h
      exact ⟨[], by simp, by simp⟩

theorem TextsParted.cons (h : TextsParted rest) : TextsParted (item :: rest) := by
  obtain ⟨left, comments, right, hleft, hright, hne, hcomments, hinfix⟩ := h
  exact ⟨left, comments, right, hleft, hright, hne, hcomments, List.infix_cons hinfix⟩

/-- Texts stand before the items, which start with comments and go on with a text. -/
def PartedFrom (texts : List Datum) (items : List Content) : Prop :=
  texts ≠ [] ∧ ∃ comments right, right.isText = true ∧ comments ≠ [] ∧
    (∀ c ∈ comments, c.isComment = true) ∧ comments ++ [right] <+: items

end

end Content

open Content

/-! ## Comments that do not part texts -/

/-- The texts before a node are written together with it or ahead of it. -/
theorem flush_bind_writeItems {items : List Content}
    (h : ∀ item ∈ items.head?, item.isText = false) (texts : List Datum) :
    (do flush texts; writeItems [] items) = writeItems texts items := by
  have hnil : flush [] = pure () := rfl
  cases items with
  | nil => simp [writeItems, hnil]
  | cons item rest =>
    cases item with
    | node n =>
      cases n with
      | text value => simp [isText] at h
      | _ => simp [writeItems, hnil]
    | list items => simp [writeItems, hnil]
    | datum d => simp [writeItems, hnil]

theorem writeItems_withoutComments {items : List Content} (h : ¬TextsParted items)
    (texts : List Datum) (htexts : ¬PartedFrom texts items) :
    writeItems texts items = writeItems texts (withoutComments items) := by
  induction items generalizing texts with
  | nil => rfl
  | cons item rest ih =>
    have hrest : ¬TextsParted rest := fun hparted => h hparted.cons
    have hnone : ¬PartedFrom [] rest := fun hparted => hparted.1 rfl
    cases hcomment : item.isComment with
    | true =>
      obtain ⟨value, buffer, rfl⟩ := exists_of_isComment hcomment
      have hflush : writeItems texts (.node (.comment value buffer) :: rest) =
          (do flush texts; writeItems [] (withoutComments rest)) := by
        rw [← ih hrest [] hnone]
        simp [writeItems, Node.write]
      rw [hflush, withoutComments_cons_comment hcomment]
      by_cases hempty : texts = []
      · rw [hempty]
        rfl
      · -- a text behind the comments would be parted from the texts before them
        refine flush_bind_writeItems (fun next hnext => ?_) texts
        obtain ⟨comments, hcomments, hprefix⟩ := exists_of_head?_withoutComments hnext
        refine Bool.eq_false_iff.2 fun htext => htexts ⟨hempty, _ :: comments, next, htext,
          List.cons_ne_nil _ _, ?_, List.cons_prefix_cons.2 ⟨rfl, hprefix⟩⟩
        simpa [hcomment] using hcomments
    | false =>
      rw [withoutComments_cons hcomment]
      cases item with
      | node n =>
        cases n with
        | text value =>
          rw [writeItems, writeItems]
          refine ih hrest _ fun hparted => ?_
          obtain ⟨-, comments, right, hright, hne, hcomments, hprefix⟩ := hparted
          exact h ⟨_, comments, right, rfl, hright, hne, hcomments,
            (List.cons_prefix_cons.2 ⟨rfl, hprefix⟩).isInfix⟩
        | comment => simp [isComment] at hcomment
        | _ => simp only [writeItems, ih hrest [] hnone]
      | list items => simp [writeItems]
      | datum d => simp [writeItems]

/-! ## Comments that part texts

On one side the texts before the comments are pushed already, on the other they are still to be
pushed with the texts behind the comments. -/

/-- Whether texts can be pushed: there has to be an array to push to, and every text has to be
one. -/
def Scope.canFlush (s : Scope) (texts : List Datum) : Except Fault Unit :=
  (s.flush texts).map fun _ => ()

theorem Scope.canFlush_of_ne_nil (s : Scope) {texts : List Datum} (h : texts ≠ []) :
    s.canFlush texts = do
      let _ ← s.target
      let _ ← texts.mapM Datum.searchable
      return () := by
  rw [canFlush, flush, if_neg (by simpa using h)]
  cases s.target with
  | error f => rfl
  | ok target =>
    rw [ok_bind, ok_bind, Interpolation.ofRun]
    cases texts.mapM Datum.searchable <;> rfl

/-- Texts can be pushed as one if those on the left and those on the right can. -/
theorem Scope.canFlush_append (s : Scope) (texts more : List Datum) :
    s.canFlush (texts ++ more) = s.canFlush texts >>= fun _ => s.canFlush more := by
  by_cases htexts : texts = []
  · subst htexts
    rfl
  by_cases hmore : more = []
  · subst hmore
    rw [List.append_nil]
    cases s.canFlush texts <;> rfl
  rw [s.canFlush_of_ne_nil htexts, s.canFlush_of_ne_nil hmore,
    s.canFlush_of_ne_nil (List.append_ne_nil_of_left_ne_nil htexts more), List.mapM_append]
  cases s.target with
  | error f => rfl
  | ok target =>
    cases texts.mapM Datum.searchable with
    | error f => rfl
    | ok xs => cases more.mapM Datum.searchable <;> rfl

theorem Writing.attempt_flush (texts : List Datum) (s : Session) :
    ((flush texts).attempt s).1 = s.scope.canFlush texts ∧
      s.Alike ((flush texts).attempt s).2 := by
  cases texts with
  | nil => exact ⟨rfl, .refl s⟩
  | cons text texts =>
    have hparent : Writing.parent.attempt s = (s.scope.target, s) := by
      show (liftM s.scope.target : Writing _).attempt s = _
      cases s.scope.target <;> rfl
    rw [flush, if_neg (by simp), Scope.canFlush, Scope.flush, if_neg (by simp)]
    cases htarget : s.scope.target with
    | error f =>
      rw [attempt_bind_error (htarget ▸ hparent)]
      exact ⟨rfl, .refl s⟩
    | ok target =>
      rw [attempt_bind_ok (htarget ▸ hparent)]
      cases Interpolation.ofRun (text :: texts) with
      | error f => exact ⟨rfl, .refl s⟩
      | ok text => exact ⟨rfl, { Session.Alike.refl s with }⟩

theorem attempt_flush_bind_of_error {s : Session} {f : Fault} {texts : List Datum}
    (h : s.scope.canFlush texts = .error f) (next : Writing Unit) :
    ((do flush texts; next).attempt s).1 = .error f ∧
      s.Alike ((do flush texts; next).attempt s).2 := by
  have hflush := Writing.attempt_flush texts s
  rcases hs : (flush texts).attempt s with ⟨outcome, s'⟩
  rw [hs, h] at hflush
  cases hflush.1
  rw [Writing.attempt_bind_error hs]
  exact hflush

/-- Texts that cannot be pushed stop the writing, whatever comes next. -/
theorem attempt_writeItems_of_error {s : Session} {f : Fault} (items : List Content)
    {texts : List Datum} (h : s.scope.canFlush texts = .error f) :
    ((writeItems texts items).attempt s).1 = .error f ∧
      s.Alike ((writeItems texts items).attempt s).2 := by
  induction items generalizing texts with
  | nil =>
    rw [writeItems, ← h]
    exact Writing.attempt_flush texts s
  | cons item rest ih =>
    cases item with
    | node n =>
      cases n with
      | text value =>
        rw [writeItems]
        exact ih (by rw [Scope.canFlush_append, h]; rfl)
      | _ => exact attempt_flush_bind_of_error h _
    | list _ | datum _ => exact attempt_flush_bind_of_error h _

/-- Texts that are pushed first, or together with the texts behind them. -/
theorem sameOutcome_flush_append {s s' : Session} {texts : List Datum}
    (h : (flush texts).attempt s = (.ok (), s')) (more : List Datum) :
    SameOutcome s' (flush more) s (flush (texts ++ more)) := by
  obtain ⟨houtcome, halike⟩ := Writing.attempt_flush texts s
  obtain ⟨hmore, hmore'⟩ := Writing.attempt_flush more s'
  obtain ⟨hboth, hboth'⟩ := Writing.attempt_flush (texts ++ more) s
  rw [h] at houtcome halike
  refine ⟨?_, (hmore'.symm.trans halike.symm).trans hboth'⟩
  rw [hmore, hboth, Scope.canFlush_append, ← houtcome, halike.scope]
  rfl

/-- Writing child nodes behind texts that are pushed already, and writing them without comments
behind the same texts that are still to be pushed. -/
theorem sameOutcome_writeItems_withoutComments (items : List Content) {s s' : Session}
    {texts : List Datum} (h : (flush texts).attempt s = (.ok (), s')) (more : List Datum) :
    SameOutcome s' (writeItems more items) s
      (writeItems (texts ++ more) (withoutComments items)) := by
  have hnone : ∀ s : Session, (flush []).attempt s = (.ok (), s) := fun _ => rfl
  induction items generalizing s s' texts more with
  | nil =>
    rw [withoutComments, List.filter_nil, writeItems, writeItems]
    exact sameOutcome_flush_append h more
  | cons item rest ih =>
    have hboth := sameOutcome_flush_append h more
    cases hcomment : item.isComment with
    | true =>
      obtain ⟨value, buffer, rfl⟩ := exists_of_isComment hcomment
      have hwrite : writeItems more (.node (.comment value buffer) :: rest) =
          (do flush more; writeItems [] rest) := by
        simp [writeItems, Node.write]
      rw [hwrite, withoutComments_cons_comment hcomment]
      obtain ⟨houtcome, hleft⟩ := hboth
      obtain ⟨hcan, halike⟩ := Writing.attempt_flush (texts ++ more) s
      rcases hmore : (flush more).attempt s' with ⟨outcome, s₁⟩
      rw [hmore] at houtcome hleft
      cases outcome with
      | error f =>
        -- the texts cannot be pushed, neither now nor with others behind the comment
        obtain ⟨hfault, hsame⟩ := attempt_writeItems_of_error (withoutComments rest)
          (hcan.symm.trans houtcome.symm)
        rw [SameOutcome, Writing.attempt_bind_error hmore]
        exact ⟨hfault.symm, (hleft.trans halike.symm).trans hsame⟩
      | ok _ =>
        -- the texts are pushed here, and on the other side they are still to be pushed
        have hpushed : (flush (texts ++ more)).attempt s =
            (.ok (), ((flush (texts ++ more)).attempt s).2) := Prod.ext houtcome.symm rfl
        have hjoined := ih hpushed []
        rw [List.append_nil] at hjoined
        rw [SameOutcome, Writing.attempt_bind_ok hmore]
        exact ((balanced_writeItems rest []).blind _ _ hleft).trans hjoined
    | false =>
      rw [withoutComments_cons hcomment]
      cases item with
      | node n =>
        cases n with
        | text value =>
          rw [writeItems, writeItems, List.append_assoc]
          exact ih h _
        | comment => cases hcomment
        | _ =>
          refine hboth.bind fun _ s₁ t₁ h₁ => ?_
          refine SameOutcome.bind ((Node.balanced_write _).blind s₁ t₁ h₁) fun _ s₂ t₂ h₂ => ?_
          exact ((balanced_writeItems rest []).blind s₂ t₂ h₂).trans (ih (hnone t₂) [])
      | list _ | datum _ => exact hboth.bind fun _ _ _ => Writing.blind_throw _ _ _

/-! ## Pushes of texts -/

namespace Content

variable {item : Content} {items rest : List Content}

/-- How many pushes the texts among items make; `pending` says whether there is a text directly
before them. -/
def textPushes (pending : Bool) : List Content → Nat
  | [] => pending.toNat
  | item :: rest =>
    if item.isText then textPushes true rest else pending.toNat + textPushes false rest

theorem textPushes_text (h : item.isText = true) (pending : Bool) :
    textPushes pending (item :: rest) = textPushes true rest := by
  rw [textPushes, if_pos h]

theorem textPushes_other (h : item.isText = false) (pending : Bool) :
    textPushes pending (item :: rest) = pending.toNat + textPushes false rest := by
  rw [textPushes, if_neg (by simp [h])]

/-- Without comments a text before the items may be pending longer; `joined` says whether it is. -/
theorem textPushes_withoutComments_le (items : List Content) {pending joined : Bool}
    (h : pending ≤ joined) :
    pending.toNat + textPushes joined (withoutComments items) ≤
      joined.toNat + textPushes pending items := by
  induction items generalizing pending joined with
  | nil => simp [withoutComments, textPushes, Nat.add_comm]
  | cons item rest ih =>
    have hle : pending.toNat ≤ joined.toNat := Bool.toNat_le_toNat h
    cases hcomment : item.isComment with
    | true =>
      have hrest := @ih false joined (Bool.false_le _)
      rw [withoutComments_cons_comment hcomment, textPushes_other (isText_of_isComment hcomment)]
      simp only [Bool.toNat_false] at hrest
      omega
    | false =>
      rw [withoutComments_cons hcomment]
      cases htext : item.isText with
      | true =>
        have hrest := @ih true true (Bool.le_refl _)
        rw [textPushes_text htext, textPushes_text htext]
        omega
      | false =>
        have hrest := @ih false false (Bool.le_refl _)
        rw [textPushes_other htext, textPushes_other htext]
        omega

/-- A text takes part in the same push as the texts directly before it and behind it. -/
theorem textPushes_append_text {text : Content} (h : text.isText = true) (pending : Bool)
    (xs ys : List Content) :
    textPushes pending (xs ++ text :: ys) + 1 =
      textPushes pending (xs ++ [text]) + textPushes true ys := by
  induction xs generalizing pending with
  | nil =>
    rw [List.nil_append, List.nil_append, textPushes_text h, textPushes_text h, textPushes,
      Bool.toNat_true, Nat.add_comm]
  | cons x xs ih =>
    rw [List.cons_append, List.cons_append]
    cases hx : x.isText with
    | true => rw [textPushes_text hx, textPushes_text hx, ih]
    | false => rw [textPushes_other hx, textPushes_other hx, Nat.add_assoc, ih, Nat.add_assoc]

theorem textPushes_comments {comments : List Content} (h : ∀ c ∈ comments, c.isComment = true)
    (ys : List Content) : textPushes false (comments ++ ys) = textPushes false ys := by
  induction comments with
  | nil => rfl
  | cons c comments ih =>
    rw [List.cons_append, textPushes_other (isText_of_isComment (h c (by simp))),
      ih fun d hd => h d (by simp [hd]), Bool.toNat_false, Nat.zero_add]

/-- Comments between two texts cost a push. -/
theorem TextsParted.textPushes_lt (h : TextsParted items) :
    textPushes false (withoutComments items) < textPushes false items := by
  obtain ⟨left, comments, right, hleft, hright, hne, hcomments, xs, ys, rfl⟩ := h
  obtain ⟨c, comments, rfl⟩ := List.exists_cons_of_ne_nil hne
  have hc : c.isText = false := isText_of_isComment (hcomments c (by simp))
  have hothers : ∀ d ∈ comments, d.isComment = true := fun d hd => hcomments d (by simp [hd])
  have hleft' := isComment_of_isText hleft
  have hitems : textPushes false (xs ++ (left :: (c :: comments) ++ [right]) ++ ys) =
      textPushes false (xs ++ [left]) + textPushes true ys := by
    have hparts := textPushes_append_text hleft false xs (c :: (comments ++ right :: ys))
    rw [textPushes_other hc, textPushes_comments hothers, textPushes_text hright,
      Bool.toNat_true] at hparts
    rw [show xs ++ (left :: (c :: comments) ++ [right]) ++ ys =
      xs ++ left :: c :: (comments ++ right :: ys) by simp]
    omega
  have hjoined : textPushes false
      (withoutComments (xs ++ (left :: (c :: comments) ++ [right]) ++ ys)) + 1 =
      textPushes false (withoutComments (xs ++ [left])) + textPushes true (withoutComments ys) := by
    have hkept : withoutComments (left :: (c :: comments) ++ [right]) = [left, right] := by
      rw [List.cons_append, withoutComments_cons hleft', withoutComments_append,
        withoutComments_cons (isComment_of_isText hright)]
      simpa [withoutComments] using hcomments
    have hparts := textPushes_append_text hleft false (withoutComments xs)
      (right :: withoutComments ys)
    rw [textPushes_text hright] at hparts
    rw [withoutComments_append, withoutComments_append, hkept, withoutComments_append,
      withoutComments_cons hleft']
    simpa [withoutComments] using hparts
  have hbefore := textPushes_withoutComments_le (xs ++ [left]) (Bool.le_refl false)
  have hafter := textPushes_withoutComments_le ys (Bool.le_refl true)
  omega

end Content

/-! ## Line feeds -/

/-- The number of line feeds in a text. -/
def lineFeeds (s : String) : Nat :=
  s.toList.count '\n'

@[simp] theorem lineFeeds_append (s t : String) :
    lineFeeds (s ++ t) = lineFeeds s + lineFeeds t := by
  simp [lineFeeds]

theorem lineFeeds_literal (s : String) : lineFeeds (Text.literal s) = 0 := by
  have hencode : '\n' ∉ Text.encode s.toList := fun h =>
    absurd (Text.le_of_mem_encode h) (by decide)
  simp [lineFeeds, Text.literal, List.count_eq_zero, hencode]

theorem lineFeeds_render (pretty : Bool) (line : Line) :
    lineFeeds (line.render pretty) = lineFeeds line.code + 1 := by
  have hmargin : '\n' ∉ Nesting.margin pretty line.indent := fun h =>
    absurd (Nesting.eq_space_of_mem_margin h) (by decide)
  rw [lineFeeds, Nesting.toList_render, List.count_append, List.count_append,
    List.count_eq_zero.2 hmargin, Nat.zero_add]
  rfl

/-- Only the expressions in its spans bring line feeds into the code of a text. -/
theorem Interpolated.lineFeeds_code (t : Interpolated) :
    lineFeeds t.code = (t.spans.flatMap fun span => span.expr.toList).count '\n' := by
  obtain ⟨head, tail⟩ := t
  induction tail generalizing head with
  | nil => simp [code, parts_nil, Part.concatenation, Part.code, lineFeeds_literal, spans]
  | cons part tail ih =>
    obtain ⟨span, literal⟩ := part
    have hcode : (Interpolated.mk head ((span, literal) :: tail)).code =
        Text.literal (String.ofList head) ++ " + " ++
          ("(" ++ span.expr ++ ")" ++ " + " ++ (Interpolated.mk literal tail).code) := by
      rw [code, code, parts_cons, Part.concatenation, Part.concatenation, parts, List.map_cons,
        List.map_cons, List.map_cons, String.intercalate_cons_cons, String.intercalate_cons_cons]
      rfl
    have hfixed : lineFeeds " + " = 0 ∧ lineFeeds "(" = 0 ∧ lineFeeds ")" = 0 := ⟨rfl, rfl, rfl⟩
    have hspans : (Interpolated.mk head ((span, literal) :: tail)).spans =
        span :: (Interpolated.mk literal tail).spans := rfl
    have hexpr : span.expr.toList.count '\n' = lineFeeds span.expr := rfl
    rw [hcode, hspans, List.flatMap_cons, List.count_append, ← ih, hexpr]
    simp [lineFeeds_literal, hfixed]

namespace Writer

variable (w : Writer)

/-- The number of line feeds in the lines of statements. -/
def stmtFeeds (stmts : List Stmt) : Nat :=
  lineFeeds (Line.renderAll w.pretty (Stmt.linesAll w.indent stmts))

@[simp] theorem stmtFeeds_nil : w.stmtFeeds [] = 0 := rfl

@[simp] theorem stmtFeeds_append (xs ys : List Stmt) :
    w.stmtFeeds (xs ++ ys) = w.stmtFeeds xs + w.stmtFeeds ys := by
  simp [stmtFeeds, Stmt.linesAll_append, Line.renderAll_append]

theorem lineFeeds_statements (stmts : List Stmt) :
    lineFeeds (w.statements stmts).text = lineFeeds w.text + w.stmtFeeds stmts :=
  lineFeeds_append ..

theorem stmtFeeds_push (target : ArrayName) (text : Interpolated) :
    w.stmtFeeds [.push target (.text text)] =
      lineFeeds target.text + (text.spans.flatMap fun span => span.expr.toList).count '\n' + 1 := by
  have hline : w.stmtFeeds [.push target (.text text)] =
      lineFeeds (Line.render w.pretty ⟨w.indent, Code.push target.text text.code⟩) := by
    simp [stmtFeeds, Stmt.linesAll, Stmt.lines, Line.renderAll, Value.expr]
  have hfixed : lineFeeds ".push(" = 0 ∧ lineFeeds ");" = 0 := ⟨rfl, rfl⟩
  rw [hline, lineFeeds_render, Code.push]
  simp [hfixed, Interpolated.lineFeeds_code]

end Writer

theorem exists_of_ofRun {texts : List Datum} {text : Interpolated}
    (h : Interpolation.ofRun texts = .ok text) : ∃ strings : List String, texts = strings.map .str ∧
      text = Interpolated.ofLines (strings.map String.toList) := by
  have hstr : ∀ {texts : List Datum} {strings : List String},
      texts.mapM Datum.searchable = .ok strings → texts = strings.map .str := by
    intro texts
    induction texts with
    | nil =>
      intro strings h
      cases h
      rfl
    | cons d texts ih =>
      intro strings h
      rw [List.mapM_cons] at h
      cases d with
      | str value =>
        cases hrest : texts.mapM Datum.searchable with
        | error f =>
          rw [hrest] at h
          cases h
        | ok others =>
          rw [hrest] at h
          cases h
          rw [ih hrest]
          rfl
      | _ => cases h
  unfold Interpolation.ofRun at h
  cases hstrings : texts.mapM Datum.searchable with
  | error f =>
    rw [hstrings] at h
    cases h
  | ok strings =>
    rw [hstrings] at h
    cases h
    exact ⟨strings, hstr hstrings, rfl⟩

theorem Scope.flush_of_ne_nil {s : Scope} {texts : List Datum} {target : ArrayName}
    {text : Interpolated} (hne : texts ≠ []) (htarget : s.target = .ok target)
    (htext : Interpolation.ofRun texts = .ok text) :
    s.flush texts = .ok [.push target (.text text)] := by
  rw [flush, if_neg (by simpa using hne), htarget, htext]
  rfl

/-- Two runs of texts in one push have all their spans, but take a line less. -/
theorem Scope.flush_append {s : Scope} {texts more : List Datum} {before after : List Stmt}
    (hbefore : s.flush texts = .ok before) (hafter : s.flush more = .ok after) (w : Writer) :
    ∃ joined, s.flush (texts ++ more) = .ok joined ∧
      w.stmtFeeds joined + (!texts.isEmpty).toNat + (!more.isEmpty).toNat ≤
        w.stmtFeeds before + w.stmtFeeds after + (!(texts ++ more).isEmpty).toNat := by
  by_cases hleft : texts = []
  · subst hleft
    cases hbefore
    exact ⟨after, hafter, by simp⟩
  by_cases hright : more = []
  · subst hright
    cases hafter
    exact ⟨before, by simpa using hbefore, by simp⟩
  rw [List.isEmpty_eq_false_iff.2 hleft, List.isEmpty_eq_false_iff.2 hright,
    List.isEmpty_eq_false_iff.2 (List.append_ne_nil_of_left_ne_nil hleft more)]
  obtain ⟨rfl, -⟩ | ⟨target, text, htarget, htext, rfl⟩ := flush_cases hbefore
  · exact absurd rfl hleft
  obtain ⟨rfl, -⟩ | ⟨target', text', htarget', htext', rfl⟩ := flush_cases hafter
  · exact absurd rfl hright
  cases htarget.symm.trans htarget'
  obtain ⟨xs, rfl, rfl⟩ := exists_of_ofRun htext
  obtain ⟨ys, rfl, rfl⟩ := exists_of_ofRun htext'
  refine ⟨[.push target (.text (Interpolated.ofLines ((xs ++ ys).map String.toList)))], ?_, ?_⟩
  · rw [← List.map_append]
    exact flush_of_ne_nil (by simp_all) htarget (ofRun_str _)
  · simp only [Writer.stmtFeeds_push, Interpolated.spans_ofLines, List.map_append,
      List.flatMap_append, List.count_append, Bool.not_false, Bool.toNat_true]
    omega

theorem run_generateItems_withoutComments (s : Scope) (w : Writer) (items : List Content) :
    ∀ {texts more : List Datum} {before stmts : List Stmt} {k k' : Nat},
      s.flush texts = .ok before → (generateItems s more items).run k = .ok (stmts, k') →
      ∃ joined, (generateItems s (texts ++ more) (withoutComments items)).run k = .ok (joined, k') ∧
        w.stmtFeeds joined + (!texts.isEmpty).toNat + textPushes (!more.isEmpty) items ≤
          w.stmtFeeds before + w.stmtFeeds stmts +
            textPushes (!(texts ++ more).isEmpty) (withoutComments items) := by
  induction items with
  | nil =>
    intro texts more before stmts k k' hbefore h
    rw [generateItems] at h
    obtain ⟨hafter, rfl⟩ := run_lift_ok h
    obtain ⟨joined, hjoined, hle⟩ := s.flush_append hbefore hafter w
    refine ⟨joined, ?_, hle⟩
    show (generateItems s (texts ++ more) []).run k' = _
    rw [generateItems, hjoined]
    rfl
  | cons item rest ih =>
    intro texts more before stmts k k' hbefore h
    cases htext : item.isText with
    | true =>
      obtain ⟨value, rfl⟩ := exists_of_isText htext
      rw [generateItems] at h
      have hlast : ∀ texts : List Datum, (texts ++ [value]).isEmpty = false := by simp
      obtain ⟨joined, hjoined, hle⟩ := ih hbefore h
      rw [← List.append_assoc] at hjoined hle
      rw [hlast, hlast] at hle
      rw [withoutComments_cons rfl, textPushes_text htext, textPushes_text htext, generateItems]
      exact ⟨joined, hjoined, hle⟩
    | false =>
      cases item with
      | list _ | datum _ =>
        rw [generateItems] at h
        · obtain ⟨-, -, h⟩ := run_lift_bind_ok h
          exact absurd h not_run_throw_ok
        · simp
      | node n =>
        have hn : ∀ value, n ≠ .text value := by
          rintro value rfl
          cases htext
        have hitems : ∀ texts rest, generateItems s texts (.node n :: rest) = (do
            let before ← s.flush texts
            let stmts ← n.generate s
            return before ++ stmts ++ (← generateItems s [] rest)) := by
          intro texts rest
          rw [generateItems]
          exact hn
        rw [hitems] at h
        obtain ⟨after, hafter, h⟩ := run_lift_bind_ok h
        obtain ⟨own, k₁, hown, h⟩ := run_bind_ok h
        obtain ⟨others, k₂, hothers, h⟩ := run_bind_ok h
        obtain ⟨rfl, rfl⟩ := run_pure_ok h
        obtain ⟨both, hboth, hle⟩ := s.flush_append hbefore hafter w
        rw [textPushes_other htext]
        cases hcomment : (Content.node n).isComment with
        | true =>
          -- the texts on both sides of the comment are still to be pushed
          obtain ⟨value, buffer, hn⟩ := exists_of_isComment hcomment
          cases hn
          rw [Node.generate] at hown
          obtain ⟨rfl, rfl⟩ := run_pure_ok hown
          obtain ⟨joined, hjoined, hrest⟩ := ih hboth hothers
          rw [List.append_nil] at hjoined hrest
          rw [withoutComments_cons_comment hcomment]
          refine ⟨joined, hjoined, ?_⟩
          simp only [Writer.stmtFeeds_append, Writer.stmtFeeds_nil, List.isEmpty_nil,
            Bool.not_true] at hrest ⊢
          omega
        | false =>
          have hnone : s.flush [] = .ok [] := rfl
          obtain ⟨joined, hjoined, hrest⟩ := ih hnone hothers
          rw [withoutComments_cons hcomment, textPushes_other htext, hitems]
          refine ⟨both ++ own ++ joined, ?_, ?_⟩
          · rw [List.append_nil] at hjoined
            simp [hboth, hown, hjoined, ok_bind]
          · simp only [Writer.stmtFeeds_append, Writer.stmtFeeds_nil, List.isEmpty_nil,
              Bool.not_true, Bool.toNat_false, List.append_nil] at hrest ⊢
            omega

/-! ## Writing child nodes -/

namespace Session

theorem lineFeeds_withoutComments_lt {s s' : Session} {items : List Content}
    (hparted : TextsParted items) (h : (Content.list items).write.attempt s = (.ok (), s')) :
    lineFeeds ((Content.list (withoutComments items)).write.attempt s).2.writer.text <
      lineFeeds s'.writer.text := by
  have hwrite : ∀ items, s.after (Content.list items).write =
      s.write fun scope => (Content.list items).generate scope := fun items =>
    s.compileChildren_eq (.list items)
  obtain ⟨stmts, next, hrun, rfl⟩ := write_eq_ok_iff.1 (hwrite items ▸ after_eq_ok_iff.2 h)
  rw [Content.generate] at hrun
  have hnone : s.scope.flush [] = .ok [] := rfl
  obtain ⟨joined, hjoined, hle⟩ :=
    run_generateItems_withoutComments s.scope s.writer items hnone hrun
  have hwritten := after_eq_ok_iff.1 ((hwrite (withoutComments items)).trans
    (write_eq_ok_iff.2 ⟨joined, next, hjoined, rfl⟩))
  have hlt := hparted.textPushes_lt
  rw [hwritten]
  show lineFeeds (s.writer.statements joined).text < lineFeeds (s.writer.statements stmts).text
  rw [Writer.lineFeeds_statements, Writer.lineFeeds_statements]
  simp only [List.isEmpty_nil, Bool.not_true, Bool.toNat_false, List.append_nil,
    Writer.stmtFeeds_nil] at hle
  omega

/-- Comments among child nodes neither cause nor hide a fault, and leave no trace in the session but
in its text.  There they leave one only if some of them stand between two texts: those part the
texts, and without them the text is another one. -/
theorem attempt_withoutComments (s : Session) (items : List Content) :
    ((Content.list items).write.attempt s).1 =
      ((Content.list (withoutComments items)).write.attempt s).1 ∧
    ((Content.list items).write.attempt s).2.Alike
      ((Content.list (withoutComments items)).write.attempt s).2 ∧
    (¬TextsParted items →
      (Content.list items).write.attempt s =
        (Content.list (withoutComments items)).write.attempt s) ∧
    (TextsParted items → ∀ s', (Content.list items).write.attempt s = (.ok (), s') →
      ((Content.list (withoutComments items)).write.attempt s).2.writer.text ≠
        s'.writer.text) := by
  have hnone : (flush []).attempt s = (.ok (), s) := rfl
  have hsame := sameOutcome_writeItems_withoutComments items hnone []
  refine ⟨?_, ?_, fun hparted => ?_, fun hparted s' h heq => ?_⟩
  · rw [Content.write, Content.write]
    exact hsame.1
  · rw [Content.write, Content.write]
    exact hsame.2
  · rw [Content.write, Content.write, writeItems_withoutComments hparted [] fun h => h.1 rfl]
  · have hlt := lineFeeds_withoutComments_lt hparted h
    rw [heq] at hlt
    exact Nat.lt_irrefl _ hlt

/-- A page that is being filled. -/
def page : Session where
  parents := [.named "page"]

def remark : Content := .node (.comment (.str "to do") (.bool false))

/-- Two texts with a comment between them. -/
def partedTexts : List Content :=
  [.node (.text (.str "a")), remark, .node (.text (.str "b"))]

/-- Two texts with comments around them, then a placeholder that no mixin encloses. -/
def framedTexts : List Content :=
  [remark, .node (.text (.str "a")), .node (.text (.str "b")), remark, remark, .node .placeholder]

theorem attempt_framedTexts_partedTexts :
    (¬TextsParted framedTexts ∧
      (Content.list framedTexts).write.attempt page =
        (Content.list (withoutComments framedTexts)).write.attempt page) ∧
    TextsParted partedTexts ∧ ∃ s', (Content.list partedTexts).write.attempt page = (.ok (), s') ∧
      ((Content.list (withoutComments partedTexts)).write.attempt page).1 = .ok () ∧
      ((Content.list (withoutComments partedTexts)).write.attempt page).2.writer.text ≠
        s'.writer.text := by
  have hframed : ¬TextsParted framedTexts := fun h => absurd h.textPushes_lt (by decide)
  have hparted : TextsParted partedTexts :=
    ⟨_, [remark], _, rfl, rfl, by simp, by simp [remark, isComment], List.infix_rfl⟩
  have hok : ∃ s', (Content.list partedTexts).write.attempt page = (.ok (), s') := ⟨_, rfl⟩
  obtain ⟨s', hs'⟩ := hok
  obtain ⟨-, -, hsame, -⟩ := attempt_withoutComments page framedTexts
  obtain ⟨houtcome, -, -, hdiffer⟩ := attempt_withoutComments page partedTexts
  rw [hs'] at houtcome
  exact ⟨⟨hframed, hsame hframed⟩, hparted, s', hs', houtcome.symm, hdiffer hparted s' hs'⟩

/-- A comment between two texts makes two entries of them. -/
theorem partedTexts_differ :
    ((Content.list partedTexts).write.attempt page).2.writer.text =
        "page.push(\"a\");\npage.push(\"b\");\n" ∧
      ((Content.list (withoutComments partedTexts)).write.attempt page).2.writer.text =
        "page.push(\"a\\nb\");\n" ∧
      (Content.list partedTexts).write.attempt page ≠
        (Content.list (withoutComments partedTexts)).write.attempt page := by
  have hparted : ((Content.list partedTexts).write.attempt page).2.writer.text =
      "page.push(\"a\");\npage.push(\"b\");\n" := by decide +kernel
  have hjoined : ((Content.list (withoutComments partedTexts)).write.attempt page).2.writer.text =
      "page.push(\"a\\nb\");\n" := by decide +kernel
  refine ⟨hparted, hjoined, fun h => ?_⟩
  rw [h, hjoined] at hparted
  exact absurd hparted (by decide)

end Session

end Hyperscript
