import Hyperscript.Proofs.Session.Comments

/-!
# Child nodes in two parts

Child nodes are written from left to right, and a text waits for the texts behind it, to be pushed
with them.  So a list of child nodes can be written in two parts, the one after the other, unless
the parts meet between two texts, which are one push in the whole list and two in the parts.

The invariant of the loop is that the texts that wait are as good as nodes in front of those that
are still to be written (`writeItems_append`).
-/

namespace Hyperscript

open Writing (flush)

namespace Content

/-- The texts that wait, as nodes. -/
def waiting (texts : List Datum) : List Content :=
  texts.map fun value => .node (.text value)

/-- The first list ends with a text, and the second begins with one. -/
def TextSeam (xs ys : List Content) : Prop :=
  (∃ x, xs.getLast? = some x ∧ x.isText = true) ∧ ∃ y, ys.head? = some y ∧ y.isText = true

theorem TextSeam.append_left {xs ys : List Content} (h : TextSeam xs ys) (before : List Content) :
    TextSeam (before ++ xs) ys := by
  obtain ⟨⟨x, hlast, hx⟩, hhead⟩ := h
  refine ⟨⟨x, ?_, hx⟩, hhead⟩
  rw [List.getLast?_append, hlast]
  rfl

theorem textSeam_waiting {texts : List Datum} {ys : List Content} (htexts : texts ≠ [])
    {y : Content} (hhead : ys.head? = some y) (hy : y.isText = true) :
    TextSeam (waiting texts) ys := by
  refine ⟨⟨.node (.text (texts.getLast htexts)), ?_, rfl⟩, y, hhead, hy⟩
  rw [waiting, List.getLast?_map, List.getLast?_eq_some_getLast htexts]
  rfl

end Content

open Content

theorem writeItems_append {xs ys : List Content} {texts : List Datum}
    (h : ¬TextSeam (waiting texts ++ xs) ys) :
    writeItems texts (xs ++ ys) = (do writeItems texts xs; writeItems [] ys) := by
  induction xs generalizing texts with
  | nil =>
    rw [List.append_nil] at h
    rw [List.nil_append, writeItems]
    by_cases htexts : texts = []
    · subst htexts
      rfl
    · -- what comes next is no text, so the texts are pushed before it in any case
      refine (flush_bind_writeItems (fun y hy => ?_) texts).symm
      exact Bool.eq_false_iff.2 fun htext => h (textSeam_waiting htexts hy htext)
  | cons item rest ih =>
    have hrest : ¬TextSeam rest ys := fun hseam =>
      h (by simpa using hseam.append_left (waiting texts ++ [item]))
    cases item with
    | node n =>
      cases n with
      | text value =>
        rw [List.cons_append, writeItems, writeItems]
        exact ih (by simpa [waiting] using h)
      | _ => simp only [List.cons_append, writeItems, @ih [] hrest, bind_assoc]
    | list items => simp [writeItems]
    | datum d => simp [writeItems]

namespace Session

/-- Away from the seam of two texts, writing a list of child nodes is writing its first part and,
unless that ends in a fault, its second part in the session that the first has left.  A fault in the
first part is that of the whole list, and leaves the same session. -/
theorem attempt_append (s : Session) (xs ys : List Content) (h : ¬TextSeam xs ys) :
    (∀ s', (Content.list xs).write.attempt s = (.ok (), s') →
      (Content.list (xs ++ ys)).write.attempt s = (Content.list ys).write.attempt s') ∧
    (∀ f s', (Content.list xs).write.attempt s = (.error f, s') →
      (Content.list (xs ++ ys)).write.attempt s = (.error f, s')) ∧
    s.compileChildren (.list (xs ++ ys)) =
      (s.compileChildren (.list xs) >>= fun s' => s'.compileChildren (.list ys)) := by
  have hparts : (Content.list (xs ++ ys)).write =
      (do (Content.list xs).write; (Content.list ys).write) := by
    simp only [Content.write]
    exact writeItems_append h
  refine ⟨fun s' hs' => ?_, fun f s' hs' => ?_, ?_⟩
  · rw [hparts, Writing.attempt_bind_ok hs']
  · rw [hparts, Writing.attempt_bind_error hs']
  · unfold compileChildren after
    rw [hparts, Writing.run_bind]
    cases (Content.list xs).write.run s with
    | error f => rfl
    | ok result => rfl

/-- Two texts, with a comment before them. -/
def closingTexts : List Content :=
  [remark, .node (.text (.str "a")), .node (.text (.str "b"))]

/-- A placeholder, which has to stand in a mixin, and a text. -/
def placeholderText : List Content :=
  [.node .placeholder, .node (.text (.str "c"))]

/-- The two texts are pushed at the end of the first part.  The fault in the second part leaves them
written, and as a first part it keeps what follows from being written. -/
theorem attempt_closingTexts_placeholderText :
    (¬TextSeam closingTexts placeholderText ∧
      ∃ s', (Content.list closingTexts).write.attempt page = (.ok (), s') ∧
        s'.writer.text = "page.push(\"a\\nb\");\n" ∧
        (Content.list (closingTexts ++ placeholderText)).write.attempt page =
          (Content.list placeholderText).write.attempt s') ∧
    ¬TextSeam placeholderText closingTexts ∧
      ∃ s', (Content.list placeholderText).write.attempt page = (.error .strayPlaceholder, s') ∧
        (Content.list (placeholderText ++ closingTexts)).write.attempt page =
          (.error .strayPlaceholder, s') := by
  have htexts : ¬TextSeam closingTexts placeholderText := by
    rintro ⟨-, y, hhead, hy⟩
    cases hhead
    cases hy
  have hplaceholder : ¬TextSeam placeholderText closingTexts := by
    rintro ⟨-, y, hhead, hy⟩
    cases hhead
    cases hy
  refine ⟨⟨htexts, _, rfl, by decide +kernel, ?_⟩, hplaceholder, _, rfl, ?_⟩
  · exact (attempt_append page _ _ htexts).1 _ rfl
  · exact (attempt_append page _ _ hplaceholder).2.1 _ _ rfl

end Session

end Hyperscript
