import Hyperscript.Proofs.Generation.Emission
import Hyperscript.Proofs.Session.Numbering
import Hyperscript.Proofs.Session.Stacks

/-!
# What a request leaves as it was

The requests to a session share its stack of arrays, its depth and its indentation, and change all
of them on the way.  `Session.request_restores` says that a request that succeeds has put them back:
the session has more text and may have taken more arrays, and that is all.

`Session.request_sees_top` is about what a request looks at.  Code that is generated in place needs
the innermost array and none below it; hoisted definitions do not look at the stack, and so cannot
miss an array either.
-/

namespace Hyperscript

namespace Session

/-! ## After a request -/

/-- A later stage of the session: code was written and arrays were taken, and nothing else is
different. -/
structure Extends (s s' : Session) : Prop where
  parents : s'.parents = s.parents
  depth : s'.depth = s.depth
  indent : s'.writer.indent = s.writer.indent
  mixins : s'.mixins = s.mixins
  options : s'.options = s.options
  pretty : s'.writer.pretty = s.writer.pretty
  next_le : s.writer.next ≤ s'.writer.next
  text : ∃ written, s'.writer.text = s.writer.text ++ written

theorem extends_of_write {s s' : Session} {generation : Scope → Generation (List Stmt)}
    (hle : ∀ {stmts next}, (generation s.scope).run s.writer.next = .ok (stmts, next) →
      s.writer.next ≤ next)
    (h : s.write generation = .ok s') : s.Extends s' := by
  unfold write at h
  cases hrun : (generation s.scope).run s.writer.next with
  | error f =>
    rw [hrun] at h
    cases h
  | ok result =>
    obtain ⟨stmts, next⟩ := result
    rw [hrun] at h
    cases h
    exact ⟨rfl, rfl, rfl, rfl, rfl, rfl, hle hrun, _, rfl⟩

end Session

section Supply

variable {s : Scope} {k k' : Nat} {stmts : List Stmt}

theorem Content.le_of_generateOne {c : Content} (h : (c.generateOne s).run k = .ok (stmts, k')) :
    k ≤ k' := by
  cases c with
  | node n => exact (n.emits_of_run h).le
  | list items => cases h
  | datum d => cases h

theorem Content.le_of_hoisted {c : Content} (h : (c.hoisted s).run k = .ok (stmts, k')) :
    k ≤ k' := by
  obtain ⟨ds, -, h⟩ := Generation.run_lift_bind_ok h
  exact (c.defines_of_run h).le

theorem Content.le_of_defineOne {c : Content} (h : (c.defineOne s).run k = .ok (stmts, k')) :
    k ≤ k' := by
  cases c with
  | node n =>
    cases n with
    | mixin name params rest children => exact (Node.defines_of_run _ h).le
    | _ => cases h
  | list items => cases h
  | datum d => cases h

end Supply

namespace Session

/-- A request that succeeds restores the stack of arrays, the depth, the indentation and the
declared mixins.  It gives no array back, and what it writes goes behind the text so far. -/
theorem request_restores (s s' : Session) (c : Content)
    (h : s.compileNode c = .ok s' ∨ s.compileChildren c = .ok s' ∨ s.compileScope c = .ok s' ∨
      s.compileDefinition c = .ok s') :
    s.Extends s' := by
  -- every request writes what is generated and leaves the rest of the session alone
  rcases h with h | h | h | h
  · rw [compileNode_eq] at h
    exact extends_of_write Content.le_of_generateOne h
  · rw [compileChildren_eq] at h
    exact extends_of_write (fun hrun => (c.emits_of_run hrun).le) h
  · rw [compileScope_eq] at h
    exact extends_of_write Content.le_of_hoisted h
  · rw [compileDefinition_eq] at h
    exact extends_of_write Content.le_of_defineOne h

/-- The inside of a mixin, half written. -/
def draft : Session where
  mixins := ⟨[⟨.str "card", [.str "title"], .null⟩]⟩
  parents := [.fresh 0, .named "rows"]
  depth := 1
  writer := { pretty := true, indent := 4, next := 3, text := "var rows = [];\n" }

/-- A mixin that shows its argument and its block. -/
def card : Node :=
  .mixin (.str "card") (.list [.str "title"]) .null (.list [
    .node (.tag (.str "h2") {} (.list [.node (.text (.str "#\x7btitle\x7d"))])),
    .node .placeholder])

/-- A loop with an alternate, in which a mixin is declared and called with a block. -/
def gallery : Node :=
  .each (.str "albums") (.str "album") .null
    (.list [.node card,
      .node (.call (.str "card") (.str "album.title") {} (.list [
        .node (.conditional (.str "album.open") (.list [.node (.tag (.str "img") {} (.list []))])
          (.list [.node (.text (.str "closed"))]))]))])
    (.list [.node .placeholder])

theorem draft_request_restores :
    ∃ s', draft.compileNode (.node gallery) = .ok s' ∧ draft.Extends s' := by
  have hrequest : ∃ s', draft.compileNode (.node gallery) = .ok s' := by
    rw [compileNode_eq]
    exact ⟨_, rfl⟩
  obtain ⟨s', hs'⟩ := hrequest
  exact ⟨s', hs', request_restores draft s' (.node gallery) (.inl hs')⟩

/-! ## The stack of arrays -/

open Generation in
/-- Generation that is uniform without an array to fill cannot miss one. -/
theorem family_ne_of_write {s : Session} {generation : Scope → Generation (List Stmt)}
    (hg : Uniform False StmtsRelocatable 0 fun _ => generation s.scope) {f : Fault}
    (h : s.write generation = .error f) : f.family ≠ .emptyStack := by
  rcases write_of_uniform hg with ⟨f', hf', hends⟩ | ⟨pieces, used, hwrites⟩
  · have hfault : s.write generation = .error f' := hends s.writer.next
    rw [h] at hfault
    cases hfault
    intro hfamily
    apply hf'
    cases f with
    | noParent => rfl
    | _ => cases hfamily
  · have hok : s.write generation = .ok _ := hwrites s.writer.next
    rw [h] at hok
    cases hok

theorem after_of_attempt {s : Session} {steps : Writing Unit} {f : Fault}
    (h : (steps.attempt s).1 = .error f) : s.after steps = .error f := by
  unfold after Writing.run
  rcases hs : steps.attempt s with ⟨outcome, s'⟩
  rw [hs] at h
  cases h
  rfl

open Writing in
/-- Generated code sees the innermost array only: if another stack ends in the same array, or is
empty as well, the same comes of child contents on it.  They end in the same fault or in none, and in
either case the text is the same, the same arrays are taken, and the same arrays are left above the
two stacks, none without a fault.  Definitions do so on every stack, and do not miss an array on
any. -/
theorem request_sees_top (s : Session) (parents : List ArrayName) (c : Content) :
    (parents.getLast? = s.parents.getLast? → c.write.SameOn s s.parents parents [] []) ∧
    c.writeDefinition.SameOn s s.parents parents [] [] ∧
    c.hoist.SameOn s s.parents parents [] [] ∧
    ∀ f, (c.writeDefinition.attempt s).1 = .error f ∨ (c.hoist.attempt s).1 = .error f →
      f.family ≠ .emptyStack := by
  have hparents : s.parents = s.parents ++ [] := (List.append_nil _).symm
  have hdefinition : Balanced false c.writeDefinition := c.balanced_writeDefinition
  have hhoist : Balanced false c.hoist := c.balanced_hoist
  refine ⟨fun htop => ?_, ?_, ?_, ?_⟩
  · refine c.balanced_write.reframes s _ parents [] hparents fun _ => ?_
    rw [List.append_nil, List.append_nil, htop]
  · exact hdefinition.reframes s _ parents [] hparents nofun
  · exact hhoist.reframes s _ parents [] hparents nofun
  · rintro f (h | h)
    · have hfault : s.compileDefinition c = .error f := after_of_attempt h
      rw [compileDefinition_eq] at hfault
      exact family_ne_of_write (c.uniform_defineOne _ 0) hfault
    · have hfault : s.compileScope c = .error f := after_of_attempt h
      rw [compileScope_eq] at hfault
      exact family_ne_of_write (c.uniform_hoisted _ 0) hfault

/-- An element whose content cannot be written, in which an array is taken before this shows. -/
def unfinished : Content :=
  .list [.node (.tag (.str "p") {} (.list [.node (.text (.str "a")), .node (.other "Filter")]))]

theorem draft_request_sees_top :
    draft.parents.getLast? = some (.named "rows") ∧
      ((unfinished.write.attempt draft).1 = .error (.unsupportedNode "Filter") ∧
        (unfinished.write.attempt draft).2.parents = draft.parents ++ [.fresh 3] ∧
        (unfinished.write.attempt draft).2.writer.next = 4) ∧
      (unfinished.write.attempt (draft.onStack [.named "rows"])).1 =
        .error (.unsupportedNode "Filter") ∧
      (unfinished.write.attempt (draft.onStack [.named "rows"])).2.parents =
        [.named "rows", .fresh 3] ∧
      (unfinished.write.attempt (draft.onStack [.named "rows"])).2.writer =
        (unfinished.write.attempt draft).2.writer ∧
      ∃ f, ((Content.node card).hoist.attempt draft).1 = .error f ∧ f.family ≠ .emptyStack := by
  have hfault : (unfinished.write.attempt draft).1 = .error (.unsupportedNode "Filter") := rfl
  have hleft : (unfinished.write.attempt draft).2.parents = draft.parents ++ [.fresh 3] := rfl
  obtain ⟨left, hparents, hsame, -⟩ := (request_sees_top draft [.named "rows"] unfinished).1 rfl
  obtain rfl : left = [.fresh 3] := by
    rw [hleft] at hparents
    exact (List.append_cancel_left hparents).symm
  rw [List.append_nil] at hsame
  rw [hsame]
  refine ⟨rfl, ⟨hfault, hleft, rfl⟩, hfault, rfl, rfl, _, rfl, ?_⟩
  exact (request_sees_top draft [] (.node card)).2.2.2 _ (.inr rfl)

end Session

end Hyperscript
