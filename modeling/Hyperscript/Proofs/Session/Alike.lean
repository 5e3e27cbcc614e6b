import Hyperscript.Proofs.Session.Steps

/-!
# Sessions that differ in their text

Writing goes on from what a session says about the place it is at, and never looks back at the text
that is there already.  So the same steps in two sessions that are `Alike` find the same fault or
none, and leave sessions that are alike again (`Writing.Blind`).
-/

namespace Hyperscript

/-- The sessions differ at most in the text that is written. -/
structure Session.Alike (s t : Session) : Prop where
  options : s.options = t.options
  mixins : s.mixins = t.mixins
  parents : s.parents = t.parents
  depth : s.depth = t.depth
  pretty : s.writer.pretty = t.writer.pretty
  indent : s.writer.indent = t.writer.indent
  next : s.writer.next = t.writer.next

namespace Session.Alike

variable {s t u : Session}

theorem refl (s : Session) : s.Alike s :=
  ⟨rfl, rfl, rfl, rfl, rfl, rfl, rfl⟩

theorem symm (h : s.Alike t) : t.Alike s :=
  ⟨h.options.symm, h.mixins.symm, h.parents.symm, h.depth.symm, h.pretty.symm, h.indent.symm,
    h.next.symm⟩

theorem trans (h : s.Alike t) (h' : t.Alike u) : s.Alike u :=
  ⟨h.options.trans h'.options, h.mixins.trans h'.mixins, h.parents.trans h'.parents,
    h.depth.trans h'.depth, h.pretty.trans h'.pretty, h.indent.trans h'.indent,
    h.next.trans h'.next⟩

theorem scope (h : s.Alike t) : s.scope = t.scope := by
  rw [Session.scope, Session.scope, h.options, h.mixins, h.parents, h.depth]

theorem parent (h : s.Alike t) : s.parent = t.parent :=
  congrArg Scope.target h.scope

/-- Alike sessions in which the indentation is moved. -/
theorem shift (h : s.Alike t) (amount : Int) : (s.shift amount).Alike (t.shift amount) :=
  { h with indent := congrArg (· + amount) h.indent }

end Session.Alike

namespace Writing

variable {α β : Type} {s t u : Session}

/-! ## Steps that do not look at the text -/

/-- The same comes of these steps in one session as of those in the other, but for the text. -/
def SameOutcome (s : Session) (steps : Writing α) (t : Session) (steps' : Writing α) : Prop :=
  (steps.attempt s).1 = (steps'.attempt t).1 ∧ (steps.attempt s).2.Alike (steps'.attempt t).2

theorem SameOutcome.trans {steps steps' steps'' : Writing α} (h : SameOutcome s steps t steps')
    (h' : SameOutcome t steps' u steps'') : SameOutcome s steps u steps'' :=
  ⟨h.1.trans h'.1, h.2.trans h'.2⟩

theorem SameOutcome.bind {steps steps' : Writing α} {next next' : α → Writing β}
    (h : SameOutcome s steps t steps')
    (hnext : ∀ a s' t', s'.Alike t' → SameOutcome s' (next a) t' (next' a)) :
    SameOutcome s (steps >>= next) t (steps' >>= next') := by
  obtain ⟨houtcome, hleft⟩ := h
  unfold SameOutcome
  rcases hs : steps.attempt s with ⟨outcome, s'⟩
  rcases ht : steps'.attempt t with ⟨outcome', t'⟩
  rw [hs, ht] at houtcome hleft
  cases houtcome
  cases outcome with
  | ok a =>
    rw [attempt_bind_ok hs, attempt_bind_ok ht]
    exact hnext a s' t' hleft
  | error f =>
    rw [attempt_bind_error hs, attempt_bind_error ht]
    exact ⟨rfl, hleft⟩

/-- The same comes of the steps in sessions that are alike. -/
def Blind (steps : Writing α) : Prop :=
  ∀ s t : Session, s.Alike t → SameOutcome s steps t steps

theorem blind_throw (f : Fault) : Blind (throw f : Writing α) := fun _ _ h => ⟨rfl, h⟩

theorem blind_modify {change : Session → Session}
    (h : ∀ s t : Session, s.Alike t → (change s).Alike (change t)) : Blind (modify change) :=
  fun s t halike => ⟨rfl, h s t halike⟩

/-- What is read of the session may be anything but its text. -/
theorem Blind.get {next : Session → Writing β} (hnext : ∀ s, Blind (next s))
    (h : ∀ s t : Session, s.Alike t → next s = next t) : Blind (MonadState.get >>= next) := by
  intro s t halike
  have hattempt : ∀ u, (MonadState.get >>= next).attempt u = (next u).attempt u := fun _ => rfl
  rw [SameOutcome, hattempt, hattempt, h s t halike]
  exact hnext t s t halike

theorem blind_fresh : Blind fresh := by
  intro s t h
  refine ⟨?_, { h with next := congrArg (· + 1) h.next }⟩
  show Except.ok (ArrayName.fresh s.writer.next) = Except.ok (ArrayName.fresh t.writer.next)
  rw [h.next]

theorem blind_parent : Blind parent := by
  intro s t h
  rw [SameOutcome, attempt_parent, attempt_parent]
  exact ⟨h.parent, h⟩

theorem blind_enter (array : ArrayName) : Blind (enter array) :=
  blind_modify fun _ _ h => { h with parents := congrArg (· ++ [array]) h.parents }

theorem blind_leave : Blind leave := by
  intro s t h
  have hattempt : ∀ u : Session, leave.attempt u =
      (liftM u.popParent >>= set : Writing Unit).attempt u := fun _ => rfl
  rw [SameOutcome, hattempt, hattempt, Session.popParent, Session.popParent, ← h.parents]
  split
  · exact ⟨rfl, h⟩
  · exact ⟨rfl, { h with parents := rfl }⟩

/-- No step of those with which code is written looks at the text. -/
theorem Balanced.blind {top : Bool} {steps : Writing α} (h : Balanced top steps) :
    Blind steps := by
  induction h with
  | pure a => exact fun _ _ h => ⟨rfl, h⟩
  | throw f => exact blind_throw f
  | line | code => exact blind_modify fun _ _ h => { h with }
  | indent => exact blind_modify fun _ _ h => h.shift 2
  | dedent => exact blind_modify fun _ _ h => h.shift (-2)
  | openBlock => exact blind_modify fun _ _ h => { h.shift 2 with }
  | reopenBlock => exact blind_modify fun _ _ h => { (h.shift (-2)).shift 2 with }
  | closeBlock => exact blind_modify fun _ _ h => { h.shift (-2) with }
  | enterMixin => exact blind_modify fun _ _ h => { h with depth := congrArg (· + 1) h.depth }
  | leaveMixin => exact blind_modify fun _ _ h => { h with depth := congrArg (· + -1) h.depth }
  | fresh => exact blind_fresh
  | parent => exact blind_parent
  | get _ hsame ih => exact .get ih fun s t h => hsame s t h.options h.mixins h.depth
  | bind _ _ ihsteps ihnext => exact fun s t h => (ihsteps s t h).bind ihnext
  | filling array _ _ ihbody ihrest =>
    exact fun s t h => (blind_enter array s t h).bind fun _ s₁ t₁ h₁ =>
      (ihbody s₁ t₁ h₁).bind fun _ s₂ t₂ h₂ =>
      (blind_leave s₂ t₂ h₂).bind fun _ => ihrest

end Writing

end Hyperscript
