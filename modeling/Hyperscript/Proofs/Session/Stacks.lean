import Hyperscript.Proofs.Session.Steps

/-!
# Sessions that differ in their stack

Steps that leave the arrays they enter see of the stack only what they have put on it and, if they
look for the array that is being filled, the innermost array below.  So they do the same on another
stack (`Writing.Balanced.reframes`), also when a fault ends them half way: whatever they had entered
by then stands on both stacks.
-/

namespace Hyperscript

/-- The session with another stack of arrays. -/
def Session.onStack (s : Session) (parents : List ArrayName) : Session :=
  { s with parents }

namespace Writing

variable {α β : Type} {s : Session} {base other inner mid last : List ArrayName}

/-- The same comes of the steps with `other` in place of `base` below the inner arrays, and both
stacks are left with the same arrays above.  Without a fault these are `last`. -/
def SameOn (steps : Writing α) (s : Session) (base other inner last : List ArrayName) : Prop :=
  ∃ left, (steps.attempt s).2.parents = base ++ left ∧
    steps.attempt (s.onStack (other ++ inner)) =
      ((steps.attempt s).1, (steps.attempt s).2.onStack (other ++ left)) ∧
    ∀ a, (steps.attempt s).1 = .ok a → left = last

namespace SameOn

variable {steps : Writing α}

/-- Steps that leave the stack as it is. -/
theorem of_parents (hs : s.parents = base ++ inner)
    (hparents : (steps.attempt s).2.parents = s.parents)
    (h : steps.attempt (s.onStack (other ++ inner)) =
      ((steps.attempt s).1, (steps.attempt s).2.onStack (other ++ inner))) :
    steps.SameOn s base other inner inner :=
  ⟨inner, hparents.trans hs, h, fun _ _ => rfl⟩

theorem bind {next : α → Writing β} (h : steps.SameOn s base other inner mid)
    (hnext : ∀ a s', s'.parents = base ++ mid → (next a).SameOn s' base other mid last) :
    (steps >>= next).SameOn s base other inner last := by
  obtain ⟨left, hparents, hother, hleft⟩ := h
  rcases hs : steps.attempt s with ⟨outcome, s'⟩
  rw [hs] at hparents hother hleft
  unfold SameOn
  cases outcome with
  | ok a =>
    obtain rfl := hleft a rfl
    rw [attempt_bind_ok hs, attempt_bind_ok hother]
    exact hnext a s' hparents
  | error f =>
    rw [attempt_bind_error hs, attempt_bind_error hother]
    exact ⟨left, hparents, rfl, nofun⟩

theorem enter (array : ArrayName) (hs : s.parents = base ++ inner) :
    (Writing.enter array).SameOn s base other inner (inner ++ [array]) := by
  have hattempt : ∀ t : Session,
      (Writing.enter array).attempt t = (.ok (), t.onStack (t.parents ++ [array])) := fun _ => rfl
  refine ⟨inner ++ [array], ?_, ?_, fun _ _ => rfl⟩
  · rw [hattempt, ← List.append_assoc, ← hs]
    rfl
  · rw [hattempt, hattempt, ← List.append_assoc]
    rfl

theorem attempt_leave {outer : List ArrayName} {array : ArrayName}
    (hs : s.parents = outer ++ [array]) : leave.attempt s = (.ok (), s.onStack outer) := by
  have hpop : s.popParent = .ok (s.onStack outer) := by
    simp [Session.popParent, Session.onStack, hs]
  have hattempt : leave.attempt s = (liftM s.popParent >>= set : Writing Unit).attempt s := rfl
  rw [hattempt, hpop]
  rfl

theorem leave {array : ArrayName} (hs : s.parents = base ++ (inner ++ [array])) :
    Writing.leave.SameOn s base other (inner ++ [array]) inner := by
  have hbase : s.parents = (base ++ inner) ++ [array] := by rw [hs, List.append_assoc]
  have hother : (s.onStack (other ++ (inner ++ [array]))).parents = (other ++ inner) ++ [array] :=
    (List.append_assoc other inner [array]).symm
  refine ⟨inner, ?_, ?_, fun _ _ => rfl⟩
  · rw [attempt_leave hbase]
    rfl
  · rw [attempt_leave hbase, attempt_leave hother]
    rfl

end SameOn

/-- The same comes of the steps whatever stands below the inner arrays, and they leave the stack as
they find it.  With `top` the innermost array has to be the same. -/
def Reframes (top : Bool) (steps : Writing α) : Prop :=
  ∀ s base other inner, s.parents = base ++ inner →
    (top = true → (other ++ inner).getLast? = (base ++ inner).getLast?) →
    steps.SameOn s base other inner inner

theorem reframes_modify {top : Bool} {change : Session → Session}
    (hparents : ∀ s, (change s).parents = s.parents)
    (h : ∀ s parents, change (s.onStack parents) = (change s).onStack parents) :
    Reframes top (modify change) :=
  fun s _ _ _ hs _ => .of_parents hs (hparents s) (congrArg (Except.ok (), ·) (h s _))

theorem reframes_parent : Reframes true parent := by
  intro s base other inner hs htop
  refine .of_parents hs (by rw [attempt_parent]) ?_
  have hscope : (s.onStack (other ++ inner)).scope = s.scope := by
    have hlast : (other ++ inner).getLast? = s.parents.getLast? := by rw [hs, htop rfl]
    simp [Session.scope, Session.onStack, hlast]
  have hsame : (s.onStack (other ++ inner)).parent = s.parent := congrArg Scope.target hscope
  rw [attempt_parent, attempt_parent, hsame]

theorem Balanced.reframes {top : Bool} {steps : Writing α} (h : Balanced top steps) :
    Reframes top steps := by
  induction h with
  | pure a => exact fun _ _ _ _ hs _ => .of_parents hs rfl rfl
  | throw f => exact fun _ _ _ _ hs _ => .of_parents hs rfl rfl
  | line | code | indent | dedent | openBlock | reopenBlock | closeBlock | enterMixin
  | leaveMixin => exact reframes_modify (fun _ => rfl) fun _ _ => rfl
  | fresh => exact fun _ _ _ _ hs _ => .of_parents hs rfl rfl
  | parent => exact reframes_parent
  | @get top β next _ hsame ih =>
    intro s base other inner hs htop
    have hattempt : ∀ t, (MonadState.get >>= next).attempt t = (next t).attempt t := fun _ => rfl
    have hnext : next (s.onStack (other ++ inner)) = next s := hsame _ _ rfl rfl rfl
    have h := ih s s base other inner hs htop
    unfold SameOn at h ⊢
    rwa [hattempt, hattempt, hnext]
  | bind _ _ ihsteps ihnext =>
    exact fun s base other inner hs htop => (ihsteps s base other inner hs htop).bind
      fun a s' hs' => ihnext a s' base other inner hs' htop
  | filling array _ _ ihbody ihrest =>
    intro s base other inner hs htop
    refine (SameOn.enter array hs).bind fun _ s₁ hs₁ => ?_
    -- the array that was entered is the innermost one for the body, whatever stands below
    refine (ihbody s₁ base other (inner ++ [array]) hs₁ fun _ => ?_).bind fun _ s₂ hs₂ => ?_
    · rw [← List.append_assoc, ← List.append_assoc, List.getLast?_concat, List.getLast?_concat]
    · exact (SameOn.leave hs₂).bind fun _ s₃ hs₃ => ihrest s₃ base other inner hs₃ htop

end Writing

end Hyperscript
