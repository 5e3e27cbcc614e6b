import Hyperscript.Session

/-!
# The steps that write a tree

All code of a template is written in steps of a few kinds.  `Writing.Balanced` lists them: lines and
changes of the indentation or the depth, fresh arrays, faults, a look at the options, the mixins and
the depth, and arrays that are entered, filled and left again.  Only some of the steps look at the
array that is being filled; definitions are written without them.

What is to be shown of everything that is written can so be shown of each kind of step.
-/

namespace Hyperscript

namespace Writing

variable {α β : Type} {s : Session}

theorem attempt_bind (steps : Writing α) (next : α → Writing β) (s : Session) :
    (steps >>= next).attempt s =
      StateT.run (ExceptT.bindCont next (steps.attempt s).1) (steps.attempt s).2 := rfl

theorem attempt_bind_ok {steps : Writing α} {a : α} {s' : Session}
    (h : steps.attempt s = (.ok a, s')) (next : α → Writing β) :
    (steps >>= next).attempt s = (next a).attempt s' := by
  rw [attempt_bind, h]
  rfl

theorem attempt_bind_error {steps : Writing α} {f : Fault} {s' : Session}
    (h : steps.attempt s = (.error f, s')) (next : α → Writing β) :
    (steps >>= next).attempt s = (.error f, s') := by
  rw [attempt_bind, h]
  rfl

theorem attempt_parent (s : Session) : parent.attempt s = (s.parent, s) := by
  have hparent : parent.attempt s = (liftM s.parent : Writing ArrayName).attempt s := rfl
  rw [hparent]
  cases s.parent <;> rfl

/-- Steps that leave the arrays they enter, unless a fault ends them before.  With `top` they may
look at the array that is being filled. -/
inductive Balanced : (top : Bool) → {α : Type} → Writing α → Prop where
  | pure {top : Bool} {α : Type} (a : α) : Balanced top (pure a)
  | throw {top : Bool} {α : Type} (f : Fault) : Balanced top (throw f : Writing α)
  | line {top : Bool} (text : String) : Balanced top (line text)
  | code {top : Bool} (text : String) : Balanced top (code text)
  | indent {top : Bool} : Balanced top indent
  | dedent {top : Bool} : Balanced top dedent
  | openBlock {top : Bool} (header : String) : Balanced top (openBlock header)
  | reopenBlock {top : Bool} (header : String) : Balanced top (reopenBlock header)
  | closeBlock {top : Bool} (trailer : String) : Balanced top (closeBlock trailer)
  | enterMixin {top : Bool} : Balanced top enterMixin
  | leaveMixin {top : Bool} : Balanced top leaveMixin
  | fresh {top : Bool} : Balanced top fresh
  | parent : Balanced true parent
  | get {top : Bool} {β : Type} {next : Session → Writing β} : (∀ s, Balanced top (next s)) →
      (∀ s t : Session, s.options = t.options → s.mixins = t.mixins → s.depth = t.depth →
        next s = next t) → Balanced top (get >>= next)
  | bind {top : Bool} {α β : Type} {steps : Writing α} {next : α → Writing β} :
      Balanced top steps → (∀ a, Balanced top (next a)) → Balanced top (steps >>= next)
  | filling {top : Bool} {β : Type} {body : Writing Unit} {rest : Writing β} (array : ArrayName) :
      Balanced true body → Balanced top rest →
      Balanced top (do enter array; body; leave; rest)

namespace Balanced

variable {top : Bool}

theorem lift (e : Except Fault α) : Balanced top (liftM e : Writing α) := by
  cases e with
  | ok a => exact .pure a
  | error f => exact .throw f

theorem andThen {first : Writing Unit} {second : Writing β} (hfirst : Balanced top first)
    (hsecond : Balanced top second) : Balanced top (do first; second) :=
  hfirst.bind fun _ => hsecond

theorem ite {c : Prop} [Decidable c] {yes no : Writing α} (hyes : Balanced top yes)
    (hno : Balanced top no) : Balanced top (if c then yes else no) := by
  split
  · exact hyes
  · exact hno

theorem flush (texts : List Datum) : Balanced true (flush texts) :=
  .ite (.pure _) (.bind .parent fun _ => (lift _).bind fun _ => .line _)

theorem returning {definitions body : Writing Unit} (hdefinitions : Balanced top definitions)
    (hbody : Balanced true body) : Balanced top (Writing.returning definitions body) :=
  .bind .fresh fun array => .andThen hdefinitions <| .andThen (.line _) <|
    .filling array hbody (.line _)

/-- An element's array is filled by code that is indented. -/
theorem fillingIndented {body : Writing Unit} {rest : Writing β} (array : ArrayName)
    (hbody : Balanced true body) (hrest : Balanced top rest) :
    Balanced top (do enter array; Writing.indent; body; Writing.dedent; leave; rest) := by
  have hinner : Balanced true (do Writing.indent; body; Writing.dedent) :=
    .andThen .indent <| .andThen hbody .dedent
  have h := Balanced.filling array hinner hrest
  simp only [bind_assoc] at h
  exact h

end Balanced

end Writing

/-! ## Code of a tree

One statement for each writing function, by recursion over the tree as they go through it. -/

open Writing

mutual

theorem Node.balanced_write : ∀ n : Node, Balanced true n.write
  | .tag name attributes children => by
    rw [Node.write]
    refine .get (fun _ => (Balanced.lift _).bind fun _ => .get (fun _ =>
      (Balanced.lift _).bind fun _ => .ite ?_ ?_) ?_) ?_
    · exact .bind .fresh fun array => .andThen (.line _) <|
        .fillingIndented array children.balanced_write <| .bind .parent fun _ => .line _
    · exact .bind .parent fun _ => .line _
    · exact fun _ _ hoptions _ _ => by rw [hoptions]
    · exact fun _ _ hoptions _ _ => by rw [hoptions]
  | .text value => by
    rw [Node.write]
    exact .bind .parent fun _ => (Balanced.lift _).bind fun _ => .line _
  | .code value buffer children => by
    rw [Node.write]
    refine .ite (.bind .parent fun _ => (Balanced.lift _).bind fun _ => .andThen (.line _) ?_)
      (.ite ?_ ?_)
    · exact .ite children.balanced_write (.pure _)
    · exact (Balanced.lift _).bind fun _ => .code _
    · exact (Balanced.lift _).bind fun _ => .andThen (.code _) <| .andThen .indent <|
        .andThen children.balanced_write <| .closeBlock _
  | .comment .. => by
    rw [Node.write]
    exact .pure _
  | .conditional test consequent alternate => by
    rw [Node.write]
    exact (Balanced.lift _).bind fun _ => .andThen (.openBlock _) <|
      .andThen consequent.balanced_write <| .andThen alternate.balanced_writeOtherwise <|
      .closeBlock _
  | .branch .. => by
    rw [Node.write]
    exact .throw _
  | .switch expr whens => by
    rw [Node.write]
    exact (Balanced.lift _).bind fun _ => .andThen (.openBlock _) <|
      .andThen whens.balanced_writeClauses <| .closeBlock _
  | .each obj val key children alternate => by
    rw [Node.write]
    refine .andThen (.line _) <| .andThen .indent <| (Balanced.lift _).bind fun _ =>
      .andThen (.line _) <| (Balanced.lift _).bind fun _ => (Balanced.lift _).bind fun _ =>
      .andThen children.balanced_writeDefinitions <|
      .andThen alternate.balanced_writeDefinitions ?_
    -- the loop over an array, then the one over an object
    refine .andThen (.openBlock _) <| (Balanced.lift _).bind fun _ => .andThen (.openBlock _) <|
      (Balanced.lift _).bind fun _ => .andThen (.line _) <| .andThen children.balanced_write <|
      .andThen (.closeBlock _) <| .andThen alternate.balanced_writeWhenEmpty ?_
    exact .andThen (.reopenBlock _) <| .andThen (.line _) <| .andThen (.openBlock _) <|
      .andThen (.line _) <| .andThen (.line _) <| .andThen children.balanced_write <|
      .andThen (.closeBlock _) <| .andThen alternate.balanced_writeWhenEmpty <|
      .andThen (.closeBlock _) <| .andThen .dedent <| .line _
  | .loop test children => by
    rw [Node.write]
    exact (Balanced.lift _).bind fun _ => .andThen (.openBlock _) <|
      .andThen children.balanced_write <| .closeBlock _
  | .mixin .. => by
    rw [Node.write]
    exact .pure _
  | .call name args attributes children => by
    rw [Node.write]
    refine .get (fun _ => (Balanced.lift _).bind fun _ => .bind .parent fun _ =>
      .get (fun _ => (Balanced.lift _).bind fun _ => (Balanced.lift _).bind fun _ =>
      (Balanced.lift _).bind fun _ => .ite (.line _) ?_) ?_) ?_
    · exact .andThen (.line _) <| .andThen .indent <|
        .andThen (.returning ((Balanced.lift _).bind fun _ => children.balanced_writeDefinitions)
          children.balanced_write) <| .andThen .dedent <| .line _
    · exact fun _ _ hoptions _ _ => by rw [hoptions]
    · exact fun _ _ _ hmixins _ => by rw [hmixins]
  | .placeholder => by
    rw [Node.write]
    refine .get (fun _ => .ite ?_ ?_) fun _ _ _ _ hdepth => by rw [hdepth]
    · exact (Balanced.throw _).bind fun _ => .andThen (.openBlock _) <| .bind .parent fun _ =>
        .andThen (.line _) <| .closeBlock _
    · exact .andThen (.openBlock _) <| .bind .parent fun _ =>
        .andThen (.line _) <| .closeBlock _
  | .other _ => by
    rw [Node.write]
    exact .throw _

theorem Content.balanced_write : ∀ c : Content, Balanced true c.write
  | .node n => by
    rw [Content.write]
    exact .throw _
  | .list items => by
    rw [Content.write]
    exact balanced_writeItems items []
  | .datum d => by
    rw [Content.write]
    exact Balanced.lift _

theorem balanced_writeItems : ∀ (items : List Content) (texts : List Datum),
    Balanced true (writeItems texts items)
  | [], texts => by
    rw [writeItems]
    exact .flush texts
  | .node n :: rest, texts => by
    have hnode := n.balanced_write
    have hrest := balanced_writeItems rest
    cases n with
    | text value =>
      rw [writeItems]
      exact hrest (texts ++ [value])
    | _ => exact .andThen (.flush texts) <| .andThen hnode <| hrest []
  | .list _ :: rest, texts | .datum _ :: rest, texts => by
    rw [writeItems]
    · exact .andThen (.flush texts) <| .throw _
    · exact fun _ h => by cases h

theorem Content.balanced_writeOtherwise : ∀ c : Content, Balanced true c.writeOtherwise
  | .node (.conditional test consequent alternate) => by
    rw [Content.writeOtherwise]
    exact (Balanced.lift _).bind fun _ => .andThen (.reopenBlock _) <|
      .andThen consequent.balanced_write <| alternate.balanced_writeOtherwise
  | .node (.tag ..) | .node (.text _) | .node (.code ..) | .node (.comment ..)
  | .node (.branch ..) | .node (.switch ..) | .node (.each ..) | .node (.loop ..)
  | .node (.mixin ..) | .node (.call ..) | .node .placeholder | .node (.other _) =>
    .andThen (.reopenBlock _) <| .throw _
  | .list items => by
    rw [Content.writeOtherwise]
    exact .ite (.pure _) <| .andThen (.reopenBlock _) <| balanced_writeItems items []
  | .datum d => by
    rw [Content.writeOtherwise]
    exact .ite (.andThen (.reopenBlock _) <| Balanced.lift _) (.pure _)

theorem Content.balanced_writeClauses : ∀ c : Content, Balanced true c.writeClauses
  | .node n => by
    rw [Content.writeClauses]
    exact .throw _
  | .list items => by
    rw [Content.writeClauses]
    exact balanced_writeClausesOfItems items
  | .datum d => by
    rw [Content.writeClauses]
    exact Balanced.lift _

theorem balanced_writeClausesOfItems : ∀ items : List Content,
    Balanced true (writeClausesOfItems items)
  | [] => by
    rw [writeClausesOfItems]
    exact .pure _
  | .node (.branch expr children) :: rest => by
    rw [writeClausesOfItems]
    refine (Balanced.lift _).bind fun _ => .andThen (.line _) <|
      .ite ?_ (balanced_writeClausesOfItems rest)
    exact .andThen .indent <| .andThen children.balanced_write <| .andThen (.line _) <|
      .andThen .dedent <| balanced_writeClausesOfItems rest
  | .node (.tag ..) :: _ | .node (.text _) :: _ | .node (.code ..) :: _
  | .node (.comment ..) :: _ | .node (.conditional ..) :: _ | .node (.switch ..) :: _
  | .node (.each ..) :: _ | .node (.loop ..) :: _ | .node (.mixin ..) :: _
  | .node (.call ..) :: _ | .node .placeholder :: _ | .node (.other _) :: _
  | .list _ :: _ | .datum _ :: _ => .throw _

theorem Content.balanced_writeWhenEmpty : ∀ c : Content, Balanced true c.writeWhenEmpty
  | .node n => by
    rw [Content.writeWhenEmpty]
    exact .andThen (.openBlock _) <| .throw _
  | .list items => by
    rw [Content.writeWhenEmpty]
    exact .andThen (.openBlock _) <| .andThen (balanced_writeItems items []) <| .closeBlock _
  | .datum d => by
    rw [Content.writeWhenEmpty]
    exact .ite (.pure _) <| .andThen (.openBlock _) <| .andThen (Balanced.lift _) <|
      .closeBlock _

theorem Node.balanced_writeDefinitions {top : Bool} : ∀ n : Node,
    Balanced top n.writeDefinitions
  | .tag _ _ children | .code _ _ children | .loop _ children | .branch _ children
  | .switch _ children => by
    rw [Node.writeDefinitions]
    exact children.balanced_writeDefinitions
  | .conditional _ consequent alternate => by
    rw [Node.writeDefinitions]
    exact .andThen consequent.balanced_writeDefinitions
      alternate.balanced_writeAlternateDefinitions
  | .mixin name params rest children => by
    have hbody : Balanced top (returning
        (do let _ ← children.scopeDeclarations; children.writeDefinitions) children.write) :=
      Balanced.returning ((Balanced.lift children.scopeDeclarations).bind fun _ =>
        children.balanced_writeDefinitions) children.balanced_write
    have hrest : Balanced top (do
        enterMixin
        returning (do let _ ← children.scopeDeclarations; children.writeDefinitions)
          children.write
        leaveMixin
        closeBlock "\x7d;") :=
      .andThen .enterMixin <| .andThen hbody <| .andThen .leaveMixin <| .closeBlock _
    rw [Node.writeDefinitions]
    exact (Balanced.lift _).bind fun _ => (Balanced.lift _).bind fun _ =>
      .andThen (.line _) <| .andThen .indent <| .andThen (.line _) <|
      .ite ((Balanced.lift _).bind fun _ => .andThen (.line _) hrest) hrest
  | .text _ | .comment .. | .each .. | .call .. | .placeholder | .other _ => by
    rw [Node.writeDefinitions]
    exact .pure _

theorem Content.balanced_writeDefinitions {top : Bool} : ∀ c : Content,
    Balanced top c.writeDefinitions
  | .list items => by
    rw [Content.writeDefinitions]
    exact balanced_writeDefinitionsOfItems items
  | .node _ | .datum _ => by
    rw [Content.writeDefinitions]
    exact .pure _

theorem Content.balanced_writeAlternateDefinitions {top : Bool} : ∀ c : Content,
    Balanced top c.writeAlternateDefinitions
  | .node n => by
    rw [Content.writeAlternateDefinitions]
    exact .ite n.balanced_writeDefinitions (.pure _)
  | .list items => by
    rw [Content.writeAlternateDefinitions]
    exact balanced_writeDefinitionsOfItems items
  | .datum _ => by
    rw [Content.writeAlternateDefinitions]
    exact .pure _

theorem balanced_writeDefinitionsOfItems {top : Bool} : ∀ items : List Content,
    Balanced top (writeDefinitionsOfItems items)
  | [] => by
    rw [writeDefinitionsOfItems]
    exact .pure _
  | .node n :: rest => by
    rw [writeDefinitionsOfItems]
    exact .andThen n.balanced_writeDefinitions (balanced_writeDefinitionsOfItems rest)
  | .list _ :: rest | .datum _ :: rest => balanced_writeDefinitionsOfItems rest

end

theorem Content.balanced_hoist {top : Bool} (c : Content) : Balanced top c.hoist :=
  (Balanced.lift _).bind fun _ => c.balanced_writeDefinitions

theorem Content.balanced_writeDefinition {top : Bool} (c : Content) :
    Balanced top c.writeDefinition := by
  unfold Content.writeDefinition
  split
  · exact Node.balanced_writeDefinitions _
  · exact .throw _

end Hyperscript
