import Hyperscript.Session

/-!
# Sessions write generated code

Writing is a sequence of small steps, and some of them have to be undone later: the indentation, the
stack of arrays, the depth of mixin bodies.  Generation has no such state.  It gives statements, and
the layout says at which indentation each of their lines stands.

The main statements are that both come to the same: `Node.run_write` and its companions for the
other functions, one for each, and from them `Session.compileChildren_eq` and the equations of the
other requests.  A request fails where generation fails and with the same fault, and otherwise it
changes nothing but the text, by the lines of the statements, and the supply of arrays.
-/

namespace Hyperscript

/-! ## Sessions after writing -/

namespace Session

/-- The session after some lines were written and the arrays before `next` were taken. -/
def wrote (s : Session) (lines : List Line) (next : Nat) : Session :=
  { s with writer := { s.writer.put lines with next := next } }

/-- The outcome of writing what a generation gives. -/
def writes {α : Type} (s : Session) (g : Generation α) (layout : Int → α → List Line) :
    Except Fault (Unit × Session) := do
  let (a, next) ← g.run s.writer.next
  return ((), s.wrote (layout s.writer.indent a) next)

/-- Generates statements and writes them. -/
def write (s : Session) (generation : Scope → Generation (List Stmt)) : Except Fault Session := do
  let (stmts, next) ← (generation s.scope).run s.writer.next
  return { s with writer := { s.writer.statements stmts with next := next } }

/-- The script of top-level nodes. -/
def program (scope : Scope) (c : Content) : Generation Program := do
  let root ← Generation.fresh
  let definitions ← c.hoisted scope
  let body ← c.generate (scope.filling root)
  return ⟨scope.options.runtime.isTrue, definitions, root, body⟩

section Updates

variable (s : Session) (lines more : List Line) (next next' : Nat) (amount other : Int)
  (array : ArrayName)

@[simp] theorem scope_options : s.scope.options = s.options := rfl

@[simp] theorem scope_mixins : s.scope.mixins = s.mixins := rfl

@[simp] theorem scope_depth : s.scope.depth = s.depth := rfl

@[simp] theorem wrote_scope : (s.wrote lines next).scope = s.scope := rfl

@[simp] theorem wrote_options : (s.wrote lines next).options = s.options := rfl

@[simp] theorem wrote_next : (s.wrote lines next).writer.next = next := rfl

@[simp] theorem wrote_indent : (s.wrote lines next).writer.indent = s.writer.indent := rfl

@[simp] theorem wrote_wrote :
    (s.wrote lines next).wrote more next' = s.wrote (lines ++ more) next' := by
  simp only [wrote, Writer.put, Line.renderAll_append, String.append_assoc]

theorem wrote_nil : s.wrote [] s.writer.next = s := by
  show ({ s with writer := { s.writer with text := s.writer.text ++ "" } } : Session) = s
  rw [String.append_empty]

@[simp] theorem shift_scope : (s.shift amount).scope = s.scope := rfl

@[simp] theorem shift_next : (s.shift amount).writer.next = s.writer.next := rfl

@[simp] theorem shift_indent : (s.shift amount).writer.indent = s.writer.indent + amount := rfl

@[simp] theorem shift_zero : s.shift 0 = s := by
  show ({ s with writer := { s.writer with indent := s.writer.indent + 0 } } : Session) = s
  rw [Int.add_zero]

@[simp] theorem shift_shift : (s.shift amount).shift other = s.shift (amount + other) := by
  simp only [shift, Writer.shift, Int.add_assoc]

@[simp] theorem pushParent_scope : (s.pushParent array).scope = s.scope.filling array := by
  simp only [scope, pushParent, Scope.filling, List.getLast?_concat]

@[simp] theorem pushParent_writer : (s.pushParent array).writer = s.writer := rfl

@[simp] theorem deepen_scope : (s.deepen 1).scope = s.scope.inMixin := rfl

@[simp] theorem deepen_writer : (s.deepen amount).writer = s.writer := rfl

@[simp] theorem deepen_zero : s.deepen 0 = s := by
  show ({ s with depth := s.depth + 0 } : Session) = s
  rw [Int.add_zero]

@[simp] theorem deepen_deepen : (s.deepen amount).deepen other = s.deepen (amount + other) := by
  simp only [deepen, Int.add_assoc]

-- What has been written is kept outermost, then the array, then the depth, and the indentation
-- innermost, so that an update meets the one it undoes.

@[simp] theorem shift_wrote :
    (s.wrote lines next).shift amount = (s.shift amount).wrote lines next := rfl

@[simp] theorem pushParent_wrote :
    (s.wrote lines next).pushParent array = (s.pushParent array).wrote lines next := rfl

@[simp] theorem deepen_wrote :
    (s.wrote lines next).deepen amount = (s.deepen amount).wrote lines next := rfl

@[simp] theorem shift_pushParent :
    (s.pushParent array).shift amount = (s.shift amount).pushParent array := rfl

@[simp] theorem shift_deepen :
    (s.deepen amount).shift other = (s.shift other).deepen amount := rfl

@[simp] theorem popParent_pushParent :
    ((s.pushParent array).wrote lines next).popParent = pure (s.wrote lines next) := by
  simp [popParent, pushParent, wrote, pure, Except.pure]

end Updates

end Session

/-! ## Single steps -/

namespace Writing

variable (s : Session)

@[simp] theorem run_pure {α : Type} (a : α) : (pure a : Writing α).run s = pure (a, s) := rfl

@[simp] theorem run_bind {α β : Type} (steps : Writing α) (next : α → Writing β) :
    (steps >>= next).run s = steps.run s >>= fun (a, s) => (next a).run s := by
  simp only [Writing.run, attempt, ExceptT.run_bind, StateT.run_bind]
  rcases StateT.run (ExceptT.run steps) s with ⟨outcome, s'⟩
  cases outcome <;> rfl

@[simp] theorem run_get : (get : Writing Session).run s = pure (s, s) := rfl

@[simp] theorem run_set (s' : Session) : (set s' : Writing Unit).run s = pure ((), s') := rfl

@[simp] theorem run_lift {α : Type} (e : Except Fault α) :
    (liftM e : Writing α).run s = e >>= fun a => pure (a, s) := by
  cases e <;> rfl

@[simp high] theorem run_throw {α : Type} (f : Fault) :
    (throw f : Writing α).run s = .error f := rfl

@[simp] theorem run_line (text : String) :
    (line text).run s = pure ((), s.wrote [⟨s.writer.indent, text⟩] s.writer.next) := rfl

@[simp] theorem run_code (text : String) :
    (code text).run s =
      pure ((), s.wrote ((Text.codeLines text).map (⟨s.writer.indent, ·⟩)) s.writer.next) := rfl

@[simp] theorem run_openBlock (header : String) :
    (openBlock header).run s =
      pure ((), (s.shift 2).wrote [⟨s.writer.indent, Code.opening header⟩] s.writer.next) := rfl

@[simp] theorem run_closeBlock (trailer : String) :
    (closeBlock trailer).run s =
      pure ((), (s.shift (-2)).wrote [⟨s.writer.indent + -2, trailer⟩] s.writer.next) := rfl

@[simp] theorem run_reopenBlock (header : String) :
    (reopenBlock header).run s =
      pure ((), s.wrote [⟨s.writer.indent + -2, Code.reopening header⟩] s.writer.next) := by
  have h : (reopenBlock header).run s =
      pure ((), ((s.shift (-2)).wrote [⟨s.writer.indent + -2, Code.reopening header⟩]
        s.writer.next).shift 2) := rfl
  rw [h, Session.shift_wrote, Session.shift_shift]
  exact congrArg (fun s' : Session => pure ((), s'.wrote _ _)) s.shift_zero

@[simp] theorem run_indent : indent.run s = pure ((), s.shift 2) := rfl

@[simp] theorem run_dedent : dedent.run s = pure ((), s.shift (-2)) := rfl

@[simp] theorem run_fresh :
    fresh.run s = pure (.fresh s.writer.next, s.wrote [] (s.writer.next + 1)) := by
  have h : fresh.run s = pure (.fresh s.writer.next,
      { s with writer := { s.writer with next := s.writer.next + 1 } }) := rfl
  simp only [h, Session.wrote, Writer.put, Line.renderAll, List.map_nil, String.join_nil,
    String.append_empty]

@[simp] theorem run_parent : parent.run s = s.scope.target >>= fun array => pure (array, s) := rfl

@[simp] theorem run_enter (array : ArrayName) :
    (enter array).run s = pure ((), s.pushParent array) := rfl

@[simp] theorem run_leave : leave.run s = s.popParent >>= fun s => pure ((), s) := by
  simp [leave]

@[simp] theorem run_enterMixin : enterMixin.run s = pure ((), s.deepen 1) := rfl

@[simp] theorem run_leaveMixin : leaveMixin.run s = pure ((), s.deepen (-1)) := rfl

end Writing

namespace Generation

@[simp] theorem run_fresh (k : Nat) : fresh.run k = pure (.fresh k, k + 1) := rfl

@[simp] theorem run_lift {α : Type} (e : Except Fault α) (k : Nat) :
    (liftM e : Generation α).run k = e >>= fun a => pure (a, k) := rfl

@[simp high] theorem run_throw {α : Type} (f : Fault) (k : Nat) :
    (throw f : Generation α).run k = .error f := rfl

end Generation

/-! ## Writing and generation

One statement for each function, by recursion over the tree as both go through it.  A step that
reads or computes something is the same on either side; every other step only moves on the session
of the left side, and in the end that session is the one that has written the laid out lines. -/

theorem ok_bind {α β : Type} (a : α) (next : α → Except Fault β) :
    (.ok a >>= next : Except Fault β) = next a := rfl

theorem error_bind {α β : Type} (f : Fault) (next : α → Except Fault β) :
    (.error f >>= next : Except Fault β) = .error f := rfl

theorem error_map {α β : Type} (f : Fault) (g : α → β) :
    (g <$> .error f : Except Fault β) = .error f := rfl

/-- The call of an element without children, with or without properties. -/
theorem element_toList (tag : String) (properties : Option String) :
    Code.element (tag :: properties.toList) = (Value.leaf tag properties).expr := by
  cases properties <;> rfl

/-- The lines of how a conditional goes on, up to the brace that closes its last block; `indent` is
the indentation inside that block. -/
def Otherwise.inner (indent : Int) : Otherwise → List Line
  | .done => []
  | .body stmts =>
    ⟨indent + -2, Code.reopening "else"⟩ :: Stmt.linesAll indent stmts
  | .elseIf test stmts otherwise =>
    ⟨indent + -2, Code.reopening ("else if (" ++ test ++ ")")⟩ :: Stmt.linesAll indent stmts ++
      otherwise.inner indent

theorem Otherwise.inner_append (indent : Int) :
    ∀ o : Otherwise, o.inner (indent + 2) ++ [⟨indent, Code.closing⟩] = o.lines indent
  | .done => rfl
  | .body stmts => by
    rw [Otherwise.inner, Otherwise.lines, Int.add_neg_cancel_right]
  | .elseIf test stmts otherwise => by
    rw [Otherwise.inner, Otherwise.lines, Int.add_neg_cancel_right, List.append_assoc,
      Otherwise.inner_append indent otherwise]

attribute [local simp] ok_bind error_bind error_map Int.add_assoc Session.writes Session.wrote_nil
  Stmt.lines Stmt.linesAll
  Stmt.linesAll_append Clause.lines Clause.linesAll Otherwise.inner

theorem Scope.run_flush (texts : List Datum) (s : Session) :
    (Writing.flush texts).run s = s.writes (s.scope.flush texts) Stmt.linesAll := by
  unfold Writing.flush Scope.flush
  cases texts with
  | nil => simp
  | cons text texts => simp [Value.expr]

mutual

theorem Node.run_write : ∀ (n : Node) (s : Session),
    n.write.run s = s.writes (n.generate s.scope) Stmt.linesAll
  | .tag name attributes children, s => by
    rw [Node.write, Node.generate]
    by_cases h : children.isTrue = true
    · simp [h, children.run_write]
    · simp [h, element_toList]
  | .text value, s => by
    rw [Node.write, Node.generate]
    simp [Value.expr]
  | .code value buffer children, s => by
    rw [Node.write, Node.generate]
    by_cases hbuffer : buffer.isTrue = true
    · by_cases h : children.isTrue = true
      · simp [hbuffer, h, children.run_write, Value.expr]
      · simp [hbuffer, h, Value.expr]
    · by_cases h : children.isNull = true
      · simp [hbuffer, h]
      · simp [hbuffer, h, children.run_write]
  | .comment .., s => by
    rw [Node.write, Node.generate]
    simp
  | .conditional test consequent alternate, s => by
    rw [Node.write, Node.generate]
    simp [consequent.run_write, alternate.run_writeOtherwise, Otherwise.inner_append]
  | .branch .., s => by
    rw [Node.write, Node.generate]
    simp
  | .switch expr whens, s => by
    rw [Node.write, Node.generate]
    simp [whens.run_writeClauses]
  | .each obj val key children alternate, s => by
    rw [Node.write, Node.generate]
    simp [children.run_write, children.run_writeDefinitions, alternate.run_writeDefinitions,
      alternate.run_writeWhenEmpty, eachLines]
  | .loop test children, s => by
    rw [Node.write, Node.generate]
    simp [children.run_write]
  | .mixin .., s => by
    rw [Node.write, Node.generate]
    simp
  | .call name args attributes children, s => by
    rw [Node.write, Node.generate]
    cases hproperties : attributes.code? s.options with
    | error f => simp [hproperties]
    | ok properties =>
      by_cases h : children.isNull = true
      · cases properties <;> simp [hproperties, h]
      · cases properties <;>
          simp [hproperties, h, children.run_write, children.run_writeDefinitions,
            Writing.returning, functionLines]
  | .placeholder, s => by
    rw [Node.write, Node.generate]
    by_cases h : s.depth = 0
    · simp [h]
    · simp [h]
  | .other _, s => by
    rw [Node.write, Node.generate]
    simp

theorem Content.run_write : ∀ (c : Content) (s : Session),
    c.write.run s = s.writes (c.generate s.scope) Stmt.linesAll
  | .node n, s => by
    rw [Content.write, Content.generate]
    simp
  | .list items, s => by
    rw [Content.write, Content.generate]
    exact run_writeItems items [] s
  | .datum d, s => by
    rw [Content.write, Content.generate]
    simp

theorem run_writeItems : ∀ (items : List Content) (texts : List Datum) (s : Session),
    (writeItems texts items).run s = s.writes (generateItems s.scope texts items) Stmt.linesAll
  | [], texts, s => by
    rw [writeItems, generateItems]
    exact Scope.run_flush texts s
  | .node n :: rest, texts, s => by
    have hnode := n.run_write
    have hrest := run_writeItems rest
    cases n with
    | text value =>
      rw [writeItems, generateItems]
      exact hrest (texts ++ [value]) s
    | _ => simp [writeItems, generateItems, Scope.run_flush, hnode, hrest]
  | .list _ :: rest, texts, s | .datum _ :: rest, texts, s => by
    simp [writeItems, generateItems, Scope.run_flush]

theorem Content.run_writeOtherwise : ∀ (c : Content) (s : Session),
    c.writeOtherwise.run s =
      s.writes (c.otherwise s.scope) Otherwise.inner
  | .node (.conditional test consequent alternate), s => by
    rw [Content.writeOtherwise, Content.otherwise]
    simp [consequent.run_write, alternate.run_writeOtherwise]
  | .node (.tag ..), s | .node (.text _), s | .node (.code ..), s | .node (.comment ..), s
  | .node (.branch ..), s | .node (.switch ..), s | .node (.each ..), s | .node (.loop ..), s
  | .node (.mixin ..), s | .node (.call ..), s | .node .placeholder, s | .node (.other _), s => by
    simp [Content.writeOtherwise, Content.otherwise]
  | .list items, s => by
    rw [Content.writeOtherwise, Content.otherwise]
    cases items with
    | nil => simp
    | cons item items => simp [run_writeItems (item :: items)]
  | .datum d, s => by
    rw [Content.writeOtherwise, Content.otherwise]
    by_cases h : d.isTrue = true
    · simp [h]
    · simp [h]

theorem Content.run_writeClauses : ∀ (c : Content) (s : Session),
    c.writeClauses.run s = s.writes (c.clauses s.scope) Clause.linesAll
  | .node n, s => by
    rw [Content.writeClauses, Content.clauses]
    simp
  | .list items, s => by
    rw [Content.writeClauses, Content.clauses]
    exact run_writeClausesOfItems items s
  | .datum d, s => by
    rw [Content.writeClauses, Content.clauses]
    simp

theorem run_writeClausesOfItems : ∀ (items : List Content) (s : Session),
    (writeClausesOfItems items).run s = s.writes (clausesOfItems s.scope items) Clause.linesAll
  | [], s => by
    rw [writeClausesOfItems, clausesOfItems]
    simp
  | .node (.branch expr children) :: rest, s => by
    rw [writeClausesOfItems, clausesOfItems]
    by_cases h : children.isNull = true
    · simp [h, run_writeClausesOfItems rest]
    · simp [h, children.run_write, run_writeClausesOfItems rest]
  | .node (.tag ..) :: _, s | .node (.text _) :: _, s | .node (.code ..) :: _, s
  | .node (.comment ..) :: _, s | .node (.conditional ..) :: _, s | .node (.switch ..) :: _, s
  | .node (.each ..) :: _, s | .node (.loop ..) :: _, s | .node (.mixin ..) :: _, s
  | .node (.call ..) :: _, s | .node .placeholder :: _, s | .node (.other _) :: _, s
  | .list _ :: _, s | .datum _ :: _, s => by
    simp [writeClausesOfItems, clausesOfItems]

theorem Content.run_writeWhenEmpty : ∀ (c : Content) (s : Session),
    c.writeWhenEmpty.run s = s.writes (c.whenEmpty s.scope) Stmt.linesAll
  | .node n, s => by
    rw [Content.writeWhenEmpty, Content.whenEmpty]
    simp
  | .list items, s => by
    rw [Content.writeWhenEmpty, Content.whenEmpty]
    simp [run_writeItems items, Otherwise.lines]
  | .datum d, s => by
    rw [Content.writeWhenEmpty, Content.whenEmpty]
    by_cases h : d.isNull = true
    · simp [h]
    · simp [h, Otherwise.lines]

theorem Node.run_writeDefinitions : ∀ (n : Node) (s : Session),
    n.writeDefinitions.run s = s.writes (n.definitions s.scope) Stmt.linesAll
  | .tag _ _ children, s | .code _ _ children, s | .loop _ children, s | .branch _ children, s
  | .switch _ children, s => by
    rw [Node.writeDefinitions, Node.definitions]
    exact children.run_writeDefinitions s
  | .conditional _ consequent alternate, s => by
    rw [Node.writeDefinitions, Node.definitions]
    simp [consequent.run_writeDefinitions, alternate.run_writeAlternateDefinitions]
  | .mixin name params rest children, s => by
    rw [Node.writeDefinitions, Node.definitions]
    by_cases h : rest.isNull = true
    · obtain rfl : rest = .null := by cases rest <;> first | rfl | cases h
      simp [Datum.isNull, children.run_write, children.run_writeDefinitions, Writing.returning,
        functionLines]
    · cases hwritable : rest.isWritable with
      | true =>
        simp [h, hwritable, Datum.written, children.run_write, children.run_writeDefinitions,
          Writing.returning, functionLines]
      | false => simp [h, hwritable, Datum.written]
  | .text _, s | .comment .., s | .each .., s | .call .., s | .placeholder, s | .other _, s => by
    rw [Node.writeDefinitions, Node.definitions]
    simp

theorem Content.run_writeDefinitions : ∀ (c : Content) (s : Session),
    c.writeDefinitions.run s = s.writes (c.definitions s.scope) Stmt.linesAll
  | .list items, s => by
    rw [Content.writeDefinitions, Content.definitions]
    exact run_writeDefinitionsOfItems items s
  | .node _, s | .datum _, s => by
    rw [Content.writeDefinitions, Content.definitions]
    simp

theorem Content.run_writeAlternateDefinitions : ∀ (c : Content) (s : Session),
    c.writeAlternateDefinitions.run s = s.writes (c.alternateDefinitions s.scope) Stmt.linesAll
  | .node n, s => by
    rw [Content.writeAlternateDefinitions, Content.alternateDefinitions]
    by_cases h : n.isConditional = true
    · rw [if_pos h, if_pos h]
      exact n.run_writeDefinitions s
    · simp [h]
  | .list items, s => by
    rw [Content.writeAlternateDefinitions, Content.alternateDefinitions]
    exact run_writeDefinitionsOfItems items s
  | .datum _, s => by
    rw [Content.writeAlternateDefinitions, Content.alternateDefinitions]
    simp

theorem run_writeDefinitionsOfItems : ∀ (items : List Content) (s : Session),
    (writeDefinitionsOfItems items).run s =
      s.writes (definitionsOfItems s.scope items) Stmt.linesAll
  | [], s => by
    rw [writeDefinitionsOfItems, definitionsOfItems]
    simp
  | .node n :: rest, s => by
    rw [writeDefinitionsOfItems, definitionsOfItems]
    simp [n.run_writeDefinitions, run_writeDefinitionsOfItems rest]
  | .list _ :: rest, s | .datum _ :: rest, s => by
    simp only [writeDefinitionsOfItems, definitionsOfItems]
    exact run_writeDefinitionsOfItems rest s

end

/-! ## Requests -/

theorem Content.run_writeOne (c : Content) (s : Session) :
    c.writeOne.run s = s.writes (c.generateOne s.scope) Stmt.linesAll := by
  cases c with
  | node n => exact n.run_write s
  | list items => rfl
  | datum d => rfl

theorem Content.run_hoist (c : Content) (s : Session) :
    c.hoist.run s = s.writes (c.hoisted s.scope) Stmt.linesAll := by
  simp [Content.hoist, Content.hoisted, c.run_writeDefinitions]

theorem Content.run_writeDefinition (c : Content) (s : Session) :
    c.writeDefinition.run s = s.writes (c.defineOne s.scope) Stmt.linesAll := by
  cases c with
  | node n =>
    cases n with
    | mixin name params rest children =>
      exact (Node.mixin name params rest children).run_writeDefinitions s
    | _ => rfl
  | list items => rfl
  | datum d => rfl

theorem Content.run_writeProgram (c : Content) (s : Session) :
    c.writeProgram.run s =
      s.writes (Session.program s.scope c) fun indent p => p.lines indent := by
  unfold Content.writeProgram Session.program
  by_cases h : s.options.runtime.isTrue = true
  · simp [h, c.run_hoist, c.run_write, Program.lines]
  · simp [h, c.run_hoist, c.run_write, Program.lines]

namespace Session

/-- Steps that write what is generated, as a request. -/
theorem after_eq_write {s : Session} {steps : Writing Unit}
    {generation : Scope → Generation (List Stmt)}
    (h : steps.run s = s.writes (generation s.scope) Stmt.linesAll) :
    s.after steps = s.write generation := by
  unfold after write
  rw [h, writes]
  cases (generation s.scope).run s.writer.next <;> rfl

theorem after_eq_ok_iff {s s' : Session} {steps : Writing Unit} :
    s.after steps = .ok s' ↔ steps.attempt s = (.ok (), s') := by
  unfold after Writing.run
  rcases steps.attempt s with ⟨outcome, t⟩
  cases outcome with
  | error f => simp [Except.map, bind, Except.bind]
  | ok _ => simp [Except.map, bind, Except.bind, pure, Except.pure]

theorem write_eq_ok_iff {s s' : Session} {generation : Scope → Generation (List Stmt)} :
    s.write generation = .ok s' ↔ ∃ stmts next,
      (generation s.scope).run s.writer.next = .ok (stmts, next) ∧
        s' = { s with writer := { s.writer.statements stmts with next := next } } := by
  unfold write
  cases (generation s.scope).run s.writer.next with
  | error f => simp [bind, Except.bind]
  | ok result =>
    obtain ⟨stmts, next⟩ := result
    constructor
    · intro h
      cases h
      exact ⟨stmts, next, rfl, rfl⟩
    · rintro ⟨_, _, h, rfl⟩
      cases h
      rfl

theorem compileChildren_eq (s : Session) (c : Content) :
    s.compileChildren c = s.write fun scope => c.generate scope :=
  after_eq_write (c.run_write s)

theorem compileNode_eq (s : Session) (c : Content) :
    s.compileNode c = s.write fun scope => c.generateOne scope :=
  after_eq_write (c.run_writeOne s)

theorem compileScope_eq (s : Session) (c : Content) :
    s.compileScope c = s.write fun scope => c.hoisted scope :=
  after_eq_write (c.run_hoist s)

theorem compileDefinition_eq (s : Session) (c : Content) :
    s.compileDefinition c = s.write fun scope => c.defineOne scope :=
  after_eq_write (c.run_writeDefinition s)

/-- Once the mixins are declared, the lines of the whole script are written. -/
theorem compileModule_eq (s : Session) (c : Content) :
    s.compileModule c = do
      let mixins ← (← c.declarations).foldlM declare s.mixins
      let (program, next) ← (program { s.scope with mixins } c).run s.writer.next
      return { s with
        mixins
        writer := { s.writer.put (program.lines s.writer.indent) with next := next } } := by
  have hprogram : ∀ mixins : Registry, ({ s with mixins } : Session).after c.writeProgram = do
      let (program, next) ← (program { s.scope with mixins } c).run s.writer.next
      return { s with
        mixins
        writer := { s.writer.put (program.lines s.writer.indent) with next := next } } := by
    intro mixins
    unfold after
    rw [c.run_writeProgram]
    show (({ s with mixins } : Session).writes (program { s.scope with mixins } c) _ >>= _) = _
    simp only [writes]
    cases (program { s.scope with mixins } c).run s.writer.next <;> rfl
  simp only [compileModule, hprogram]

end Session

end Hyperscript
