import Hyperscript.Proofs.Generation.Numbering
import Hyperscript.Proofs.Session.Writing

/-!
# Requests at any numbering

A request writes the same code whatever number the next fresh array has, up to the numbers of the
arrays that it takes.  `Session.requests_same_up_to_numbering` says so of child contents, and shows
what follows for an `each`: the code in its two branches is not only alike, it is the same pieces at
two places of the supply.
-/

namespace Hyperscript

/-- Uniform generation by one generator, from the first array on. -/
theorem Generation.Uniform.run {missing : Prop} {α : Type} {R : (Nat → α) → Prop}
    {g : Generation α} (h : Uniform missing R 0 fun _ => g) :
    (∃ f, (f = .noParent → missing) ∧ ∀ start, g.run start = .error f) ∨
      ∃ a used, R a ∧ ∀ start, g.run start = .ok (a start, start + used) :=
  h

namespace Session

/-- The session with another supply of arrays. -/
def startingAt (s : Session) (start : Nat) : Session :=
  { s with writer := { s.writer with next := start } }

/-- The session with more text, in which the arrays before `next` are taken. -/
def extended (s : Session) (text : String) (next : Nat) : Session :=
  { s with writer := { s.writer with text := s.writer.text ++ text, next := next } }

/-- For every start, the request writes the pieces as filled in for that start and takes `used`
arrays. -/
def WritesPieces (s : Session) (request : Session → Except Fault Session) (pieces : List Piece)
    (used : Nat) : Prop :=
  ∀ start, request (s.startingAt start) = .ok (s.extended (Piece.fill start pieces) (start + used))

/-- For every start, the request ends in the fault. -/
def EndsIn (s : Session) (request : Session → Except Fault Session) (f : Fault) : Prop :=
  ∀ start, request (s.startingAt start) = .error f

section Write

variable {s : Session} {generation : Scope → Generation (List Stmt)}

theorem endsIn_write {f : Fault} (h : ∀ start, (generation s.scope).run start = .error f) :
    s.EndsIn (·.write generation) f := by
  intro start
  show ((generation s.scope).run start >>= _) = _
  rw [h]
  rfl

theorem write_startingAt {start next : Nat} {stmts : List Stmt}
    (h : (generation s.scope).run start = .ok (stmts, next)) :
    (s.startingAt start).write generation = .ok (s.extended
      (Line.renderAll s.writer.pretty (Stmt.linesAll s.writer.indent stmts)) next) := by
  show ((generation s.scope).run start >>= _) = _
  rw [h]
  rfl

theorem writesPieces_write {stmts : Nat → List Stmt} {used : Nat}
    (h : ∀ start, (generation s.scope).run start = .ok (stmts start, start + used))
    (hstmts : StmtsRelocatable stmts) :
    ∃ pieces, s.WritesPieces (·.write generation) pieces used := by
  obtain ⟨pieces, hpieces⟩ := hstmts s.writer.indent s.writer.pretty
  refine ⟨pieces, fun start => ?_⟩
  rw [← hpieces start]
  exact write_startingAt (h start)

open Generation in
/-- Uniform generation makes a request uniform. -/
theorem write_of_uniform {missing : Prop}
    (h : Uniform missing StmtsRelocatable 0 fun _ => generation s.scope) :
    (∃ f, (f = .noParent → missing) ∧ s.EndsIn (·.write generation) f) ∨
      ∃ pieces used, s.WritesPieces (·.write generation) pieces used := by
  rcases h.run with ⟨f, hf, hrun⟩ | ⟨stmts, used, hstmts, hrun⟩
  · exact .inl ⟨f, hf, endsIn_write hrun⟩
  · obtain ⟨pieces, hpieces⟩ := writesPieces_write hrun hstmts
    exact .inr ⟨pieces, used, hpieces⟩

end Write

end Session

/-! ## Loops -/

/-- The text of an `each` around the texts of its parts. -/
def eachText (pretty : Bool) (indent : Int) (source item key : String)
    (definitions arrayBody arrayRest objectBody objectRest : String) : String :=
  let lines := Line.renderAll pretty
  let bind := "var " ++ item ++ " = $$obj[" ++ key ++ "];"
  lines [⟨indent, ";(function()\x7b"⟩, ⟨indent + 2, "var $$obj = " ++ source ++ ";"⟩] ++
    definitions ++
    lines [⟨indent + 2, Code.opening "if ('number' == typeof $$obj.length)"⟩,
      ⟨indent + 4, Code.opening ("for (var " ++ key ++ " = 0, $$l = $$obj.length; " ++ key ++
        " < $$l; " ++ key ++ "++)")⟩,
      ⟨indent + 6, bind⟩] ++
    arrayBody ++ lines [⟨indent + 4, Code.closing⟩] ++ arrayRest ++
    lines [⟨indent + 2, Code.reopening "else"⟩, ⟨indent + 4, "var $$l = 0;"⟩,
      ⟨indent + 4, Code.opening ("for (var " ++ key ++ " in $$obj)")⟩,
      ⟨indent + 6, "$$l++;"⟩, ⟨indent + 6, bind⟩] ++
    objectBody ++ lines [⟨indent + 4, Code.closing⟩] ++ objectRest ++
    lines [⟨indent + 2, Code.closing⟩, ⟨indent, "\x7d).call(this);"⟩]

theorem Line.renderAll_cons (pretty : Bool) (line : Line) (lines : List Line) :
    renderAll pretty (line :: lines) = renderAll pretty [line] ++ renderAll pretty lines :=
  renderAll_append pretty [line] lines

theorem renderAll_each (pretty : Bool) (indent : Int) (source item key : String)
    (definitions arrayBody arrayRest objectBody objectRest : List Stmt) :
    Line.renderAll pretty (Stmt.linesAll indent
        [.each source item key definitions arrayBody arrayRest objectBody objectRest]) =
      eachText pretty indent source item key
        (Line.renderAll pretty (Stmt.linesAll (indent + 2) definitions))
        (Line.renderAll pretty (Stmt.linesAll (indent + 6) arrayBody))
        (Line.renderAll pretty (Stmt.linesAll (indent + 4) arrayRest))
        (Line.renderAll pretty (Stmt.linesAll (indent + 6) objectBody))
        (Line.renderAll pretty (Stmt.linesAll (indent + 4) objectRest)) := by
  have hindent : indent + 4 + 2 = indent + 6 := by omega
  simp only [Stmt.linesAll, Stmt.lines, eachLines, eachText, hindent, List.map_cons, List.map_nil,
    List.append_nil, List.cons_append, List.nil_append, List.append_assoc, Line.renderAll_append,
    Line.renderAll_cons _ _ (_ :: _), Line.renderAll_cons _ _ (_ ++ _), String.append_assoc]

/-- An array to fill, or none, whatever the start. -/
theorem fills_const (parent : Option ArrayName) : Fills (parent = none) fun _ => parent := by
  cases parent with
  | none => exact .none rfl
  | some array => exact .some (relocatable_const array.text)

/-- What an `each` generates before its loops, and what it writes out for them. -/
def eachPrelude (s : Scope) (obj val key : Datum) (children alternate : Content) :
    Generation (List Stmt) := do
  let _ ← obj.written Datum.spell
  let _ ← (← eachScope children alternate).scopeDeclarations
  let definitions ← children.definitions s
  let more ← alternate.definitions s
  let _ ← key.written loopKey
  let _ ← val.written Datum.spell
  return definitions ++ more

/-- Once a value is written out, what it is written as is known. -/
theorem Datum.written_bind {α β : Type} (form : Datum → α) (d : Datum) (next : α → Generation β) :
    (do let text ← d.written form; next text : Generation β) =
      (do let _ ← d.written form; next (form d) : Generation β) := by
  unfold Datum.written
  split <;> rfl

theorem Node.generate_each (s : Scope) (obj val key : Datum) (children alternate : Content) :
    (Node.each obj val key children alternate).generate s = do
      let definitions ← eachPrelude s obj val key children alternate
      let arrayBody ← children.generate s
      let arrayRest ← alternate.whenEmpty s
      let objectBody ← children.generate s
      let objectRest ← alternate.whenEmpty s
      return [.each obj.spell val.spell (loopKey key) definitions arrayBody arrayRest objectBody
        objectRest] := by
  simp only [Node.generate, eachPrelude, bind_assoc, pure_bind]
  rw [Datum.written_bind]
  refine bind_congr fun _ => bind_congr fun _ => bind_congr fun _ => bind_congr fun _ =>
    bind_congr fun _ => ?_
  rw [Datum.written_bind]
  refine bind_congr fun _ => ?_
  rw [Datum.written_bind]

open Generation in
theorem uniform_eachPrelude (missing : Prop) (s : Scope) (obj val key : Datum)
    (children alternate : Content) (taken : Nat) :
    Uniform missing StmtsRelocatable taken fun _ => eachPrelude s obj val key children alternate :=
  uniform_bind_lift (stackless_written _ obj) fun _ =>
    uniform_bind_lift (stackless_eachScope children alternate) fun scope =>
    uniform_bind_lift scope.stackless_scopeDeclarations fun _ =>
    (children.uniform_definitions s taken).bind fun _ used hd =>
    (alternate.uniform_definitions s used).bind fun _ _ hd' =>
    uniform_bind_lift (stackless_written _ key) fun _ =>
    uniform_bind_lift (stackless_written _ val) fun _ => uniform_pure (hd.append hd')

/-- The two loops of an `each` are generated by the same steps.  So the second finds no fault that
the first did not find, and their bodies are two members of one family of statements, as are the two
alternates. -/
theorem Node.run_generate_each (s : Scope) (obj val key : Datum) (children alternate : Content) :
    (∃ f, ∀ start,
      ((Node.each obj val key children alternate).generate s).run start = .error f) ∨
    ∃ (definitions body rest : Nat → List Stmt) (d b r : Nat),
      StmtsRelocatable definitions ∧ StmtsRelocatable body ∧ StmtsRelocatable rest ∧
      (∀ start, (children.generate s).run start = .ok (body start, start + b)) ∧
      (∀ start, (alternate.whenEmpty s).run start = .ok (rest start, start + r)) ∧
      ∀ start, ((Node.each obj val key children alternate).generate s).run start =
        .ok ([.each obj.spell val.spell (loopKey key) (definitions start) (body (start + d))
          (rest (start + d + b)) (body (start + d + b + r)) (rest (start + d + b + r + b))],
          start + d + b + r + b + r) := by
  have hparent := fills_const s.parent
  have hprelude := uniform_eachPrelude True s obj val key children alternate 0
  have hchildren : Generation.Uniform _ StmtsRelocatable 0 fun _ => children.generate s :=
    children.uniform_generate hparent s 0
  have halternate : Generation.Uniform _ StmtsRelocatable 0 fun _ => alternate.whenEmpty s :=
    alternate.uniform_whenEmpty hparent s 0
  simp only [Node.generate_each, StateT.run_bind]
  rcases hprelude.run with ⟨f, -, hd⟩ | ⟨defs, d, hdefs, hd⟩
  · exact .inl ⟨f, fun start => by simp only [hd, error_bind]⟩
  rcases hchildren.run with ⟨f, -, hb⟩ | ⟨body, b, hbody, hb⟩
  · exact .inl ⟨f, fun start => by simp only [hd, hb, ok_bind, error_bind]⟩
  rcases halternate.run with ⟨f, -, hr⟩ | ⟨rest, r, hrest, hr⟩
  · exact .inl ⟨f, fun start => by simp only [hd, hb, hr, ok_bind, error_bind]⟩
  · refine .inr ⟨defs, body, rest, d, b, r, hdefs, hbody, hrest, hb, hr, fun start => ?_⟩
    simp only [hd, hb, hr, ok_bind]
    rfl

/-! ## Requests -/

namespace Session

theorem after_writeWhenEmpty (s : Session) (c : Content) :
    s.after c.writeWhenEmpty = s.write fun scope => c.whenEmpty scope :=
  after_eq_write (c.run_writeWhenEmpty s)

/-- Child contents give the same code for every start of the supply, up to the numbers of the
arrays, or the same fault.  So does an `each`, and in its code the two loops have the same body and
the two alternates are the same, at different places of the supply: first come the definitions, then
the first body and the first alternate, then the second ones. -/
theorem requests_same_up_to_numbering (s : Session) :
    (∀ c : Content, (∃ f, s.EndsIn (·.compileChildren c) f) ∨
      ∃ pieces used, s.WritesPieces (·.compileChildren c) pieces used) ∧
    ∀ (obj val key : Datum) (children alternate : Content),
      (∃ f, s.EndsIn (·.compileNode (.node (.each obj val key children alternate))) f) ∨
      ∃ (definitions body rest : List Piece) (d b r : Nat),
        (s.shift 6).WritesPieces (·.compileChildren children) body b ∧
        (s.shift 4).WritesPieces (·.after alternate.writeWhenEmpty) rest r ∧
        ∀ start,
          (s.startingAt start).compileNode (.node (.each obj val key children alternate)) =
            .ok (s.extended
              (eachText s.writer.pretty s.writer.indent obj.spell val.spell (loopKey key)
                (Piece.fill start definitions)
                (Piece.fill (start + d) body) (Piece.fill (start + d + b) rest)
                (Piece.fill (start + d + b + r) body) (Piece.fill (start + d + b + r + b) rest))
              (start + d + b + r + b + r)) := by
  have hparent := fills_const s.scope.parent
  refine ⟨fun c => ?_, fun obj val key children alternate => ?_⟩
  · simp only [compileChildren_eq]
    exact (write_of_uniform (c.uniform_generate hparent s.scope 0)).imp_left
      fun ⟨f, _, hf⟩ => ⟨f, hf⟩
  simp only [compileNode_eq, compileChildren_eq, after_writeWhenEmpty]
  rcases Node.run_generate_each s.scope obj val key children alternate with ⟨f, hf⟩ |
    ⟨defs, body, rest, d, b, r, hdefs, hbody, hrest, hb, hr, hrun⟩
  · exact .inl ⟨f, endsIn_write hf⟩
  · right
    -- the parts of the statement stand at indentations of their own
    obtain ⟨definitions, hdefinitions⟩ := hdefs (s.writer.indent + 2) s.writer.pretty
    obtain ⟨bodyPieces, hbodyPieces⟩ := hbody (s.writer.indent + 6) s.writer.pretty
    obtain ⟨restPieces, hrestPieces⟩ := hrest (s.writer.indent + 4) s.writer.pretty
    refine ⟨definitions, bodyPieces, restPieces, d, b, r, fun start => ?_, fun start => ?_,
      fun start => ?_⟩
    · rw [← hbodyPieces start]
      exact write_startingAt (s := s.shift 6) (hb start)
    · rw [← hrestPieces start]
      exact write_startingAt (s := s.shift 4) (hr start)
    · rw [write_startingAt (hrun start), renderAll_each]
      simp only [hdefinitions, hbodyPieces, hrestPieces]

end Session

end Hyperscript
