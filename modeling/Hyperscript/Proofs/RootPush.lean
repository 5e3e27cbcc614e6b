import Hyperscript.Proofs.ArrayDiscipline

/-!
# The one push onto the root array

A script returns the first entry of its root array.  Whatever mixins, loops, code and comments stand
around the root of a template or fill it, the compiler writes exactly one push onto that array: the
one for the root, outside of every block that it opens.

To say where a line stands, `Stmt.depths` counts the blocks around each line of a statement, in the
order of `Stmt.lines` and `Stmt.marks`.  The main statement is `compile_pushes_root_once`.
-/

namespace Hyperscript

/-! ## Nesting depth -/

def functionDepths (depth : Nat) (definitions body : List Nat) : List Nat :=
  definitions ++ depth :: body ++ [depth]

def eachDepths (depth first : Nat) (body rest : List Nat) : List Nat :=
  depth :: List.replicate first (depth + 1) ++ body ++ depth :: rest

mutual

/-- The number of blocks around each line of a statement that itself stands in `depth` of them.
Conditionals, switches, loops, blocks of code and functions are blocks; the line that opens or
closes one stands outside of it. -/
def Stmt.depths (depth : Nat) : Stmt → List Nat
  | .push .. | .call .. => [depth]
  -- what fills the array of an element is indented, but it is not in a block
  | .element _ _ _ _ body => depth :: Stmt.depthsAll depth body ++ [depth]
  | .splice code => List.replicate (Text.codeLines code).length depth
  | .codeBlock header body =>
    List.replicate (Text.codeLines (Code.opening header)).length depth ++
      Stmt.depthsAll (depth + 1) body ++ [depth]
  | .cond _ body otherwise =>
    depth :: Stmt.depthsAll (depth + 1) body ++ otherwise.depths depth
  | .switch _ clauses => depth :: Clause.depthsAll (depth + 1) clauses ++ [depth]
  | .each _ _ _ definitions arrayBody arrayRest objectBody objectRest =>
    [depth, depth + 1] ++ Stmt.depthsAll (depth + 1) definitions ++
      (depth + 1) :: eachDepths (depth + 2) 1 (Stmt.depthsAll (depth + 3) arrayBody)
        (Stmt.depthsAll (depth + 2) arrayRest) ++ [depth + 1, depth + 2] ++
      eachDepths (depth + 2) 2 (Stmt.depthsAll (depth + 3) objectBody)
        (Stmt.depthsAll (depth + 2) objectRest) ++ [depth + 1, depth]
  | .loop _ body => depth :: Stmt.depthsAll (depth + 1) body ++ [depth]
  | .define _ _ rest definitions _ body =>
    [depth, depth + 1] ++ List.replicate rest.toList.length (depth + 1) ++
      functionDepths (depth + 1) (Stmt.depthsAll (depth + 1) definitions)
        (Stmt.depthsAll (depth + 1) body) ++ [depth]
  | .callWith _ _ _ _ definitions _ body =>
    depth :: functionDepths (depth + 1) (Stmt.depthsAll (depth + 1) definitions)
      (Stmt.depthsAll (depth + 1) body) ++ [depth]
  | .insertBlock _ => [depth, depth + 1, depth]

def Stmt.depthsAll (depth : Nat) : List Stmt → List Nat
  | [] => []
  | s :: rest => s.depths depth ++ Stmt.depthsAll depth rest

def Otherwise.depths (depth : Nat) : Otherwise → List Nat
  | .done => [depth]
  | .body body => depth :: Stmt.depthsAll (depth + 1) body ++ [depth]
  | .elseIf _ body otherwise =>
    depth :: Stmt.depthsAll (depth + 1) body ++ otherwise.depths depth

-- the statements of a clause belong to the block of its switch
def Clause.depths (depth : Nat) : Clause → List Nat
  | .fallThrough _ => [depth]
  | .body _ body => depth :: Stmt.depthsAll depth body ++ [depth]

def Clause.depthsAll (depth : Nat) : List Clause → List Nat
  | [] => []
  | c :: rest => c.depths depth ++ Clause.depthsAll depth rest

end

/-- The number of blocks around each line of a script. -/
def Program.depths (p : Program) : List Nat :=
  (if p.runtime then List.replicate (Text.codeLines Program.bindingCode).length 0 else []) ++
    0 :: Stmt.depthsAll 0 p.definitions ++ 0 :: Stmt.depthsAll 0 p.body ++ [0]

mutual

theorem Stmt.length_depths : ∀ (s : Stmt) (depth : Nat), (s.depths depth).length = s.marks.length
  | .push .., _ | .call .., _ | .insertBlock _, _ => rfl
  | .element _ _ _ _ body, depth => by
    simp [Stmt.depths, Stmt.marks, Stmt.length_depthsAll body]
  | .splice _, depth => by simp [Stmt.depths, Stmt.marks, unmarked]
  | .codeBlock _ body, depth => by
    simp [Stmt.depths, Stmt.marks, unmarked, Stmt.length_depthsAll body]
  | .cond _ body otherwise, depth => by
    simp [Stmt.depths, Stmt.marks, Stmt.length_depthsAll body, otherwise.length_depths]
  | .switch _ clauses, depth => by
    simp [Stmt.depths, Stmt.marks, Clause.length_depthsAll clauses]
  | .each _ _ _ definitions arrayBody arrayRest objectBody objectRest, depth => by
    simp [Stmt.depths, Stmt.marks, eachDepths, eachMarks, unmarked,
      Stmt.length_depthsAll definitions, Stmt.length_depthsAll arrayBody,
      Stmt.length_depthsAll arrayRest, Stmt.length_depthsAll objectBody,
      Stmt.length_depthsAll objectRest]
  | .loop _ body, depth => by simp [Stmt.depths, Stmt.marks, Stmt.length_depthsAll body]
  | .define _ _ _ definitions _ body, depth => by
    simp [Stmt.depths, Stmt.marks, functionDepths, functionMarks, unmarked,
      Stmt.length_depthsAll definitions, Stmt.length_depthsAll body]
  | .callWith _ _ _ _ definitions _ body, depth => by
    simp [Stmt.depths, Stmt.marks, functionDepths, functionMarks,
      Stmt.length_depthsAll definitions, Stmt.length_depthsAll body]

theorem Stmt.length_depthsAll : ∀ (stmts : List Stmt) (depth : Nat),
    (Stmt.depthsAll depth stmts).length = (Stmt.marksAll stmts).length
  | [], _ => rfl
  | s :: rest, depth => by
    simp [Stmt.depthsAll, Stmt.marksAll, s.length_depths, Stmt.length_depthsAll rest]

theorem Otherwise.length_depths : ∀ (otherwise : Otherwise) (depth : Nat),
    (otherwise.depths depth).length = otherwise.marks.length
  | .done, _ => rfl
  | .body body, depth => by
    simp [Otherwise.depths, Otherwise.marks, Stmt.length_depthsAll body]
  | .elseIf _ body otherwise, depth => by
    simp [Otherwise.depths, Otherwise.marks, Stmt.length_depthsAll body, otherwise.length_depths]

theorem Clause.length_depths : ∀ (clause : Clause) (depth : Nat),
    (clause.depths depth).length = clause.marks.length
  | .fallThrough _, _ => rfl
  | .body _ body, depth => by simp [Clause.depths, Clause.marks, Stmt.length_depthsAll body]

theorem Clause.length_depthsAll : ∀ (clauses : List Clause) (depth : Nat),
    (Clause.depthsAll depth clauses).length = (Clause.marksAll clauses).length
  | [], _ => rfl
  | c :: rest, depth => by
    simp [Clause.depthsAll, Clause.marksAll, c.length_depths, Clause.length_depthsAll rest]

end

theorem Stmt.depthsAll_append (depth : Nat) (xs ys : List Stmt) :
    Stmt.depthsAll depth (xs ++ ys) = Stmt.depthsAll depth xs ++ Stmt.depthsAll depth ys := by
  induction xs with
  | nil => rfl
  | cons x xs ih => rw [List.cons_append, Stmt.depthsAll, Stmt.depthsAll, ih, List.append_assoc]

theorem Stmt.length_linesAll (stmts : List Stmt) (indent : Int) :
    (Stmt.linesAll indent stmts).length = (Stmt.marksAll stmts).length := by
  have hshow : LinesShow False (Stmt.linesAll indent stmts) (Stmt.marksAll stmts) :=
    Stmt.linesAll_show stmts indent nofun
  exact hshow.length_eq

/-! ## What the top level emits -/

/-- Silent nodes emit code of the template at most. -/
theorem ItemsEmit.silent {s : Scope} {k k' : Nat} {rest : List Content} :
    ∀ {before : List Content} {stmts : List Stmt}, ItemsEmit (before ++ rest) s [] k stmts k' →
      (∀ c ∈ before, c.Silent) →
      ∃ (codes : List String) (others : List Stmt), stmts = codes.map .splice ++ others ∧
        ItemsEmit rest s [] k others k'
  | [], stmts, h, _ => ⟨[], stmts, rfl, h⟩
  | c :: before, stmts, h, hsilent => by
    have hbefore : ∀ c ∈ before, c.Silent := fun c hc => hsilent c (List.mem_cons_of_mem _ hc)
    cases hsilent c (List.mem_cons_self ..) with
    | code value =>
      cases h with
      | cons _ hflush hn hrest =>
        cases hflush
        cases hn with
        | splice _ _ _ =>
          obtain ⟨codes, others, rfl, hothers⟩ := hrest.silent hbefore
          exact ⟨_ :: codes, others, rfl, hothers⟩
        | value hbuffer | bareValue hbuffer => cases hbuffer
        | codeBlock _ hchildren => cases hchildren
    | mixin name params rest children =>
      cases h with
      | cons _ hflush hn hrest =>
        cases hflush
        cases hn
        exact hrest.silent hbefore
    | comment value buffer =>
      cases h with
      | cons _ hflush hn hrest =>
        cases hflush
        cases hn
        exact hrest.silent hbefore

/-- The top level emits the statement of the root, with code of the template around it. -/
theorem ItemsEmit.root {s : Scope} {k k' : Nat} {before after : List Content} {name : Datum}
    {attributes : Attributes} {children : Content} {stmts : List Stmt}
    (h : ItemsEmit (before ++ .node (.tag name attributes children) :: after) s [] k stmts k')
    (hsilent : ∀ c ∈ before ++ after, c.Silent) :
    ∃ (codes codes' : List String) (stmt : Stmt) (k₁ : Nat),
      stmts = codes.map .splice ++ stmt :: codes'.map .splice ∧
        (Node.tag name attributes children).Emits s k [stmt] k₁ := by
  obtain ⟨codes, others, rfl, hothers⟩ :=
    h.silent fun c hc => hsilent c (List.mem_append_left _ hc)
  cases hothers with
  | cons _ hflush hn hrest =>
    cases hflush
    rw [← List.append_nil after] at hrest
    obtain ⟨codes', last, rfl, hlast⟩ :=
      hrest.silent fun c hc => hsilent c (List.mem_append_right _ hc)
    cases hlast with
    | nil hflush =>
      cases hflush
      cases hn with
      | element htag hproperties htarget hchildren hbody =>
        exact ⟨codes, codes', _, _, by simp, .element htag hproperties htarget hchildren hbody⟩
      | leaf htag hproperties htarget hchildren =>
        exact ⟨codes, codes', _, _, by simp, .leaf htag hproperties htarget hchildren⟩

/-- Code of the template uses no array, as far as the compiler knows. -/
theorem flatten_marksAll_splice (codes : List String) :
    (Stmt.marksAll (codes.map .splice)).flatten = [] := by
  induction codes with
  | nil => rfl
  | cons code codes ih => simp [Stmt.marksAll, Stmt.marks, ih]

/-- The arguments of the call that makes an element: an element with children has its properties
written out, even if there are none. -/
def elementArguments (tag : String) (properties : Option String) : Option ArrayName → List String
  | some array => [tag, properties.getD "\x7b\x7d", array.text]
  | none => tag :: properties.toList

/-- The last line of the statement of a tag pushes the element; above it in that statement nothing
is done to the target. -/
structure Stmt.EndsInPush (s : Stmt) (target : ArrayName) (arguments : List String) : Prop where
  lines : ∃ init, s.lines 0 = init ++ [⟨0, Code.push target.text (Code.element arguments)⟩]
  marks : ∃ init last, s.marks = init ++ [last] ∧ usesOf target init.flatten = [] ∧
    usesOf target last = [.push target]
  depths : ∃ init, s.depths 0 = init ++ [0]

theorem Node.Emits.endsInPush {s : Scope} {k k' : Nat} {target : ArrayName} {name : Datum}
    {attributes : Attributes} {children : Content} {stmt : Stmt}
    (h : (Node.tag name attributes children).Emits s k [stmt] k') (htarget : s.target = .ok target)
    (hold : ∀ j, target = .fresh j → j < k) :
    ∃ tag properties array, tagCode s.options name = .ok tag ∧
      attributes.code? s.options = .ok properties ∧
      (array.isSome = true ↔ children.isTrue = true) ∧
      stmt.EndsInPush target (elementArguments tag properties array) := by
  cases h with
  | element htag hproperties ht hchildren hbody =>
    cases ht.symm.trans htarget
    refine ⟨_, _, some (.fresh k), htag, hproperties, by simp [hchildren], ?_, ?_, ?_⟩
    · exact ⟨_, rfl⟩
    · -- the children are pushed onto an array that is younger than the target
      have hne : target ≠ .fresh k := fun hk => Nat.lt_irrefl k (hold k hk)
      have hinner := hbody.disciplined (s.parentOutside_filling (Nat.lt_succ_self k))
      have hnone := hinner.usesOf_eq_nil (a := target)
        (fun j hj => .inl (Nat.lt_succ_of_lt (hold j hj))) (fun h => hne (Option.some.inj h).symm)
      refine ⟨_, _, rfl, ?_, ?_⟩
      · rw [List.flatten_cons, usesOf_append, hnone]
        simp [usesOf, Ne.symm hne]
      · simp [usesOf, Ne.symm hne]
    · exact ⟨_, rfl⟩
  | leaf htag hproperties ht hchildren =>
    cases ht.symm.trans htarget
    refine ⟨_, _, none, htag, hproperties, by simp [hchildren], ⟨[], ?_⟩, ⟨[], _, rfl, rfl, ?_⟩,
      [], rfl⟩
    · rename_i properties
      cases properties <;> rfl
    · simp [usesOf]

/-! ## The script -/

/-- The script `p` fills its root array by the last line, number `i`, of the statement `stmt`.  The
other statements at the top level are code of the template, and no other line pushes onto the root
array: it is declared, pushed onto once, and then its first entry is returned. -/
structure Program.FilledBy (p : Program) (stmt : Stmt) (i : Nat) (element : String) : Prop where
  root : p.root = .fresh 0
  body : ∃ codes codes' : List String, p.body = codes.map .splice ++ stmt :: codes'.map .splice
  position : ∃ before after, p.lines 0 = before ++ stmt.lines 0 ++ after ∧
    i + 1 = before.length + (stmt.lines 0).length
  line : (p.lines 0)[i]? = some ⟨0, Code.push "n0Child" element⟩
  depth : p.depths[i]? = some 0
  only : ∀ j uses, p.marks[j]? = some uses → (.push p.root ∈ uses ↔ j = i)
  uses : usesOf p.root p.marks.flatten = lifetime p.root .script 1
  result : (p.lines 0).getLast? = some ⟨0, Code.result "n0Child[0]"⟩

theorem push_mem_usesOf {a : ArrayName} {uses : List Use} :
    .push a ∈ usesOf a uses ↔ .push a ∈ uses := by
  simp [usesOf]

/-- A push that is in the middle of some marks and not around it is found at one line only. -/
theorem push_mem_middle {a : ArrayName} {before after : List (List Use)} {middle : List Use}
    (hbefore : .push a ∉ before.flatten) (hmiddle : .push a ∈ middle)
    (hafter : .push a ∉ after.flatten) (j : Nat) (uses : List Use)
    (h : (before ++ middle :: after)[j]? = some uses) :
    .push a ∈ uses ↔ j = before.length := by
  rcases Nat.lt_trichotomy j before.length with hj | rfl | hj
  · rw [List.getElem?_append_left hj] at h
    have hmem := List.mem_of_getElem? h
    refine ⟨fun hpush => absurd (List.mem_flatten.2 ⟨uses, hmem, hpush⟩) hbefore, fun hj' => ?_⟩
    omega
  · simp only [List.getElem?_append_right (Nat.le_refl _), Nat.sub_self, List.getElem?_cons_zero,
      Option.some.injEq] at h
    simpa [← h] using hmiddle
  · rw [List.getElem?_append_right (by omega), show j - before.length =
      (j - before.length - 1) + 1 by omega, List.getElem?_cons_succ] at h
    have hmem := List.mem_of_getElem? h
    refine ⟨fun hpush => absurd (List.mem_flatten.2 ⟨uses, hmem, hpush⟩) hafter, fun hj' => ?_⟩
    omega

/-- A statement at the top level starts at one place in the lines of a script, in its marks and in
its depths. -/
theorem Program.parts {p : Program} {first rest : List Stmt} {stmt : Stmt}
    (h : p.body = first ++ stmt :: rest) :
    ∃ lines marks depths, p.lines 0 = lines ++ stmt.lines 0 ++
        (Stmt.linesAll 0 rest ++ [⟨0, Code.result (p.root.text ++ "[0]")⟩]) ∧
      p.marks = marks ++ stmt.marks ++ (Stmt.marksAll rest ++ [[.consume p.root .script]]) ∧
      p.depths = depths ++ stmt.depths 0 ++ (Stmt.depthsAll 0 rest ++ [0]) ∧
      lines.length = marks.length ∧ depths.length = marks.length ∧
      marks.flatten = (Stmt.marksAll p.definitions).flatten ++
        .declare p.root .script :: (Stmt.marksAll first).flatten := by
  -- the script up to the statement, with the line that returns the root left out
  let head : Program := { p with body := first }
  refine ⟨(head.lines 0).dropLast, head.marks.dropLast, head.depths.dropLast,
    ?_, ?_, ?_, ?_, ?_, ?_⟩
  · rw [Program.lines, Program.lines, List.dropLast_concat, h, Stmt.linesAll_append, Stmt.linesAll]
    simp [head]
  · rw [Program.marks, Program.marks, List.dropLast_concat, h, Stmt.marksAll_append, Stmt.marksAll]
    simp [head]
  · rw [Program.depths, Program.depths, List.dropLast_concat, h, Stmt.depthsAll_append,
      Stmt.depthsAll]
    simp [head]
  · simp only [Program.lines, Program.marks, head, List.dropLast_concat]
    split <;> simp [Stmt.length_linesAll, unmarked]
  · simp only [Program.depths, Program.marks, head, List.dropLast_concat]
    split <;> simp [Stmt.length_depthsAll, unmarked]
  · simp only [Program.marks, head, List.dropLast_concat]
    split <;> simp

theorem Program.filledBy {p : Program} {scope : Scope} {nodes : List Content} {k₁ : Nat}
    {stmt : Stmt} {codes codes' : List String} {arguments : List String}
    (hroot : p.root = .fresh 0) (hdefine : ItemsDefine nodes scope 1 p.definitions k₁)
    (hbody : p.body = codes.map .splice ++ stmt :: codes'.map .splice)
    (hstmt : stmt.EndsInPush (.fresh 0) arguments) :
    ∃ i, p.FilledBy stmt i (Code.element arguments) := by
  obtain ⟨⟨init, hlines⟩, ⟨initMarks, last, hmarks, hinit, hlast⟩, initDepths, hdepths⟩ := hstmt
  obtain ⟨lines, marks, depths, hpLines, hpMarks, hpDepths, hlength, hlength', hflatten⟩ :=
    Program.parts hbody
  -- the three lists are cut before the same line
  have hinitMarks : init.length = initMarks.length := by
    have hlength := Stmt.length_linesAll [stmt] 0
    simpa [Stmt.linesAll, Stmt.marksAll, hlines, hmarks] using hlength
  have hinitDepths : initDepths.length = initMarks.length := by
    have hlength := stmt.length_depths 0
    simpa [hdepths, hmarks] using hlength
  -- what is done to the root array before that line, in it and after it
  have hbefore : usesOf (.fresh 0) (marks ++ initMarks).flatten =
      [.declare (.fresh 0) .script] := by
    have hnone := hdefine.disciplined.usesOf_eq_nil (outside_fresh Nat.zero_lt_one) (by simp)
    rw [List.flatten_append, hflatten, flatten_marksAll_splice, hroot, usesOf_append, usesOf_append,
      hnone, hinit]
    rfl
  have hafter : usesOf (.fresh 0)
      (Stmt.marksAll (codes'.map .splice) ++ [[Use.consume (.fresh 0) .script]]).flatten =
      [.consume (.fresh 0) .script] := by
    rw [List.flatten_append, flatten_marksAll_splice]
    rfl
  rw [hroot] at hpMarks hpLines
  have hsplit : p.marks = (marks ++ initMarks) ++ last ::
      (Stmt.marksAll (codes'.map .splice) ++ [[.consume (.fresh 0) .script]]) := by
    rw [hpMarks, hmarks]
    simp
  refine ⟨(marks ++ initMarks).length, hroot, ⟨codes, codes', hbody⟩, ⟨lines, _, hpLines, ?_⟩,
    ?_, ?_, ?_, ?_, ?_⟩
  · simp only [hlines, List.length_append, List.length_singleton]
    omega
  · have hindex : (marks ++ initMarks).length = (lines ++ init).length := by simp; omega
    rw [hindex, hpLines, hlines]
    simp
    rfl
  · have hindex : (marks ++ initMarks).length = (depths ++ initDepths).length := by simp; omega
    rw [hindex, hpDepths, hdepths]
    simp
  · rw [hsplit, hroot]
    apply push_mem_middle
    · rw [← push_mem_usesOf, hbefore]
      decide
    · rw [← push_mem_usesOf, hlast]
      decide
    · rw [← push_mem_usesOf, hafter]
      decide
  · rw [hsplit, hroot, List.flatten_append, List.flatten_cons, usesOf_append, usesOf_append,
      hbefore, hlast, hafter]
    rfl
  · rw [hpLines, ← List.append_assoc, List.getLast?_concat]
    rfl

/-- A compiled template has one root, and its script pushes onto `n0Child` once, outside of all
blocks: the last line of what the root emits, and there the call that makes the root element. -/
theorem compile_pushes_root_once (options : Options) (hformat : options.formatter = .absent)
    {nodes : List Content} (h : WellTypedNodes nodes) {compiled : Compiled}
    (hcompile : compile options (.list nodes) = .ok compiled) :
    ∃ ds mixins p count, (Content.list nodes).declarations = .ok ds ∧
      ds.foldlM Session.declare {} = .ok mixins ∧
      (Session.program ⟨options, mixins, none, 0⟩ (.list nodes)).run 0 = .ok (p, count) ∧
      compiled.script = String.join ((p.lines 0).map fun line =>
        (if options.pretty.isTrue then String.ofList (List.replicate line.indent.toNat ' ') else "")
          ++ line.code ++ "\n") ∧
      LinesShow (Everywhere Node.TextsQuiet nodes) (p.lines 0) p.marks ∧
    ∃ before name attributes children after,
      nodes = before ++ .node (.tag name attributes children) :: after ∧
      (∀ c ∈ before ++ after, c.Silent) ∧
    ∃ stmt k k', (Node.tag name attributes children).Emits ⟨options, mixins, some (.fresh 0), 0⟩ k
        [stmt] k' ∧
    ∃ tag properties array i, tagCode options name = .ok tag ∧
      attributes.code? options = .ok properties ∧
      (array.isSome = true ↔ children.isTrue = true) ∧
      p.FilledBy stmt i (Code.element (elementArguments tag properties array)) := by
  obtain ⟨c, ds, mixins, p, count, hrootOk, hds, hmixins, hrun, rfl⟩ :=
    exists_program_of_compile hformat hcompile
  obtain ⟨hroot, k₁, hdefine, hbody⟩ := program_emits hrun
  have hlines : LinesShow (Everywhere Node.TextsQuiet nodes) (p.lines 0) p.marks :=
    p.lines_show 0 (fun hquiet => hdefine.tidy ⟨h, hquiet⟩)
      fun hquiet => hbody.tidy quietRun_nil ⟨h, hquiet⟩
  have hsingle : SingleRoot nodes := by
    rcases root_cases nodes with ⟨hsingle, -⟩ | ⟨-, f, herror, -⟩
    · exact hsingle
    · rw [hrootOk] at herror
      cases herror
  obtain ⟨before, name, attributes, children, after, rfl, hsilent⟩ := hsingle
  obtain ⟨codes, codes', stmt, k', hstmts, hemits⟩ := hbody.root hsilent
  have hold : ∀ j, ArrayName.fresh 0 = .fresh j → j < k₁ := by
    intro j hj
    cases hj
    exact hdefine.le
  obtain ⟨tag, properties, array, htag, hproperties, harray, hends⟩ :=
    hemits.endsInPush rfl hold
  obtain ⟨i, hfilled⟩ := Program.filledBy hroot hdefine hstmts hends
  exact ⟨ds, mixins, p, count, hds, hmixins, hrun, rfl, hlines, before, name, attributes, children,
    after, rfl, hsilent, stmt, k₁, k', hemits, tag, properties, array, i, htag, hproperties, harray,
    hfilled⟩

/-- Code, a comment and a mixin around a root with a loop in it. -/
def framedTemplate : List Content :=
  .node (.code (.str "var rows = this.rows;") (.bool false) (.datum .null)) ::
    .node (.comment (.str "one card a row") (.bool true)) :: cardTemplate

theorem framedTemplate_wellTyped : WellTypedNodes framedTemplate :=
  .cons (.code .null) (.cons .comment cardTemplate_wellTyped)

theorem compile_framedTemplate_pushes_root_once :
    WellTypedNodes framedTemplate ∧ ∃ (compiled : Compiled) (p : Program) (stmt : Stmt) (i : Nat)
      (array : ArrayName), compile {} (.list framedTemplate) = .ok compiled ∧
      compiled.script = Line.renderAll false (p.lines 0) ∧
      p.FilledBy stmt i (Code.element ["\"ul\"", "\x7b\x7d", array.text]) := by
  have hcompile : ∃ compiled, compile {} (.list framedTemplate) = .ok compiled :=
    exists_compiled_of_scriptOf rfl ⟨_, rfl⟩
  obtain ⟨compiled, hcompile⟩ := hcompile
  obtain ⟨ds, mixins, p, count, -, -, -, hscript, -, before, name, attributes, children, after,
    hnodes, -, stmt, k, k', -, tag, properties, array, i, htag, hproperties, harray, hfilled⟩ :=
    compile_pushes_root_once {} rfl framedTemplate_wellTyped hcompile
  -- there is only one tag at the top level
  have hmem : .node (.tag name attributes children) ∈ framedTemplate := by simp [hnodes]
  simp only [framedTemplate, cardTemplate, List.mem_cons, Content.node.injEq, reduceCtorEq,
    Node.tag.injEq, false_or, List.not_mem_nil, or_false] at hmem
  obtain ⟨rfl, rfl, rfl⟩ := hmem
  cases htag
  cases hproperties
  obtain ⟨array, rfl⟩ := Option.isSome_iff_exists.1 (harray.2 rfl)
  exact ⟨framedTemplate_wellTyped, compiled, p, stmt, i, array, hcompile, hscript, hfilled⟩

end Hyperscript
