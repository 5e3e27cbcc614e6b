import Hyperscript.Script.Layout
import Hyperscript.Proofs.Generation.Emission

/-!
# Uses of child arrays

A script declares its child arrays, pushes onto them, and hands each on when it is full: to the
element whose children it holds, as the result of a function, or as the result of the script.  The
`marks` of a statement tell, line by line, which of this is done there.

In generated code every array that is taken goes through the same `lifetime`: it is declared, then
pushed onto, and then consumed by its owner; and nothing else is ever used.
-/

namespace Hyperscript

/-! ## Marks -/

/-- What a child array is filled for. -/
inductive Owner where
  | element (tag : String)
  /-- The body of a mixin, or a block passed to a call. -/
  | function
  | script
  deriving DecidableEq

/-- A use of a child array. -/
inductive Use where
  | declare (array : ArrayName) (owner : Owner)
  | push (array : ArrayName)
  | consume (array : ArrayName) (owner : Owner)
  deriving DecidableEq

def Use.array : Use → ArrayName
  | declare array _ => array
  | push array => array
  | consume array _ => array

@[simp] theorem Use.array_declare (a : ArrayName) (owner : Owner) :
    (Use.declare a owner).array = a := rfl

@[simp] theorem Use.array_push (a : ArrayName) : (Use.push a).array = a := rfl

@[simp] theorem Use.array_consume (a : ArrayName) (owner : Owner) :
    (Use.consume a owner).array = a := rfl

/-- Lines without a use. -/
def unmarked (count : Nat) : List (List Use) :=
  List.replicate count []

/-- The marks of a function that fills an array and returns it. -/
def functionMarks (definitions : List (List Use)) (array : ArrayName) (body : List (List Use)) :
    List (List Use) :=
  definitions ++ [.declare array .function] :: body ++ [[.consume array .function]]

/-- The marks of a loop of an `each` that starts with so many bindings. -/
def eachMarks (first : Nat) (body rest : List (List Use)) : List (List Use) :=
  [] :: unmarked first ++ body ++ [] :: rest

mutual

/-- The uses in each line of a statement. -/
def Stmt.marks : Stmt → List (List Use)
  | .push target _ => [[.push target]]
  | .element target array tag _ body =>
    [.declare array (.element tag)] :: Stmt.marksAll body ++
      [[.consume array (.element tag), .push target]]
  | .splice code => unmarked (Text.codeLines code).length
  | .codeBlock header body =>
    unmarked (Text.codeLines (Code.opening header)).length ++ Stmt.marksAll body ++ [[]]
  | .cond _ body otherwise => [] :: Stmt.marksAll body ++ otherwise.marks
  | .switch _ clauses => [] :: Clause.marksAll clauses ++ [[]]
  | .each _ _ _ definitions arrayBody arrayRest objectBody objectRest =>
    [[], []] ++ Stmt.marksAll definitions ++
      [] :: eachMarks 1 (Stmt.marksAll arrayBody) (Stmt.marksAll arrayRest) ++ [[], []] ++
      eachMarks 2 (Stmt.marksAll objectBody) (Stmt.marksAll objectRest) ++ [[], []]
  | .loop _ body => [] :: Stmt.marksAll body ++ [[]]
  | .define _ _ rest definitions array body =>
    [[], []] ++ unmarked rest.toList.length ++
      functionMarks (Stmt.marksAll definitions) array (Stmt.marksAll body) ++ [[]]
  | .call target _ _ _ => [[.push target]]
  | .callWith target _ _ _ definitions array body =>
    [.push target] :: functionMarks (Stmt.marksAll definitions) array (Stmt.marksAll body) ++ [[]]
  | .insertBlock target => [[], [.push target], []]

def Stmt.marksAll : List Stmt → List (List Use)
  | [] => []
  | s :: rest => s.marks ++ Stmt.marksAll rest

def Otherwise.marks : Otherwise → List (List Use)
  | .done => [[]]
  | .body body => [] :: Stmt.marksAll body ++ [[]]
  | .elseIf _ body otherwise => [] :: Stmt.marksAll body ++ otherwise.marks

def Clause.marks : Clause → List (List Use)
  | .fallThrough _ => [[]]
  | .body _ body => [] :: Stmt.marksAll body ++ [[]]

def Clause.marksAll : List Clause → List (List Use)
  | [] => []
  | c :: rest => c.marks ++ Clause.marksAll rest

end

/-- The uses in each line of a script. -/
def Program.marks (p : Program) : List (List Use) :=
  (if p.runtime then unmarked (Text.codeLines Program.bindingCode).length else []) ++
    [] :: Stmt.marksAll p.definitions ++
    [.declare p.root .script] :: Stmt.marksAll p.body ++ [[.consume p.root .script]]

@[simp] theorem flatten_unmarked (count : Nat) : (unmarked count).flatten = [] := by
  simp [unmarked]

@[simp] theorem flatten_functionMarks (definitions : List (List Use)) (array : ArrayName)
    (body : List (List Use)) :
    (functionMarks definitions array body).flatten =
      definitions.flatten ++ .declare array .function :: body.flatten ++
        [.consume array .function] := by
  simp [functionMarks]

@[simp] theorem flatten_eachMarks (first : Nat) (body rest : List (List Use)) :
    (eachMarks first body rest).flatten = body.flatten ++ rest.flatten := by
  simp [eachMarks]

theorem Stmt.marksAll_append (xs ys : List Stmt) :
    Stmt.marksAll (xs ++ ys) = Stmt.marksAll xs ++ Stmt.marksAll ys := by
  induction xs with
  | nil => rfl
  | cons x xs ih => rw [List.cons_append, Stmt.marksAll, Stmt.marksAll, ih, List.append_assoc]

/-! ## Discipline -/

/-- The uses of one array. -/
def usesOf (a : ArrayName) (uses : List Use) : List Use :=
  uses.filter fun u => u.array = a

/-- An array is declared, pushed onto, and then consumed by its owner. -/
def lifetime (a : ArrayName) (owner : Owner) (pushes : Nat) : List Use :=
  .declare a owner :: (List.replicate pushes (.push a) ++ [.consume a owner])

/-- The arrays from `k` up to `k'` each go through their lifetime, and all other uses are pushes
onto the parent. -/
structure Disciplined (k k' : Nat) (parent : Option ArrayName) (uses : List Use) : Prop where
  taken : ∀ j, k ≤ j → j < k' →
    ∃ owner pushes, owner ≠ .script ∧ usesOf (.fresh j) uses = lifetime (.fresh j) owner pushes
  others : ∀ u ∈ uses, Outside k k' u.array → u = .push u.array ∧ parent = some u.array

section Disciplined

variable {k k₁ k' : Nat} {parent : Option ArrayName} {uses first second : List Use} {a : ArrayName}

@[simp] theorem usesOf_append : usesOf a (first ++ second) = usesOf a first ++ usesOf a second :=
  List.filter_append ..

theorem disciplined_nil : Disciplined k k parent [] :=
  ⟨fun j hk hk' => by omega, fun u hu => absurd hu List.not_mem_nil⟩

theorem disciplined_push (h : parent = some a) : Disciplined k k parent [.push a] := by
  refine ⟨fun j hk hk' => by omega, fun u hu _ => ?_⟩
  cases List.mem_singleton.1 hu
  exact ⟨rfl, h⟩

/-- Where nothing is pushed onto a parent, any parent will do. -/
theorem Disciplined.of_none (h : Disciplined k k' none uses) : Disciplined k k' parent uses := by
  refine ⟨h.taken, fun u hu hout => ?_⟩
  exact absurd (h.others u hu hout).2 (by simp)

/-- An array that was not taken and is not the parent is not used. -/
theorem Disciplined.usesOf_eq_nil (h : Disciplined k k' parent uses) (hout : Outside k k' a)
    (hne : parent ≠ some a) : usesOf a uses = [] := by
  rw [usesOf, List.filter_eq_nil_iff]
  intro u hu ha
  have ha : u.array = a := of_decide_eq_true ha
  rw [← ha] at hout hne
  exact hne (h.others u hu hout).2

/-- A parent that was not taken is pushed onto. -/
theorem Disciplined.usesOf_parent (h : Disciplined k k' parent uses) (hout : Outside k k' a) :
    ∃ pushes, usesOf a uses = List.replicate pushes (.push a) := by
  refine ⟨(usesOf a uses).length, List.eq_replicate_iff.2 ⟨rfl, fun u hu => ?_⟩⟩
  rw [usesOf, List.mem_filter] at hu
  have ha : u.array = a := of_decide_eq_true hu.2
  rw [← ha] at hout
  rw [(h.others u hu.1 hout).1, ha]

theorem Disciplined.append (h₁ : Disciplined k k₁ parent first)
    (h₂ : Disciplined k₁ k' parent second) (hk : k ≤ k₁) (hk' : k₁ ≤ k')
    (hparent : ∀ a, parent = some a → Outside k k' a) :
    Disciplined k k' parent (first ++ second) := by
  have hne : ∀ j, k ≤ j → j < k' → parent ≠ some (.fresh j) := by
    intro j hj hj' h
    have := hparent _ h j rfl
    omega
  refine ⟨fun j hj hj' => ?_, fun u hu hout => ?_⟩
  · rw [usesOf_append]
    -- an array is used only in the part that takes it
    by_cases hlt : j < k₁
    · rw [h₂.usesOf_eq_nil (outside_fresh hlt) (hne j hj hj'), List.append_nil]
      exact h₁.taken j hj hlt
    · have hout : Outside k k₁ (.fresh j) := by
        intro i hi
        cases hi
        omega
      rw [h₁.usesOf_eq_nil hout (hne j hj hj'), List.nil_append]
      exact h₂.taken j (by omega) hj'
  · rcases List.mem_append.1 hu with hu | hu
    · exact h₁.others u hu (hout.mono (Nat.le_refl k) hk')
    · exact h₂.others u hu (hout.mono hk (Nat.le_refl k'))

/-- Between its declaration and its consumption nothing but pushes is done to a new array, and the
arrays that are taken meanwhile go through lifetimes of their own. -/
theorem Disciplined.usesOf_filled (owner : Owner)
    (h₁ : Disciplined (k + 1) k₁ none first) (h₂ : Disciplined k₁ k' (some (.fresh k)) second)
    (hk : k + 1 ≤ k₁) (j : Nat) (hj : k ≤ j) (hj' : j < k') :
    ∃ o pushes, (j = k → o = owner) ∧ (j ≠ k → o ≠ .script) ∧
      usesOf (.fresh j)
        (first ++ .declare (.fresh k) owner :: second ++ [.consume (.fresh k) owner]) =
        lifetime (.fresh j) o pushes := by
  have hsplit : usesOf (.fresh j)
      (first ++ .declare (.fresh k) owner :: second ++ [.consume (.fresh k) owner]) =
      usesOf (.fresh j) first ++ (usesOf (.fresh j) [.declare (.fresh k) owner] ++
        (usesOf (.fresh j) second ++ usesOf (.fresh j) [.consume (.fresh k) owner])) := by
    rw [← usesOf_append, ← usesOf_append, ← usesOf_append, List.append_assoc, List.cons_append,
      List.singleton_append]
  rw [hsplit]
  by_cases hjk : j = k
  · -- the new array: the definitions do not know it, and the body pushes onto it
    subst hjk
    obtain ⟨pushes, hpushes⟩ := h₂.usesOf_parent (outside_fresh (show j < k₁ by omega))
    refine ⟨owner, pushes, fun _ => rfl, fun h => absurd rfl h, ?_⟩
    rw [h₁.usesOf_eq_nil (outside_fresh (Nat.lt_succ_self j)) (by simp), hpushes]
    simp [usesOf, lifetime]
  · -- another array: it was taken either by the definitions or by the body
    have hne : ArrayName.fresh k ≠ .fresh j := by
      intro h
      cases h
      exact hjk rfl
    have hdeclare : usesOf (.fresh j) [.declare (.fresh k) owner] = [] := by simp [usesOf, hne]
    have hconsume : usesOf (.fresh j) [.consume (.fresh k) owner] = [] := by simp [usesOf, hne]
    rw [hdeclare, hconsume, List.nil_append, List.append_nil]
    by_cases hlt : j < k₁
    · obtain ⟨o, pushes, ho, huses⟩ := h₁.taken j (by omega) hlt
      refine ⟨o, pushes, fun h => absurd h hjk, fun _ => ho, ?_⟩
      rw [h₂.usesOf_eq_nil (outside_fresh hlt) (by simpa using hne), List.append_nil, huses]
    · obtain ⟨o, pushes, ho, huses⟩ := h₂.taken j (by omega) hj'
      have hout : Outside (k + 1) k₁ (.fresh j) := by
        intro i hi
        cases hi
        omega
      refine ⟨o, pushes, fun h => absurd h hjk, fun _ => ho, ?_⟩
      rw [h₁.usesOf_eq_nil hout (by simp), List.nil_append, huses]

theorem Disciplined.not_outside_filled (owner : Owner)
    (h₁ : Disciplined (k + 1) k₁ none first) (h₂ : Disciplined k₁ k' (some (.fresh k)) second)
    (hk : k + 1 ≤ k₁) (hk' : k₁ ≤ k') {u : Use}
    (hu : u ∈ first ++ .declare (.fresh k) owner :: second ++ [.consume (.fresh k) owner]) :
    ¬Outside k k' u.array := by
  intro hout
  have hfresh : u.array ≠ .fresh k := hout.ne_fresh (by omega)
  simp only [List.mem_append, List.mem_cons, List.not_mem_nil, or_false] at hu
  rcases hu with (hu | rfl | hu) | rfl
  · exact absurd (h₁.others u hu (hout.mono (by omega) hk')).2 (by simp)
  · exact hfresh rfl
  · have hparent := (h₂.others u hu (hout.mono (by omega) (Nat.le_refl k'))).2
    exact hfresh (Option.some.inj hparent).symm
  · exact hfresh rfl

/-- An array that is filled for an element or a function. -/
theorem Disciplined.filled (owner : Owner) (howner : owner ≠ .script)
    (h₁ : Disciplined (k + 1) k₁ none first) (h₂ : Disciplined k₁ k' (some (.fresh k)) second)
    (hk : k + 1 ≤ k₁) (hk' : k₁ ≤ k') :
    Disciplined k k' none
      (first ++ .declare (.fresh k) owner :: second ++ [.consume (.fresh k) owner]) := by
  refine ⟨fun j hj hj' => ?_, fun u hu hout => ?_⟩
  · obtain ⟨o, pushes, hself, hother, huses⟩ := h₁.usesOf_filled owner h₂ hk j hj hj'
    refine ⟨o, pushes, ?_, huses⟩
    by_cases hjk : j = k
    · rw [hself hjk]
      exact howner
    · exact hother hjk
  · exact absurd hout (h₁.not_outside_filled owner h₂ hk hk' hu)

end Disciplined

/-! ## Generated code -/

theorem Scope.parent_of_target {s : Scope} {a : ArrayName} (h : s.target = .ok a) :
    s.parent = some a := by
  unfold Scope.target at h
  split at h
  · cases h
    assumption
  · cases h

theorem Scope.disciplined_flush {s : Scope} {texts : List Datum} {before : List Stmt}
    (h : s.flush texts = .ok before) (k : Nat) :
    Disciplined k k s.parent (Stmt.marksAll before).flatten := by
  rcases Scope.flush_cases h with ⟨-, rfl⟩ | ⟨target, text, htarget, -, rfl⟩
  · exact disciplined_nil
  · exact disciplined_push (Scope.parent_of_target htarget)

/-- The array to push onto was not taken from `k` on. -/
def Scope.ParentOutside (s : Scope) (k k' : Nat) : Prop :=
  ∀ a, s.parent = some a → Outside k k' a

theorem Scope.ParentOutside.mono {s : Scope} {k₀ k k' k₁ : Nat} (h : s.ParentOutside k₀ k₁)
    (hk : k₀ ≤ k) (hk' : k' ≤ k₁) : s.ParentOutside k k' :=
  fun a ha => (h a ha).mono hk hk'

theorem Scope.parentOutside_filling (s : Scope) {j k k' : Nat} (h : j < k) :
    (s.filling (.fresh j)).ParentOutside k k' := by
  intro a ha
  cases ha
  exact outside_fresh h

mutual

theorem Node.Emits.disciplined : ∀ {n : Node} {s : Scope} {k : Nat} {stmts : List Stmt} {k' : Nat},
    n.Emits s k stmts k' → s.ParentOutside k k' →
    Disciplined k k' s.parent (Stmt.marksAll stmts).flatten
  | _, s, k, _, k', @Node.Emits.element _ _ _ _ _ tag _ target body _ _ _ htarget _ hbody, hs => by
    have hinner := hbody.disciplined (s.parentOutside_filling (Nat.lt_succ_self k))
    have hfilled := disciplined_nil.filled (.element tag) (by simp) hinner
      (Nat.le_refl (k + 1)) hbody.le
    have hpush : Disciplined k' k' s.parent [.push target] :=
      disciplined_push (Scope.parent_of_target htarget)
    have hall := hfilled.of_none.append hpush (Nat.le_of_lt hbody.le) (Nat.le_refl k') hs
    simpa [Stmt.marksAll, Stmt.marks] using hall
  | _, _, _, _, _, .leaf _ _ htarget _, _ => disciplined_push (Scope.parent_of_target htarget)
  | _, _, _, _, _, .text htarget _, _ => disciplined_push (Scope.parent_of_target htarget)
  | _, _, _, _, _, .bareValue _ htarget _, _ => disciplined_push (Scope.parent_of_target htarget)
  | _, _, _, _, _, .placeholder _ htarget, _ => disciplined_push (Scope.parent_of_target htarget)
  | _, _, _, _, _, .call _ htarget _ _ _ _, _ => disciplined_push (Scope.parent_of_target htarget)
  | _, _, k, _, _, .value _ htarget _ hrest, hs => by
    have hpush := disciplined_push (k := k) (Scope.parent_of_target htarget)
    have hall := hpush.append (hrest.disciplined hs) (Nat.le_refl k) hrest.le hs
    simpa [Stmt.marksAll, Stmt.marks] using hall
  | _, _, _, _, _, .splice _ _ _, _ => by
    simpa [Stmt.marksAll, Stmt.marks] using disciplined_nil
  | _, _, _, _, _, .codeBlock _ _ hbody, hs => by
    simpa [Stmt.marksAll, Stmt.marks] using hbody.disciplined hs
  | _, _, _, _, _, .comment, _ => disciplined_nil
  | _, _, _, _, _, .mixin, _ => disciplined_nil
  | _, _, k, _, k', .conditional hbody hotherwise, hs => by
    have hle := hbody.le
    have hle' := hotherwise.le
    have hthen := hbody.disciplined (hs.mono (Nat.le_refl k) hle')
    have helse := hotherwise.disciplined (hs.mono hle (Nat.le_refl k'))
    simpa [Stmt.marksAll, Stmt.marks] using hthen.append helse hle hle' hs
  | _, _, _, _, _, .switch hclauses, hs => by
    simpa [Stmt.marksAll, Stmt.marks] using hclauses.disciplined hs
  | _, _, _, _, _, .loop hbody, hs => by
    simpa [Stmt.marksAll, Stmt.marks] using hbody.disciplined hs
  | _, s, k, _, k', .each hd₁ hd₂ hb₁ ht₁ hb₂ ht₂, hs => by
    have hle₁ := hd₁.le
    have hle₂ := hd₂.le
    have hle₃ := hb₁.le
    have hle₄ := ht₁.le
    have hle₅ := hb₂.le
    have hle₆ := ht₂.le
    have h₁ : Disciplined _ _ s.parent _ := hd₁.disciplined.of_none
    have h₂ : Disciplined _ _ s.parent _ := hd₂.disciplined.of_none
    have h₃ := hb₁.disciplined (hs.mono (by omega) (by omega))
    have h₄ := ht₁.disciplined (hs.mono (by omega) (by omega))
    have h₅ := hb₂.disciplined (hs.mono (by omega) (by omega))
    have h₆ := ht₂.disciplined (hs.mono (by omega) (by omega))
    -- one part after the other, from the last one on
    have h₅₆ := h₅.append h₆ hle₅ hle₆ (hs.mono (by omega) (Nat.le_refl k'))
    have h₄₆ := h₄.append h₅₆ hle₄ (by omega) (hs.mono (by omega) (Nat.le_refl k'))
    have h₃₆ := h₃.append h₄₆ hle₃ (by omega) (hs.mono (by omega) (Nat.le_refl k'))
    have h₂₆ := h₂.append h₃₆ hle₂ (by omega) (hs.mono (by omega) (Nat.le_refl k'))
    have h₁₆ := h₁.append h₂₆ hle₁ (by omega) hs
    simpa [Stmt.marksAll, Stmt.marks, Stmt.marksAll_append] using h₁₆
  | _, s, k, _, k', @Node.Emits.callWith _ _ _ _ _ _ _ target _ _ _ _ _ _ _ _ htarget _ _ _ _
      hdefinitions hbody, hs => by
    have hle := hdefinitions.le
    have hinner := hbody.disciplined (s.parentOutside_filling (by omega))
    have hfilled := hdefinitions.disciplined.filled .function (by simp) hinner hle
      hbody.le
    have hpush := disciplined_push (k := k) (Scope.parent_of_target htarget)
    have hall := hpush.append hfilled.of_none (Nat.le_refl k) (by have := hbody.le; omega) hs
    simpa [Stmt.marksAll, Stmt.marks] using hall

theorem Content.Emits.disciplined : ∀ {c : Content} {s : Scope} {k : Nat} {stmts : List Stmt}
    {k' : Nat}, c.Emits s k stmts k' → s.ParentOutside k k' →
    Disciplined k k' s.parent (Stmt.marksAll stmts).flatten
  | _, _, _, _, _, .list h, hs => h.disciplined hs
  | _, _, _, _, _, .datum _, _ => disciplined_nil

theorem ItemsEmit.disciplined : ∀ {items : List Content} {s : Scope} {texts : List Datum} {k : Nat}
    {stmts : List Stmt} {k' : Nat}, ItemsEmit items s texts k stmts k' → s.ParentOutside k k' →
    Disciplined k k' s.parent (Stmt.marksAll stmts).flatten
  | _, _, _, k, _, _, .nil h, _ => Scope.disciplined_flush h k
  | _, _, _, _, _, _, .text h, hs => h.disciplined hs
  | _, _, _, k, _, k', .cons _ hflush h h', hs => by
    have hle := h.le
    have hle' := h'.le
    have hnode := h.disciplined (hs.mono (Nat.le_refl k) hle')
    have hrest := h'.disciplined (hs.mono hle (Nat.le_refl k'))
    have hboth := hnode.append hrest hle hle' hs
    have hall := (Scope.disciplined_flush hflush k).append hboth (Nat.le_refl k) (by omega) hs
    simpa [Stmt.marksAll_append] using hall

theorem Content.Continues.disciplined : ∀ {c : Content} {s : Scope} {k : Nat}
    {otherwise : Otherwise} {k' : Nat}, c.Continues s k otherwise k' → s.ParentOutside k k' →
    Disciplined k k' s.parent otherwise.marks.flatten
  | _, _, k, _, k', .elseIf hbody hotherwise, hs => by
    have hle := hbody.le
    have hle' := hotherwise.le
    have hthen := hbody.disciplined (hs.mono (Nat.le_refl k) hle')
    have helse := hotherwise.disciplined (hs.mono hle (Nat.le_refl k'))
    simpa [Otherwise.marks] using hthen.append helse hle hle' hs
  | _, _, _, _, _, .nil, _ => disciplined_nil
  | _, _, _, _, _, .body h, hs => by simpa [Otherwise.marks] using h.disciplined hs
  | _, _, _, _, _, .emptyBody _ _, _ => disciplined_nil
  | _, _, _, _, _, .done _, _ => disciplined_nil

theorem Content.EmitsClauses.disciplined : ∀ {c : Content} {s : Scope} {k : Nat}
    {clauses : List Clause} {k' : Nat}, c.EmitsClauses s k clauses k' → s.ParentOutside k k' →
    Disciplined k k' s.parent (Clause.marksAll clauses).flatten
  | _, _, _, _, _, .list h, hs => h.disciplined hs
  | _, _, _, _, _, .datum _, _ => disciplined_nil

theorem ItemsEmitClauses.disciplined : ∀ {items : List Content} {s : Scope} {k : Nat}
    {clauses : List Clause} {k' : Nat}, ItemsEmitClauses items s k clauses k' →
    s.ParentOutside k k' → Disciplined k k' s.parent (Clause.marksAll clauses).flatten
  | _, _, _, _, _, .nil, _ => disciplined_nil
  | _, _, _, _, _, .fallThrough _ h, hs => by
    simpa [Clause.marksAll, Clause.marks] using h.disciplined hs
  | _, _, k, _, k', .body _ h h', hs => by
    have hle := h.le
    have hle' := h'.le
    have hbody := h.disciplined (hs.mono (Nat.le_refl k) hle')
    have hrest := h'.disciplined (hs.mono hle (Nat.le_refl k'))
    simpa [Clause.marksAll, Clause.marks] using hbody.append hrest hle hle' hs

theorem Content.Trails.disciplined : ∀ {c : Content} {s : Scope} {k : Nat} {stmts : List Stmt}
    {k' : Nat}, c.Trails s k stmts k' → s.ParentOutside k k' →
    Disciplined k k' s.parent (Stmt.marksAll stmts).flatten
  | _, _, _, _, _, .list h, hs => by
    simpa [Stmt.marksAll, Stmt.marks, Otherwise.marks] using h.disciplined hs
  | _, _, _, _, _, .null _, _ => disciplined_nil
  | _, _, _, _, _, .datum _ _, _ => disciplined_nil

theorem Node.Defines.disciplined : ∀ {n : Node} {s : Scope} {k : Nat} {stmts : List Stmt}
    {k' : Nat}, n.Defines s k stmts k' → Disciplined k k' none (Stmt.marksAll stmts).flatten
  | _, _, _, _, _, .tag h | _, _, _, _, _, .code h | _, _, _, _, _, .loop h
  | _, _, _, _, _, .branch h | _, _, _, _, _, .switch h => h.disciplined
  | _, _, _, _, _, .conditional h h' => by
    rw [Stmt.marksAll_append, List.flatten_append]
    exact h.disciplined.append h'.disciplined h.le h'.le nofun
  | _, s, k, _, _, .mixin _ _ hdefinitions hbody => by
    have hle := hdefinitions.le
    have hinner := hbody.disciplined (s.inMixin.parentOutside_filling (by omega))
    have hfilled := hdefinitions.disciplined.filled .function (by simp) hinner hle
      hbody.le
    simpa [Stmt.marksAll, Stmt.marks] using hfilled
  | _, _, _, _, _, .text | _, _, _, _, _, .comment | _, _, _, _, _, .each | _, _, _, _, _, .call
  | _, _, _, _, _, .placeholder | _, _, _, _, _, .other => disciplined_nil

theorem Content.Defines.disciplined : ∀ {c : Content} {s : Scope} {k : Nat} {stmts : List Stmt}
    {k' : Nat}, c.Defines s k stmts k' → Disciplined k k' none (Stmt.marksAll stmts).flatten
  | _, _, _, _, _, .list h => h.disciplined
  | _, _, _, _, _, .node | _, _, _, _, _, .datum => disciplined_nil

theorem Content.DefinesAlternate.disciplined : ∀ {c : Content} {s : Scope} {k : Nat}
    {stmts : List Stmt} {k' : Nat}, c.DefinesAlternate s k stmts k' →
    Disciplined k k' none (Stmt.marksAll stmts).flatten
  | _, _, _, _, _, .list h => h.disciplined
  | _, _, _, _, _, .conditional _ h => h.disciplined
  | _, _, _, _, _, .node _ | _, _, _, _, _, .datum => disciplined_nil

theorem ItemsDefine.disciplined : ∀ {items : List Content} {s : Scope} {k : Nat}
    {stmts : List Stmt} {k' : Nat}, ItemsDefine items s k stmts k' →
    Disciplined k k' none (Stmt.marksAll stmts).flatten
  | _, _, _, _, _, .nil => disciplined_nil
  | _, _, _, _, _, .node h h' => by
    rw [Stmt.marksAll_append, List.flatten_append]
    exact h.disciplined.append h'.disciplined h.le h'.le nofun
  | _, _, _, _, _, .other _ h => h.disciplined

end

/-- The first `count` arrays each go through their lifetime, the first one as that of the script,
and no other array is used. -/
structure Program.Orderly (p : Program) (count : Nat) : Prop where
  taken : ∀ k, k < count → ∃ owner pushes, (owner = .script ↔ k = 0) ∧
    usesOf (.fresh k) p.marks.flatten = lifetime (.fresh k) owner pushes
  others : ∀ a, (∀ k, k < count → a ≠ .fresh k) → usesOf a p.marks.flatten = []

/-- A generated script uses the arrays that were taken. -/
theorem Program.orderly {p : Program} {nodes : List Content} {scope : Scope} {k₁ K : Nat}
    (hroot : p.root = .fresh 0) (hdefine : ItemsDefine nodes scope 1 p.definitions k₁)
    (hbody : ItemsEmit nodes (scope.filling (.fresh 0)) [] k₁ p.body K) : p.Orderly K := by
  have hle := hdefine.le
  have hfirst := hdefine.disciplined
  have hsecond := hbody.disciplined (scope.parentOutside_filling hle)
  have hmarks : p.marks.flatten = (Stmt.marksAll p.definitions).flatten ++
      .declare (.fresh 0) .script :: (Stmt.marksAll p.body).flatten ++
        [.consume (.fresh 0) .script] := by
    unfold Program.marks
    rw [hroot]
    split <;> simp
  constructor
  · intro k hk
    rw [hmarks]
    obtain ⟨owner, pushes, hself, hother, huses⟩ :=
      hfirst.usesOf_filled .script hsecond hle k (Nat.zero_le k) hk
    refine ⟨owner, pushes, ⟨fun howner => ?_, hself⟩, huses⟩
    by_cases hzero : k = 0
    · exact hzero
    · exact absurd howner (hother hzero)
  · intro a ha
    have hout : Outside 0 K a := by
      intro j hj
      by_cases hlt : j < K
      · exact absurd hj (ha j hlt)
      · omega
    rw [hmarks, usesOf, List.filter_eq_nil_iff]
    intro u hu hua
    have hua : u.array = a := of_decide_eq_true hua
    rw [← hua] at hout
    exact hfirst.not_outside_filled .script hsecond hle hbody.le hu hout

end Hyperscript
