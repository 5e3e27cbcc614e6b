import Hyperscript.Proofs.Tree.Occurrence
import Hyperscript.Generate

/-!
# When generation succeeds

Whether code can be generated does not depend on the arrays taken so far.  `Generation.Decides g P`
says that `g` succeeds if `P` holds and otherwise ends in a refusal: an unknown mixin, or a node
that is not supported where it stands.  For a well-typed tree `P` is a condition on each node by
itself and the nodes above it (`Permitted`).

A node is either generated where it stands or with a definition that opens the function scope, so
the condition is first split by `Generated` and `Hoisted`.
-/

namespace Hyperscript

/-! ## Conditions on the nodes of a tree -/

/-- The condition on a node: branches stand in cases and nothing else does, calls name known mixins,
placeholders stand in mixins, and the kind is a supported one. -/
def Node.Fits (known : Datum → Prop) (inMixin inCase : Prop) (n : Node) : Prop :=
  (n.isBranch = true ↔ inCase) ∧
    match n with
    | .call name .. => known name
    | .placeholder => inMixin
    | .other _ => False
    | _ => True

/-- The condition on a node below the nodes `above`. -/
def Permitted (known : Datum → Prop) (inMixin inCase : Prop) (above : List Node) (n : Node) :
    Prop :=
  n.Fits known (inMixin ∨ ∃ m ∈ above, m.isMixin = true)
    (match above.getLast? with
      | none => inCase
      | some m => m.isSwitch = true)

/-- The condition on the nodes of a tree that are selected by what stands above them. -/
def AllPermitted (select : List Node → Prop) (known : Datum → Prop) (inMixin inCase : Prop)
    (items : List Content) : Prop :=
  ∀ above n, Occurs above n items → select above → Permitted known inMixin inCase above n

/-- The condition on a node and on the selected nodes below it. -/
def Node.AllPermitted (select : List Node → Prop) (known : Datum → Prop) (inMixin inCase : Prop)
    (m : Node) : Prop :=
  (select [] → m.Fits known inMixin inCase) ∧
    ∀ inner, m.Owns inner → Hyperscript.AllPermitted (fun above => select (m :: above)) known
      (inMixin ∨ m.isMixin = true) (m.isSwitch = true) inner

section Permitted

variable {select : List Node → Prop} {known : Datum → Prop} {inMixin inCase : Prop}

theorem permitted_nil {n : Node} :
    Permitted known inMixin inCase [] n ↔ n.Fits known inMixin inCase := by
  simp [Permitted]

theorem permitted_cons {m n : Node} {above : List Node} :
    Permitted known inMixin inCase (m :: above) n ↔
      Permitted known (inMixin ∨ m.isMixin = true) (m.isSwitch = true) above n := by
  unfold Permitted
  rw [List.getLast?_cons]
  have hmixin : (inMixin ∨ ∃ a ∈ m :: above, a.isMixin = true) ↔
      ((inMixin ∨ m.isMixin = true) ∨ ∃ a ∈ above, a.isMixin = true) := by
    simp [or_assoc]
  rw [hmixin]
  cases above.getLast? <;> rfl

theorem allPermitted_nil : AllPermitted select known inMixin inCase [] :=
  fun _ _ h => absurd h not_occurs_nil

theorem allPermitted_cons {m : Node} {rest : List Content} :
    AllPermitted select known inMixin inCase (.node m :: rest) ↔
      m.AllPermitted select known inMixin inCase ∧
        AllPermitted select known inMixin inCase rest := by
  constructor
  · intro h
    refine ⟨⟨fun hs => ?_, fun inner howns above n hocc hs => ?_⟩, fun above n hocc hs => ?_⟩
    · exact permitted_nil.1 (h [] m (occurs_cons.2 (.inl ⟨rfl, rfl⟩)) hs)
    · exact permitted_cons.1
        (h (m :: above) n (occurs_cons.2 (.inr (.inl ⟨above, inner, rfl, howns, hocc⟩))) hs)
    · exact h above n (occurs_cons.2 (.inr (.inr hocc))) hs
  · rintro ⟨⟨hm, hbelow⟩, hrest⟩ above n hocc hs
    rcases occurs_cons.1 hocc with ⟨rfl, rfl⟩ | ⟨above', inner, rfl, howns, hocc⟩ | hocc
    · exact permitted_nil.2 (hm hs)
    · exact permitted_cons.2 (hbelow inner howns above' n hocc hs)
    · exact hrest above n hocc hs

/-- A selection that selects nothing asks nothing. -/
theorem allPermitted_of_not {items : List Content} (h : ∀ above, ¬select above) :
    AllPermitted select known inMixin inCase items :=
  fun above _ _ hs => absurd hs (h above)

end Permitted

/-- Below these nodes a node is generated where it stands: the outermost function scope that the
nodes open is not that of a mixin. -/
def Generated : List Node → Prop
  | [] => True
  | m :: above => if m.opensScope then m.isMixin = false else Generated above

/-- Below these nodes a node is generated with the definition of a mixin of the scope. -/
def Hoisted : List Node → Prop
  | [] => False
  | m :: above => if m.opensScope then m.isMixin = true else Hoisted above

theorem hoisted_iff_not_generated (above : List Node) : Hoisted above ↔ ¬Generated above := by
  induction above with
  | nil => simp [Hoisted, Generated]
  | cons m above ih =>
    unfold Hoisted Generated
    split
    · simp
    · exact ih

theorem allPermitted_true_iff {known : Datum → Prop} {inMixin inCase : Prop}
    {items : List Content} :
    AllPermitted (fun _ => True) known inMixin inCase items ↔
      AllPermitted Hoisted known inMixin inCase items ∧
        AllPermitted Generated known inMixin inCase items := by
  constructor
  · intro h
    exact ⟨fun above n hocc _ => h above n hocc trivial,
      fun above n hocc _ => h above n hocc trivial⟩
  · rintro ⟨hh, hg⟩ above n hocc -
    by_cases hs : Generated above
    · exact hg above n hocc hs
    · exact hh above n hocc ((hoisted_iff_not_generated above).2 hs)

/-! ## Outcomes of generation -/

namespace Generation

variable {α β : Type}

/-- The refusals of a well-typed tree. -/
def IsRefusal (f : Fault) : Prop :=
  f.family = .unknownMixin ∨ f.family = .unsupportedNode

/-- Whatever the next fresh array is, generation succeeds if `P` holds and is refused if not. -/
def Decides (g : Generation α) (P : Prop) : Prop :=
  ∀ next, (P ∧ ∃ r, g.run next = .ok r) ∨ (¬P ∧ ∃ f, g.run next = .error f ∧ IsRefusal f)

theorem Decides.congr {g : Generation α} {P Q : Prop} (h : Decides g P) (hPQ : P ↔ Q) :
    Decides g Q := by
  rwa [propext hPQ] at h

theorem decides_pure (a : α) : Decides (pure a) True :=
  fun next => .inl ⟨trivial, (a, next), rfl⟩

theorem decides_fresh : Decides fresh True :=
  fun next => .inl ⟨trivial, (.fresh next, next + 1), rfl⟩

theorem decides_throw {f : Fault} (h : IsRefusal f) : Decides (throw f : Generation α) False :=
  fun _ => .inr ⟨id, f, rfl, h⟩

theorem Decides.bind {g : Generation α} {f : α → Generation β} {P Q : Prop} (hg : Decides g P)
    (hf : ∀ a, Decides (f a) Q) : Decides (g >>= f) (P ∧ Q) := by
  intro next
  rcases hg next with ⟨hP, ⟨a, next'⟩, ha⟩ | ⟨hP, fault, ha, hr⟩
  · have hrun : (g >>= f).run next = (f a).run next' := by
      rw [StateT.run_bind, ha]
      rfl
    rw [hrun]
    rcases hf a next' with ⟨hQ, h⟩ | ⟨hQ, h⟩
    · exact .inl ⟨⟨hP, hQ⟩, h⟩
    · exact .inr ⟨fun h => hQ h.2, h⟩
  · refine .inr ⟨fun h => hP h.1, fault, ?_, hr⟩
    rw [StateT.run_bind, ha]
    rfl

/-- A step that always succeeds puts no condition. -/
theorem Decides.step {g : Generation α} {f : α → Generation β} {Q : Prop} (hg : Decides g True)
    (hf : ∀ a, Decides (f a) Q) : Decides (g >>= f) Q :=
  (hg.bind hf).congr (by simp)

/-- A last step that always succeeds puts no condition. -/
theorem Decides.last {g : Generation α} {f : α → Generation β} {P : Prop} (hg : Decides g P)
    (hf : ∀ a, Decides (f a) True) : Decides (g >>= f) P :=
  (hg.bind hf).congr (by simp)

theorem decides_lift {e : Except Fault α} (h : ∃ a, e = .ok a) :
    Decides (liftM e : Generation α) True := by
  obtain ⟨a, rfl⟩ := h
  exact fun next => .inl ⟨trivial, (a, next), rfl⟩

theorem Decides.of_lift {e : Except Fault α} {a : α} {f : α → Generation β} {P : Prop}
    (he : e = .ok a) (h : Decides (f a) P) : Decides (liftM e >>= f) P := by
  subst he
  exact h

end Generation

/-! ## Well-typed trees -/

namespace Registry

/-- A mixin of this name is declared. -/
def Knows (r : Registry) (name : Datum) : Prop := (r.find? name).isSome = true

end Registry

open Generation

theorem decides_lookup (r : Registry) (name : String) :
    Decides (liftM (r.lookup (.str name))) (r.Knows (.str name)) := by
  intro next
  unfold Registry.lookup Registry.Knows
  simp only [Datum.checkKey, bind, Except.bind]
  cases r.find? (.str name) with
  | none => exact .inr ⟨by simp, .unknownMixin _, rfl, .inl rfl⟩
  | some signature => exact .inl ⟨rfl, (signature, next), rfl⟩

namespace Scope

/-- Some array is being filled, and no more mixin bodies were left than entered. -/
structure Filling (s : Scope) : Prop where
  depth : 0 ≤ s.depth
  parent : ∃ array, s.parent = some array

theorem Filling.target {s : Scope} (h : s.Filling) : ∃ array, s.target = .ok array := by
  obtain ⟨array, ha⟩ := h.parent
  exact ⟨array, by rw [Scope.target, ha]⟩

theorem filling_filling {s : Scope} (h : 0 ≤ s.depth) (array : ArrayName) :
    (s.filling array).Filling :=
  ⟨h, array, rfl⟩

theorem decides_flush {s : Scope} (h : s.Filling) {texts : List Datum}
    (ht : ∀ t ∈ texts, ∃ v, t = .str v) : Decides (liftM (s.flush texts)) True := by
  apply decides_lift
  obtain ⟨array, ha⟩ := h.target
  obtain ⟨run, hrun⟩ := mapM_ok_of_forall (f := Datum.searchable) (l := texts) (by
    intro t hmem
    obtain ⟨v, rfl⟩ := ht t hmem
    exact ⟨v, rfl⟩)
  unfold Scope.flush
  by_cases he : texts.isEmpty = true
  · exact ⟨[], by rw [if_pos he]; rfl⟩
  · refine ⟨[.push array (.text (Interpolated.ofLines (run.map String.toList)))], ?_⟩
    rw [if_neg he, ha]
    simp only [Interpolation.ofRun, hrun, bind, Except.bind, pure, Except.pure]

end Scope

theorem WellTypedNodes.scopeDeclarations {items : List Content} (h : WellTypedNodes items) :
    ∃ ds, (Content.list items).scopeDeclarations = .ok ds := by
  obtain ⟨found, hfound, -⟩ := h.lists_walk fun n => !n.opensScope
  exact ⟨_, by
    rw [Content.scopeDeclarations, Content.walkScope, Content.walkWhere, hfound]
    rfl⟩

/-- The condition on the alternate of a conditional: on its list, or on the next conditional. -/
def Content.AlternatePermitted (select : List Node → Prop) (known : Datum → Prop)
    (inMixin : Prop) (c : Content) : Prop :=
  ∀ inner, (c = .list inner ∨ ∃ n, c = .node n ∧ inner = [.node n]) →
    AllPermitted select known inMixin False inner

section Conditions

variable {known : Datum → Prop} {inMixin : Prop} {items : List Content}

theorem permitted_conditional_generated (test : Datum) {alternate : Content}
    (h : alternate.WellTypedAlternate) :
    (Node.conditional test (.list items) alternate).AllPermitted Generated known inMixin False ↔
      AllPermitted Generated known inMixin False items ∧
        alternate.AlternatePermitted Generated known inMixin := by
  cases h <;>
    simp [Node.AllPermitted, Node.Fits, Generated, Node.opensScope, Content.AlternatePermitted]

theorem permitted_conditional_hoisted (test : Datum) {alternate : Content}
    (h : alternate.WellTypedAlternate) (inCase : Prop) :
    (Node.conditional test (.list items) alternate).AllPermitted Hoisted known inMixin inCase ↔
      AllPermitted Hoisted known inMixin False items ∧
        alternate.AlternatePermitted Hoisted known inMixin := by
  cases h <;>
    simp [Node.AllPermitted, Hoisted, Node.opensScope, Content.AlternatePermitted]

end Conditions

/-- The scope of an `each` holds its children and its alternate. -/
theorem WellTypedNodes.eachScope {items : List Content} {alternate : Content}
    (hc : WellTypedNodes items) (ha : alternate.WellTypedBlock) :
    ∃ scope, Hyperscript.eachScope (.list items) alternate = .ok scope ∧
      ∃ ds, scope.scopeDeclarations = .ok ds := by
  cases ha with
  | null => exact ⟨.list (items ++ []), rfl, by simpa using hc.scopeDeclarations⟩
  | @list others h =>
    have hscope : Hyperscript.eachScope (.list items) (.list others) =
        .ok (.list (items ++ others)) := by
      cases others with
      | nil => rfl
      | cons => rfl
    exact ⟨_, hscope, (hc.append h).scopeDeclarations⟩

mutual

theorem Node.WellTyped.decides_generate : ∀ {n : Node}, n.WellTyped → ∀ {s : Scope}, s.Filling →
    Decides (n.generate s)
      (n.AllPermitted Generated s.mixins.Knows (0 < s.depth) False)
  | _, .tag ha hc, s, hs => by
    rw [Node.generate]
    refine .step (decides_lift (tagCode_str _ _)) fun tag => ?_
    refine .step (decides_lift (ha.code? _)) fun properties => ?_
    split
    · refine .step decides_fresh fun array => ?_
      refine .last
        ((hc.decides_generate (Scope.filling_filling hs.depth array) [] (by simp)).congr ?_)
        fun body => .step (decides_lift hs.target) fun _ => decides_pure _
      simp [Node.AllPermitted, Node.Fits, Generated, Scope.filling]
    · rename_i he
      obtain rfl : _ = [] := by simpa [Content.isTrue] using he
      refine (Decides.step (decides_lift hs.target) fun _ => decides_pure _).congr ?_
      simp [Node.AllPermitted, Node.Fits, allPermitted_nil]
  | _, .text, s, hs => by
    rw [Node.generate]
    refine .step (decides_lift hs.target) fun target => ?_
    refine (Decides.step (decides_lift ⟨_, rfl⟩) fun _ => decides_pure _).congr ?_
    simp [Node.AllPermitted, Node.Fits]
  | _, @Node.WellTyped.code _ b _ h, s, hs => by
    rw [Node.generate]
    cases b with
    | true =>
      rw [if_pos (show (Datum.bool true).isTrue = true from rfl)]
      refine .step (decides_lift hs.target) fun target => ?_
      refine .of_lift (Datum.written_str _ _) ?_
      dsimp only
      split
      · rename_i ht
        cases h with
        | null => exact absurd ht (by decide)
        | list h =>
          refine (Decides.last (h.decides_generate hs [] (by simp))
            fun _ => decides_pure _).congr ?_
          simp [Node.AllPermitted, Node.Fits, Generated]
      · rename_i hf
        refine (Decides.step (decides_pure _) fun _ => decides_pure _).congr ?_
        cases h with
        | null => simp [Node.AllPermitted, Node.Fits]
        | list h =>
          obtain rfl : _ = [] := by simpa [Content.isTrue] using hf
          simp [Node.AllPermitted, Node.Fits, allPermitted_nil]
    | false =>
      rw [if_neg (show ¬(Datum.bool false).isTrue = true by decide)]
      cases h with
      | null =>
        refine (Decides.step (decides_lift ⟨_, rfl⟩) fun _ => decides_pure _).congr ?_
        simp [Node.AllPermitted, Node.Fits]
      | list h =>
        refine .of_lift (Datum.written_str _ _) ?_
        refine (Decides.last (h.decides_generate hs [] (by simp)) fun _ => decides_pure _).congr ?_
        simp [Node.AllPermitted, Node.Fits, Generated]
  | _, .comment, s, hs => by
    rw [Node.generate]
    exact (decides_pure _).congr (by simp [Node.AllPermitted, Node.Fits])
  | _, .conditional hc ha, s, hs => by
    rw [Node.generate]
    refine .of_lift (Datum.written_str _ _) ?_
    refine (Decides.bind (hc.decides_generate hs [] (by simp)) fun body => .last
      (ha.decides_otherwise hs) fun _ => decides_pure _).congr ?_
    exact (permitted_conditional_generated _ ha).symm
  | _, .branch _ _, s, hs => by
    rw [Node.generate]
    exact (decides_throw (.inr rfl)).congr (by simp [Node.AllPermitted, Node.Fits, Generated])
  | _, .switch hc, s, hs => by
    rw [Node.generate]
    refine .of_lift (Datum.written_str _ _) ?_
    refine (Decides.last (hc.decides_clauses hs) fun _ => decides_pure _).congr ?_
    simp [Node.AllPermitted, Node.Fits, Generated]
  | _, .each hkey hc ha, s, hs => by
    rw [Node.generate]
    obtain ⟨scope, hscope, ds, hds⟩ := hc.eachScope ha
    refine .of_lift (Datum.written_str _ _) ?_
    refine .of_lift hscope ?_
    -- both loops generate the same nodes, so the second asks nothing new
    refine (Decides.step (decides_lift ⟨ds, hds⟩) fun _ =>
      .bind (hc.decides_definitions hs.depth False) fun _ =>
      .bind (ha.decides_definitions hs.depth) fun _ =>
      .step (decides_lift ⟨_, hkey.written loopKey⟩) fun _ =>
      .step (decides_lift ⟨_, Datum.written_str _ _⟩) fun _ =>
      .bind (hc.decides_generate hs [] (by simp)) fun _ =>
      .bind (ha.decides_whenEmpty hs) fun _ =>
      .bind (hc.decides_generate hs [] (by simp)) fun _ =>
      .last (ha.decides_whenEmpty hs) fun _ => decides_pure _).congr ?_
    cases ha <;> simp [Node.AllPermitted, Node.Fits, Generated, allPermitted_true_iff]
    grind
  | _, .loop hc, s, hs => by
    rw [Node.generate]
    refine .of_lift (Datum.written_str _ _) ?_
    refine (Decides.last (hc.decides_generate hs [] (by simp)) fun _ => decides_pure _).congr ?_
    simp [Node.AllPermitted, Node.Fits, Generated]
  | _, .mixin _ _ _, s, hs => by
    rw [Node.generate]
    refine (decides_pure _).congr ?_
    simp [Node.AllPermitted, Node.Fits, Generated, allPermitted_of_not]
  | _, .call ha h, s, hs => by
    rw [Node.generate]
    cases h with
    | null =>
      refine (Decides.last (decides_lookup _ _) fun _ =>
        .step (decides_lift hs.target) fun target =>
        .step (decides_lift (ha.code? _)) fun properties =>
        .step (decides_lift ⟨_, rfl⟩) fun args =>
        .step (decides_lift ⟨_, rfl⟩) fun mixin => decides_pure _).congr ?_
      simp [Node.AllPermitted, Node.Fits, Generated]
    | list h =>
      simp only [Content.generate]
      refine (Decides.bind (decides_lookup _ _) fun _ =>
        .step (decides_lift hs.target) fun target =>
        .step (decides_lift (ha.code? _)) fun properties =>
        .step (decides_lift ⟨_, rfl⟩) fun args =>
        .step (decides_lift ⟨_, rfl⟩) fun mixin =>
        .step decides_fresh fun array =>
        .step (decides_lift h.scopeDeclarations) fun _ =>
        .bind (h.decides_definitions hs.depth False) fun _ =>
        .last (P := AllPermitted Generated s.mixins.Knows (0 < s.depth) False _)
          (h.decides_generate (Scope.filling_filling hs.depth array) [] (by simp)) fun _ =>
        decides_pure _).congr ?_
      simp [Node.AllPermitted, Node.Fits, Generated, allPermitted_true_iff]
  | _, .placeholder, s, hs => by
    rw [Node.generate]
    have hdepth := hs.depth
    split
    · rename_i hz
      exact (decides_throw (.inr rfl)).congr
        (by simp [Node.AllPermitted, Node.Fits, Generated, hz])
    · rename_i hz
      refine (Decides.step (decides_lift hs.target) fun _ => decides_pure _).congr ?_
      have hpos : 0 < s.depth := by omega
      simp [Node.AllPermitted, Node.Fits, hpos]
  | _, .other, s, hs => by
    rw [Node.generate]
    exact (decides_throw (.inr rfl)).congr (by simp [Node.AllPermitted, Node.Fits, Generated])

theorem WellTypedNodes.decides_generate : ∀ {items : List Content}, WellTypedNodes items →
    ∀ {s : Scope}, s.Filling → ∀ (texts : List Datum), (∀ t ∈ texts, ∃ v, t = .str v) →
    Decides (generateItems s texts items)
      (AllPermitted Generated s.mixins.Knows (0 < s.depth) False items)
  | _, .nil, s, hs, texts, ht => by
    rw [generateItems]
    exact (Scope.decides_flush hs ht).congr (by simp [allPermitted_nil])
  | _, .cons hn hrest, s, hs, texts, ht => by
    rw [allPermitted_cons]
    have hnode := hn.decides_generate hs
    cases hn with
    | @text value =>
      -- a text is only put with those before it
      rw [generateItems]
      refine (hrest.decides_generate hs (texts ++ [.str value]) ?_).congr ?_
      · intro t hmem
        rcases List.mem_append.1 hmem with hmem | hmem
        · exact ht t hmem
        · exact ⟨value, List.mem_singleton.1 hmem⟩
      · simp [Node.AllPermitted, Node.Fits]
    | _ =>
      rw [generateItems]
      · refine .step (Scope.decides_flush hs ht) fun _ => ?_
        exact .bind hnode fun _ =>
          .last (hrest.decides_generate hs [] (by simp)) fun _ => decides_pure _
      · intro value h
        cases h

theorem WellTypedNodes.decides_clauses : ∀ {items : List Content}, WellTypedNodes items →
    ∀ {s : Scope}, s.Filling →
    Decides (clausesOfItems s items)
      (AllPermitted Generated s.mixins.Knows (0 < s.depth) True items)
  | _, .nil, s, hs => by
    rw [clausesOfItems]
    exact (decides_pure _).congr (by simp [allPermitted_nil])
  | _, .cons hn hrest, s, hs => by
    rw [allPermitted_cons]
    cases hn with
    | branch hexpr h =>
      rw [clausesOfItems]
      refine .of_lift (hexpr.written branchLabel) ?_
      cases h with
      | null =>
        refine (Decides.step (decides_pure _) fun _ => .last (hrest.decides_clauses hs) fun _ =>
          decides_pure _).congr ?_
        simp [Node.AllPermitted, Node.Fits]
      | list h =>
        simp only [Content.generate]
        refine (Decides.bind (h.decides_generate hs [] (by simp)) fun _ =>
          .step (decides_pure _) fun _ =>
          .last (hrest.decides_clauses hs) fun _ => decides_pure _).congr ?_
        simp [Node.AllPermitted, Node.Fits, Generated]
    | _ =>
      -- anything but a branch is refused
      rw [clausesOfItems]
      · refine (decides_throw (.inr rfl)).congr ?_
        simp [Node.AllPermitted, Node.Fits, Generated]
      · intro expr children h
        cases h

theorem Content.WellTypedAlternate.decides_otherwise : ∀ {c : Content}, c.WellTypedAlternate →
    ∀ {s : Scope}, s.Filling →
    Decides (c.otherwise s) (c.AlternatePermitted Generated s.mixins.Knows (0 < s.depth))
  | _, .null, s, hs => by
    rw [Content.otherwise]
    exact (decides_pure _).congr (by simp [Content.AlternatePermitted])
  | _, .list h, s, hs => by
    rw [Content.otherwise]
    split
    · rename_i he
      obtain rfl : _ = [] := by simpa using he
      exact (decides_pure _).congr (by simp [Content.AlternatePermitted, allPermitted_nil])
    · refine (Decides.last (h.decides_generate hs [] (by simp)) fun _ => decides_pure _).congr ?_
      simp [Content.AlternatePermitted]
  | _, @Content.WellTypedAlternate.conditional t _ _ hc ha, s, hs => by
    rw [Content.otherwise]
    refine .of_lift (Datum.written_str _ _) ?_
    refine (Decides.bind (hc.decides_generate hs [] (by simp)) fun body => .last
      (ha.decides_otherwise hs) fun _ => decides_pure _).congr ?_
    rw [← permitted_conditional_generated (.str t) ha]
    simp [Content.AlternatePermitted, allPermitted_cons, allPermitted_nil]

theorem Content.WellTypedBlock.decides_whenEmpty : ∀ {c : Content}, c.WellTypedBlock →
    ∀ {s : Scope}, s.Filling →
    Decides (c.whenEmpty s) (∀ inner, c = .list inner →
      AllPermitted Generated s.mixins.Knows (0 < s.depth) False inner)
  | _, .null, s, hs => by
    rw [Content.whenEmpty]
    exact (decides_pure _).congr (by simp)
  | _, .list h, s, hs => by
    rw [Content.whenEmpty]
    refine (Decides.last (h.decides_generate hs [] (by simp)) fun _ => decides_pure _).congr ?_
    simp

theorem Node.WellTyped.decides_definitions : ∀ {n : Node}, n.WellTyped → ∀ {s : Scope},
    0 ≤ s.depth → ∀ (inCase : Prop),
    Decides (n.definitions s) (n.AllPermitted Hoisted s.mixins.Knows (0 < s.depth) inCase)
  | _, .tag _ hc, s, hs, _ | _, .loop hc, s, hs, _ => by
    rw [Node.definitions, Content.definitions]
    refine (hc.decides_definitions hs False).congr ?_
    simp [Node.AllPermitted, Hoisted]
  | _, .switch hc, s, hs, _ => by
    rw [Node.definitions, Content.definitions]
    refine (hc.decides_definitions hs True).congr ?_
    simp [Node.AllPermitted, Hoisted]
  | _, .code h, s, hs, _ => by
    rw [Node.definitions]
    refine (h.decides_definitions hs).congr ?_
    cases h <;> simp [Node.AllPermitted, Hoisted]
  | _, .branch _ h, s, hs, _ => by
    rw [Node.definitions]
    refine (h.decides_definitions hs).congr ?_
    cases h <;> simp [Node.AllPermitted, Hoisted]
  | _, .conditional hc ha, s, hs, _ => by
    rw [Node.definitions]
    refine (Decides.bind (hc.decides_definitions hs False) fun body => .last
      (ha.decides_definitions hs) fun _ => decides_pure _).congr ?_
    exact (permitted_conditional_hoisted _ ha _).symm
  | _, .mixin _ hrest hc, s, hs, _ => by
    have hdepth : 0 ≤ s.inMixin.depth := by
      simp only [Scope.inMixin]
      omega
    rw [Node.definitions]
    refine .of_lift (paramList_str _) ?_
    simp only [Content.generate]
    refine (Decides.step (decides_lift ⟨_, rfl⟩) fun mixin =>
      .step (decides_lift ⟨_, hrest.written _⟩) fun rest =>
      .step decides_fresh fun array =>
      .step (decides_lift hc.scopeDeclarations) fun _ =>
      .bind (hc.decides_definitions hdepth False) fun _ =>
      .last (P := AllPermitted Generated s.mixins.Knows (0 < s.depth + 1) False _)
        (hc.decides_generate (Scope.filling_filling hdepth array) [] (by simp)) fun _ =>
      decides_pure _).congr ?_
    have hpos : 0 < s.depth + 1 := by omega
    simp [Node.AllPermitted, Hoisted, allPermitted_true_iff, Scope.inMixin, hpos]
  | _, .text, s, hs, _ | _, .comment, s, hs, _ | _, .placeholder, s, hs, _
  | _, .other, s, hs, _ => by
    rw [Node.definitions]
    exact (decides_pure _).congr (by simp [Node.AllPermitted, Hoisted])
  | _, .each _ _ _, s, hs, _ => by
    rw [Node.definitions]
    refine (decides_pure _).congr ?_
    simp [Node.AllPermitted, Hoisted, allPermitted_of_not]
  | _, .call _ _, s, hs, _ => by
    rw [Node.definitions]
    refine (decides_pure _).congr ?_
    simp [Node.AllPermitted, Hoisted, allPermitted_of_not]

theorem WellTypedNodes.decides_definitions : ∀ {items : List Content}, WellTypedNodes items →
    ∀ {s : Scope}, 0 ≤ s.depth → ∀ (inCase : Prop),
    Decides (definitionsOfItems s items)
      (AllPermitted Hoisted s.mixins.Knows (0 < s.depth) inCase items)
  | _, .nil, s, hs, _ => by
    rw [definitionsOfItems]
    exact (decides_pure _).congr (by simp [allPermitted_nil])
  | _, .cons hn hrest, s, hs, _ => by
    rw [definitionsOfItems, allPermitted_cons]
    exact .bind (hn.decides_definitions hs _) fun _ => .last (hrest.decides_definitions hs _)
      fun _ => decides_pure _

theorem Content.WellTypedBlock.decides_definitions : ∀ {c : Content}, c.WellTypedBlock →
    ∀ {s : Scope}, 0 ≤ s.depth →
    Decides (c.definitions s) (∀ inner, c = .list inner →
      AllPermitted Hoisted s.mixins.Knows (0 < s.depth) False inner)
  | _, .null, s, hs => by
    rw [Content.definitions]
    exact (decides_pure _).congr (by simp)
  | _, .list h, s, hs => by
    rw [Content.definitions]
    exact (h.decides_definitions hs False).congr (by simp)

theorem Content.WellTypedAlternate.decides_definitions : ∀ {c : Content}, c.WellTypedAlternate →
    ∀ {s : Scope}, 0 ≤ s.depth →
    Decides (c.alternateDefinitions s)
      (c.AlternatePermitted Hoisted s.mixins.Knows (0 < s.depth))
  | _, .null, s, hs => by
    rw [Content.alternateDefinitions]
    exact (decides_pure _).congr (by simp [Content.AlternatePermitted])
  | _, .list h, s, hs => by
    rw [Content.alternateDefinitions]
    exact (h.decides_definitions hs False).congr (by simp [Content.AlternatePermitted])
  | _, @Content.WellTypedAlternate.conditional t _ _ hc ha, s, hs => by
    rw [Content.alternateDefinitions, if_pos (by rfl), Node.definitions]
    refine (Decides.bind (hc.decides_definitions hs False) fun body => .last
      (ha.decides_definitions hs) fun _ => decides_pure _).congr ?_
    rw [← permitted_conditional_hoisted (.str t) ha False]
    simp [Content.AlternatePermitted, allPermitted_cons, allPermitted_nil]

end

end Hyperscript
