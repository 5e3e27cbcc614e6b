import Hyperscript.Proofs.Tree.Markup

/-!
# Generated statements do what the template says

The statements of a node push onto the array that is being filled exactly what the node contributes
(`Simulates`).  They may use the arrays that were taken for them and leave all others alone, which
is what lets the statements of several nodes run one after the other.

Calls and placeholders are left to the machine and to the reading of the template, which have to
agree on them.
-/

namespace Hyperscript

variable {δ : Type}

/-! ## Texts -/

theorem Interpolated.eval_joinFrom (v : Valuation δ) (next : Interpolated)
    (tail : List (Span × List Char)) (head : List Char) :
    (joinFrom head next tail).eval v =
      (Interpolated.mk head tail).eval v ++ '\n' :: next.eval v := by
  induction tail generalizing head with
  | nil => simp [joinFrom, Interpolated.eval]
  | cons part rest ih =>
    obtain ⟨span, literal⟩ := part
    have hrest := ih literal
    simp only [Interpolated.eval] at hrest
    simp only [joinFrom, Interpolated.eval, List.flatMap_cons, List.append_assoc, hrest]

theorem Interpolated.eval_join (v : Valuation δ) (t next : Interpolated) :
    (t.join next).eval v = t.eval v ++ '\n' :: next.eval v :=
  eval_joinFrom v next t.tail t.head

/-- What a run of texts adds: one text of several lines, or nothing if there is none. -/
def runEntries (v : Valuation δ) : List String → List (VTree δ)
  | [] => []
  | text :: rest =>
    [.text (String.ofList ((Interpolated.ofLines ((text :: rest).map String.toList)).eval v))]

theorem runEntries_singleton (v : Valuation δ) (text : String) :
    runEntries v [text] = [.text (v.text text)] := rfl

theorem runEntries_cons (v : Valuation δ) (text next : String) (rest : List String)
    (others : List (VTree δ)) :
    joinLine [.text (v.text text)] (runEntries v (next :: rest) ++ others) =
      runEntries v (text :: next :: rest) ++ others := by
  simp only [runEntries, List.map_cons, List.cons_append, List.nil_append, joinLine,
    Interpolated.ofLines, Interpolated.eval_join, Valuation.text]
  congr 2
  apply String.ext
  simp

/-- Texts as nodes. -/
def textNodes (texts : List String) : List Content :=
  texts.map fun text => .node (.text (.str text))

/-- Texts that stand together before something else make one entry. -/
theorem contributions_textNodes (ρ : Reading δ) {rest : List Content}
    (h : startsWithText rest = false) (texts : List String) :
    contributions ρ (textNodes texts ++ rest) =
      (contributions ρ rest).map (runEntries ρ.valuation texts ++ ·) := by
  induction texts with
  | nil => simp [textNodes, runEntries]
  | cons text texts ih =>
    have hcons : textNodes (text :: texts) ++ rest =
        .node (.text (.str text)) :: (textNodes texts ++ rest) := rfl
    rw [hcons, contributions, ih]
    simp only [Content.contribution, Node.contribution, bind, Option.bind]
    cases contributions ρ rest with
    | none => rfl
    | some others =>
      -- the last text of the run starts an entry, every other one goes into the entry after it
      cases texts with
      | nil =>
        have hrest : startsWithText (textNodes [] ++ rest) = false := h
        rw [runEntries_singleton]
        simp [hrest, runEntries]
      | cons next texts =>
        have hnext : startsWithText (textNodes (next :: texts) ++ rest) = true := rfl
        have htext : startsWithText [.node (.text (.str text))] = true := rfl
        simp only [hnext, htext, Option.map_some, Bool.and_self, if_true, runEntries_cons]
        rfl

/-! ## Effects -/

/-- The array is declared, and these are the mixins. -/
structure Ready (table : Mixins) (a : ArrayName) (st : State δ) : Prop where
  declared : ∃ entries, st.arrays a = some entries
  mixins : st.mixins = table

/-- From `st` to `st'` the entries `out` come to the array `a`; of the other arrays only those from
`k` up to `k'` may change. -/
structure Appends (k k' : Nat) (a : ArrayName) (out : List (VTree δ)) (st st' : State δ) :
    Prop where
  target : ∃ entries, st.arrays a = some entries ∧ st'.arrays a = some (entries ++ out)
  others : ∀ b, b ≠ a → Outside k k' b → st'.arrays b = st.arrays b
  mixins : st'.mixins = st.mixins

theorem Appends.ready {k k' : Nat} {a : ArrayName} {out : List (VTree δ)} {st st' : State δ}
    {table : Mixins} (h : Appends k k' a out st st') (hst : Ready table a st) :
    Ready table a st' := by
  obtain ⟨entries, -, hentries⟩ := h.target
  exact ⟨⟨_, hentries⟩, h.mixins.trans hst.mixins⟩

theorem State.append_eq_some {st : State δ} {a : ArrayName} {table : Mixins}
    (hst : Ready table a st) (k : Nat) (out : List (VTree δ)) :
    ∃ st', st.append a out = some st' ∧ Appends k k a out st st' := by
  obtain ⟨entries, hentries⟩ := hst.declared
  have happend : st.append a out =
      some { st with arrays := Function.update st.arrays a (some (entries ++ out)) } := by
    rw [State.append, hentries]
    rfl
  refine ⟨_, happend, ⟨entries, hentries, ?_⟩, ?_, rfl⟩
  · exact Function.update_self ..
  · intro b hb _
    exact Function.update_of_ne hb ..

/-- The run has the effect that is expected: it pushes these entries, or there is no result on
either side. -/
def Simulates (k k' : Nat) (a : ArrayName) (st : State δ) (expected : Option (List (VTree δ)))
    (result : Option (State δ)) : Prop :=
  (expected = none ∧ result = none) ∨
    ∃ out st', expected = some out ∧ result = some st' ∧ Appends k k' a out st st'

section Simulates

variable {k k₁ k' : Nat} {a : ArrayName} {st : State δ} {table : Mixins}

theorem simulates_nil (hst : Ready table a st) : Simulates k k a st (some []) (some st) := by
  obtain ⟨entries, hentries⟩ := hst.declared
  exact .inr ⟨[], st, rfl, rfl, ⟨entries, hentries, by rw [hentries, List.append_nil]⟩,
    fun _ _ _ => rfl, rfl⟩

theorem simulates_append (hst : Ready table a st) (out : List (VTree δ)) :
    Simulates k k a st (some out) (st.append a out) := by
  obtain ⟨st', hst', h⟩ := State.append_eq_some hst k out
  exact .inr ⟨out, st', rfl, hst', h⟩

/-- A larger range of arrays may be used. -/
theorem Simulates.mono {expected : Option (List (VTree δ))} {result : Option (State δ)}
    (h : Simulates k k' a st expected result) {k₀ k₂ : Nat} (hk : k₀ ≤ k) (hk' : k' ≤ k₂) :
    Simulates k₀ k₂ a st expected result := by
  rcases h with h | ⟨out, st', he, hr, h⟩
  · exact .inl h
  · exact .inr ⟨out, st', he, hr, h.target, fun b hb hout => h.others b hb (hout.mono hk hk'),
      h.mixins⟩

/-- One run after the other pushes both lists of entries. -/
theorem Simulates.bind {first others : Option (List (VTree δ))} {result : Option (State δ)}
    {next : State δ → Option (State δ)} (h₁ : Simulates k k₁ a st first result)
    (h₂ : ∀ st', Ready table a st' → Simulates k₁ k' a st' others (next st'))
    (hst : Ready table a st) (hk : k ≤ k₁) (hk' : k₁ ≤ k') :
    Simulates k k' a st (do let xs ← first; let ys ← others; return xs ++ ys)
      (result >>= next) := by
  rcases h₁ with ⟨rfl, rfl⟩ | ⟨xs, st₁, rfl, rfl, h₁⟩
  · exact .inl ⟨rfl, rfl⟩
  · rcases h₂ st₁ (h₁.ready hst) with ⟨rfl, hnext⟩ | ⟨ys, st₂, rfl, hnext, h₂⟩
    · exact .inl ⟨rfl, hnext⟩
    · refine .inr ⟨xs ++ ys, st₂, rfl, hnext, ?_, ?_, h₂.mixins.trans h₁.mixins⟩
      · obtain ⟨entries, hentries, hxs⟩ := h₁.target
        obtain ⟨entries', hentries', hys⟩ := h₂.target
        rw [hxs] at hentries'
        cases hentries'
        exact ⟨entries, hentries, by rw [hys, List.append_assoc]⟩
      · intro b hb hout
        rw [h₂.others b hb (hout.mono hk (Nat.le_refl _)),
          h₁.others b hb (hout.mono (Nat.le_refl _) hk')]

/-- What a function returns is pushed. -/
theorem simulates_receive (hst : Ready table a st) {expected : Option (List (VTree δ))}
    {returned : Option (Returned δ)} (h : returned = expected.map (·, table)) :
    Simulates k k a st expected (st.receive a returned) := by
  subst h
  cases expected with
  | none => exact .inl ⟨rfl, rfl⟩
  | some out =>
    have hself : ({ st with mixins := table } : State δ) = st := by rw [← hst.mixins]
    show Simulates k k a st (some out) (({ st with mixins := table } : State δ).append a out)
    rw [hself]
    exact simulates_append hst out

end Simulates

theorem Stmt.execAll_append (m : Machine δ) (xs ys : List Stmt) (st : State δ) :
    Stmt.execAll m (xs ++ ys) st = Stmt.execAll m xs st >>= Stmt.execAll m ys := by
  induction xs generalizing st with
  | nil => rfl
  | cons x xs ih =>
    simp only [List.cons_append, Stmt.execAll]
    cases x.exec m st with
    | none => rfl
    | some st' => exact ih st'

theorem Stmt.execAll_singleton (m : Machine δ) (x : Stmt) (st : State δ) :
    Stmt.execAll m [x] st = x.exec m st := by
  simp only [Stmt.execAll]
  cases x.exec m st <;> rfl

/-! ## Runs of texts -/

/-- The push of a run of texts adds its entry. -/
theorem simulates_flush (m : Machine δ) {s : Scope} {a : ArrayName} {st : State δ} {table : Mixins}
    (hst : Ready table a st) (ha : s.target = .ok a) {texts : List String} {before : List Stmt}
    (h : s.flush (texts.map .str) = .ok before) (k : Nat) :
    Simulates k k a st (some (runEntries m.valuation texts)) (Stmt.execAll m before st) := by
  rcases Scope.flush_cases h with ⟨hnil, rfl⟩ | ⟨target, text, htarget, htext, rfl⟩
  · cases List.map_eq_nil_iff.1 hnil
    exact simulates_nil hst
  · rw [ha] at htarget
    cases htarget
    rw [ofRun_str] at htext
    cases htext
    rw [Stmt.execAll_singleton]
    cases texts with
    | nil => cases h
    | cons first texts => exact simulates_append hst _

/-! ## Functions -/

/-- A function that fills its array by the statements of some nodes and defines no mixins. -/
structure Routine.Renders (options : Options) (routine : Routine) (children : List Content) :
    Prop where
  definitions : routine.definitions = []
  markup : MarkupNodes true false children
  body : ∃ s j k k', s.options = options ∧ routine.array = .fresh j ∧ s.target = .ok (.fresh j) ∧
    j < k ∧ ItemsEmit children s [] k routine.body k'

/-- A machine and a reading that agree on expressions and, in markup with `mixins`, also on calls
and placeholders, as long as these are the mixins that are defined. -/
structure Agree (mixins : Bool) (table : Mixins) (m : Machine δ) (ρ : Reading δ) : Prop where
  valuation : m.valuation = ρ.valuation
  call : mixins = true → ∀ name, m.call name none table = (ρ.call name none).map (·, table)
  callWith : mixins = true → ∀ name routine children, routine.Renders ρ.options children →
    m.call name (some routine) table = (ρ.call name (some children)).map (·, table)
  block : mixins = true → m.block table = ρ.block.map (·, table)

/-! ## Elements -/

/-- An element with children: they are pushed onto an array of its own first. -/
theorem simulates_element {m : Machine δ} {table : Mixins} {k k' : Nat} {a : ArrayName}
    {st : State δ} (hst : Ready table a st) (ha : Outside k k' a) (hk : k + 1 ≤ k')
    {children : Option (List (VTree δ))} {tag : String} {properties : Option String}
    {body : List Stmt}
    (h : ∀ st', Ready table (.fresh k) st' →
      Simulates (k + 1) k' (.fresh k) st' children (Stmt.execAll m body st')) :
    Simulates k k' a st (do return [.element tag properties (← children)])
      ((Stmt.element a (.fresh k) tag properties body).exec m st) := by
  have hready : Ready table (.fresh k) (st.declare (.fresh k)) :=
    ⟨⟨[], Function.update_self ..⟩, hst.mixins⟩
  -- the target was declared before, so it is another array
  have hne : a ≠ .fresh k := ha.ne_fresh (by omega)
  rw [Stmt.exec]
  rcases h _ hready with ⟨rfl, hbody⟩ | ⟨out, st₁, rfl, hbody, happ⟩
  · rw [hbody]
    exact .inl ⟨rfl, rfl⟩
  · have hout : st₁.arrays (.fresh k) = some out := by
      obtain ⟨entries, hentries, hout⟩ := happ.target
      have hempty : (st.declare (.fresh k)).arrays (.fresh k) = some [] := Function.update_self ..
      rw [hempty] at hentries
      cases hentries
      exact hout
    have hframe : ∀ b, b ≠ .fresh k → Outside k k' b → st₁.arrays b = st.arrays b := by
      intro b hb hout
      rw [happ.others b hb (hout.mono (by omega) (by omega))]
      exact Function.update_of_ne hb ..
    have hst₁ : Ready table a st₁ := by
      obtain ⟨entries, hentries⟩ := hst.declared
      exact ⟨⟨entries, by rw [hframe a hne ha, hentries]⟩, happ.mixins.trans hst.mixins⟩
    obtain ⟨st₂, hst₂, happ₂⟩ := State.append_eq_some hst₁ k [.element tag properties out]
    refine .inr ⟨_, st₂, rfl, ?_, ?_, ?_, ?_⟩
    · rw [hbody]
      show (st₁.arrays (.fresh k) >>= fun children =>
        st₁.append a [.element tag properties children]) = some st₂
      rw [hout]
      exact hst₂
    · rw [← hframe a hne ha]
      exact happ₂.target
    · intro b hb hout
      have hbk : b ≠ .fresh k := hout.ne_fresh (by omega)
      rw [happ₂.others b hb (hout.mono (Nat.le_refl k) (by omega)), hframe b hbk hout]
    · rw [happ₂.mixins, happ.mixins]
      rfl

/-! ## Cases -/

theorem ItemsEmitClauses.labels {items : List Content} {s : Scope} {k : Nat}
    {clauses : List Clause} {k' : Nat} (h : ItemsEmitClauses items s k clauses k') :
    clauses.map Clause.label = branchLabels items := by
  induction items generalizing k clauses with
  | nil =>
    cases h
    rfl
  | cons c items ih =>
    cases h with
    | fallThrough _ h => exact congrArg (_ :: ·) (ih h)
    | body _ _ h => exact congrArg (_ :: ·) (ih h)

/-! ## Nodes -/

/-- A test decides which of two branches is run, and which of them contributes. -/
theorem simulates_choice {m : Machine δ} {ρ : Reading δ} (hvaluation : m.valuation = ρ.valuation)
    {k k₁ k' : Nat} (hk : k ≤ k₁) (hk' : k₁ ≤ k') {a : ArrayName} {st : State δ} {test : String}
    {expected₁ expected₂ : Option (List (VTree δ))} {result₁ result₂ : Option (State δ)}
    (h₁ : Outside k k₁ a → Simulates k k₁ a st expected₁ result₁)
    (h₂ : Outside k₁ k' a → Simulates k₁ k' a st expected₂ result₂) (hout : Outside k k' a) :
    Simulates k k' a st (if ρ.valuation.holds test then expected₁ else expected₂)
      (if m.valuation.holds test then result₁ else result₂) := by
  rw [hvaluation]
  by_cases htest : ρ.valuation.holds test = true
  · rw [if_pos htest, if_pos htest]
    exact (h₁ (hout.mono (Nat.le_refl k) hk')).mono (Nat.le_refl k) hk'
  · rw [if_neg htest, if_neg htest]
    exact (h₂ (hout.mono hk (Nat.le_refl k'))).mono hk (Nat.le_refl k')

theorem contributions_cons_of_ne_text (ρ : Reading δ) {n : Node} (hn : ∀ value, n ≠ .text value)
    (rest : List Content) :
    contributions ρ (.node n :: rest) = do
      let first ← n.contribution ρ
      let others ← contributions ρ rest
      return first ++ others := by
  have htext : startsWithText [.node n] = false := by
    cases n with
    | text value => exact absurd rfl (hn value)
    | _ => rfl
  rw [contributions]
  simp only [htext, Bool.false_and, Content.contribution]
  rfl

/-- A node that ends a run of texts: the texts, the node and what follows are pushed in turn. -/
theorem simulates_cons {m : Machine δ} {ρ : Reading δ} (hvaluation : m.valuation = ρ.valuation)
    {n : Node} (hn : ∀ value, n ≠ .text value) {rest : List Content} {table : Mixins} {s : Scope}
    {a : ArrayName} {st : State δ} (hst : Ready table a st) (ha : s.target = .ok a)
    {texts : List String} {before stmts after : List Stmt}
    (hflush : s.flush (texts.map .str) = .ok before) {k k₁ k' : Nat} (hk : k ≤ k₁) (hk' : k₁ ≤ k')
    (hstmts : Outside k k₁ a → ∀ st', Ready table a st' →
      Simulates k k₁ a st' (n.contribution ρ) (Stmt.execAll m stmts st'))
    (hafter : Outside k₁ k' a → ∀ st', Ready table a st' →
      Simulates k₁ k' a st' (contributions ρ rest) (Stmt.execAll m after st'))
    (hout : Outside k k' a) :
    Simulates k k' a st (contributions ρ (textNodes texts ++ .node n :: rest))
      (Stmt.execAll m (before ++ stmts ++ after) st) := by
  have hstart : startsWithText (.node n :: rest) = false := by
    cases n with
    | text value => exact absurd rfl (hn value)
    | _ => rfl
  have hnode : ∀ st', Ready table a st' → Simulates k k' a st'
      (contributions ρ (.node n :: rest)) (Stmt.execAll m (stmts ++ after) st') := by
    intro st' hst'
    rw [contributions_cons_of_ne_text ρ hn, Stmt.execAll_append]
    exact (hstmts (hout.mono (Nat.le_refl k) hk') st' hst').bind
      (hafter (hout.mono hk (Nat.le_refl k'))) hst' hk hk'
  rw [contributions_textNodes ρ hstart, List.append_assoc, Stmt.execAll_append, ← hvaluation]
  -- the texts take no array, so all of them are taken by the node and what follows it
  have hall := (simulates_flush m hst ha hflush k).bind hnode hst (Nat.le_refl k)
    (Nat.le_trans hk hk')
  cases hc : contributions ρ (.node n :: rest) with
  | none => simpa [hc] using hall
  | some others => simpa [hc] using hall

theorem ItemsEmitClauses.wellFormed {items : List Content} {s : Scope} {k : Nat}
    {clauses : List Clause} {k' : Nat} (h : ItemsEmitClauses items s k clauses k')
    (hdefaults : (branchLabels items).count none ≤ 1) : Clause.wellFormed clauses = true := by
  rw [Clause.wellFormed, h.labels]
  exact decide_eq_true hdefaults

theorem not_refuseItems_null : ¬refuseItems .null = .ok () := by
  intro h
  cases h

theorem Content.MarkupBlock.contribution_of_not_isTrue {mixins : Bool} {c : Content}
    (h : c.MarkupBlock mixins) (hc : c.isTrue = false) (ρ : Reading δ) :
    c.contribution ρ = some [] := by
  cases h with
  | null => rfl
  | list h =>
    obtain rfl : _ = [] := by simpa [Content.isTrue] using hc
    rfl

theorem Content.MarkupBlock.passed_of_isNull {mixins : Bool} {c : Content}
    (h : c.MarkupBlock mixins) (hc : c.isNull = true) : c.passed = none := by
  cases h with
  | null => rfl
  | list h => cases hc

section Nodes

variable (table : Mixins) (m : Machine δ) (ρ : Reading δ)

/-- The statements of a node push what the node contributes. -/
def Node.Simulated (n : Node) : Prop :=
  ∀ {s : Scope} {k : Nat} {stmts : List Stmt} {k' : Nat}, n.Emits s k stmts k' →
    s.options = ρ.options → ∀ {a : ArrayName}, s.target = .ok a → Outside k k' a →
    ∀ {st : State δ}, Ready table a st →
    Simulates k k' a st (n.contribution ρ) (Stmt.execAll m stmts st)

/-- The same for a block of nodes. -/
def Content.Simulated (c : Content) : Prop :=
  ∀ {s : Scope} {k : Nat} {stmts : List Stmt} {k' : Nat}, c.Emits s k stmts k' →
    s.options = ρ.options → ∀ {a : ArrayName}, s.target = .ok a → Outside k k' a →
    ∀ {st : State δ}, Ready table a st →
    Simulates k k' a st (c.contribution ρ) (Stmt.execAll m stmts st)

/-- The same for nodes after some texts that are still to be pushed. -/
def ItemsSimulated (items : List Content) : Prop :=
  ∀ (texts : List String) {s : Scope} {k : Nat} {stmts : List Stmt} {k' : Nat},
    ItemsEmit items s (texts.map .str) k stmts k' →
    s.options = ρ.options → ∀ {a : ArrayName}, s.target = .ok a → Outside k k' a →
    ∀ {st : State δ}, Ready table a st →
    Simulates k k' a st (contributions ρ (textNodes texts ++ items)) (Stmt.execAll m stmts st)

/-- The same for the alternate of a conditional. -/
def Content.AlternateSimulated (c : Content) : Prop :=
  ∀ {s : Scope} {k : Nat} {otherwise : Otherwise} {k' : Nat}, c.Continues s k otherwise k' →
    s.options = ρ.options → ∀ {a : ArrayName}, s.target = .ok a → Outside k k' a →
    ∀ {st : State δ}, Ready table a st →
    Simulates k k' a st (c.contribution ρ) (otherwise.exec m st)

/-- The same for the branches of a case, wherever control comes in. -/
def BranchesSimulated (items : List Content) : Prop :=
  ∀ {s : Scope} {k : Nat} {clauses : List Clause} {k' : Nat},
    ItemsEmitClauses items s k clauses k' →
    s.options = ρ.options → ∀ {a : ArrayName}, s.target = .ok a → Outside k k' a →
    ∀ {st : State δ}, Ready table a st → ∀ (enters : Option String → Bool) (entered : Bool),
    Simulates k k' a st ((arrival enters entered (bodiesOfItems ρ items)).getD (some []))
      (Clause.execAll m enters entered clauses st)

variable {table m ρ} {mixins : Bool}

theorem simulated_tag {name : Datum} {attributes : Attributes} {items : List Content}
    (hc : ItemsSimulated table m ρ items) :
    (Node.tag name attributes (.list items)).Simulated table m ρ := by
  intro s k stmts k' h ho a ha hout st hst
  cases h with
  | element htag hproperties htarget _ hbody =>
    cases hbody with
    | list hbody =>
      cases htarget.symm.trans ha
      rw [Stmt.execAll_singleton, Node.contribution, ← ho, htag, hproperties]
      exact simulates_element hst hout hbody.le fun st' hst' =>
        hc [] hbody ho rfl (outside_fresh (Nat.lt_succ_self k)) hst'
  | leaf htag hproperties htarget hchildren =>
    cases htarget.symm.trans ha
    obtain rfl : items = [] := by simpa [Content.isTrue] using hchildren
    rw [Stmt.execAll_singleton, Node.contribution, ← ho, htag, hproperties]
    exact simulates_append hst _

theorem simulated_text (hagree : Agree mixins table m ρ) {value : String} :
    (Node.text (.str value)).Simulated table m ρ := by
  intro s k stmts k' h ho a ha hout st hst
  cases h with
  | text htarget htext =>
    cases htarget.symm.trans ha
    cases htext
    rw [Stmt.execAll_singleton, Node.contribution, ← hagree.valuation]
    exact simulates_append hst _

theorem simulated_code (hagree : Agree mixins table m ρ)
    {value : String} {c : Content} (hc : c.MarkupBlock mixins)
    (hsim : c.Simulated table m ρ) :
    (Node.code (.str value) (.bool true) c).Simulated table m ρ := by
  intro s k stmts k' h ho a ha hout st hst
  cases h with
  | value _ htarget _ hrest =>
    cases htarget.symm.trans ha
    rw [Node.contribution, ← hagree.valuation]
    -- the value is pushed first, then the children of the code
    exact (simulates_append hst [.value (m.valuation.value value)]).bind
      (fun st' hst' => hsim hrest ho ha hout hst') hst (Nat.le_refl k) hrest.le
  | bareValue _ htarget hchildren =>
    cases htarget.symm.trans ha
    rw [Stmt.execAll_singleton, Node.contribution, hc.contribution_of_not_isTrue hchildren,
      ← hagree.valuation]
    exact simulates_append hst _
  | splice hbuffer => cases hbuffer
  | codeBlock hbuffer => cases hbuffer

theorem simulated_conditional (hagree : Agree mixins table m ρ)
    {test : String} {items : List Content} {c : Content}
    (hc : ItemsSimulated table m ρ items) (ha' : c.AlternateSimulated table m ρ) :
    (Node.conditional (.str test) (.list items) c).Simulated table m ρ := by
  intro s k stmts k' h ho a ha hout st hst
  cases h with
  | conditional hbody hotherwise =>
    cases hbody with
    | list hbody =>
      rw [Stmt.execAll_singleton, Node.contribution]
      exact simulates_choice hagree.valuation hbody.le hotherwise.le
        (fun hout => hc [] hbody ho ha hout hst) (fun hout => ha' hotherwise ho ha hout hst) hout

theorem simulated_elseIf (hagree : Agree mixins table m ρ)
    {test : String} {items : List Content} {c : Content}
    (hc : ItemsSimulated table m ρ items) (ha' : c.AlternateSimulated table m ρ) :
    (Content.node (.conditional (.str test) (.list items) c)).AlternateSimulated table m ρ := by
  intro s k otherwise k' h ho a ha hout st hst
  cases h with
  | elseIf hbody hotherwise =>
    cases hbody with
    | list hbody =>
      exact simulates_choice hagree.valuation hbody.le hotherwise.le
        (fun hout => hc [] hbody ho ha hout hst) (fun hout => ha' hotherwise ho ha hout hst) hout

theorem simulated_switch (hagree : Agree mixins table m ρ)
    {expr : String} {items : List Content} (hdefaults : (branchLabels items).count none ≤ 1)
    (hsim : BranchesSimulated table m ρ items) :
    (Node.switch (.str expr) (.list items)).Simulated table m ρ := by
  intro s k stmts k' h ho a ha hout st hst
  cases h with
  | @switch _ _ _ _ clauses _ hclauses =>
    cases hclauses with
    | list hclauses =>
      have hlabels : (clauses.map Clause.label).any (ρ.valuation.selects expr) =
          clauses.any fun clause => m.valuation.selects expr clause.label := by
        rw [List.any_map, hagree.valuation]
        rfl
      rw [Stmt.execAll_singleton, Stmt.exec, if_pos (hclauses.wellFormed hdefaults),
        Node.contribution, Content.bodies, Valuation.chosen_eq, map_fst_bodiesOfItems,
        ← hclauses.labels, hlabels]
      -- both sides ask whether some label equals the subject
      by_cases hany : (clauses.any fun clause => m.valuation.selects expr clause.label) = true
      · rw [if_pos hany, ← hagree.valuation]
        exact (if_pos hany) ▸ hsim hclauses ho ha hout hst (m.valuation.selects expr) false
      · rw [if_neg hany]
        exact (if_neg hany) ▸ hsim hclauses ho ha hout hst Option.isNone false

theorem simulated_call (hagree : Agree mixins table m ρ)
    {name : String} {c : Content} (hmixins : mixins = true)
    (hc : c.MarkupBlock mixins) :
    (Node.call (.str name) (.str "") {} c).Simulated table m ρ := by
  intro s k stmts k' h ho a ha hout st hst
  cases h with
  | call _ htarget hproperties hargs hname hchildren =>
    cases htarget.symm.trans ha
    cases hproperties
    cases hargs
    cases hname
    rw [Stmt.execAll_singleton, Stmt.exec, if_pos ⟨rfl, rfl⟩, Node.contribution,
      hc.passed_of_isNull hchildren, hst.mixins]
    exact simulates_receive hst (hagree.call hmixins _)
  | @callWith _ _ _ _ _ _ _ _ _ _ _ definitions body _ _ _ htarget hproperties hargs hname hchildren
      hdefinitions hbody =>
    cases htarget.symm.trans ha
    cases hproperties
    cases hargs
    cases hname
    cases hc with
    | null => cases hchildren
    | @list items hc =>
      cases hdefinitions with
      | list hdefinitions =>
        cases hbody with
        | list hbody =>
          -- the block is a function that renders the children
          subst hmixins
          obtain ⟨rfl, rfl⟩ := hc.defines_nil hdefinitions
          have hrenders : Routine.Renders ρ.options ⟨[], .fresh k, body⟩ items :=
            ⟨rfl, hc, s.filling (.fresh k), k, k + 1, k', ho, rfl, rfl, Nat.lt_succ_self k, hbody⟩
          have hle := hbody.le
          rw [Stmt.execAll_singleton, Stmt.exec, if_pos ⟨rfl, rfl⟩, Node.contribution, hst.mixins]
          exact (simulates_receive hst (hagree.callWith rfl _ _ _ hrenders)).mono (Nat.le_refl k)
            (by omega)

theorem simulated_placeholder (hagree : Agree mixins table m ρ) (hmixins : mixins = true) :
    Node.placeholder.Simulated table m ρ := by
  intro s k stmts k' h ho a ha hout st hst
  cases h with
  | placeholder _ htarget =>
    cases htarget.symm.trans ha
    rw [Stmt.execAll_singleton, Stmt.exec, Node.contribution, hst.mixins]
    exact simulates_receive hst (hagree.block hmixins)

theorem simulated_nil (hagree : Agree mixins table m ρ) : ItemsSimulated table m ρ [] := by
  intro texts s k stmts k' h ho a ha hout st hst
  cases h with
  | nil hflush =>
    rw [contributions_textNodes ρ rfl, ← hagree.valuation]
    simpa [contributions] using simulates_flush m hst ha hflush k

theorem simulated_cons (hagree : Agree mixins table m ρ)
    {n : Node} {rest : List Content} (hn : n.WellTyped)
    (hsim : n.Simulated table m ρ) (hrest : ItemsSimulated table m ρ rest) :
    ItemsSimulated table m ρ (.node n :: rest) := by
  intro texts s k stmts k' h ho a ha hout st hst
  cases h with
  | text h =>
    cases hn with
    | @text value =>
      have happend : texts.map Datum.str ++ [.str value] = (texts ++ [value]).map .str := by simp
      rw [happend] at h
      have hsim := hrest (texts ++ [value]) h ho ha hout hst
      simpa [textNodes] using hsim
  | cons hne hflush hstmts hafter =>
    exact simulates_cons hagree.valuation hne hst ha hflush hstmts.le hafter.le
      (fun hout st' hst' => hsim hstmts ho ha hout hst')
      (fun hout st' hst' => hrest [] hafter ho ha hout hst') hout

theorem branchesSimulated_cons {expr : Datum} {c : Content} {rest : List Content}
    (hsim : c.Simulated table m ρ) (hrest : BranchesSimulated table m ρ rest) :
    BranchesSimulated table m ρ (.node (.branch expr c) :: rest) := by
  intro s k clauses k' h ho a ha hout st hst enters entered
  cases h with
  | fallThrough hnull h =>
    rw [bodiesOfItems, if_pos hnull, arrival_fallThrough, Clause.execAll]
    exact hrest h ho ha hout hst enters _
  | body hnull hbody h =>
    have hle := hbody.le
    have hle' := h.le
    rw [bodiesOfItems, if_neg (by rw [hnull]; decide), arrival_body, Clause.execAll]
    split
    · exact (hsim hbody ho ha (hout.mono (Nat.le_refl k) hle') hst).mono (Nat.le_refl k) hle'
    · exact (hrest h ho ha (hout.mono hle (Nat.le_refl k')) hst enters false).mono hle
        (Nat.le_refl k')

theorem branchesSimulated_nil : BranchesSimulated table m ρ [] := by
  intro s k clauses k' h ho a ha hout st hst enters entered
  cases h with
  | nil =>
    rw [bodiesOfItems, arrival_nil, Clause.execAll]
    exact simulates_nil hst

theorem simulated_comment {value buffer : Datum} :
    (Node.comment value buffer).Simulated table m ρ := by
  intro s k stmts k' h ho a ha hout st hst
  cases h with
  | comment => exact simulates_nil hst

/-- A declaration leaves nothing where it stands. -/
theorem simulated_mixin {name params rest : Datum} {c : Content} :
    (Node.mixin name params rest c).Simulated table m ρ := by
  intro s k stmts k' h ho a ha hout st hst
  cases h with
  | mixin => exact simulates_nil hst

theorem simulated_null : (Content.datum .null).Simulated table m ρ := by
  intro s k stmts k' h
  cases h with
  | datum h => exact absurd h not_refuseItems_null

theorem simulated_list {items : List Content} (hc : ItemsSimulated table m ρ items) :
    (Content.list items).Simulated table m ρ := by
  intro s k stmts k' h
  cases h with
  | list h => exact hc [] h

theorem alternateSimulated_null : (Content.datum .null).AlternateSimulated table m ρ := by
  intro s k otherwise k' h ho a ha hout st hst
  cases h with
  | done => exact simulates_nil hst
  | emptyBody htrue => cases htrue

theorem alternateSimulated_list {items : List Content} (hc : ItemsSimulated table m ρ items) :
    (Content.list items).AlternateSimulated table m ρ := by
  intro s k otherwise k' h ho a ha hout st hst
  cases h with
  | nil => exact simulates_nil hst
  | body h => exact hc [] h ho ha hout hst

mutual

theorem Node.Markup.simulated (hagree : Agree mixins table m ρ) : ∀ {n : Node},
    n.Markup mixins → n.Simulated table m ρ
  | _, .tag _ hc => simulated_tag (hc.simulated hagree)
  | _, .text => simulated_text hagree
  | _, .code hc => simulated_code hagree hc (hc.simulated hagree)
  | _, .comment => simulated_comment
  | _, .conditional hc ha =>
    simulated_conditional hagree (hc.simulated hagree) (ha.simulated hagree)
  | _, .switch hb hdefaults => simulated_switch hagree hdefaults (hb.simulated hagree)
  | _, .call hmixins hc => simulated_call hagree hmixins hc
  | _, .placeholder hmixins => simulated_placeholder hagree hmixins

theorem MarkupNodes.simulated (hagree : Agree mixins table m ρ) : ∀ {top : Bool}
    {items : List Content}, MarkupNodes mixins top items → ItemsSimulated table m ρ items
  | _, _, .nil => simulated_nil hagree
  | _, _, .cons hn hrest =>
    simulated_cons hagree hn.wellTyped (hn.simulated hagree) (hrest.simulated hagree)
  | _, _, .mixin _ hbody hrest =>
    simulated_cons hagree (.mixin [] .null hbody.wellTyped) simulated_mixin (hrest.simulated hagree)

theorem MarkupBranches.simulated (hagree : Agree mixins table m ρ) : ∀ {items : List Content},
    MarkupBranches mixins items → BranchesSimulated table m ρ items
  | _, .nil => branchesSimulated_nil
  | _, .cons _ hc hrest => branchesSimulated_cons (hc.simulated hagree) (hrest.simulated hagree)

theorem Content.MarkupBlock.simulated (hagree : Agree mixins table m ρ) : ∀ {c : Content},
    c.MarkupBlock mixins → c.Simulated table m ρ
  | _, .null => simulated_null
  | _, .list hc => simulated_list (hc.simulated hagree)

theorem Content.MarkupAlternate.simulated (hagree : Agree mixins table m ρ) : ∀ {c : Content},
    c.MarkupAlternate mixins → c.AlternateSimulated table m ρ
  | _, .null => alternateSimulated_null
  | _, .list hc => alternateSimulated_list (hc.simulated hagree)
  | _, .conditional hc ha => simulated_elseIf hagree (hc.simulated hagree) (ha.simulated hagree)

end

/-- Filling a new array: what comes to it is what is returned. -/
theorem returned_of_simulates {a : ArrayName} {k k' : Nat} {stmts : List Stmt}
    {expected : Option (List (VTree δ))}
    (h : ∀ st, Ready table a st → Simulates k k' a st expected (Stmt.execAll m stmts st))
    (arrays : ArrayName → Option (List (VTree δ))) :
    (do
      let st ← Stmt.execAll m stmts (State.declare ⟨arrays, table⟩ a)
      return (← st.arrays a, st.mixins)) = expected.map (·, table) := by
  have hempty : (State.declare ⟨arrays, table⟩ a).arrays a = some [] := Function.update_self ..
  rcases h _ ⟨⟨[], hempty⟩, rfl⟩ with ⟨rfl, hrun⟩ | ⟨out, st, rfl, hrun, happ⟩
  · rw [hrun]
    rfl
  · obtain ⟨entries, hentries, hout⟩ := happ.target
    rw [hempty] at hentries
    cases hentries
    rw [hrun]
    show (do return (← st.arrays a, st.mixins) : Option (Returned δ)) = some (out, table)
    rw [hout, happ.mixins]
    rfl

/-- A function returns what its nodes contribute, once its definitions have made the table. -/
theorem Routine.exec_eq (hagree : Agree mixins table m ρ) {routine : Routine} {start : Mixins}
    (hdefinitions : Stmt.execAll m routine.definitions ⟨fun _ => none, start⟩ =
      some ⟨fun _ => none, table⟩)
    {top : Bool} {items : List Content} (hmarkup : MarkupNodes mixins top items) {s : Scope}
    {j k k' : Nat} (hbody : ItemsEmit items s [] k routine.body k') (ho : s.options = ρ.options)
    (harray : routine.array = .fresh j) (htarget : s.target = .ok (.fresh j)) (hj : j < k) :
    routine.exec m start = (contributions ρ items).map (·, table) := by
  rw [Routine.exec, hdefinitions, harray]
  exact returned_of_simulates
    (fun st hst => hmarkup.simulated hagree [] hbody ho htarget (outside_fresh hj) hst) _

theorem Routine.Renders.exec (hagree : Agree true table m ρ) {routine : Routine}
    {children : List Content} (h : routine.Renders ρ.options children) :
    routine.exec m table = (contributions ρ children).map (·, table) := by
  obtain ⟨hdefinitions, hmarkup, s, j, k, k', ho, harray, htarget, hj, hbody⟩ := h
  have hnone : Stmt.execAll m routine.definitions ⟨fun _ => none, table⟩ =
      some ⟨fun _ => none, table⟩ := by
    rw [hdefinitions]
    rfl
  exact Routine.exec_eq hagree hnone hmarkup hbody ho harray htarget hj

end Nodes

end Hyperscript
