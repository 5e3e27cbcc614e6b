import Hyperscript.Generate

/-!
# What generation emits

`n.Emits s k stmts k'` says that generation of the node `n` in the scope `s` succeeds with the
statements `stmts`, and that it takes the fresh arrays from `k` up to `k'`.  There is one rule for
each way in which a handler can succeed, so what holds of all generated code is shown by induction
over these rules and no handler has to be opened again.

The main statements are that every successful run follows the rules.
-/

namespace Hyperscript

/-! ## Rules -/

mutual

/-- The statements of a node. -/
inductive Node.Emits : Node → Scope → Nat → List Stmt → Nat → Prop where
  | element {s k name attributes children tag properties target body k'} :
      tagCode s.options name = .ok tag → attributes.code? s.options = .ok properties →
      s.target = .ok target → children.isTrue = true →
      children.Emits (s.filling (.fresh k)) (k + 1) body k' →
      Node.Emits (.tag name attributes children) s k
        [.element target (.fresh k) tag properties body] k'
  | leaf {s k name attributes children tag properties target} :
      tagCode s.options name = .ok tag → attributes.code? s.options = .ok properties →
      s.target = .ok target → children.isTrue = false →
      Node.Emits (.tag name attributes children) s k [.push target (.leaf tag properties)] k
  | text {s k value target text} :
      s.target = .ok target → Interpolation.ofDatum value = .ok text →
      Node.Emits (.text value) s k [.push target (.text text)] k
  | value {s k value buffer children target rest k'} :
      buffer.isTrue = true → s.target = .ok target → children.isTrue = true →
      children.Emits s k rest k' →
      Node.Emits (.code value buffer children) s k (.push target (.code value.spell) :: rest) k'
  | bareValue {s k value buffer children target} :
      buffer.isTrue = true → s.target = .ok target → children.isTrue = false →
      Node.Emits (.code value buffer children) s k [.push target (.code value.spell)] k
  | splice {s k value buffer children code} :
      buffer.isTrue = false → children.isNull = true → value.text = .ok code →
      Node.Emits (.code value buffer children) s k [.splice code] k
  | codeBlock {s k value buffer children body k'} :
      buffer.isTrue = false → children.isNull = false → children.Emits s k body k' →
      Node.Emits (.code value buffer children) s k [.codeBlock value.spell body] k'
  | comment {s k value buffer} : Node.Emits (.comment value buffer) s k [] k
  | conditional {s k test consequent alternate body otherwise k₁ k'} :
      consequent.Emits s k body k₁ → alternate.Continues s k₁ otherwise k' →
      Node.Emits (.conditional test consequent alternate) s k
        [.cond test.spell body otherwise] k'
  | switch {s k expr whens clauses k'} :
      whens.EmitsClauses s k clauses k' →
      Node.Emits (.switch expr whens) s k [.switch expr.spell clauses] k'
  | each {s k obj val key children alternate k₁ k₂ k₃ k₄ k₅ k'}
      {ofChildren ofAlternate arrayBody arrayRest objectBody objectRest} :
      children.Defines s k ofChildren k₁ → alternate.Defines s k₁ ofAlternate k₂ →
      children.Emits s k₂ arrayBody k₃ → alternate.Trails s k₃ arrayRest k₄ →
      children.Emits s k₄ objectBody k₅ → alternate.Trails s k₅ objectRest k' →
      Node.Emits (.each obj val key children alternate) s k
        [.each obj.spell val.spell (loopKey key) (ofChildren ++ ofAlternate)
          arrayBody arrayRest objectBody objectRest] k'
  | loop {s k test children body k'} :
      children.Emits s k body k' →
      Node.Emits (.loop test children) s k [.loop test.spell body] k'
  | mixin {s k name params rest children} :
      Node.Emits (.mixin name params rest children) s k [] k
  | call {s k name args attributes children signature target properties argText mixin} :
      s.mixins.lookup name = .ok signature → s.target = .ok target →
      attributes.code? s.options = .ok properties → args.text = .ok argText →
      Mixin.nameText name = .ok mixin → children.isNull = true →
      Node.Emits (.call name args attributes children) s k
        [.call target mixin properties (Text.trim argText)] k
  | callWith {s k name args attributes children signature target properties argText mixin}
      {definitions body k₁ k'} :
      s.mixins.lookup name = .ok signature → s.target = .ok target →
      attributes.code? s.options = .ok properties → args.text = .ok argText →
      Mixin.nameText name = .ok mixin → children.isNull = false →
      children.Defines s (k + 1) definitions k₁ →
      children.Emits (s.filling (.fresh k)) k₁ body k' →
      Node.Emits (.call name args attributes children) s k
        [.callWith target mixin properties (Text.trim argText) definitions (.fresh k) body] k'
  | placeholder {s k target} :
      s.depth ≠ 0 → s.target = .ok target →
      Node.Emits .placeholder s k [.insertBlock target] k

/-- The statements of child contents. -/
inductive Content.Emits : Content → Scope → Nat → List Stmt → Nat → Prop where
  | list {s k items stmts k'} : ItemsEmit items s [] k stmts k' →
      Content.Emits (.list items) s k stmts k'
  | datum {s k d} : refuseItems d = .ok () → Content.Emits (.datum d) s k [] k

/-- The statements of child nodes, with those of the texts that stand directly before them. -/
inductive ItemsEmit : List Content → Scope → List Datum → Nat → List Stmt → Nat → Prop where
  | nil {s texts k before} : s.flush texts = .ok before → ItemsEmit [] s texts k before k
  | text {s texts k value rest stmts k'} : ItemsEmit rest s (texts ++ [value]) k stmts k' →
      ItemsEmit (.node (.text value) :: rest) s texts k stmts k'
  | cons {s texts k n rest before stmts k₁ after k'} :
      (∀ value, n ≠ .text value) → s.flush texts = .ok before → n.Emits s k stmts k₁ →
      ItemsEmit rest s [] k₁ after k' →
      ItemsEmit (.node n :: rest) s texts k (before ++ stmts ++ after) k'

/-- How a conditional goes on with its alternate. -/
inductive Content.Continues : Content → Scope → Nat → Otherwise → Nat → Prop where
  | elseIf {s k test consequent alternate body otherwise k₁ k'} :
      consequent.Emits s k body k₁ → alternate.Continues s k₁ otherwise k' →
      Content.Continues (.node (.conditional test consequent alternate)) s k
        (.elseIf test.spell body otherwise) k'
  | nil {s k} : Content.Continues (.list []) s k .done k
  | body {s k item items body k'} : ItemsEmit (item :: items) s [] k body k' →
      Content.Continues (.list (item :: items)) s k (.body body) k'
  | emptyBody {s k d} : d.isTrue = true → refuseItems d = .ok () →
      Content.Continues (.datum d) s k (.body []) k
  | done {s k d} : d.isTrue = false → Content.Continues (.datum d) s k .done k

/-- The clauses of a switch. -/
inductive Content.EmitsClauses : Content → Scope → Nat → List Clause → Nat → Prop where
  | list {s k items clauses k'} : ItemsEmitClauses items s k clauses k' →
      Content.EmitsClauses (.list items) s k clauses k'
  | datum {s k d} : refuseBranches d = .ok () → Content.EmitsClauses (.datum d) s k [] k

inductive ItemsEmitClauses : List Content → Scope → Nat → List Clause → Nat → Prop where
  | nil {s k} : ItemsEmitClauses [] s k [] k
  | fallThrough {s k expr children rest clauses k'} : children.isNull = true →
      ItemsEmitClauses rest s k clauses k' →
      ItemsEmitClauses (.node (.branch expr children) :: rest) s k
        (.fallThrough (branchLabel expr) :: clauses) k'
  | body {s k expr children rest body k₁ clauses k'} : children.isNull = false →
      children.Emits s k body k₁ → ItemsEmitClauses rest s k₁ clauses k' →
      ItemsEmitClauses (.node (.branch expr children) :: rest) s k
        (.body (branchLabel expr) body :: clauses) k'

/-- What follows a loop. -/
inductive Content.Trails : Content → Scope → Nat → List Stmt → Nat → Prop where
  | list {s k items body k'} : ItemsEmit items s [] k body k' →
      Content.Trails (.list items) s k [.cond "$$l === 0" body .done] k'
  | null {s k d} : d.isNull = true → Content.Trails (.datum d) s k [] k
  | datum {s k d} : d.isNull = false → refuseItems d = .ok () →
      Content.Trails (.datum d) s k [.cond "$$l === 0" [] .done] k

/-- The definitions of the mixins declared at a node or below it. -/
inductive Node.Defines : Node → Scope → Nat → List Stmt → Nat → Prop where
  | tag {s k name attributes children stmts k'} : children.Defines s k stmts k' →
      Node.Defines (.tag name attributes children) s k stmts k'
  | code {s k value buffer children stmts k'} : children.Defines s k stmts k' →
      Node.Defines (.code value buffer children) s k stmts k'
  | loop {s k test children stmts k'} : children.Defines s k stmts k' →
      Node.Defines (.loop test children) s k stmts k'
  | branch {s k expr children stmts k'} : children.Defines s k stmts k' →
      Node.Defines (.branch expr children) s k stmts k'
  | switch {s k expr whens stmts k'} : whens.Defines s k stmts k' →
      Node.Defines (.switch expr whens) s k stmts k'
  | conditional {s k test consequent alternate ofConsequent k₁ ofAlternate k'} :
      consequent.Defines s k ofConsequent k₁ → alternate.DefinesAlternate s k₁ ofAlternate k' →
      Node.Defines (.conditional test consequent alternate) s k (ofConsequent ++ ofAlternate) k'
  | mixin {s k name params rest children paramText count mixin definitions k₁ body k'} :
      Mixin.paramList params = .ok (paramText, count) → Mixin.nameText name = .ok mixin →
      children.Defines s.inMixin (k + 1) definitions k₁ →
      children.Emits (s.inMixin.filling (.fresh k)) k₁ body k' →
      Node.Defines (.mixin name params rest children) s k
        [.define mixin paramText (if rest.isNull then none else some (rest.spell, count))
          definitions (.fresh k) body] k'
  | text {s k value} : Node.Defines (.text value) s k [] k
  | comment {s k value buffer} : Node.Defines (.comment value buffer) s k [] k
  | each {s k obj val key children alternate} :
      Node.Defines (.each obj val key children alternate) s k [] k
  | call {s k name args attributes children} :
      Node.Defines (.call name args attributes children) s k [] k
  | placeholder {s k} : Node.Defines .placeholder s k [] k
  | other {s k kind} : Node.Defines (.other kind) s k [] k

/-- The definitions of the mixins declared in a content. -/
inductive Content.Defines : Content → Scope → Nat → List Stmt → Nat → Prop where
  | list {s k items stmts k'} : ItemsDefine items s k stmts k' →
      Content.Defines (.list items) s k stmts k'
  | node {s k n} : Content.Defines (.node n) s k [] k
  | datum {s k d} : Content.Defines (.datum d) s k [] k

inductive Content.DefinesAlternate : Content → Scope → Nat → List Stmt → Nat → Prop where
  | list {s k items stmts k'} : ItemsDefine items s k stmts k' →
      Content.DefinesAlternate (.list items) s k stmts k'
  | conditional {s k n stmts k'} : n.isConditional = true → n.Defines s k stmts k' →
      Content.DefinesAlternate (.node n) s k stmts k'
  | node {s k n} : n.isConditional = false → Content.DefinesAlternate (.node n) s k [] k
  | datum {s k d} : Content.DefinesAlternate (.datum d) s k [] k

inductive ItemsDefine : List Content → Scope → Nat → List Stmt → Nat → Prop where
  | nil {s k} : ItemsDefine [] s k [] k
  | node {s k n rest stmts k₁ others k'} : n.Defines s k stmts k₁ →
      ItemsDefine rest s k₁ others k' →
      ItemsDefine (.node n :: rest) s k (stmts ++ others) k'
  | other {s k item rest stmts k'} : (∀ n, item ≠ .node n) → ItemsDefine rest s k stmts k' →
      ItemsDefine (item :: rest) s k stmts k'

end

/-! ## Successful runs -/

namespace Generation

variable {α β : Type} {k : Nat} {r : β × Nat}

theorem run_bind_ok {g : Generation α} {f : α → Generation β} (h : (g >>= f).run k = .ok r) :
    ∃ a k₁, g.run k = .ok (a, k₁) ∧ (f a).run k₁ = .ok r := by
  rw [StateT.run_bind] at h
  cases hg : g.run k with
  | error fault =>
    rw [hg] at h
    cases h
  | ok result =>
    rw [hg] at h
    exact ⟨result.1, result.2, rfl, h⟩

theorem run_lift_bind_ok {e : Except Fault α} {f : α → Generation β}
    (h : (liftM e >>= f : Generation β).run k = .ok r) : ∃ a, e = .ok a ∧ (f a).run k = .ok r := by
  cases e with
  | error fault => cases h
  | ok a => exact ⟨a, rfl, h⟩

theorem run_written_bind_ok {form : Datum → α} {d : Datum} {f : α → Generation β}
    (h : (liftM (d.written form) >>= f : Generation β).run k = .ok r) :
    (f (form d)).run k = .ok r := by
  obtain ⟨a, ha, h⟩ := run_lift_bind_ok h
  rwa [(Datum.written_eq_ok_iff.1 ha).2] at h

theorem run_fresh_bind_ok {f : ArrayName → Generation β} (h : (fresh >>= f).run k = .ok r) :
    (f (.fresh k)).run (k + 1) = .ok r :=
  h

theorem run_pure_ok {a b : α} {k' : Nat} (h : (pure a : Generation α).run k = .ok (b, k')) :
    b = a ∧ k' = k := by
  cases h
  exact ⟨rfl, rfl⟩

theorem run_lift_ok {e : Except Fault α} {a : α} {k' : Nat}
    (h : (liftM e : Generation α).run k = .ok (a, k')) : e = .ok a ∧ k' = k := by
  cases e with
  | error fault => cases h
  | ok b =>
    cases h
    exact ⟨rfl, rfl⟩

theorem not_run_throw_ok {f : Fault} {a : α × Nat} :
    ¬(throw f : Generation α).run k = .ok a := by
  intro h
  cases h

end Generation

open Generation

mutual

theorem Node.emits_of_run : ∀ (n : Node) {s : Scope} {k : Nat} {stmts : List Stmt} {k' : Nat},
    (n.generate s).run k = .ok (stmts, k') → n.Emits s k stmts k'
  | .tag name attributes children, s, k, stmts, k', h => by
    rw [Node.generate] at h
    obtain ⟨tag, htag, h⟩ := run_lift_bind_ok h
    obtain ⟨properties, hproperties, h⟩ := run_lift_bind_ok h
    split at h
    · rename_i hchildren
      obtain ⟨body, k₁, hbody, h⟩ := run_bind_ok (run_fresh_bind_ok h)
      obtain ⟨target, htarget, h⟩ := run_lift_bind_ok h
      obtain ⟨rfl, rfl⟩ := run_pure_ok h
      exact .element htag hproperties htarget hchildren (children.emits_of_run hbody)
    · rename_i hchildren
      obtain ⟨target, htarget, h⟩ := run_lift_bind_ok h
      obtain ⟨rfl, rfl⟩ := run_pure_ok h
      exact .leaf htag hproperties htarget (Bool.not_eq_true _ ▸ hchildren)
  | .text value, s, k, stmts, k', h => by
    rw [Node.generate] at h
    obtain ⟨target, htarget, h⟩ := run_lift_bind_ok h
    obtain ⟨text, htext, h⟩ := run_lift_bind_ok h
    obtain ⟨rfl, rfl⟩ := run_pure_ok h
    exact .text htarget htext
  | .code value buffer children, s, k, stmts, k', h => by
    rw [Node.generate] at h
    split at h
    · rename_i hbuffer
      obtain ⟨target, htarget, h⟩ := run_lift_bind_ok h
      replace h := run_written_bind_ok h
      dsimp only at h
      split at h
      · rename_i hchildren
        obtain ⟨rest, k₁, hrest, h⟩ := run_bind_ok h
        obtain ⟨rfl, rfl⟩ := run_pure_ok h
        exact .value hbuffer htarget hchildren (children.emits_of_run hrest)
      · rename_i hchildren
        obtain ⟨rfl, rfl⟩ := run_pure_ok h
        exact .bareValue hbuffer htarget (Bool.not_eq_true _ ▸ hchildren)
    · rename_i hbuffer
      have hbuffer : buffer.isTrue = false := Bool.not_eq_true _ ▸ hbuffer
      split at h
      · rename_i hchildren
        obtain ⟨code, hcode, h⟩ := run_lift_bind_ok h
        obtain ⟨rfl, rfl⟩ := run_pure_ok h
        exact .splice hbuffer hchildren hcode
      · rename_i hchildren
        replace h := run_written_bind_ok h
        obtain ⟨body, k₁, hbody, h⟩ := run_bind_ok h
        obtain ⟨rfl, rfl⟩ := run_pure_ok h
        exact .codeBlock hbuffer (Bool.not_eq_true _ ▸ hchildren) (children.emits_of_run hbody)
  | .comment .., s, k, stmts, k', h => by
    rw [Node.generate] at h
    obtain ⟨rfl, rfl⟩ := run_pure_ok h
    exact .comment
  | .conditional test consequent alternate, s, k, stmts, k', h => by
    rw [Node.generate] at h
    replace h := run_written_bind_ok h
    obtain ⟨body, k₁, hbody, h⟩ := run_bind_ok h
    obtain ⟨otherwise, k₂, hotherwise, h⟩ := run_bind_ok h
    obtain ⟨rfl, rfl⟩ := run_pure_ok h
    exact .conditional (consequent.emits_of_run hbody) (alternate.continues_of_run hotherwise)
  | .branch .., s, k, stmts, k', h => by
    rw [Node.generate] at h
    exact absurd h not_run_throw_ok
  | .switch expr whens, s, k, stmts, k', h => by
    rw [Node.generate] at h
    replace h := run_written_bind_ok h
    obtain ⟨clauses, k₁, hclauses, h⟩ := run_bind_ok h
    obtain ⟨rfl, rfl⟩ := run_pure_ok h
    exact .switch (whens.emitsClauses_of_run hclauses)
  | .each obj val key children alternate, s, k, stmts, k', h => by
    rw [Node.generate] at h
    replace h := run_written_bind_ok h
    obtain ⟨scope, -, h⟩ := run_lift_bind_ok h
    obtain ⟨ds, -, h⟩ := run_lift_bind_ok h
    obtain ⟨ofChildren, k₁, h₁, h⟩ := run_bind_ok h
    obtain ⟨ofAlternate, k₂, h₂, h⟩ := run_bind_ok h
    replace h := run_written_bind_ok h
    replace h := run_written_bind_ok h
    obtain ⟨arrayBody, k₃, h₃, h⟩ := run_bind_ok h
    obtain ⟨arrayRest, k₄, h₄, h⟩ := run_bind_ok h
    obtain ⟨objectBody, k₅, h₅, h⟩ := run_bind_ok h
    obtain ⟨objectRest, k₆, h₆, h⟩ := run_bind_ok h
    obtain ⟨rfl, rfl⟩ := run_pure_ok h
    exact .each (children.defines_of_run h₁) (alternate.defines_of_run h₂)
      (children.emits_of_run h₃) (alternate.trails_of_run h₄) (children.emits_of_run h₅)
      (alternate.trails_of_run h₆)
  | .loop test children, s, k, stmts, k', h => by
    rw [Node.generate] at h
    replace h := run_written_bind_ok h
    obtain ⟨body, k₁, hbody, h⟩ := run_bind_ok h
    obtain ⟨rfl, rfl⟩ := run_pure_ok h
    exact .loop (children.emits_of_run hbody)
  | .mixin .., s, k, stmts, k', h => by
    rw [Node.generate] at h
    obtain ⟨rfl, rfl⟩ := run_pure_ok h
    exact .mixin
  | .call name args attributes children, s, k, stmts, k', h => by
    rw [Node.generate] at h
    obtain ⟨signature, hlookup, h⟩ := run_lift_bind_ok h
    obtain ⟨target, htarget, h⟩ := run_lift_bind_ok h
    obtain ⟨properties, hproperties, h⟩ := run_lift_bind_ok h
    obtain ⟨argText, hargs, h⟩ := run_lift_bind_ok h
    obtain ⟨mixin, hmixin, h⟩ := run_lift_bind_ok h
    split at h
    · rename_i hchildren
      obtain ⟨rfl, rfl⟩ := run_pure_ok h
      exact .call hlookup htarget hproperties hargs hmixin hchildren
    · rename_i hchildren
      obtain ⟨ds, -, h⟩ := run_lift_bind_ok (run_fresh_bind_ok h)
      obtain ⟨definitions, k₁, hdefinitions, h⟩ := run_bind_ok h
      obtain ⟨body, k₂, hbody, h⟩ := run_bind_ok h
      obtain ⟨rfl, rfl⟩ := run_pure_ok h
      exact .callWith hlookup htarget hproperties hargs hmixin (Bool.not_eq_true _ ▸ hchildren)
        (children.defines_of_run hdefinitions) (children.emits_of_run hbody)
  | .placeholder, s, k, stmts, k', h => by
    rw [Node.generate] at h
    split at h
    · exact absurd h not_run_throw_ok
    · rename_i hdepth
      obtain ⟨target, htarget, h⟩ := run_lift_bind_ok h
      obtain ⟨rfl, rfl⟩ := run_pure_ok h
      exact .placeholder hdepth htarget
  | .other _, s, k, stmts, k', h => by
    rw [Node.generate] at h
    exact absurd h not_run_throw_ok

theorem Content.emits_of_run : ∀ (c : Content) {s : Scope} {k : Nat} {stmts : List Stmt} {k' : Nat},
    (c.generate s).run k = .ok (stmts, k') → c.Emits s k stmts k'
  | .node n, s, k, stmts, k', h => by
    rw [Content.generate] at h
    exact absurd h not_run_throw_ok
  | .list items, s, k, stmts, k', h => by
    rw [Content.generate] at h
    exact .list (itemsEmit_of_run items h)
  | .datum d, s, k, stmts, k', h => by
    rw [Content.generate] at h
    obtain ⟨⟨⟩, hd, h⟩ := run_lift_bind_ok h
    obtain ⟨rfl, rfl⟩ := run_pure_ok h
    exact .datum hd

theorem itemsEmit_of_run : ∀ (items : List Content) {s : Scope} {texts : List Datum} {k : Nat}
    {stmts : List Stmt} {k' : Nat}, (generateItems s texts items).run k = .ok (stmts, k') →
    ItemsEmit items s texts k stmts k'
  | [], s, texts, k, stmts, k', h => by
    rw [generateItems] at h
    obtain ⟨hflush, rfl⟩ := run_lift_ok h
    exact .nil hflush
  | .node n :: rest, s, texts, k, stmts, k', h => by
    by_cases htext : ∃ value, n = .text value
    · obtain ⟨value, rfl⟩ := htext
      rw [generateItems] at h
      exact .text (itemsEmit_of_run rest h)
    · have hn : ∀ value, n ≠ .text value := fun value hn => htext ⟨value, hn⟩
      rw [generateItems] at h
      · obtain ⟨before, hbefore, h⟩ := run_lift_bind_ok h
        obtain ⟨stmts, k₁, hstmts, h⟩ := run_bind_ok h
        obtain ⟨after, k₂, hafter, h⟩ := run_bind_ok h
        obtain ⟨rfl, rfl⟩ := run_pure_ok h
        exact .cons hn hbefore (n.emits_of_run hstmts) (itemsEmit_of_run rest hafter)
      · exact hn
  | .list _ :: _, s, texts, k, stmts, k', h | .datum _ :: _, s, texts, k, stmts, k', h => by
    rw [generateItems] at h
    · obtain ⟨before, -, h⟩ := run_lift_bind_ok h
      exact absurd h not_run_throw_ok
    · simp

theorem Content.continues_of_run : ∀ (c : Content) {s : Scope} {k : Nat} {otherwise : Otherwise}
    {k' : Nat}, (c.otherwise s).run k = .ok (otherwise, k') → c.Continues s k otherwise k'
  | .node n, s, k, otherwise, k', h => by
    cases n with
    | conditional test consequent alternate =>
      rw [Content.otherwise] at h
      replace h := run_written_bind_ok h
      obtain ⟨body, k₁, hbody, h⟩ := run_bind_ok h
      obtain ⟨otherwise, k₂, hotherwise, h⟩ := run_bind_ok h
      obtain ⟨rfl, rfl⟩ := run_pure_ok h
      exact .elseIf (consequent.emits_of_run hbody) (alternate.continues_of_run hotherwise)
    | _ =>
      rw [Content.otherwise] at h
      · exact absurd h not_run_throw_ok
      · intro _ _ _ hn
        cases hn
  | .list items, s, k, otherwise, k', h => by
    rw [Content.otherwise] at h
    cases items with
    | nil =>
      obtain ⟨rfl, rfl⟩ := run_pure_ok h
      exact .nil
    | cons item items =>
      obtain ⟨body, k₁, hbody, h⟩ := run_bind_ok h
      obtain ⟨rfl, rfl⟩ := run_pure_ok h
      exact .body (itemsEmit_of_run (item :: items) hbody)
  | .datum d, s, k, otherwise, k', h => by
    rw [Content.otherwise] at h
    split at h
    · rename_i hd
      obtain ⟨⟨⟩, hrefuse, h⟩ := run_lift_bind_ok h
      obtain ⟨rfl, rfl⟩ := run_pure_ok h
      exact .emptyBody hd hrefuse
    · rename_i hd
      obtain ⟨rfl, rfl⟩ := run_pure_ok h
      exact .done (Bool.not_eq_true _ ▸ hd)

theorem Content.emitsClauses_of_run : ∀ (c : Content) {s : Scope} {k : Nat}
    {clauses : List Clause} {k' : Nat}, (c.clauses s).run k = .ok (clauses, k') →
    c.EmitsClauses s k clauses k'
  | .node n, s, k, clauses, k', h => by
    rw [Content.clauses] at h
    exact absurd h not_run_throw_ok
  | .list items, s, k, clauses, k', h => by
    rw [Content.clauses] at h
    exact .list (itemsEmitClauses_of_run items h)
  | .datum d, s, k, clauses, k', h => by
    rw [Content.clauses] at h
    obtain ⟨⟨⟩, hd, h⟩ := run_lift_bind_ok h
    obtain ⟨rfl, rfl⟩ := run_pure_ok h
    exact .datum hd

theorem itemsEmitClauses_of_run : ∀ (items : List Content) {s : Scope} {k : Nat}
    {clauses : List Clause} {k' : Nat}, (clausesOfItems s items).run k = .ok (clauses, k') →
    ItemsEmitClauses items s k clauses k'
  | [], s, k, clauses, k', h => by
    rw [clausesOfItems] at h
    obtain ⟨rfl, rfl⟩ := run_pure_ok h
    exact .nil
  | .node n :: rest, s, k, clauses, k', h => by
    cases n with
    | branch expr children =>
      rw [clausesOfItems] at h
      replace h := run_written_bind_ok h
      split at h
      · rename_i hchildren
        obtain ⟨clause, k₁, hclause, hrest⟩ := run_bind_ok h
        obtain ⟨rfl, rfl⟩ := run_pure_ok hclause
        obtain ⟨clauses, k₂, hclauses, hrest⟩ := run_bind_ok hrest
        obtain ⟨rfl, rfl⟩ := run_pure_ok hrest
        exact .fallThrough hchildren (itemsEmitClauses_of_run rest hclauses)
      · rename_i hchildren
        obtain ⟨body, k₁, hbody, h⟩ := run_bind_ok h
        obtain ⟨clause, k₂, hclause, hrest⟩ := run_bind_ok h
        obtain ⟨rfl, rfl⟩ := run_pure_ok hclause
        obtain ⟨clauses, k₃, hclauses, hrest⟩ := run_bind_ok hrest
        obtain ⟨rfl, rfl⟩ := run_pure_ok hrest
        exact .body (Bool.not_eq_true _ ▸ hchildren) (children.emits_of_run hbody)
          (itemsEmitClauses_of_run rest hclauses)
    | _ =>
      rw [clausesOfItems] at h
      · exact absurd h not_run_throw_ok
      · intro _ _ hn
        cases hn
  | .list _ :: _, s, k, clauses, k', h | .datum _ :: _, s, k, clauses, k', h => by
    rw [clausesOfItems] at h
    · exact absurd h not_run_throw_ok
    · intro _ _ hn
      cases hn

theorem Content.trails_of_run : ∀ (c : Content) {s : Scope} {k : Nat} {stmts : List Stmt}
    {k' : Nat}, (c.whenEmpty s).run k = .ok (stmts, k') → c.Trails s k stmts k'
  | .node n, s, k, stmts, k', h => by
    rw [Content.whenEmpty] at h
    exact absurd h not_run_throw_ok
  | .list items, s, k, stmts, k', h => by
    rw [Content.whenEmpty] at h
    obtain ⟨body, k₁, hbody, h⟩ := run_bind_ok h
    obtain ⟨rfl, rfl⟩ := run_pure_ok h
    exact .list (itemsEmit_of_run items hbody)
  | .datum d, s, k, stmts, k', h => by
    rw [Content.whenEmpty] at h
    split at h
    · rename_i hd
      obtain ⟨rfl, rfl⟩ := run_pure_ok h
      exact .null hd
    · rename_i hd
      obtain ⟨⟨⟩, hrefuse, h⟩ := run_lift_bind_ok h
      obtain ⟨rfl, rfl⟩ := run_pure_ok h
      exact .datum (Bool.not_eq_true _ ▸ hd) hrefuse

theorem Node.defines_of_run : ∀ (n : Node) {s : Scope} {k : Nat} {stmts : List Stmt} {k' : Nat},
    (n.definitions s).run k = .ok (stmts, k') → n.Defines s k stmts k'
  | .tag _ _ children, s, k, stmts, k', h => by
    rw [Node.definitions] at h
    exact .tag (children.defines_of_run h)
  | .code _ _ children, s, k, stmts, k', h => by
    rw [Node.definitions] at h
    exact .code (children.defines_of_run h)
  | .loop _ children, s, k, stmts, k', h => by
    rw [Node.definitions] at h
    exact .loop (children.defines_of_run h)
  | .branch _ children, s, k, stmts, k', h => by
    rw [Node.definitions] at h
    exact .branch (children.defines_of_run h)
  | .switch _ whens, s, k, stmts, k', h => by
    rw [Node.definitions] at h
    exact .switch (whens.defines_of_run h)
  | .conditional _ consequent alternate, s, k, stmts, k', h => by
    rw [Node.definitions] at h
    obtain ⟨ofConsequent, k₁, h₁, h⟩ := run_bind_ok h
    obtain ⟨ofAlternate, k₂, h₂, h⟩ := run_bind_ok h
    obtain ⟨rfl, rfl⟩ := run_pure_ok h
    exact .conditional (consequent.defines_of_run h₁) (alternate.definesAlternate_of_run h₂)
  | .mixin name params rest children, s, k, stmts, k', h => by
    rw [Node.definitions] at h
    obtain ⟨⟨paramText, count⟩, hparams, h⟩ := run_lift_bind_ok h
    obtain ⟨mixin, hmixin, h⟩ := run_lift_bind_ok h
    replace h := run_written_bind_ok h
    obtain ⟨ds, -, h⟩ := run_lift_bind_ok (run_fresh_bind_ok h)
    obtain ⟨definitions, k₁, hdefinitions, h⟩ := run_bind_ok h
    obtain ⟨body, k₂, hbody, h⟩ := run_bind_ok h
    obtain ⟨rfl, rfl⟩ := run_pure_ok h
    exact .mixin hparams hmixin (children.defines_of_run hdefinitions) (children.emits_of_run hbody)
  | .text _, s, k, stmts, k', h => by
    rw [Node.definitions] at h
    obtain ⟨rfl, rfl⟩ := run_pure_ok h
    exact .text
  | .comment .., s, k, stmts, k', h => by
    rw [Node.definitions] at h
    obtain ⟨rfl, rfl⟩ := run_pure_ok h
    exact .comment
  | .each .., s, k, stmts, k', h => by
    rw [Node.definitions] at h
    obtain ⟨rfl, rfl⟩ := run_pure_ok h
    exact .each
  | .call .., s, k, stmts, k', h => by
    rw [Node.definitions] at h
    obtain ⟨rfl, rfl⟩ := run_pure_ok h
    exact .call
  | .placeholder, s, k, stmts, k', h => by
    rw [Node.definitions] at h
    obtain ⟨rfl, rfl⟩ := run_pure_ok h
    exact .placeholder
  | .other _, s, k, stmts, k', h => by
    rw [Node.definitions] at h
    obtain ⟨rfl, rfl⟩ := run_pure_ok h
    exact .other

theorem Content.defines_of_run : ∀ (c : Content) {s : Scope} {k : Nat} {stmts : List Stmt}
    {k' : Nat}, (c.definitions s).run k = .ok (stmts, k') → c.Defines s k stmts k'
  | .list items, s, k, stmts, k', h => by
    rw [Content.definitions] at h
    exact .list (itemsDefine_of_run items h)
  | .node _, s, k, stmts, k', h => by
    rw [Content.definitions] at h
    obtain ⟨rfl, rfl⟩ := run_pure_ok h
    exact .node
  | .datum _, s, k, stmts, k', h => by
    rw [Content.definitions] at h
    obtain ⟨rfl, rfl⟩ := run_pure_ok h
    exact .datum

theorem Content.definesAlternate_of_run : ∀ (c : Content) {s : Scope} {k : Nat}
    {stmts : List Stmt} {k' : Nat}, (c.alternateDefinitions s).run k = .ok (stmts, k') →
    c.DefinesAlternate s k stmts k'
  | .node n, s, k, stmts, k', h => by
    rw [Content.alternateDefinitions] at h
    split at h
    · rename_i hn
      exact .conditional hn (n.defines_of_run h)
    · rename_i hn
      obtain ⟨rfl, rfl⟩ := run_pure_ok h
      exact .node (Bool.not_eq_true _ ▸ hn)
  | .list items, s, k, stmts, k', h => by
    rw [Content.alternateDefinitions] at h
    exact .list (itemsDefine_of_run items h)
  | .datum _, s, k, stmts, k', h => by
    rw [Content.alternateDefinitions] at h
    obtain ⟨rfl, rfl⟩ := run_pure_ok h
    exact .datum

theorem itemsDefine_of_run : ∀ (items : List Content) {s : Scope} {k : Nat} {stmts : List Stmt}
    {k' : Nat}, (definitionsOfItems s items).run k = .ok (stmts, k') →
    ItemsDefine items s k stmts k'
  | [], s, k, stmts, k', h => by
    rw [definitionsOfItems] at h
    obtain ⟨rfl, rfl⟩ := run_pure_ok h
    exact .nil
  | .node n :: rest, s, k, stmts, k', h => by
    rw [definitionsOfItems] at h
    obtain ⟨stmts, k₁, hstmts, h⟩ := run_bind_ok h
    obtain ⟨others, k₂, hothers, h⟩ := run_bind_ok h
    obtain ⟨rfl, rfl⟩ := run_pure_ok h
    exact .node (n.defines_of_run hstmts) (itemsDefine_of_run rest hothers)
  | .list _ :: rest, s, k, stmts, k', h | .datum _ :: rest, s, k, stmts, k', h => by
    rw [definitionsOfItems] at h
    · exact .other (by simp) (itemsDefine_of_run rest h)
    · simp

end

/-- The texts before a node are pushed at once, if there are any. -/
theorem Scope.flush_cases {s : Scope} {texts : List Datum} {before : List Stmt}
    (h : s.flush texts = .ok before) :
    (texts = [] ∧ before = []) ∨ ∃ target text, s.target = .ok target ∧
      Interpolation.ofRun texts = .ok text ∧ before = [.push target (.text text)] := by
  unfold Scope.flush at h
  split at h
  · rename_i hempty
    cases h
    exact .inl ⟨List.isEmpty_iff.1 hempty, rfl⟩
  · cases htarget : s.target with
    | error f =>
      rw [htarget] at h
      cases h
    | ok target =>
      cases htext : Interpolation.ofRun texts with
      | error f =>
        rw [htarget, htext] at h
        cases h
      | ok text =>
        rw [htarget, htext] at h
        cases h
        exact .inr ⟨target, text, rfl, rfl, rfl⟩

theorem ofRun_str (texts : List String) :
    Interpolation.ofRun (texts.map .str) =
      .ok (Interpolated.ofLines (texts.map String.toList)) := by
  have hmap : (texts.map Datum.str).mapM Datum.searchable = .ok texts := by
    induction texts with
    | nil => rfl
    | cons text texts ih =>
      rw [List.map_cons, List.mapM_cons, ih]
      rfl
  unfold Interpolation.ofRun
  rw [hmap]
  rfl

/-! ## Arrays are taken in order -/

mutual

theorem Node.Emits.le : ∀ {n : Node} {s : Scope} {k : Nat} {stmts : List Stmt} {k' : Nat},
    n.Emits s k stmts k' → k ≤ k'
  | _, _, _, _, _, .element _ _ _ _ h => by
    have := h.le
    omega
  | _, _, _, _, _, .leaf .. | _, _, _, _, _, .text .. | _, _, _, _, _, .bareValue ..
  | _, _, _, _, _, .splice .. | _, _, _, _, _, .comment | _, _, _, _, _, .mixin
  | _, _, _, _, _, .call .. | _, _, _, _, _, .placeholder .. => Nat.le_refl _
  | _, _, _, _, _, .value _ _ _ h | _, _, _, _, _, .codeBlock _ _ h | _, _, _, _, _, .loop h => h.le
  | _, _, _, _, _, .conditional h₁ h₂ => Nat.le_trans h₁.le h₂.le
  | _, _, _, _, _, .switch h => h.le
  | _, _, _, _, _, .each h₁ h₂ h₃ h₄ h₅ h₆ => by
    have := h₁.le
    have := h₂.le
    have := h₃.le
    have := h₄.le
    have := h₅.le
    have := h₆.le
    omega
  | _, _, _, _, _, .callWith _ _ _ _ _ _ h₁ h₂ => by
    have := h₁.le
    have := h₂.le
    omega

theorem Content.Emits.le : ∀ {c : Content} {s : Scope} {k : Nat} {stmts : List Stmt} {k' : Nat},
    c.Emits s k stmts k' → k ≤ k'
  | _, _, _, _, _, .list h => h.le
  | _, _, _, _, _, .datum _ => Nat.le_refl _

theorem ItemsEmit.le : ∀ {items : List Content} {s : Scope} {texts : List Datum} {k : Nat}
    {stmts : List Stmt} {k' : Nat}, ItemsEmit items s texts k stmts k' → k ≤ k'
  | _, _, _, _, _, _, .nil _ => Nat.le_refl _
  | _, _, _, _, _, _, .text h => h.le
  | _, _, _, _, _, _, .cons _ _ h₁ h₂ => Nat.le_trans h₁.le h₂.le

theorem Content.Continues.le : ∀ {c : Content} {s : Scope} {k : Nat} {otherwise : Otherwise}
    {k' : Nat}, c.Continues s k otherwise k' → k ≤ k'
  | _, _, _, _, _, .elseIf h₁ h₂ => Nat.le_trans h₁.le h₂.le
  | _, _, _, _, _, .body h => h.le
  | _, _, _, _, _, .nil | _, _, _, _, _, .emptyBody .. | _, _, _, _, _, .done _ => Nat.le_refl _

theorem Content.EmitsClauses.le : ∀ {c : Content} {s : Scope} {k : Nat} {clauses : List Clause}
    {k' : Nat}, c.EmitsClauses s k clauses k' → k ≤ k'
  | _, _, _, _, _, .list h => h.le
  | _, _, _, _, _, .datum _ => Nat.le_refl _

theorem ItemsEmitClauses.le : ∀ {items : List Content} {s : Scope} {k : Nat}
    {clauses : List Clause} {k' : Nat}, ItemsEmitClauses items s k clauses k' → k ≤ k'
  | _, _, _, _, _, .nil => Nat.le_refl _
  | _, _, _, _, _, .fallThrough _ h => h.le
  | _, _, _, _, _, .body _ h₁ h₂ => Nat.le_trans h₁.le h₂.le

theorem Content.Trails.le : ∀ {c : Content} {s : Scope} {k : Nat} {stmts : List Stmt} {k' : Nat},
    c.Trails s k stmts k' → k ≤ k'
  | _, _, _, _, _, .list h => h.le
  | _, _, _, _, _, .null _ | _, _, _, _, _, .datum .. => Nat.le_refl _

theorem Node.Defines.le : ∀ {n : Node} {s : Scope} {k : Nat} {stmts : List Stmt} {k' : Nat},
    n.Defines s k stmts k' → k ≤ k'
  | _, _, _, _, _, .tag h | _, _, _, _, _, .code h | _, _, _, _, _, .loop h
  | _, _, _, _, _, .branch h | _, _, _, _, _, .switch h => h.le
  | _, _, _, _, _, .conditional h₁ h₂ => Nat.le_trans h₁.le h₂.le
  | _, _, _, _, _, .mixin _ _ h₁ h₂ => by
    have := h₁.le
    have := h₂.le
    omega
  | _, _, _, _, _, .text | _, _, _, _, _, .comment | _, _, _, _, _, .each
  | _, _, _, _, _, .call | _, _, _, _, _, .placeholder | _, _, _, _, _, .other => Nat.le_refl _

theorem Content.Defines.le : ∀ {c : Content} {s : Scope} {k : Nat} {stmts : List Stmt} {k' : Nat},
    c.Defines s k stmts k' → k ≤ k'
  | _, _, _, _, _, .list h => h.le
  | _, _, _, _, _, .node | _, _, _, _, _, .datum => Nat.le_refl _

theorem Content.DefinesAlternate.le : ∀ {c : Content} {s : Scope} {k : Nat} {stmts : List Stmt}
    {k' : Nat}, c.DefinesAlternate s k stmts k' → k ≤ k'
  | _, _, _, _, _, .list h => h.le
  | _, _, _, _, _, .conditional _ h => h.le
  | _, _, _, _, _, .node _ | _, _, _, _, _, .datum => Nat.le_refl _

theorem ItemsDefine.le : ∀ {items : List Content} {s : Scope} {k : Nat} {stmts : List Stmt}
    {k' : Nat}, ItemsDefine items s k stmts k' → k ≤ k'
  | _, _, _, _, _, .nil => Nat.le_refl _
  | _, _, _, _, _, .node h₁ h₂ => Nat.le_trans h₁.le h₂.le
  | _, _, _, _, _, .other _ h => h.le

end

/-! ## Arrays that were not taken -/

/-- The array is not one of those taken from `k` up to `k'`. -/
def Outside (k k' : Nat) (a : ArrayName) : Prop :=
  ∀ j, a = .fresh j → j < k ∨ k' ≤ j

theorem Outside.mono {k₀ k k' k₁ : Nat} {a : ArrayName} (h : Outside k₀ k₁ a) (hk : k₀ ≤ k)
    (hk' : k' ≤ k₁) : Outside k k' a := by
  intro j hj
  have := h j hj
  omega

theorem Outside.ne_fresh {k k' : Nat} {a : ArrayName} (h : Outside k k' a) (hlt : k < k') :
    a ≠ .fresh k := by
  intro ha
  have := h k ha
  omega

theorem outside_fresh {j k k' : Nat} (h : j < k) : Outside k k' (.fresh j) := by
  intro i hi
  cases hi
  exact .inl h

end Hyperscript
