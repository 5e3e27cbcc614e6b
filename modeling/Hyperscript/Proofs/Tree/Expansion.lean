import Mathlib.Order.WellFoundedSet
import Hyperscript.Proofs.Tree.Compositional

/-!
# Expanding mixins

In the lexical form of `expansion` a placeholder stands for exactly the children that the call of
its mixin passes.  If no mixin leads back to itself, this form comes to an end.

In the other form a call without children hands on the context it runs in.  It comes to an end if
besides no such call among the children of a call leads to a placeholder that stands for these
children (`NoReentry`).  The two forms agree as long as handing on makes no difference: as long as
no such call, in the body of a mixin or among the children of a call, names a mixin with a
placeholder (`Sheltered`).
-/

namespace Hyperscript

variable {δ : Type}

/-! ## Declared mixins -/

section Declared

variable {c : Content} {nodes body : List Content} {name : String}

theorem mixinBody_cons_cases (c : Content) (nodes : List Content) (name : String) :
    (∃ s params rest body, c = .node (.mixin (.str s) params rest (.list body)) ∧
      mixinBody (c :: nodes) name =
        (mixinBody nodes name).or (if s = name then some body else none)) ∨
    mixinBody (c :: nodes) name = mixinBody nodes name := by
  by_cases hc : ∃ s params rest body, c = .node (.mixin (.str s) params rest (.list body))
  · obtain ⟨s, params, rest, body, rfl⟩ := hc
    exact .inl ⟨s, params, rest, body, rfl, by rw [mixinBody]⟩
  · refine .inr ?_
    rw [mixinBody]
    intro s params rest body h
    exact hc ⟨s, params, rest, body, h⟩

theorem mixinBody_cons_of_eq_some (h : mixinBody nodes name = some body) :
    mixinBody (c :: nodes) name = some body := by
  rcases mixinBody_cons_cases c nodes name with ⟨s, -, -, first, -, hcons⟩ | hcons
  · rw [hcons, h]
    rfl
  · rw [hcons, h]

theorem eq_mixin_of_mixinBody_cons (h : mixinBody (c :: nodes) name = some body)
    (hnone : mixinBody nodes name = none) :
    ∃ params rest, c = .node (.mixin (.str name) params rest (.list body)) := by
  rcases mixinBody_cons_cases c nodes name with ⟨s, params, rest, first, rfl, hcons⟩ | hcons
  · rw [h, hnone, Option.none_or] at hcons
    by_cases hs : s = name
    · rw [if_pos hs] at hcons
      cases hs
      cases hcons
      exact ⟨params, rest, rfl⟩
    · rw [if_neg hs] at hcons
      cases hcons
  · rw [h, hnone] at hcons
    cases hcons

theorem mem_of_mixinBody (h : mixinBody nodes name = some body) :
    ∃ params rest, .node (.mixin (.str name) params rest (.list body)) ∈ nodes := by
  induction nodes with
  | nil => cases h
  | cons c nodes ih =>
    cases hlast : mixinBody nodes name with
    | none =>
      obtain ⟨params, rest, rfl⟩ := eq_mixin_of_mixinBody_cons h hlast
      exact ⟨params, rest, List.mem_cons_self ..⟩
    | some last =>
      have hsame : last = body := by
        rw [mixinBody_cons_of_eq_some hlast] at h
        exact Option.some.inj h
      obtain ⟨params, rest, hmem⟩ := ih (hsame ▸ hlast)
      exact ⟨params, rest, List.mem_cons_of_mem _ hmem⟩

theorem exists_mixinBody {params rest : Datum}
    (h : .node (.mixin (.str name) params rest (.list body)) ∈ nodes) :
    ∃ last, mixinBody nodes name = some last := by
  induction nodes with
  | nil => exact absurd h List.not_mem_nil
  | cons c nodes ih =>
    cases hlast : mixinBody nodes name with
    | some last => exact ⟨last, mixinBody_cons_of_eq_some hlast⟩
    | none =>
      rcases List.mem_cons.1 h with rfl | h
      · refine ⟨body, ?_⟩
        rw [mixinBody, hlast, if_pos rfl]
        rfl
      · obtain ⟨last, hlast'⟩ := ih h
        rw [hlast] at hlast'
        cases hlast'

theorem finite_mixins (nodes : List Content) :
    {name | ∃ body, mixinBody nodes name = some body}.Finite := by
  have hnames : {d | d ∈ (nodes.filterMap Content.declaration?).map Declaration.name}.Finite :=
    List.finite_toSet _
  have hinjective : Function.Injective Datum.str := fun s t h => Datum.str.inj h
  apply (hnames.preimage hinjective.injOn).subset
  rintro name ⟨body, h⟩
  obtain ⟨params, rest, hmem⟩ := mem_of_mixinBody h
  exact List.mem_map.2 ⟨_, List.mem_filterMap.2 ⟨_, hmem, rfl⟩, rfl⟩

/-- The body of a mixin is markup. -/
theorem MarkupNodes.of_mixinBody {top : Bool} (h : MarkupNodes true top nodes)
    (hbody : mixinBody nodes name = some body) : MarkupNodes true false body := by
  obtain ⟨params, rest, hmem⟩ := mem_of_mixinBody hbody
  rcases h.of_mem hmem with hn | ⟨-, -, name, body, hn, hbody⟩
  · cases hn
  · cases hn
    exact hbody

/-- What occurs in the body of a mixin occurs in the template, below the declaration. -/
theorem Occurs.of_mixinBody {above : List Node} {n : Node} (h : Occurs above n body)
    (hbody : mixinBody nodes name = some body) :
    ∃ m, m.isMixin = true ∧ Occurs (m :: above) n nodes := by
  obtain ⟨params, rest, hmem⟩ := mem_of_mixinBody hbody
  exact ⟨_, rfl, .inside hmem (Node.owns_mixin.2 rfl) h⟩

/-- So does what occurs among the children that a call passes, below the call. -/
theorem Occurs.of_passed {above above' : List Node} {name args : Datum} {attributes : Attributes}
    {children items : List Content} {n : Node}
    (h : Occurs above (.call name args attributes (.list children)) items)
    (h' : Occurs above' n children) :
    Occurs (above ++ .call name args attributes (.list children) :: above') n items :=
  h.trans (Node.owns_call.2 rfl) h'

end Declared

/-! ## The call graph -/

/-- The body of one mixin holds a call of the other. -/
def Calls (nodes : List Content) (caller callee : String) : Prop :=
  ∃ body above args attributes c, mixinBody nodes caller = some body ∧
    Occurs above (.call (.str callee) args attributes c) body

/-- No mixin leads back to itself. -/
def AcyclicMixins (nodes : List Content) : Prop :=
  ∀ name, ¬Relation.TransGen (Calls nodes) name name

/-- It is enough that calls go down in some order. -/
theorem acyclicMixins_of_rank {nodes : List Content} (rank : String → Nat)
    (h : ∀ caller callee, Calls nodes caller callee → rank callee < rank caller) :
    AcyclicMixins nodes := by
  have hless : ∀ a b, Relation.TransGen (Calls nodes) a b → rank b < rank a := by
    intro a b hab
    induction hab with
    | single hcall => exact h _ _ hcall
    | tail _ hcall ih => exact Nat.lt_trans (h _ _ hcall) ih
  intro name hcycle
  exact absurd (hless name name hcycle) (Nat.lt_irrefl _)

/-- Induction along the calls of an acyclic template, callees first. -/
theorem AcyclicMixins.induction {nodes : List Content} (h : AcyclicMixins nodes)
    {P : String → Prop} (step : ∀ name, (∀ callee, Calls nodes name callee → P callee) → P name)
    (name : String) : P name := by
  have hundeclared : ∀ name, (¬∃ body, mixinBody nodes name = some body) → P name := by
    intro name hnone
    apply step
    rintro callee ⟨body, -, -, -, -, hbody, -⟩
    exact absurd ⟨body, hbody⟩ hnone
  -- there are only finitely many mixins, so their order along calls is well-founded
  have hwf : {name | ∃ body, mixinBody nodes name = some body}.WellFoundedOn
      fun callee caller => Relation.TransGen (Calls nodes) caller callee := by
    have : IsStrictOrder String fun callee caller =>
        Relation.TransGen (Calls nodes) caller callee :=
      { irrefl := h, trans := fun _ _ _ hab hbc => hbc.trans hab }
    exact (finite_mixins nodes).wellFoundedOn
  by_cases hname : ∃ body, mixinBody nodes name = some body
  · refine hwf.induction hname fun caller _ ih => step caller fun callee hcall => ?_
    by_cases hcallee : ∃ body, mixinBody nodes callee = some body
    · exact ih callee hcallee (.single hcall)
    · exact hundeclared callee hcallee
  · exact hundeclared name hname

/-! ## Blocks that are shown -/

/-- A placeholder stands somewhere in the tree of these nodes. -/
def HasPlaceholder (items : List Content) : Prop :=
  ∃ above, Occurs above .placeholder items

/-- The mixin shows the block of the context it runs in, by a placeholder or through a mixin that it
calls without children. -/
inductive ShowsBlock (nodes : List Content) : String → Prop where
  | placeholder {name : String} {body : List Content} : mixinBody nodes name = some body →
      HasPlaceholder body → ShowsBlock nodes name
  | handsOn {name callee : String} {body : List Content} {above : List Node} {args : Datum}
      {attributes : Attributes} : mixinBody nodes name = some body →
      Occurs above (.call (.str callee) args attributes (.datum .null)) body →
      ShowsBlock nodes callee → ShowsBlock nodes name

/-- Among the children of calls, calls without children name mixins that do not show a block.  Such
a mixin would show the very children that it is called from. -/
def NoReentry (nodes : List Content) : Prop :=
  ∀ above name args attributes,
    Occurs above (.call (.str name) args attributes (.datum .null)) nodes →
    (∃ m ∈ above, m.isCall = true) → ¬ShowsBlock nodes name

/-! ## Expansions that come to an end -/

/-- From some depth on there is a result, and always the same. -/
def Settles {α : Type} (f : Nat → Option α) : Prop :=
  ∃ a depth, ∀ d, depth ≤ d → f d = some a

theorem compositional_settles : Compositional fun f => Settles f := by
  refine ⟨fun a => ⟨a, 0, fun _ _ => rfl⟩, ?_⟩
  rintro α β f g ⟨a, depth, ha⟩ hg
  obtain ⟨b, depth', hb⟩ := hg a
  refine ⟨b, max depth depth', fun d hd => ?_⟩
  show f d >>= g d = some b
  rw [ha d (by omega)]
  exact hb d (by omega)

/-- A step later is soon enough. -/
theorem Settles.succ {α : Type} {f : Nat → Option α} (h : Settles fun d => f (d + 1)) :
    Settles f := by
  obtain ⟨a, depth, ha⟩ := h
  refine ⟨a, depth + 1, fun d hd => ?_⟩
  obtain ⟨e, rfl⟩ : ∃ e, d = e + 1 := ⟨d - 1, by omega⟩
  exact ha e (by omega)

section Expansion

variable (v : Valuation δ) (options : Options) (bodies : String → Option (List Content))
  (inherits : Bool)

/-- What a placeholder stands for settles, whatever the context is. -/
def SettlesAsBlock : List (List Content) → Prop
  | [] => True
  | children :: outer =>
    ∀ this, Settles fun d => expansion v options bodies inherits d this outer children

/-- A call of the mixin settles in every context in which placeholders do. -/
def SettlesAsMixin (name : String) : Prop :=
  ∀ context, SettlesAsBlock v options bodies inherits context →
    Settles fun d => bodies name >>= expansion v options bodies inherits d context context

/-- A call of the mixin without children settles in every context. -/
def SettlesBare (name : String) : Prop :=
  ∀ this, Settles fun d => bodies name >>= expansion v options bodies inherits d
    (if inherits then this else []) (if inherits then this else [])

variable {v options bodies inherits}

/-- Nodes settle in every context if that goes for the mixins they call without children. -/
theorem MarkupNodes.settles_anywhere {top : Bool} {items : List Content}
    (h : MarkupNodes true top items)
    (hcalls : ∀ above name args attributes c,
      Occurs above (.call (.str name) args attributes c) items →
      SettlesAsMixin v options bodies inherits name ∧
        (c = .datum .null → SettlesBare v options bodies inherits name))
    {block : List (List Content)}
    (hblock : HasPlaceholder items → SettlesAsBlock v options bodies inherits block)
    (this : List (List Content)) :
    Settles fun d => expansion v options bodies inherits d this block items := by
  let ρ := fun i : Nat × List (List Content) =>
    Reading.inside v options bodies inherits (expansion v options bodies inherits i.1) i.2 block
  -- the context is part of the index, so that children settle in all contexts at once
  have hcompositional : Compositional (ι := Nat × List (List Content)) fun f =>
      ∀ this, Settles fun d => f (d, this) :=
    ⟨fun a _ => compositional_settles.const a,
      fun hf hg this => compositional_settles.bind (hf this) fun a => hg a this⟩
  have hρ : Family (fun f => ∀ this, Settles fun d => f (d, this)) v options ρ :=
    ⟨hcompositional, fun _ => rfl, fun _ => rfl⟩
  have hall : Everywhere (Node.BringsIn (fun f => ∀ this, Settles fun d => f (d, this)) ρ)
      items := by
    intro above n hocc
    cases n with
    | call name args attributes c =>
      cases name with
      | str name =>
        intro hc hinner this
        obtain ⟨hmixin, hbare⟩ := hcalls above name args attributes c hocc
        cases hc with
        | null => exact hbare rfl this
        | @list children _ =>
          exact hmixin (children :: block) fun this' => Settles.succ (hinner children rfl this')
      | _ => trivial
    | placeholder =>
      intro this
      have hsettles := hblock ⟨above, hocc⟩
      cases block with
      | nil => exact ⟨[], 0, fun _ _ => rfl⟩
      | cons children outer => exact hsettles this
    | _ => trivial
  exact Settles.succ (h.composes hρ (fun _ => hall) this)

/-- Nodes settle if the mixins do that they call, and the block and the context they stand under.
What they pass to calls has to settle in every context. -/
theorem MarkupNodes.settles {top : Bool} {items : List Content} (h : MarkupNodes true top items)
    (hcalls : ∀ above name args attributes c,
      Occurs above (.call (.str name) args attributes c) items →
      SettlesAsMixin v options bodies inherits name ∧
        (c = .datum .null → (∃ m ∈ above, m.isCall = true) →
          SettlesBare v options bodies inherits name))
    {this block : List (List Content)} (hthis : SettlesAsBlock v options bodies inherits this)
    (hblock : SettlesAsBlock v options bodies inherits block) :
    Settles fun d => expansion v options bodies inherits d this block items := by
  let ρ := fun d =>
    Reading.inside v options bodies inherits (expansion v options bodies inherits d) this block
  have hρ : Family (fun f => Settles f) v options ρ :=
    ⟨compositional_settles, fun _ => rfl, fun _ => rfl⟩
  -- only calls and placeholders bring in something that depends on the bound
  refine Settles.succ (h.composes hρ fun _ above n hocc => ?_)
  cases n with
  | call name args attributes c =>
    cases name with
    | str name =>
      intro hc _
      obtain ⟨hmixin, -⟩ := hcalls above name args attributes c hocc
      cases hc with
      | null =>
        refine hmixin (if inherits then this else []) ?_
        split
        · exact hthis
        · trivial
      | @list children hchildren =>
        refine hmixin (children :: block) fun this' => ?_
        refine hchildren.settles_anywhere (fun above' callee args' attributes' c' hocc' => ?_)
          (fun _ => hblock) this'
        obtain ⟨hcallee, hbare⟩ := hcalls _ callee args' attributes' c' (hocc.of_passed hocc')
        exact ⟨hcallee, fun hc' =>
          hbare hc' ⟨_, List.mem_append_right _ (List.mem_cons_self ..), rfl⟩⟩
    | _ => trivial
  | placeholder =>
    cases block with
    | nil => exact ⟨[], 0, fun _ _ => rfl⟩
    | cons children outer => exact hblock this
  | _ => trivial

variable {nodes : List Content}

/-- If no mixin leads back to itself, every call of a mixin settles. -/
theorem AcyclicMixins.settlesAsMixin (hacyclic : AcyclicMixins nodes)
    (h : MarkupNodes true true nodes)
    (hdeclared : ∀ above name args attributes c,
      Occurs above (.call (.str name) args attributes c) nodes →
      ∃ body, mixinBody nodes name = some body)
    (hreentry : inherits = true → NoReentry nodes) (name : String) :
    (∃ body, mixinBody nodes name = some body) →
      SettlesAsMixin v options (mixinBody nodes) inherits name ∧
        ((inherits = true → ¬ShowsBlock nodes name) →
          SettlesBare v options (mixinBody nodes) inherits name) := by
  induction name using hacyclic.induction with
  | step name ih =>
    rintro ⟨body, hbody⟩
    have hcallee : ∀ {above callee args attributes c},
        Occurs above (.call (.str callee) args attributes c) body →
        SettlesAsMixin v options (mixinBody nodes) inherits callee ∧
          ((inherits = true → ¬ShowsBlock nodes callee) →
            SettlesBare v options (mixinBody nodes) inherits callee) := by
      intro above callee args attributes c hocc
      obtain ⟨m, -, hocc'⟩ := hocc.of_mixinBody hbody
      exact ih callee ⟨body, above, args, attributes, c, hbody, hocc⟩
        (hdeclared _ callee args attributes c hocc')
    have hmarkup := h.of_mixinBody hbody
    refine ⟨fun context hcontext => ?_, fun hquiet this => ?_⟩
    · rw [hbody]
      refine hmarkup.settles (fun above callee args attributes c hocc => ?_) hcontext hcontext
      refine ⟨(hcallee hocc).1, fun hc hinside => (hcallee hocc).2 fun hinherits => ?_⟩
      subst hc
      obtain ⟨m, -, hocc'⟩ := hocc.of_mixinBody hbody
      obtain ⟨call, hcall, hkind⟩ := hinside
      exact hreentry hinherits _ callee args attributes hocc'
        ⟨call, List.mem_cons_of_mem m hcall, hkind⟩
    · -- without a block to show it does not matter which one there is
      rw [hbody]
      refine hmarkup.settles_anywhere (fun above callee args attributes c hocc => ?_)
        (fun hhas => ?_) _
      · refine ⟨(hcallee hocc).1, fun hc => (hcallee hocc).2 fun hinherits hshows => ?_⟩
        subst hc
        exact hquiet hinherits (.handsOn hbody hocc hshows)
      · cases inherits with
        | true => exact absurd (.placeholder hbody hhas) (hquiet rfl)
        | false => trivial

/-- The expansion of a template without recursion comes to an end. -/
theorem AcyclicMixins.settles_expansion (hacyclic : AcyclicMixins nodes)
    (h : MarkupNodes true true nodes)
    (hdeclared : ∀ above name args attributes c,
      Occurs above (.call (.str name) args attributes c) nodes →
      ∃ body, mixinBody nodes name = some body)
    (hreentry : inherits = true → NoReentry nodes) (v : Valuation δ) (options : Options) :
    Settles fun d => expansion v options (mixinBody nodes) inherits d [] [] nodes := by
  have hnone : SettlesAsBlock v options (mixinBody nodes) inherits [] := trivial
  refine h.settles (fun above name args attributes c hocc => ?_) hnone hnone
  obtain ⟨hmixin, hbare⟩ := hacyclic.settlesAsMixin h hdeclared hreentry name
    (hdeclared above name args attributes c hocc)
  refine ⟨hmixin, fun hc hinside => hbare fun hinherits => ?_⟩
  subst hc
  exact hreentry hinherits above name args attributes hocc hinside

end Expansion

/-! ## Where both forms agree -/

/-- If the node is a call without children, its mixin has no placeholder. -/
def Node.Guarded (bodies : String → Option (List Content)) (n : Node) : Prop :=
  ∀ name args attributes body, n = .call (.str name) args attributes (.datum .null) →
    bodies name = some body → ¬HasPlaceholder body

/-- In bodies of mixins and among the children of calls, calls without children name mixins without
a placeholder. -/
def Sheltered (nodes : List Content) : Prop :=
  ∀ above n, Occurs above n nodes → (∃ m ∈ above, m.isMixin = true ∨ m.isCall = true) →
    n.Guarded (mixinBody nodes)

/-- Sheltered templates do not lead back into the children of a call: without placeholders there is
nothing to hand a block on to. -/
theorem Sheltered.noReentry {nodes : List Content} (h : Sheltered nodes) : NoReentry nodes := by
  have hquiet : ∀ name, ShowsBlock nodes name →
      ¬∀ body, mixinBody nodes name = some body → ¬HasPlaceholder body := by
    intro name hshows
    induction hshows with
    | placeholder hbody hhas => exact fun hnone => hnone _ hbody hhas
    | @handsOn name callee body above args attributes hbody hocc _ ih =>
      refine fun _ => ih fun inner hinner => ?_
      obtain ⟨m, hm, hocc'⟩ := hocc.of_mixinBody hbody
      exact h _ _ hocc' ⟨m, List.mem_cons_self .., .inl hm⟩ callee args attributes inner rfl hinner
  intro above name args attributes hocc ⟨m, hm, hcall⟩ hshows
  exact hquiet name hshows fun body hbody =>
    h above _ hocc ⟨m, hm, .inr hcall⟩ name args attributes body rfl hbody

/-- Two blocks that placeholders cannot tell apart: the same children at every level that is within
the reach of a placeholder. -/
inductive SameBlock (bodies : String → Option (List Content)) :
    List (List Content) → List (List Content) → Prop where
  | nil : SameBlock bodies [] []
  | cons {children outer outer'} : MarkupNodes true false children →
      Everywhere (Node.Guarded bodies) children →
      (HasPlaceholder children → SameBlock bodies outer outer') →
      SameBlock bodies (children :: outer) (children :: outer')

theorem compositional_eq {ι : Type} : Compositional (ι := ι) fun f => ∀ i j, f i = f j := by
  refine ⟨fun a _ _ => rfl, ?_⟩
  intro α β f g hf hg i j
  show f i >>= g i = f j >>= g j
  rw [hf i j]
  cases f j with
  | none => rfl
  | some a => exact hg a i j

section Agree

variable {v : Valuation δ} {options : Options} {bodies : String → Option (List Content)}

/-- Two readings agree on markup if they agree on its calls and placeholders. -/
theorem MarkupNodes.contributions_congr {top : Bool} {items : List Content}
    (h : MarkupNodes true top items) {ρ ρ' : Reading δ} (hv : ρ'.valuation = ρ.valuation)
    (ho : ρ'.options = ρ.options)
    (hcall : ∀ above name args attributes c,
      Occurs above (.call (.str name) args attributes c) items → c.MarkupBlock true →
      ρ.call name c.passed = ρ'.call name c.passed)
    (hblock : HasPlaceholder items → ρ.block = ρ'.block) :
    contributions ρ items = contributions ρ' items := by
  -- the two readings are a family over the booleans, and being constant is compositional
  have hρ : Family (fun f => ∀ i j, f i = f j) ρ.valuation ρ.options
      (fun b : Bool => cond b ρ ρ') :=
    ⟨compositional_eq, fun b => by cases b <;> simp [hv], fun b => by cases b <;> simp [ho]⟩
  refine h.composes hρ (fun _ above n hocc => ?_) true false
  cases n with
  | call name args attributes c =>
    cases name with
    | str name =>
      intro hc _ i j
      have hsame := hcall above name args attributes c hocc hc
      cases i <;> cases j <;> simp [hsame]
    | _ => trivial
  | placeholder =>
    intro i j
    have hsame := hblock ⟨above, hocc⟩
    cases i <;> cases j <;> simp [hsame]
  | _ => trivial

/-- Where calls without children name mixins without a placeholder, what they hand on makes no
difference. -/
theorem expansion_eq_lexical
    (hbodies : ∀ name body, bodies name = some body →
      MarkupNodes true false body ∧ Everywhere (Node.Guarded bodies) body) (d : Nat)
    {this this' block block' : List (List Content)} {items : List Content}
    (h : MarkupNodes true false items) (hguarded : Everywhere (Node.Guarded bodies) items)
    (hsame : HasPlaceholder items → SameBlock bodies block block') :
    expansion v options bodies true d this block items =
      expansion v options bodies false d this' block' items := by
  induction d generalizing this this' block block' items with
  | zero => rfl
  | succ d ih =>
    rw [expansion, expansion]
    refine h.contributions_congr rfl rfl ?_ ?_
    · intro above name args attributes c hocc hc
      cases hbody : bodies name with
      | none => simp [Reading.inside, hbody]
      | some body =>
        obtain ⟨hmarkup, hall⟩ := hbodies name body hbody
        cases hc with
        | null =>
          -- the mixin has no placeholder, so the blocks do not matter
          have hnone := hguarded above _ hocc name args attributes body rfl hbody
          simp only [Reading.inside, Content.passed, hbody]
          exact ih hmarkup hall fun hhas => absurd hhas hnone
        | @list children hchildren =>
          have hinner : Everywhere (Node.Guarded bodies) children :=
            fun above' n hocc' => hguarded _ n (hocc.of_passed hocc')
          have hpassed : SameBlock bodies (children :: block) (children :: block') :=
            .cons hchildren hinner (by
              rintro ⟨above', hocc'⟩
              exact hsame ⟨_, hocc.of_passed hocc'⟩)
          simp only [Reading.inside, Content.passed, hbody]
          exact ih hmarkup hall fun _ => hpassed
    · intro hhas
      cases hsame hhas with
      | nil => rfl
      | cons hmarkup hall houter => exact ih hmarkup hall houter

/-- A sheltered template expands as if every call without children passed no block. -/
theorem Sheltered.expansion_eq {nodes : List Content} (hsheltered : Sheltered nodes)
    (h : MarkupNodes true true nodes) (v : Valuation δ) (options : Options) (d : Nat) :
    expansion v options (mixinBody nodes) true d [] [] nodes =
      expansion v options (mixinBody nodes) false d [] [] nodes := by
  have hbodies : ∀ name body, mixinBody nodes name = some body →
      MarkupNodes true false body ∧ Everywhere (Node.Guarded (mixinBody nodes)) body := by
    intro name body hbody
    refine ⟨h.of_mixinBody hbody, fun above n hocc => ?_⟩
    obtain ⟨m, hm, hocc'⟩ := hocc.of_mixinBody hbody
    exact hsheltered (m :: above) n hocc' ⟨m, List.mem_cons_self .., .inl hm⟩
  cases d with
  | zero => rfl
  | succ d =>
    rw [expansion, expansion]
    refine h.contributions_congr rfl rfl ?_ fun _ => rfl
    intro above name args attributes c hocc hc
    cases hbody : mixinBody nodes name with
    | none => simp [Reading.inside, hbody]
    | some body =>
      obtain ⟨hmarkup, hall⟩ := hbodies name body hbody
      cases hc with
      | null =>
        -- there is no block to hand on outside of all mixins
        simp only [Reading.inside, Content.passed, hbody]
        exact expansion_eq_lexical hbodies d hmarkup hall fun _ => .nil
      | @list children hchildren =>
        have hinner : Everywhere (Node.Guarded (mixinBody nodes)) children := by
          intro above' n hocc'
          refine hsheltered _ n (hocc.of_passed hocc') ?_
          exact ⟨_, List.mem_append_right _ (List.mem_cons_self ..), .inr rfl⟩
        have hpassed : SameBlock (mixinBody nodes) [children] [children] :=
          .cons hchildren hinner fun _ => .nil
        simp only [Reading.inside, Content.passed, hbody]
        exact expansion_eq_lexical hbodies d hmarkup hall fun _ => hpassed

end Agree

end Hyperscript
