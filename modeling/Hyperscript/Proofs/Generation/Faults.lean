import Hyperscript.Proofs.Generation.Outcome
import Hyperscript.Proofs.Tree.Shape

/-!
# Faults of generation

`Fault.OfTree` lists the faults that are left for a shaped tree.  Besides those of the template (a
mixin that is unknown or declared twice, a placeholder outside every mixin, a wrong number of roots)
they are faults of a slot that holds a datum of the wrong kind.  A missing text and an integer that
is too long are among them only where the tree is not promised to be regular.

No node of a shaped tree is refused for its kind or its place, and no attribute for its value.
-/

namespace Hyperscript

/-- The faults in which the compilation of a shaped tree can end. -/
inductive Fault.OfTree (regular : Prop) : Fault → Prop where
  | rootKind (kind : String) : OfTree regular (.rootKind kind)
  | rootCount (found : Nat) : OfTree regular (.rootCount found)
  | duplicateMixin (name : String) : OfTree regular (.duplicateMixin name)
  | unknownMixin (name : String) : OfTree regular (.unknownMixin name)
  | strayPlaceholder : OfTree regular .strayPlaceholder
  | unhashable (kind : String) : OfTree regular (.unhashable kind)
  | notSearchable (kind : String) : OfTree regular (.notSearchable kind)
  | notCallable (kind : String) : OfTree regular (.notCallable kind)
  | textNeeded (kind : String) : ¬regular → OfTree regular (.textNeeded kind)
  | tooManyDigits : ¬regular → OfTree regular .tooManyDigits

/-! ## Steps -/

/-- A step ends in no other faults than those of shaped trees. -/
abbrev Bounded (regular : Prop) {α : Type} : Except Fault α → Prop :=
  Meets (fun _ => True) (Fault.OfTree regular)

section Steps

variable {regular : Prop} {options : Options}

theorem bounded_of_ok {α : Type} {e : Except Fault α} (h : ∃ a, e = .ok a) : Bounded regular e := by
  obtain ⟨a, rfl⟩ := h
  trivial

theorem bounded_text {d : Datum} (h : regular → d.IsText) : Bounded regular d.text := by
  cases d with
  | str s => trivial
  | _ =>
    refine Fault.OfTree.textNeeded _ fun ht => ?_
    obtain ⟨s, hs⟩ := h ht
    cases hs

theorem bounded_searchable (d : Datum) : Bounded regular d.searchable := by
  cases d with
  | str s => trivial
  | _ => exact Fault.OfTree.notSearchable _

theorem bounded_checkKey (d : Datum) : Bounded regular d.checkKey := by
  cases d with
  | list | map => exact Fault.OfTree.unhashable _
  | _ => trivial

theorem bounded_written {α : Type} (form : Datum → α) {d : Datum}
    (h : regular → d.isWritable = true) : Bounded regular (d.written form) := by
  unfold Datum.written
  split
  next => trivial
  next hlong => exact Fault.OfTree.tooManyDigits fun hr => hlong (h hr)

theorem isWritable_of_isText {d : Datum} (h : d.IsText) : d.isWritable = true := by
  obtain ⟨s, rfl⟩ := h
  rfl

theorem bounded_tagCode {name : Datum} (h : regular → name.isWritable = true) :
    Bounded regular (tagCode options name) := by
  unfold tagCode
  split
  · refine (bounded_searchable name).bind fun text _ => ?_
    split
    · trivial
    · exact bounded_written _ h
  · exact bounded_written _ h

theorem bounded_plainProperty {name : Datum} (h : regular → name.isWritable = true)
    (value : String) : Bounded regular (Attribute.plainProperty name value) := by
  unfold Attribute.plainProperty
  refine (bounded_checkKey name).bind fun _ _ => ?_
  split
  · trivial
  · exact (bounded_written _ h).bind fun _ _ => trivial

theorem Attribute.Shaped.bounded_property {a : Attribute} (h : a.Shaped regular) :
    Bounded regular (a.property options) := by
  have hvalue : ∃ code, a.valueCode = .ok code := by
    unfold Attribute.valueCode
    rcases h.value with ⟨b, hb⟩ | ⟨s, hs⟩
    · exact ⟨_, by rw [hb]⟩
    · exact ⟨_, by rw [hs]⟩
  have hplain : ∀ value, Bounded regular (Attribute.plainProperty a.name value) :=
    bounded_plainProperty fun hr => isWritable_of_isText (h.name hr)
  unfold Attribute.property
  refine (bounded_of_ok hvalue).bind fun value _ => ?_
  split
  · refine (bounded_text h.name).bind fun name _ => ?_
    split
    · trivial
    · exact hplain value
  · exact hplain value

theorem Attributes.Shaped.bounded_code? {a : Attributes} (h : a.Shaped regular) :
    Bounded regular (a.code? options) := by
  obtain ⟨attributes, blocks, h, hblocks⟩ := h
  have hproperties : Bounded regular
      ((attributes.map AttributeEntry.attr).mapM fun e => e.property options) := by
    refine (meets_mapM (R := fun _ => True) fun e he => ?_).imp (fun _ _ => trivial) fun _ hf => hf
    obtain ⟨a, ha, rfl⟩ := List.mem_map.1 he
    exact (h a ha).bounded_property
  unfold Attributes.code? AttributeSlot.object AttributeSlot.items
  split
  · trivial
  · refine Meets.bind (P := fun _ => True) ?_ fun object _ => ?_
    · exact hproperties.bind fun _ _ => trivial
    · split
      · trivial
      · refine Meets.bind (P := fun items => items = blocks) rfl fun items hitems => ?_
        subst hitems
        exact (meets_mapM fun d hd => bounded_written _ (hblocks d hd)).bind fun _ _ => trivial

theorem Registry.bounded_lookup (r : Registry) {name : Datum}
    (h : regular → name.isWritable = true) : Bounded regular (r.lookup name) := by
  unfold Registry.lookup
  refine (bounded_checkKey name).bind fun _ _ => ?_
  split
  · trivial
  · exact (bounded_written _ h).bind fun _ _ => Fault.OfTree.unknownMixin _

theorem Scope.Filling.bounded_target {s : Scope} (h : s.Filling) : Bounded regular s.target :=
  bounded_of_ok h.target

theorem Scope.Filling.bounded_flush {s : Scope} (h : s.Filling) (run : List Datum) :
    Bounded regular (s.flush run) := by
  unfold Scope.flush
  split
  · trivial
  · refine h.bounded_target.bind fun target _ => ?_
    refine Meets.bind (P := fun _ => True) ?_ fun _ _ => trivial
    exact (meets_mapM fun d _ => bounded_searchable d).bind fun _ _ => trivial

/-- The scope of an `each` holds its children and its alternate. -/
theorem ShapedNodes.eachScope {items : List Content} {alternate : Content}
    (hc : ShapedNodes regular items) (ha : alternate.ShapedBlock regular) :
    ∃ scope, Hyperscript.eachScope (.list items) alternate = .ok scope ∧
      ∃ ds, scope.scopeDeclarations = .ok ds := by
  cases ha with
  | null => exact ⟨.list (items ++ []), rfl, by simpa using hc.scopeDeclarations⟩
  | @list others h =>
    have hscope : Hyperscript.eachScope (.list items) (.list others) =
        .ok (.list (items ++ others)) := by
      cases others with
      | nil => rfl
      | cons => rfl
    exact ⟨_, hscope, (hc.append h).scopeDeclarations⟩

end Steps

/-! ## Generation -/

namespace Generation

variable {regular : Prop} {α β : Type}

/-- Whatever the next fresh array is, generation ends in no other faults than those of shaped
trees. -/
def IsBounded (regular : Prop) (g : Generation α) : Prop :=
  ∀ next, Bounded regular (g.run next)

theorem isBounded_pure (a : α) : IsBounded regular (pure a) :=
  fun _ => trivial

theorem isBounded_fresh : IsBounded regular fresh :=
  fun _ => trivial

theorem isBounded_lift {e : Except Fault α} (h : Bounded regular e) :
    IsBounded regular (liftM e : Generation α) := by
  intro next
  cases e with
  | error f => exact h
  | ok a => trivial

theorem IsBounded.bind {g : Generation α} {f : α → Generation β} (hg : IsBounded regular g)
    (hf : ∀ a, IsBounded regular (f a)) : IsBounded regular (g >>= f) := by
  intro next
  rw [StateT.run_bind]
  exact (hg next).bind fun r _ => hf r.1 r.2

theorem IsBounded.of_lift {e : Except Fault α} {a : α} {f : α → Generation β} (he : e = .ok a)
    (h : IsBounded regular (f a)) : IsBounded regular (liftM e >>= f) := by
  subst he
  exact h

end Generation

open Generation

section Generate

variable {regular : Prop}

mutual

theorem Node.Shaped.isBounded_generate : ∀ {n : Node}, n.Shaped regular → ∀ {s : Scope}, s.Filling →
    IsBounded regular (n.generate s)
  | _, .tag hname ha hc, s, hs => by
    rw [Node.generate]
    refine (isBounded_lift (bounded_tagCode hname)).bind fun tag => ?_
    refine (isBounded_lift ha.bounded_code?).bind fun properties => ?_
    split
    · refine isBounded_fresh.bind fun array => ?_
      refine (hc.isBounded_generate (Scope.filling_filling hs.depth array) []).bind fun body => ?_
      exact (isBounded_lift hs.bounded_target).bind fun _ => isBounded_pure _
    · exact (isBounded_lift hs.bounded_target).bind fun _ => isBounded_pure _
  | _, .text, s, hs => by
    rw [Node.generate]
    refine (isBounded_lift hs.bounded_target).bind fun target => ?_
    refine (isBounded_lift ?_).bind fun _ => isBounded_pure _
    exact (bounded_searchable _).bind fun _ _ => trivial
  | _, .code hv h, s, hs => by
    rw [Node.generate]
    have hwritten : Bounded regular (Datum.written Datum.spell _) :=
      bounded_written _ fun hr => isWritable_of_isText (hv hr)
    split
    · refine (isBounded_lift hs.bounded_target).bind fun target => ?_
      refine (isBounded_lift hwritten).bind fun expr => ?_
      dsimp only
      split
      · rename_i ht
        cases h with
        | null => exact absurd ht (by decide)
        | list h => exact (h.isBounded_generate hs []).bind fun _ => isBounded_pure _
      · exact (isBounded_pure _).bind fun _ => isBounded_pure _
    · cases h with
      | null => exact (isBounded_lift (bounded_text hv)).bind fun _ => isBounded_pure _
      | list h =>
        exact (isBounded_lift hwritten).bind fun _ =>
          (h.isBounded_generate hs []).bind fun _ => isBounded_pure _
  | _, .comment, s, hs => by
    rw [Node.generate]
    exact isBounded_pure _
  | _, .conditional htest hc ha, s, hs => by
    rw [Node.generate]
    exact (isBounded_lift (bounded_written _ htest)).bind fun _ =>
      (hc.isBounded_generate hs []).bind fun _ =>
      (ha.isBounded_otherwise hs).bind fun _ => isBounded_pure _
  | _, .switch hexpr hc, s, hs => by
    rw [Node.generate]
    exact (isBounded_lift (bounded_written _ hexpr)).bind fun _ =>
      (hc.isBounded_clauses hs).bind fun _ => isBounded_pure _
  | _, .each hobj hval hkey hc ha, s, hs => by
    rw [Node.generate]
    obtain ⟨scope, hscope, hds⟩ := hc.eachScope ha
    refine (isBounded_lift (bounded_written _ hobj)).bind fun _ => ?_
    refine .of_lift hscope ((isBounded_lift (bounded_of_ok hds)).bind fun _ => ?_)
    exact (hc.isBounded_definitions hs.depth).bind fun _ =>
      (ha.isBounded_definitions hs.depth).bind fun _ =>
      (isBounded_lift (bounded_written _ hkey)).bind fun _ =>
      (isBounded_lift (bounded_written _ hval)).bind fun _ =>
      (hc.isBounded_generate hs []).bind fun _ =>
      (ha.isBounded_whenEmpty hs).bind fun _ =>
      (hc.isBounded_generate hs []).bind fun _ =>
      (ha.isBounded_whenEmpty hs).bind fun _ => isBounded_pure _
  | _, .loop htest hc, s, hs => by
    rw [Node.generate]
    exact (isBounded_lift (bounded_written _ htest)).bind fun _ =>
      (hc.isBounded_generate hs []).bind fun _ => isBounded_pure _
  | _, .mixin _ _ _ _, s, hs => by
    rw [Node.generate]
    exact isBounded_pure _
  | _, .call hname hargs ha h, s, hs => by
    rw [Node.generate]
    refine (isBounded_lift (s.mixins.bounded_lookup fun hr =>
      isWritable_of_isText (hname hr))).bind fun _ => ?_
    refine (isBounded_lift hs.bounded_target).bind fun target => ?_
    refine (isBounded_lift ha.bounded_code?).bind fun properties => ?_
    refine (isBounded_lift (bounded_text hargs)).bind fun args => ?_
    refine (isBounded_lift (bounded_text hname)).bind fun mixin => ?_
    cases h with
    | null => exact isBounded_pure _
    | list h =>
      refine isBounded_fresh.bind fun array => ?_
      refine (isBounded_lift (bounded_of_ok h.scopeDeclarations)).bind fun _ => ?_
      refine (h.isBounded_definitions hs.depth).bind fun _ => ?_
      exact (h.isBounded_generate (Scope.filling_filling hs.depth array) []).bind fun _ =>
        isBounded_pure _
  | _, .placeholder, s, hs => by
    rw [Node.generate]
    split
    · exact fun _ => Fault.OfTree.strayPlaceholder
    · exact (isBounded_lift hs.bounded_target).bind fun _ => isBounded_pure _

theorem ShapedNodes.isBounded_generate : ∀ {items : List Content}, ShapedNodes regular items →
    ∀ {s : Scope}, s.Filling → ∀ run : List Datum, IsBounded regular (generateItems s run items)
  | _, .nil, s, hs, run => by
    rw [generateItems]
    exact isBounded_lift (hs.bounded_flush run)
  | _, .cons hn hrest, s, hs, run => by
    have hnode := hn.isBounded_generate hs
    cases hn with
    | @text value =>
      rw [generateItems]
      exact hrest.isBounded_generate hs (run ++ [value])
    | _ =>
      rw [generateItems]
      · exact (isBounded_lift (hs.bounded_flush run)).bind fun _ => hnode.bind fun _ =>
          (hrest.isBounded_generate hs []).bind fun _ => isBounded_pure _
      · intro value h
        cases h

theorem ShapedBranches.isBounded_clauses : ∀ {items : List Content}, ShapedBranches regular items →
    ∀ {s : Scope}, s.Filling → IsBounded regular (clausesOfItems s items)
  | _, .nil, s, hs => by
    rw [clausesOfItems]
    exact isBounded_pure _
  | _, .cons hexpr h hrest, s, hs => by
    rw [clausesOfItems]
    refine (isBounded_lift (bounded_written _ hexpr)).bind fun _ => ?_
    cases h with
    | null =>
      exact (isBounded_pure _).bind fun _ => (hrest.isBounded_clauses hs).bind fun _ =>
        isBounded_pure _
    | list h =>
      exact (h.isBounded_generate hs []).bind fun _ => (isBounded_pure _).bind fun _ =>
        (hrest.isBounded_clauses hs).bind fun _ => isBounded_pure _

theorem Content.ShapedAlternate.isBounded_otherwise : ∀ {c : Content}, c.ShapedAlternate regular →
    ∀ {s : Scope}, s.Filling → IsBounded regular (c.otherwise s)
  | _, .null, s, hs => by
    rw [Content.otherwise]
    exact isBounded_pure _
  | _, .list h, s, hs => by
    rw [Content.otherwise]
    split
    · exact isBounded_pure _
    · exact (h.isBounded_generate hs []).bind fun _ => isBounded_pure _
  | _, .conditional htest hc ha, s, hs => by
    rw [Content.otherwise]
    exact (isBounded_lift (bounded_written _ htest)).bind fun _ =>
      (hc.isBounded_generate hs []).bind fun _ =>
      (ha.isBounded_otherwise hs).bind fun _ => isBounded_pure _

theorem Content.ShapedBlock.isBounded_whenEmpty : ∀ {c : Content}, c.ShapedBlock regular →
    ∀ {s : Scope}, s.Filling → IsBounded regular (c.whenEmpty s)
  | _, .null, s, hs => by
    rw [Content.whenEmpty]
    exact isBounded_pure _
  | _, .list h, s, hs => by
    rw [Content.whenEmpty]
    exact (h.isBounded_generate hs []).bind fun _ => isBounded_pure _

theorem Node.Shaped.isBounded_definitions : ∀ {n : Node}, n.Shaped regular → ∀ {s : Scope},
    0 ≤ s.depth → IsBounded regular (n.definitions s)
  | _, .tag _ _ hc, s, hs | _, .loop _ hc, s, hs => by
    rw [Node.definitions]
    exact hc.isBounded_definitions hs
  | _, .switch _ hc, s, hs => by
    rw [Node.definitions]
    exact hc.isBounded_definitions hs
  | _, .code _ h, s, hs => by
    rw [Node.definitions]
    exact h.isBounded_definitions hs
  | _, .conditional _ hc ha, s, hs => by
    rw [Node.definitions]
    exact (hc.isBounded_definitions hs).bind fun _ =>
      (ha.isBounded_definitions hs).bind fun _ => isBounded_pure _
  | _, .mixin _ hname hrest hc, s, hs => by
    have hdepth : 0 ≤ s.inMixin.depth := by
      simp only [Scope.inMixin]
      omega
    rw [Node.definitions]
    refine .of_lift (paramList_str _) ?_
    refine (isBounded_lift (bounded_text hname)).bind fun mixin => ?_
    refine (isBounded_lift (bounded_written _ hrest)).bind fun _ => ?_
    refine isBounded_fresh.bind fun array => ?_
    refine (isBounded_lift (bounded_of_ok hc.scopeDeclarations)).bind fun _ => ?_
    refine (hc.isBounded_definitions hdepth).bind fun _ => ?_
    exact (hc.isBounded_generate (Scope.filling_filling hdepth array) []).bind fun _ =>
      isBounded_pure _
  | _, .text, s, hs | _, .comment, s, hs | _, .placeholder, s, hs | _, .each _ _ _ _ _, s, hs
  | _, .call _ _ _ _, s, hs => by
    rw [Node.definitions]
    exact isBounded_pure _

theorem ShapedNodes.isBounded_definitions : ∀ {items : List Content}, ShapedNodes regular items →
    ∀ {s : Scope}, 0 ≤ s.depth → IsBounded regular (definitionsOfItems s items)
  | _, .nil, s, hs => by
    rw [definitionsOfItems]
    exact isBounded_pure _
  | _, .cons hn hrest, s, hs => by
    rw [definitionsOfItems]
    exact (hn.isBounded_definitions hs).bind fun _ =>
      (hrest.isBounded_definitions hs).bind fun _ => isBounded_pure _

theorem ShapedBranches.isBounded_definitions : ∀ {items : List Content},
    ShapedBranches regular items → ∀ {s : Scope}, 0 ≤ s.depth →
    IsBounded regular (definitionsOfItems s items)
  | _, .nil, s, hs => by
    rw [definitionsOfItems]
    exact isBounded_pure _
  | _, .cons _ h hrest, s, hs => by
    rw [definitionsOfItems, Node.definitions]
    exact (h.isBounded_definitions hs).bind fun _ =>
      (hrest.isBounded_definitions hs).bind fun _ => isBounded_pure _

theorem Content.ShapedBlock.isBounded_definitions : ∀ {c : Content}, c.ShapedBlock regular →
    ∀ {s : Scope}, 0 ≤ s.depth → IsBounded regular (c.definitions s)
  | _, .null, s, hs => by
    rw [Content.definitions]
    exact isBounded_pure _
  | _, .list h, s, hs => by
    rw [Content.definitions]
    exact h.isBounded_definitions hs

theorem Content.ShapedAlternate.isBounded_definitions : ∀ {c : Content},
    c.ShapedAlternate regular → ∀ {s : Scope}, 0 ≤ s.depth →
    IsBounded regular (c.alternateDefinitions s)
  | _, .null, s, hs => by
    rw [Content.alternateDefinitions]
    exact isBounded_pure _
  | _, .list h, s, hs => by
    rw [Content.alternateDefinitions]
    exact h.isBounded_definitions hs
  | _, .conditional _ hc ha, s, hs => by
    rw [Content.alternateDefinitions, if_pos (by rfl), Node.definitions]
    exact (hc.isBounded_definitions hs).bind fun _ =>
      (ha.isBounded_definitions hs).bind fun _ => isBounded_pure _

end

end Generate

end Hyperscript
