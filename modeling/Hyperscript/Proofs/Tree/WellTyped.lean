import Hyperscript.Node.Walk

/-!
# Well-typed trees

A tree is well-typed if every slot holds a value of its declared kind: texts, switches and lists of
texts as data, lists of nodes as contents, and null only where a slot may be empty.  Nodes of other
kinds may stand anywhere, and any node may stand among the branches of a case.

What is read from the slots of a well-typed node is never a fault.
-/

namespace Hyperscript

/-- Text, or null in its place. -/
inductive Datum.IsOptionalText : Datum → Prop where
  | null : IsOptionalText .null
  | str (s : String) : IsOptionalText (.str s)

theorem Datum.IsOptionalText.written {α : Type} {d : Datum} (h : d.IsOptionalText)
    (form : Datum → α) : d.written form = .ok (form d) := by
  cases h <;> rfl

/-- The slots of an attribute: its value is a boolean or text. -/
structure Attribute.WellTyped (a : Attribute) : Prop where
  name : ∃ s, a.name = .str s
  value : (∃ b, a.value = .bool b) ∨ ∃ s, a.value = .str s
  dynamic : ∃ b, a.dynamic = .bool b
  escaped : ∃ b, a.escaped = .bool b

/-- A list of attributes, and a list of texts to be merged over it. -/
inductive Attributes.WellTyped : Attributes → Prop where
  | mk (attributes : List Attribute) (blocks : List String) (h : ∀ a ∈ attributes, a.WellTyped) :
      WellTyped ⟨.list (attributes.map .attr), .list (blocks.map .str)⟩

mutual

/-- A node with a value of the declared kind in every slot, and so for the nodes below it. -/
inductive Node.WellTyped : Node → Prop where
  | tag {name attributes items} : attributes.WellTyped → WellTypedNodes items →
      Node.WellTyped (.tag (.str name) attributes (.list items))
  | text {value} : Node.WellTyped (.text (.str value))
  | code {value buffer children} : children.WellTypedBlock →
      Node.WellTyped (.code (.str value) (.bool buffer) children)
  | comment {value buffer} : Node.WellTyped (.comment (.str value) (.bool buffer))
  | conditional {test items alternate} : WellTypedNodes items → alternate.WellTypedAlternate →
      Node.WellTyped (.conditional (.str test) (.list items) alternate)
  | branch {expr children} : expr.IsOptionalText → children.WellTypedBlock →
      Node.WellTyped (.branch expr children)
  | switch {expr items} : WellTypedNodes items → Node.WellTyped (.switch (.str expr) (.list items))
  | each {obj val key items alternate} : key.IsOptionalText → WellTypedNodes items →
      alternate.WellTypedBlock →
      Node.WellTyped (.each (.str obj) (.str val) key (.list items) alternate)
  | loop {test items} : WellTypedNodes items → Node.WellTyped (.loop (.str test) (.list items))
  | mixin {name rest items} (params : List String) : rest.IsOptionalText → WellTypedNodes items →
      Node.WellTyped (.mixin (.str name) (.list (params.map .str)) rest (.list items))
  | call {name args attributes children} : attributes.WellTyped → children.WellTypedBlock →
      Node.WellTyped (.call (.str name) (.str args) attributes children)
  | placeholder : Node.WellTyped .placeholder
  | other {kind} : Node.WellTyped (.other kind)

/-- A list of well-typed nodes. -/
inductive WellTypedNodes : List Content → Prop where
  | nil : WellTypedNodes []
  | cons {n rest} : n.WellTyped → WellTypedNodes rest → WellTypedNodes (.node n :: rest)

/-- A list of well-typed nodes, or null in its place. -/
inductive Content.WellTypedBlock : Content → Prop where
  | null : Content.WellTypedBlock (.datum .null)
  | list {items} : WellTypedNodes items → Content.WellTypedBlock (.list items)

/-- The alternate of a conditional: nothing, a list of nodes, or the next conditional. -/
inductive Content.WellTypedAlternate : Content → Prop where
  | null : Content.WellTypedAlternate (.datum .null)
  | list {items} : WellTypedNodes items → Content.WellTypedAlternate (.list items)
  | conditional {test items alternate} : WellTypedNodes items → alternate.WellTypedAlternate →
      Content.WellTypedAlternate (.node (.conditional (.str test) (.list items) alternate))

end

theorem WellTypedNodes.append {xs ys : List Content} (hx : WellTypedNodes xs)
    (hy : WellTypedNodes ys) : WellTypedNodes (xs ++ ys) := by
  induction xs with
  | nil => exact hy
  | cons x xs ih =>
    cases hx with
    | cons hn hrest => exact .cons hn (ih hrest)

/-! ## Slots of well-typed nodes -/

theorem tagCode_str (options : Options) (name : String) :
    ∃ code, tagCode options (.str name) = .ok code := by
  unfold tagCode
  by_cases hc : options.capitalConstructors.isTrue = true
  · by_cases hn : isConstructorName name = true
    · exact ⟨name ++ ".tagName", by simp [hc, hn, Datum.searchable, bind, Except.bind, pure,
        Except.pure]⟩
    · exact ⟨_, by simp [hc, hn, Datum.searchable, bind, Except.bind]; rfl⟩
  · exact ⟨_, by simp [hc]; rfl⟩

theorem Attribute.WellTyped.property {a : Attribute} (h : a.WellTyped) (options : Options) :
    ∃ p, a.property options = .ok p := by
  obtain ⟨s, hs⟩ := h.name
  have hvalue : ∃ code, a.valueCode = .ok code := by
    unfold Attribute.valueCode
    rcases h.value with ⟨b, hb⟩ | ⟨v, hv⟩
    · exact ⟨_, by rw [hb]⟩
    · exact ⟨_, by rw [hv]⟩
  obtain ⟨value, hvalue⟩ := hvalue
  exact ⟨_, (Attribute.property_eq_ok_iff hs).2 ⟨value, hvalue, rfl⟩⟩

/-- Going through a list without a fault gives no fault at the end. -/
theorem mapM_ok_of_forall {α β : Type} {f : α → Except Fault β} {l : List α}
    (h : ∀ a ∈ l, ∃ b, f a = .ok b) : ∃ bs, l.mapM f = .ok bs := by
  induction l with
  | nil => exact ⟨[], rfl⟩
  | cons a l ih =>
    obtain ⟨b, hb⟩ := h a (List.mem_cons_self ..)
    obtain ⟨bs, hbs⟩ := ih fun c hc => h c (List.mem_cons_of_mem a hc)
    exact ⟨b :: bs, by rw [List.mapM_cons, hb, hbs]; rfl⟩

theorem Attributes.WellTyped.code? {a : Attributes} (h : a.WellTyped) (options : Options) :
    ∃ code, a.code? options = .ok code := by
  obtain ⟨attributes, blocks, h⟩ := h
  obtain ⟨properties, hp⟩ := mapM_ok_of_forall (f := fun e : AttributeEntry => e.property options)
    (l := attributes.map .attr) (by
      intro e he
      obtain ⟨a, ha, rfl⟩ := List.mem_map.1 he
      exact (h a ha).property options)
  have hobject :
      ∃ object, (AttributeSlot.list (attributes.map .attr)).object options = .ok object :=
    ⟨_, by unfold AttributeSlot.object AttributeSlot.items; simp only [bind, Except.bind, hp]; rfl⟩
  obtain ⟨object, hobject⟩ := hobject
  unfold Attributes.code?
  simp only [hobject, Attributes.mapM_blockCode_str, bind, Except.bind, Datum.items]
  split
  · exact ⟨_, rfl⟩
  · split <;> exact ⟨_, rfl⟩

theorem joinTexts_str (position : Nat) (params : List String) :
    Mixin.joinTexts position (params.map .str) = .ok params := by
  induction params generalizing position with
  | nil => rfl
  | cons s params ih => rw [List.map_cons, Mixin.joinTexts, ih]; rfl

theorem paramList_str (params : List String) :
    Mixin.paramList (.list (params.map .str)) = .ok (", ".intercalate params, params.length) := by
  simp only [Mixin.paramList, Datum.items, joinTexts_str, bind, Except.bind, pure, Except.pure,
    List.length_map]

end Hyperscript
