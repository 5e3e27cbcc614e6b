import Hyperscript.Node.Save
import Hyperscript.Proofs.Loading
import Hyperscript.Proofs.Text.Slots
import Hyperscript.Proofs.Tree.WellTyped

/-!
# Loading undoes saving

A tree is saved as a document and loaded from it again without a difference, provided that the
texts in its slots mean the same in a document: a static attribute value can be put into quotes, an
expression is not mistaken for a literal, the parameters of a mixin can be told apart where they are
listed, and no branch is for an expression that is spelled like the default.

Every kind of node has a lemma on what its loading needs from the fields of a mapping, whatever
their order and whatever else the mapping holds.  Saving provides just that.
-/

namespace Hyperscript

/-! ## Saved mappings -/

namespace Save

/-- The entries of a saved mapping. -/
def entries (fields : List (String × Datum)) : Load.Entries :=
  fields.map fun (key, value) => (.str key, value)

theorem mapping_eq (fields : List (String × Datum)) : mapping fields = .map (entries fields) :=
  rfl

theorem typed_eq (type : String) (fields : List (String × Datum)) :
    typed type fields = .map (entries (("type", .str type) :: fields)) :=
  rfl

/-- A field that is left out reads as null. -/
theorem optional_unlessNull (key : String) (value : Datum) :
    Load.optional key (entries (unlessNull key value)) = value := by
  cases value with
  | null => rfl
  | _ => simp [Load.optional, unlessNull, entries, Datum.isNull, Datum.lookup]

theorem optional_unlessNull_of_ne {key k : String} (h : k ≠ key) (value : Datum) :
    Load.optional key (entries (unlessNull k value)) = .null := by
  cases value with
  | null => rfl
  | _ => simp [Load.optional, unlessNull, entries, Datum.isNull, Datum.lookup, h]

end Save

/-! ## Attributes -/

/-- An attribute whose value is not taken for another one in a document. -/
inductive Attribute.Savable : Attribute → Prop where
  | flag (name : String) (value escaped : Bool) :
      Savable ⟨.str name, .bool value, .bool false, .bool escaped⟩
  | static (name text : String) (escaped : Bool) : '\\' ∉ text.toList →
      ¬('\x27' ∈ text.toList ∧ '\x22' ∈ text.toList) →
      Savable ⟨.str name, .str text, .bool false, .bool escaped⟩
  | dynamic (name expr : String) (escaped : Bool) :
      (∀ inner, ¬Load.IsLiteral expr.toList inner) →
      Savable ⟨.str name, .str expr, .bool true, .bool escaped⟩

/-- A list of such attributes, and a list of texts to be merged over it. -/
inductive Attributes.Savable : Attributes → Prop where
  | mk (attributes : List Attribute) (blocks : List String) : (∀ a ∈ attributes, a.Savable) →
      Savable ⟨.list (attributes.map .attr), .list (blocks.map .str)⟩

/-- A text is quoted in a quote that it does not hold. -/
theorem Save.isLiteral_quoted {text : String} (hbackslash : '\\' ∉ text.toList)
    (hquotes : ¬('\x27' ∈ text.toList ∧ '\x22' ∈ text.toList)) :
    Load.IsLiteral (quoted text).toList text.toList := by
  unfold quoted
  by_cases h : '\x27' ∈ text.toList
  · refine ⟨'\x22', .inr rfl, ?_, fun hquote => hquotes ⟨h, hquote⟩, hbackslash⟩
    simp only [List.contains_eq_mem, h, decide_true, if_true, String.toList_ofList]
  · refine ⟨'\x27', .inl rfl, ?_, h, hbackslash⟩
    simp only [List.contains_eq_mem, h, decide_false, Bool.false_eq_true, if_false,
      String.toList_ofList]

namespace Load

variable {entries : Entries}

theorem required_of_lookup {key : String} {value : Datum}
    (h : Datum.lookup key entries = some value) : required key entries = .ok value := by
  rw [required, h]

theorem attr_str {name : Datum} {value : String}
    (hname : Datum.lookup "name" entries = some name)
    (hvalue : Datum.lookup "val" entries = some (.str value)) :
    attr (.map entries) =
      match staticLiteral? value.toList with
      | some literal => .ok ⟨name, .str (String.ofList literal), .bool false,
          switch "mustEscape" true entries⟩
      | none => .ok ⟨name, .str value, .bool true, switch "mustEscape" true entries⟩ := by
  rw [attr, required_of_lookup hname, hvalue]
  rfl

end Load

theorem Attribute.Savable.load_save {a : Attribute} (h : a.Savable) :
    Load.attr (Save.attr a) = .ok a := by
  cases h with
  | flag => rfl
  | static name text escaped hbackslash hquotes =>
    have hliteral := Load.staticLiteral?_eq_some_iff.2 (Save.isLiteral_quoted hbackslash hquotes)
    rw [Save.attr, Save.mapping_eq, Load.attr_str rfl rfl, hliteral]
    dsimp only
    rw [String.ofList_toList]
    rfl
  | dynamic name expr escaped hexpr =>
    have hliteral := Load.staticLiteral?_eq_none_iff.2 hexpr
    rw [Save.attr, Save.mapping_eq, Load.attr_str rfl rfl, hliteral]
    rfl

namespace Load

theorem mapM_map {α β : Type} {f : β → Except Fault α} {g : α → β} {l : List α}
    (h : ∀ a ∈ l, f (g a) = .ok a) : (l.map g).mapM f = .ok l := by
  induction l with
  | nil => rfl
  | cons a l ih =>
    obtain ⟨ha, hl⟩ := List.forall_mem_cons.1 h
    rw [List.map_cons, List.mapM_cons, ha, ih hl]
    rfl

variable {entries : Entries}

theorem itemsAt_of_list {key : String} {items : List Datum}
    (h : optional key entries = .list items) : itemsAt key entries = .ok items := by
  unfold itemsAt
  rw [h]
  cases items <;> rfl

variable {a : Attributes}

theorem attributes_of_savable (ha : a.Savable)
    (h : optional "attrs" entries = Save.attributeSlot a.entries) :
    attributes entries = .ok a.entries := by
  obtain ⟨attributes, blocks, hall⟩ := ha
  have hitems : itemsAt "attrs" entries = .ok (attributes.map Save.attr) := by
    refine itemsAt_of_list (h.trans ?_)
    simp only [Save.attributeSlot, List.map_map]
    rfl
  unfold Load.attributes
  rw [hitems]
  show (attributes.map Save.attr).mapM attr >>= _ = _
  rw [mapM_map fun a ha => (hall a ha).load_save]
  rfl

theorem attributeBlocks_of_savable (ha : a.Savable)
    (h : optional "attributeBlocks" entries = Save.attributeBlocks a.blocks) :
    attributeBlocks entries = .ok a.blocks := by
  obtain ⟨attributes, blocks, -⟩ := ha
  have hblock : ∀ block ∈ blocks.map Datum.str,
      attributeBlock (Save.mapping [("val", block)]) = .ok block := fun block _ => rfl
  unfold attributeBlocks
  rw [itemsAt_of_list h]
  show ((blocks.map Datum.str).map _).mapM attributeBlock >>= _ = _
  rw [mapM_map hblock]
  rfl

end Load

/-! ## Trees -/

mutual

/-- A node whose slots can be saved, and so for the nodes below it.  Branches stand in cases, and
nothing else does. -/
inductive Node.Savable : Node → Prop where
  | tag {name attributes items} : attributes.Savable → SavableNodes items →
      Node.Savable (.tag (.str name) attributes (.list items))
  | text {value} : Node.Savable (.text (.str value))
  | code {value buffer children} : children.SavableBlock →
      Node.Savable (.code (.str value) (.bool buffer) children)
  | comment {value buffer} : Node.Savable (.comment (.str value) (.bool buffer))
  | conditional {test items alternate} : SavableNodes items → alternate.SavableAlternate →
      Node.Savable (.conditional (.str test) (.list items) alternate)
  | switch {expr items} : SavableBranches items → Node.Savable (.switch (.str expr) (.list items))
  | each {obj val key items alternate} : key.IsOptionalText → SavableNodes items →
      alternate.SavableBlock →
      Node.Savable (.each (.str obj) (.str val) key (.list items) alternate)
  | loop {test items} : SavableNodes items → Node.Savable (.loop (.str test) (.list items))
  | mixin {name items} (params : Mixin.Params) : params.Normal → SavableNodes items →
      Node.Savable (.mixin (.str name) (.list (params.names.map .str))
        ((params.rest.map Datum.str).getD .null) (.list items))
  | call {name args attributes children} : attributes.Savable → children.SavableBlock →
      Node.Savable (.call (.str name) (.str args) attributes children)
  | placeholder : Node.Savable .placeholder

/-- A list of savable nodes. -/
inductive SavableNodes : List Content → Prop where
  | nil : SavableNodes []
  | cons {n rest} : n.Savable → SavableNodes rest → SavableNodes (.node n :: rest)

/-- A list of branches, none of them for the word that stands for the default. -/
inductive SavableBranches : List Content → Prop where
  | nil : SavableBranches []
  | cons {expr children rest} : expr.IsOptionalText → expr ≠ .str "default" →
      children.SavableBlock → SavableBranches rest →
      SavableBranches (.node (.branch expr children) :: rest)

/-- A list of savable nodes, or null in its place. -/
inductive Content.SavableBlock : Content → Prop where
  | null : Content.SavableBlock (.datum .null)
  | list {items} : SavableNodes items → Content.SavableBlock (.list items)

/-- The alternate of a conditional: nothing, a list of nodes, or the next conditional. -/
inductive Content.SavableAlternate : Content → Prop where
  | null : Content.SavableAlternate (.datum .null)
  | list {items} : SavableNodes items → Content.SavableAlternate (.list items)
  | conditional {test items alternate} : SavableNodes items → alternate.SavableAlternate →
      Content.SavableAlternate (.node (.conditional (.str test) (.list items) alternate))

end

/-! ## What loading needs -/

namespace Load

variable {entries : Entries} {a : Attributes} {items : List Content} {children : Content}
  {block alternate : Datum}

theorem optionalBlock_map (h : Load.block (.map entries) = .ok items) :
    optionalBlock (.map entries) = .ok (.list items) := by
  rw [optionalBlock, h]
  rfl

theorem node_tag {name : Datum} (htype : optional "type" entries = .str "Tag")
    (hname : Datum.lookup "name" entries = some name)
    (hslot : attributes entries = .ok a.entries)
    (hblocks : attributeBlocks entries = .ok a.blocks)
    (hblock : optional "block" entries = block) (hc : Load.block block = .ok items) :
    node (.map entries) = .ok (.tag name a (.list items)) := by
  rw [node, htype, required_of_lookup hname, hslot, blockAt_eq, hblock, hc, hblocks]
  rfl

theorem node_code {value : Datum} {buffer : Bool} (htype : optional "type" entries = .str "Code")
    (hvalue : Datum.lookup "val" entries = some value)
    (hbuffer : switch "buffer" false entries = .bool buffer)
    (hblock : optional "block" entries = block) (hc : optionalBlock block = .ok children) :
    node (.map entries) = .ok (.code value (.bool buffer) children) := by
  rw [node, htype, required_of_lookup hvalue, hbuffer, optionalBlockAt_eq "block", hblock, hc]
  rfl

theorem conditional_eq {test consequent : Datum} (htest : Datum.lookup "test" entries = some test)
    (hconsequent : optional "consequent" entries = consequent)
    (hc : Load.block consequent = .ok items)
    (halternate : optional "alternate" entries = alternate)
    (ha : Load.alternate alternate = .ok children) :
    conditional entries (alternateOf entries) (blockAt "consequent" entries) =
      .ok (.conditional test (.list items) children) := by
  rw [conditional, alternateOf_eq, halternate, ha, required_of_lookup htest, blockAt_eq,
    hconsequent, hc]
  rfl

theorem alternate_block (htype : optional "type" entries = .str "Block")
    (h : nodesOf entries = .ok items) : Load.alternate (.map entries) = .ok (.list items) := by
  rw [Load.alternate, htype, h]
  rfl

theorem alternate_conditional {n : Node} (htype : optional "type" entries = .str "Conditional")
    (h : conditional entries (alternateOf entries) (blockAt "consequent" entries) = .ok n) :
    Load.alternate (.map entries) = .ok (.node n) := by
  rw [Load.alternate, htype, h]
  rfl

theorem node_switch {expr : Datum} (htype : optional "type" entries = .str "Case")
    (hexpr : Datum.lookup "expr" entries = some expr)
    (hblock : optional "block" entries = block) (hc : branchesIn block = .ok items) :
    node (.map entries) = .ok (.switch expr (.list items)) := by
  rw [node, htype, branchesAt_eq, hblock, hc, required_of_lookup hexpr]
  rfl

theorem node_each {obj val key : Datum} (htype : optional "type" entries = .str "Each")
    (hobj : Datum.lookup "obj" entries = some obj) (hval : Datum.lookup "val" entries = some val)
    (hkey : optional "key" entries = key)
    (hblock : optional "block" entries = block) (hc : Load.block block = .ok items)
    (halternate : optional "alternate" entries = alternate)
    (ha : optionalBlock alternate = .ok children) :
    node (.map entries) = .ok (.each obj val key (.list items) children) := by
  rw [node, htype, required_of_lookup hobj, required_of_lookup hval, hkey, blockAt_eq "block",
    hblock, hc, optionalBlockAt_eq "alternate", halternate, ha]
  rfl

theorem node_loop {test : Datum} (htype : optional "type" entries = .str "While")
    (htest : Datum.lookup "test" entries = some test)
    (hblock : optional "block" entries = block) (hc : Load.block block = .ok items) :
    node (.map entries) = .ok (.loop test (.list items)) := by
  rw [node, htype, required_of_lookup htest, blockAt_eq "block", hblock, hc]
  rfl

theorem node_mixin {name args : Datum} {params : Mixin.Params}
    (htype : optional "type" entries = .str "Mixin")
    (hcall : optional "call" entries = .bool false)
    (hname : Datum.lookup "name" entries = some name) (hargs : optional "args" entries = args)
    (hparams : Mixin.paramsOfDatum args = .ok params)
    (hblock : optional "block" entries = block) (hc : Load.block block = .ok items) :
    node (.map entries) = .ok (.mixin name (.list (params.names.map .str))
      ((params.rest.map Datum.str).getD .null) (.list items)) := by
  rw [node, htype, hcall, hargs, hparams, required_of_lookup hname, blockAt_eq "block", hblock, hc]
  rfl

theorem node_call {name : Datum} {args : String} (htype : optional "type" entries = .str "Mixin")
    (hcall : optional "call" entries = .bool true)
    (hname : Datum.lookup "name" entries = some name)
    (hargs : optional "args" entries = .str args)
    (hslot : attributes entries = .ok a.entries)
    (hblocks : attributeBlocks entries = .ok a.blocks)
    (hblock : optional "block" entries = block) (hc : optionalBlock block = .ok children) :
    node (.map entries) = .ok (.call name (.str args) a children) := by
  have hempty : (if (Datum.str args).isTrue then Datum.str args else .str "") = .str args := by
    by_cases h : args = ""
    · subst h
      rfl
    · exact if_pos (by simpa [Datum.isTrue] using h)
  rw [node, htype, hcall, required_of_lookup hname, hargs, hslot, hblocks,
    optionalBlockAt_eq "block", hblock, hc]
  exact congrArg (fun args => Except.ok (Node.call name args a children)) hempty

theorem branch_eq {expr saved : Datum} (htype : optional "type" entries = .str "When")
    (hsaved : Datum.lookup "expr" entries = some saved) (hexpr : branchExpr saved = expr)
    (hblock : optional "block" entries = block) (hc : optionalBlock block = .ok children) :
    branch (.map entries) = .ok (.branch expr children) := by
  rw [branch, checkBranch, htype, required_of_lookup hsaved, optionalBlockAt_eq, hblock, hc,
    ← hexpr]
  rfl

end Load

/-! ## Round trips -/

theorem Mixin.paramsOfDatum_str (s : String) :
    paramsOfDatum (.str s) = .ok (parseParams s.toList) := by
  by_cases h : s = ""
  · subst h
    rfl
  · exact if_pos (by simpa [Datum.isTrue] using h)

theorem Mixin.Params.Normal.load_save {params : Params} (h : params.Normal) :
    paramsOfDatum (Save.params (.list (params.names.map .str))
      ((params.rest.map Datum.str).getD .null)) = .ok params := by
  have hpieces : Save.params (.list (params.names.map .str))
      ((params.rest.map Datum.str).getD .null) = .str (", ".intercalate params.pieces) := by
    have hspell : (params.names.map Datum.str).map Datum.spell = params.names := by
      rw [List.map_map]
      exact List.map_id _
    unfold Save.params Params.pieces
    dsimp only
    rw [hspell]
    cases params.rest <;> rfl
  rw [hpieces, paramsOfDatum_str, h.parseParams]

theorem Save.branchExpr_branchExpr {expr : Datum} (h : expr.IsOptionalText)
    (hdefault : expr ≠ .str "default") : Load.branchExpr (Save.branchExpr expr) = expr := by
  cases h with
  | null => rfl
  | str s =>
    show Load.branchExpr (.str s) = .str s
    unfold Load.branchExpr
    split
    next heq => exact absurd heq hdefault
    next => rfl

open Save in
mutual

/-- By induction over the tree: saving hands each kind of node the fields that its loading needs. -/
theorem Node.Savable.load_save : ∀ {n : Node}, n.Savable → Load.node (Save.node n) = .ok n
  | _, .tag ha hc => by
    rw [Save.node, typed_eq]
    exact Load.node_tag rfl rfl (Load.attributes_of_savable ha rfl)
      (Load.attributeBlocks_of_savable ha rfl) (optional_unlessNull "block" _) hc.load_save
  | _, .text | _, .comment | _, .placeholder => rfl
  | _, .code h => by
    rw [Save.node, typed_eq]
    exact Load.node_code rfl rfl rfl (optional_unlessNull "block" _) h.load_save
  | _, .conditional hc ha => by
    rw [Save.node, typed_eq, Load.node]
    exact Load.conditional_eq rfl rfl hc.load_save (optional_unlessNull "alternate" _)
      ha.load_save
  | _, .switch hc => by
    rw [Save.node, typed_eq]
    exact Load.node_switch rfl rfl rfl hc.load_save
  | _, .each hk hc ha => by
    rw [Save.node, typed_eq]
    cases hk with
    | null =>
      -- no field before the alternate is read as the key
      exact Load.node_each rfl rfl rfl (optional_unlessNull_of_ne (by decide) _) rfl hc.load_save
        (optional_unlessNull "alternate" _) ha.load_save
    | str =>
      exact Load.node_each rfl rfl rfl rfl rfl hc.load_save (optional_unlessNull "alternate" _)
        ha.load_save
  | _, .loop hc => by
    rw [Save.node, typed_eq]
    exact Load.node_loop rfl rfl rfl hc.load_save
  | _, .mixin params hp hc => by
    rw [Save.node, typed_eq]
    exact Load.node_mixin rfl rfl rfl rfl hp.load_save rfl hc.load_save
  | _, .call ha h => by
    rw [Save.node, typed_eq]
    exact Load.node_call rfl rfl rfl rfl (Load.attributes_of_savable ha rfl)
      (Load.attributeBlocks_of_savable ha rfl) (optional_unlessNull "block" _) h.load_save

theorem SavableNodes.load_save : ∀ {items : List Content}, SavableNodes items →
    Load.nodes (contents items) = .ok items
  | _, .nil => rfl
  | _, .cons hn hrest => by
    rw [contents, content, Load.nodes, hn.load_save, hrest.load_save]
    rfl

theorem SavableBranches.load_save : ∀ {items : List Content}, SavableBranches items →
    Load.branches (contents items) = .ok items
  | _, .nil => rfl
  | _, @SavableBranches.cons expr children rest he hd h hrest => by
    have hbranch : Load.branch (Save.node (.branch expr children)) =
        .ok (.branch expr children) := by
      rw [Save.node, typed_eq]
      exact Load.branch_eq rfl rfl (branchExpr_branchExpr he hd) (optional_unlessNull "block" _)
        h.load_save
    rw [contents, content, Load.branches, hbranch, hrest.load_save]
    rfl

theorem Content.SavableBlock.load_save : ∀ {c : Content}, c.SavableBlock →
    Load.optionalBlock (content c) = .ok c
  | _, .null => rfl
  | _, .list h => Load.optionalBlock_map h.load_save

theorem Content.SavableAlternate.load_save : ∀ {c : Content}, c.SavableAlternate →
    Load.alternate (content c) = .ok c
  | _, .null => rfl
  | _, .list h => Load.alternate_block rfl h.load_save
  | _, .conditional hc ha => by
    rw [content, Save.node, typed_eq]
    exact Load.alternate_conditional rfl (Load.conditional_eq rfl rfl hc.load_save
      (optional_unlessNull "alternate" _) ha.load_save)

end

/-- Loading a document that was saved from a tree gives the tree back. -/
theorem load_save_tree {nodes : List Content} (h : SavableNodes nodes) :
    Load.tree (Save.tree nodes) = .ok nodes :=
  h.load_save

/-- A template with a value that needs the other quote, an expression that starts and ends like a
literal, a default branch, an `else if` and a mixin that takes further arguments. -/
def storedTemplate : List Content :=
  [.node (.mixin (.str "item") (.list [.str "label"]) (.str "extra") (.list [.node .placeholder])),
    .node (.tag (.str "ul")
      ⟨.list [.attr ⟨.str "title", .str "it's", .bool false, .bool true⟩,
          .attr ⟨.str "id", .str "'a' + 'b'", .bool true, .bool false⟩,
          .attr ⟨.str "hidden", .bool true, .bool false, .bool true⟩],
        .list [.str "attributes"]⟩
      (.list [
        .node (.switch (.str "n") (.list [.node (.branch (.str "1") (.list [])),
          .node (.branch .null (.datum .null))])),
        .node (.conditional (.str "a") (.list [])
          (.node (.conditional (.str "b") (.list []) (.list [.node (.text (.str "c"))])))),
        .node (.each (.str "xs") (.str "x") .null (.list []) (.list [])),
        .node (.call (.str "item") (.str "") ⟨.list [], .list []⟩ (.datum .null))]))]

theorem storedTemplate_savable : SavableNodes storedTemplate := by
  have hlabel : Text.Trimmed "label".toList :=
    ⟨fun c hc => by cases hc; rfl, fun c hc => by cases hc; rfl⟩
  have hextra : Text.Trimmed "extra".toList :=
    ⟨fun c hc => by cases hc; rfl, fun c hc => by cases hc; rfl⟩
  have hparams : Mixin.Params.Normal ⟨["label"], some "extra"⟩ := by
    refine ⟨List.forall_mem_singleton.2 ⟨by decide, by decide, hlabel⟩, ?_, nofun⟩
    intro rest hrest
    cases hrest
    exact ⟨by decide, hextra⟩
  have hexpr : ∀ inner, ¬Load.IsLiteral "'a' + 'b'".toList inner :=
    Load.staticLiteral?_eq_none_iff.1 rfl
  have hattributes : Attributes.Savable
      ⟨.list [.attr ⟨.str "title", .str "it's", .bool false, .bool true⟩,
          .attr ⟨.str "id", .str "'a' + 'b'", .bool true, .bool false⟩,
          .attr ⟨.str "hidden", .bool true, .bool false, .bool true⟩],
        .list [.str "attributes"]⟩ := by
    refine .mk [_, _, _] ["attributes"] (List.forall_mem_cons.2 ⟨?_, List.forall_mem_cons.2
      ⟨.dynamic _ _ _ hexpr, List.forall_mem_singleton.2 (.flag ..)⟩⟩)
    exact .static _ _ _ (by decide) (by decide)
  refine .cons (.mixin _ hparams (.cons .placeholder .nil)) (.cons (.tag hattributes ?_) .nil)
  refine .cons (.switch ?_) (.cons (.conditional .nil (.conditional .nil ?_))
    (.cons ?_ (.cons ?_ .nil)))
  · have hdefault : Datum.str "1" ≠ .str "default" := fun h => absurd (Datum.str.inj h) (by decide)
    exact .cons (.str "1") hdefault (.list .nil) (.cons .null nofun .null .nil)
  · exact .list (.cons .text .nil)
  · exact .each .null .nil (.list .nil)
  · exact .call (.mk [] [] nofun) .null

theorem load_save_storedTemplate :
    SavableNodes storedTemplate ∧ Load.tree (Save.tree storedTemplate) = .ok storedTemplate :=
  ⟨storedTemplate_savable, load_save_tree storedTemplate_savable⟩

end Hyperscript
