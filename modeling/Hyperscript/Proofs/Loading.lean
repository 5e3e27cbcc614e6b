import Hyperscript.Node.Load
import Hyperscript.Proofs.Tree.Shape

/-!
# Trees from documents

Whatever a document holds, a tree that is loaded from it is shaped, and if it cannot be loaded the
fault is one of `Fault.OfDocument`.  What a document promises about its texts the tree keeps: from a
regular document comes a tree whose names, arguments and code are texts, and no fault that asks for
a text or for a mapping.

Loading goes from a mapping to the data in its fields, which are smaller, so the proofs are by
induction on the size of the datum.
-/

namespace Hyperscript

/-! ## Fields of a mapping -/

namespace Load

section Fields

variable {α : Type} (key : String)

/-- A function that goes through a mapping up to one field, and reads null where there is none,
reads what the field holds. -/
theorem eq_optional {f : Entries → α} {g : Datum → α} (hnil : f [] = g .null)
    (hself : ∀ value rest, f ((.str key, value) :: rest) = g value)
    (hother : ∀ k value rest, k ≠ .str key → f ((k, value) :: rest) = f rest)
    (entries : Entries) : f entries = g (optional key entries) := by
  induction entries with
  | nil => exact hnil
  | cons entry rest ih =>
    obtain ⟨k, value⟩ := entry
    by_cases hk : k = .str key
    · subst hk
      rw [hself, optional, Datum.lookup, if_pos rfl, Option.getD_some]
    · have hlookup : Datum.lookup key ((k, value) :: rest) = Datum.lookup key rest := by
        cases k with
        | str k => rw [Datum.lookup, if_neg fun h => hk (by rw [h])]
        | _ => rfl
      rw [hother k value rest hk, ih, optional, optional, hlookup]

theorem blockAt_eq (entries : Entries) : blockAt key entries = block (optional key entries) :=
  eq_optional key rfl (fun value rest => by rw [blockAt, if_pos rfl])
    (fun k value rest hk => by
      cases k with
      | str k => rw [blockAt, if_neg fun h => hk (by rw [h])]
      | _ => rfl) entries

/-- The nodes of a block, or null if there is none. -/
def optionalBlock (value : Datum) : Except Fault Content :=
  if value.isNull then .ok (.datum .null) else do return .list (← block value)

theorem optionalBlockAt_eq (entries : Entries) :
    optionalBlockAt key entries = optionalBlock (optional key entries) :=
  eq_optional key rfl (fun value rest => by rw [optionalBlockAt, if_pos rfl]; rfl)
    (fun k value rest hk => by
      cases k with
      | str k => rw [optionalBlockAt, if_neg fun h => hk (by rw [h])]
      | _ => rfl) entries

theorem alternateOf_eq (entries : Entries) :
    alternateOf entries = alternate (optional "alternate" entries) :=
  eq_optional "alternate" rfl (fun _ _ => rfl)
    (fun k value rest hk => by rw [alternateOf]; exact hk) entries

theorem nodesOf_eq (entries : Entries) : nodesOf entries = nodesIn (optional "nodes" entries) :=
  eq_optional "nodes" rfl (fun _ _ => rfl)
    (fun k value rest hk => by rw [nodesOf]; exact hk) entries

theorem branchesAt_eq (entries : Entries) :
    branchesAt entries = branchesIn (optional "block" entries) :=
  eq_optional "block" rfl (fun _ _ => rfl)
    (fun k value rest hk => by rw [branchesAt]; exact hk) entries

theorem branchesOf_eq (entries : Entries) :
    branchesOf entries = branchList (optional "nodes" entries) :=
  eq_optional "nodes" rfl (fun _ _ => rfl)
    (fun k value rest hk => by rw [branchesOf]; exact hk) entries

theorem mem_of_lookup {entries : Entries} {value : Datum}
    (h : Datum.lookup key entries = some value) : (.str key, value) ∈ entries := by
  fun_induction Datum.lookup key entries with
  | case1 => cases h
  | case2 => cases h; exact List.mem_cons_self ..
  | case3 => exact List.mem_cons_of_mem _ (by simp_all)
  | case4 => exact List.mem_cons_of_mem _ (by simp_all)

/-- A field of a mapping is null or one of its data. -/
theorem optional_cases (entries : Entries) :
    optional key entries = .null ∨ (.str key, optional key entries) ∈ entries := by
  unfold optional
  cases h : Datum.lookup key entries with
  | none => exact .inl rfl
  | some value => exact .inr (mem_of_lookup key h)

theorem sizeOf_optional (entries : Entries) :
    sizeOf (optional key entries) < sizeOf (Datum.map entries) := by
  rw [Datum.map.sizeOf_spec]
  rcases optional_cases key entries with h | h
  · have hpos : 0 < sizeOf entries := by
      cases entries with
      | nil => rw [List.nil.sizeOf_spec]; omega
      | cons => rw [List.cons.sizeOf_spec]; omega
    rw [h, Datum.null.sizeOf_spec]
    omega
  · have hmem := List.sizeOf_lt_of_mem h
    rw [Prod.mk.sizeOf_spec] at hmem
    omega

end Fields

end Load

/-! ## Regular documents -/

namespace Load

/-- Whatever counts as true in place of a list of branches is a list of mappings. -/
def ListsMappings (nodes : Datum) : Prop :=
  nodes.isTrue = true → ∃ items, nodes = .list items ∧ ∀ d ∈ items, ∃ entries, d = .map entries

/-- Whatever counts as true in place of the block of a case is a mapping that lists mappings. -/
def HoldsBranches (block : Datum) : Prop :=
  block.isTrue = true → ∃ entries, block = .map entries ∧ ListsMappings (optional "nodes" entries)

/-- The fields of a mapping hold what is used without a check: a name and code are text, so are
arguments that count as true, and a case has its branches in a block. -/
structure RegularFields (entries : Entries) : Prop where
  name : ∀ value, Datum.lookup "name" entries = some value → value.IsText
  args : (optional "args" entries).isTrue = true → (optional "args" entries).IsText
  code : optional "type" entries = .str "Code" →
    ∀ value, Datum.lookup "val" entries = some value → value.IsText
  branches : optional "type" entries = .str "Case" → HoldsBranches (optional "block" entries)

end Load

/-- The fields of every mapping in a datum are regular, and its integers can be written. -/
inductive Datum.Regular : Datum → Prop where
  | null : Regular .null
  | bool (b : Bool) : Regular (.bool b)
  | int (n : Int) : (Datum.int n).isWritable = true → Regular (.int n)
  | float (x : Float) : Regular (.float x)
  | str (s : String) : Regular (.str s)
  | list {items : List Datum} : (∀ d ∈ items, Regular d) → Regular (.list items)
  | map {entries : List (Datum × Datum)} : Load.RegularFields entries →
      (∀ key value, (key, value) ∈ entries → Regular key) →
      (∀ key value, (key, value) ∈ entries → Regular value) → Regular (.map entries)

theorem Datum.Regular.of_items {d : Datum} (h : d.Regular) {items : List Datum}
    (hitems : d.items = .ok items) : ∀ item ∈ items, item.Regular := by
  cases h with
  | list h =>
    cases hitems
    exact h
  | str s =>
    cases hitems
    intro item hitem
    obtain ⟨c, -, rfl⟩ := List.mem_map.1 hitem
    exact .str _
  | map _ hkeys =>
    cases hitems
    intro item hitem
    obtain ⟨⟨key, value⟩, hmem, rfl⟩ := List.mem_map.1 hitem
    exact hkeys key value hmem
  | _ => cases hitems

theorem Datum.Regular.isWritable {d : Datum} (h : d.Regular) : d.isWritable = true := by
  induction h with
  | null | bool | float | str => rfl
  | int n h => exact h
  | list _ ih => exact areWritable_iff.2 ih
  | map _ _ _ ihkeys ihvalues =>
    exact entriesWritable_iff.2 fun entry hentry =>
      ⟨ihkeys entry.1 entry.2 hentry, ihvalues entry.1 entry.2 hentry⟩

theorem Datum.Regular.of_lookup {entries : List (Datum × Datum)} (h : (Datum.map entries).Regular)
    {key : String} {value : Datum} (hvalue : Datum.lookup key entries = some value) :
    value.Regular := by
  cases h with
  | map _ _ hvalues => exact hvalues _ _ (Load.mem_of_lookup key hvalue)

theorem Datum.Regular.optional {entries : List (Datum × Datum)} (h : (Datum.map entries).Regular)
    (key : String) : (Load.optional key entries).Regular := by
  cases h with
  | map _ _ hvalues =>
    rcases Load.optional_cases key entries with hnull | hmem
    · rw [hnull]
      exact .null
    · exact hvalues _ _ hmem

theorem Datum.Regular.fields {entries : List (Datum × Datum)} (h : (Datum.map entries).Regular) :
    Load.RegularFields entries := by
  cases h with
  | map h => exact h

/-! ## Faults of documents -/

/-- The faults in which loading can end.  A regular document never lacks a text or a mapping, and
has no integer that is too long. -/
inductive Fault.OfDocument (regular : Prop) : Fault → Prop where
  | missingKey (key : String) : OfDocument regular (.missingKey key)
  | expectedNode (kind : String) : OfDocument regular (.expectedNode kind)
  | expectedBlock (kind : String) : OfDocument regular (.expectedBlock kind)
  | expectedTree (kind : String) : OfDocument regular (.expectedTree kind)
  | unsupportedType (type : String) : OfDocument regular (.unsupportedType type)
  | strayBranch (found : String) : OfDocument regular (.strayBranch found)
  | notIterable (kind : String) : OfDocument regular (.notIterable kind)
  | noFields (kind : String) : OfDocument regular (.noFields kind)
  | unhashable (kind : String) : OfDocument regular (.unhashable kind)
  | textNeeded (kind : String) : ¬regular → OfDocument regular (.textNeeded kind)
  | mappingNeeded (kind : String) : ¬regular → OfDocument regular (.mappingNeeded kind)
  | tooManyDigits : ¬regular → OfDocument regular .tooManyDigits

/-- Loading yields what satisfies `P`, or ends in a fault of documents. -/
abbrev Loads (regular : Prop) {α : Type} (P : α → Prop) : Except Fault α → Prop :=
  Meets P (Fault.OfDocument regular)

namespace Load

section Slots

variable {regular : Prop} {entries : Entries}

theorem loads_written {α : Type} (form : Datum → α) {d : Datum} (h : regular → d.Regular) :
    Loads regular (fun _ => True) (d.written form) := by
  unfold Datum.written
  split
  next => trivial
  next hlong => exact Fault.OfDocument.tooManyDigits fun hr => hlong (h hr).isWritable

theorem loads_required (key : String) :
    Loads regular (fun value => Datum.lookup key entries = some value) (required key entries) := by
  unfold required
  cases h : Datum.lookup key entries with
  | none => exact Fault.OfDocument.missingKey key
  | some value => rfl

theorem loads_checkKey (d : Datum) : Loads regular (fun _ => True) d.checkKey := by
  cases d with
  | list | map => exact Fault.OfDocument.unhashable _
  | _ => trivial

theorem loads_items {d : Datum} (h : regular → d.Regular) :
    Loads regular (fun items => ∀ item ∈ items, regular → item.Regular) d.items := by
  cases hitems : d.items with
  | ok items => exact fun item hitem hr => (h hr).of_items hitems item hitem
  | error f =>
    cases d with
    | list | str | map => cases hitems
    | _ =>
      cases hitems
      exact Fault.OfDocument.notIterable _

theorem loads_itemsAt (key : String) (h : regular → (Datum.map entries).Regular) :
    Loads regular (fun items => ∀ item ∈ items, regular → item.Regular) (itemsAt key entries) := by
  unfold itemsAt
  dsimp only
  split
  · exact loads_items fun hr => (h hr).optional key
  · exact fun item hitem => absurd hitem List.not_mem_nil

theorem loads_attr {d : Datum} (h : regular → d.Regular) :
    Loads regular (fun a => a.Shaped regular) (attr d) := by
  cases d with
  | map entries =>
    refine (loads_required "name").bind fun name hname => ?_
    have htext : regular → name.IsText := fun hr => (h hr).fields.name name hname
    split
    · exact ⟨.inl ⟨_, rfl⟩, htext⟩
    · have hvalue : regular → ((Datum.lookup "val" entries).getD (.bool true)).Regular := by
        intro hr
        cases hval : Datum.lookup "val" entries with
        | none => exact .bool true
        | some value => exact (h hr).of_lookup hval
      refine (loads_written _ hvalue).bind fun expr _ => ?_
      split
      · exact ⟨.inr ⟨_, rfl⟩, htext⟩
      · exact ⟨.inr ⟨_, rfl⟩, htext⟩
  | _ => exact Fault.OfDocument.noFields _

theorem loads_attributeBlock {d : Datum} (h : regular → d.Regular) :
    Loads regular (fun block => regular → block.isWritable = true) (attributeBlock d) := by
  rw [attributeBlock.eq_def]
  split
  · exact (loads_required "val").imp (fun _ hval hr => ((h hr).of_lookup hval).isWritable)
      fun _ hf => hf
  · exact (loads_written _ h).bind fun _ _ _ => rfl

theorem loads_attributeBlocks (h : regular → (Datum.map entries).Regular) :
    Loads regular
      (fun blocks => ∃ items, blocks = .list items ∧
        ∀ d ∈ items, regular → d.isWritable = true) (attributeBlocks entries) := by
  refine (loads_itemsAt "attributeBlocks" h).bind fun items hitems => ?_
  refine (meets_mapM fun d hd => loads_attributeBlock (hitems d hd)).bind fun blocks hblocks => ?_
  exact ⟨blocks, rfl, hblocks⟩

theorem loads_attributes (h : regular → (Datum.map entries).Regular) :
    Loads regular
      (fun slot => ∀ items, (∀ d ∈ items, regular → d.isWritable = true) →
        Attributes.Shaped regular ⟨slot, .list items⟩) (attributes entries) := by
  refine (loads_itemsAt "attrs" h).bind fun items hitems => ?_
  refine (meets_mapM fun d hd => loads_attr (hitems d hd)).bind fun attributes ha => ?_
  exact fun blocks hblocks => .mk attributes blocks ha hblocks

theorem loads_paramsOfDatum (h : regular → (optional "args" entries).isTrue = true →
    (optional "args" entries).IsText) :
    Loads regular (fun _ => True) (Mixin.paramsOfDatum (optional "args" entries)) := by
  unfold Mixin.paramsOfDatum
  split
  next htrue =>
    cases htext : (optional "args" entries).text with
    | ok s => trivial
    | error f =>
      generalize optional "args" entries = args at *
      cases args with
      | str s => cases htext
      | _ =>
        cases htext
        refine Fault.OfDocument.textNeeded _ fun hr => ?_
        obtain ⟨s, hs⟩ := h hr htrue
        cases hs
  next => trivial

theorem loads_checkBranch (h : regular → (Datum.map entries).Regular) :
    Loads regular (fun _ => True) (checkBranch entries) := by
  unfold checkBranch
  split
  · trivial
  · exact (loads_written _ fun hr => (h hr).optional "type").bind fun _ _ =>
      Fault.OfDocument.strayBranch _

theorem isWritable_branchExpr {expr : Datum} (h : expr.isWritable = true) :
    (branchExpr expr).isWritable = true := by
  rw [branchExpr.eq_def]
  split
  · rfl
  · exact h

theorem loads_optionalBlock {value : Datum}
    (h : Loads regular (ShapedNodes regular) (block value)) :
    Loads regular (fun c => c.ShapedBlock regular) (optionalBlock value) := by
  unfold optionalBlock
  split
  · exact Content.ShapedBlock.null
  · exact h.bind fun items hitems => Content.ShapedBlock.list hitems

end Slots

/-! ## Loading -/

/-- A branch that has a list of shaped nodes or none. -/
def ShapedBranch (regular : Prop) (n : Node) : Prop :=
  ∃ expr children, n = .branch expr children ∧ (regular → expr.isWritable = true) ∧
    children.ShapedBlock regular

/-- Whatever place a datum stands in, what is loaded from it has the shape for that place. -/
structure LoadsShaped (regular : Prop) (d : Datum) : Prop where
  node : Loads regular (fun n => n.Shaped regular) (Load.node d)
  alternate : Loads regular (fun c => c.ShapedAlternate regular) (Load.alternate d)
  block : Loads regular (ShapedNodes regular) (Load.block d)
  nodesIn : Loads regular (ShapedNodes regular) (Load.nodesIn d)
  branchesIn : (regular → HoldsBranches d) →
    Loads regular (ShapedBranches regular) (Load.branchesIn d)
  branchList : (regular → ListsMappings d) →
    Loads regular (ShapedBranches regular) (Load.branchList d)
  branch : (regular → ∃ entries, d = .map entries) →
    Loads regular (ShapedBranch regular) (Load.branch d)

section Places

variable {regular : Prop} {entries : Entries} {items : List Datum} {d : Datum}

theorem loads_nodesIn_of_ne_list (h : regular → d.Regular) (hd : ∀ items, d ≠ .list items) :
    Loads regular (ShapedNodes regular) (nodesIn d) := by
  rw [nodesIn]
  · split
    · refine (loads_items h).bind fun items _ => ?_
      split
      · exact ShapedNodes.nil
      · exact Fault.OfDocument.expectedNode _
    · exact ShapedNodes.nil
  · exact hd

theorem loads_branchList_of_ne_list (h : regular → d.Regular) (hd : ∀ items, d ≠ .list items)
    (hlists : regular → ListsMappings d) :
    Loads regular (ShapedBranches regular) (branchList d) := by
  rw [branchList]
  · split
    next htrue =>
      refine (loads_items h).bind fun items _ => ?_
      split
      · exact ShapedBranches.nil
      · refine Fault.OfDocument.mappingNeeded _ fun hr => ?_
        obtain ⟨items, hitems, -⟩ := hlists hr htrue
        exact hd items hitems
    next => exact ShapedBranches.nil
  · exact hd

theorem loads_branchesIn_of_ne_map (hd : ∀ entries, d ≠ .map entries)
    (hholds : regular → HoldsBranches d) :
    Loads regular (ShapedBranches regular) (branchesIn d) := by
  rw [branchesIn]
  · split
    next htrue =>
      refine Fault.OfDocument.mappingNeeded _ fun hr => ?_
      obtain ⟨entries, hentries, -⟩ := hholds hr htrue
      exact hd entries hentries
    next => exact ShapedBranches.nil
  · exact hd

theorem loads_branch_of_ne_map (hd : ∀ entries, d ≠ .map entries)
    (hmap : regular → ∃ entries, d = .map entries) :
    Loads regular (ShapedBranch regular) (branch d) := by
  rw [branch]
  · refine Fault.OfDocument.mappingNeeded _ fun hr => ?_
    obtain ⟨entries, hentries⟩ := hmap hr
    exact hd entries hentries
  · exact hd

theorem loads_nodes (ih : ∀ d ∈ items, LoadsShaped regular d) :
    Loads regular (ShapedNodes regular) (nodes items) := by
  induction items with
  | nil => exact ShapedNodes.nil
  | cons d rest ihrest =>
    rw [nodes]
    obtain ⟨hd, hrest⟩ := List.forall_mem_cons.1 ih
    exact hd.node.bind fun n hn => (ihrest hrest).bind fun ns hns => ShapedNodes.cons hn hns

theorem loads_branches (ih : ∀ d ∈ items, LoadsShaped regular d)
    (hmaps : regular → ∀ d ∈ items, ∃ entries, d = .map entries) :
    Loads regular (ShapedBranches regular) (branches items) := by
  induction items with
  | nil => exact ShapedBranches.nil
  | cons d rest ihrest =>
    rw [branches]
    obtain ⟨hd, hrest⟩ := List.forall_mem_cons.1 ih
    refine (hd.branch fun hr => hmaps hr d (List.mem_cons_self ..)).bind fun n hn => ?_
    obtain ⟨expr, children, rfl, hexpr, hchildren⟩ := hn
    refine (ihrest hrest fun hr => (List.forall_mem_cons.1 (hmaps hr)).2).bind fun ns hns => ?_
    exact ShapedBranches.cons hexpr hchildren hns

theorem loads_conditional (h : regular → (Datum.map entries).Regular)
    (ih : ∀ key, LoadsShaped regular (optional key entries)) :
    Loads regular
      (fun n => ∃ test items alternate, n = .conditional test (.list items) alternate ∧
        (regular → test.isWritable = true) ∧ ShapedNodes regular items ∧
        alternate.ShapedAlternate regular)
      (conditional entries (alternateOf entries) (blockAt "consequent" entries)) := by
  rw [alternateOf_eq, blockAt_eq]
  refine (ih "alternate").alternate.bind fun alternate ha => ?_
  refine (loads_required "test").bind fun test htest => ?_
  refine (ih "consequent").block.bind fun items hc => ?_
  exact ⟨test, items, alternate, rfl, fun hr => ((h hr).of_lookup htest).isWritable, hc, ha⟩

theorem loads_node_map (h : regular → (Datum.map entries).Regular)
    (ih : ∀ key, LoadsShaped regular (optional key entries)) :
    Loads regular (fun n => n.Shaped regular) (node (.map entries)) := by
  rw [node]
  have hwritable : ∀ {key value}, Datum.lookup key entries = some value → regular →
      value.isWritable = true := fun hvalue hr => ((h hr).of_lookup hvalue).isWritable
  refine (loads_checkKey _).bind fun _ _ => ?_
  -- one case for each type, in the order in which the loader tells them apart
  split
  · refine (loads_required "name").bind fun name hname => ?_
    refine (loads_attributes h).bind fun slot hslot => ?_
    rw [blockAt_eq]
    refine (ih "block").block.bind fun items hitems => ?_
    refine (loads_attributeBlocks h).bind fun blocks hblocks => ?_
    obtain ⟨blocks, rfl, hblocks⟩ := hblocks
    exact Node.Shaped.tag (hwritable hname) (hslot blocks hblocks) hitems
  · exact Node.Shaped.text
  next htype =>
    refine (loads_required "val").bind fun value hvalue => ?_
    rw [optionalBlockAt_eq]
    refine (loads_optionalBlock (ih "block").block).bind fun children hc => ?_
    exact Node.Shaped.code (fun hr => (h hr).fields.code htype value hvalue) hc
  · exact Node.Shaped.comment
  · exact Node.Shaped.comment
  · refine (loads_conditional h ih).imp (fun n hn => ?_) fun _ hf => hf
    obtain ⟨test, items, alternate, rfl, htest, hc, ha⟩ := hn
    exact Node.Shaped.conditional htest hc ha
  next htype =>
    rw [branchesAt_eq]
    refine ((ih "block").branchesIn fun hr => (h hr).fields.branches htype).bind fun whens hw => ?_
    exact (loads_required "expr").bind fun expr hexpr => Node.Shaped.switch (hwritable hexpr) hw
  · refine (loads_required "obj").bind fun obj hobj => ?_
    refine (loads_required "val").bind fun val hval => ?_
    rw [blockAt_eq, optionalBlockAt_eq]
    refine (ih "block").block.bind fun items hitems => ?_
    refine (loads_optionalBlock (ih "alternate").block).bind fun alternate ha => ?_
    exact Node.Shaped.each (hwritable hobj) (hwritable hval)
      (fun hr => ((h hr).optional "key").isWritable) hitems ha
  · refine (loads_required "test").bind fun test htest => ?_
    rw [blockAt_eq]
    exact (ih "block").block.bind fun items hitems => Node.Shaped.loop (hwritable htest) hitems
  · have hname : ∀ name, Datum.lookup "name" entries = some name → regular → name.IsText :=
      fun name hname hr => (h hr).fields.name name hname
    -- a call, or a declaration
    split
    · refine (loads_required "name").bind fun name hlookup => ?_
      refine (loads_attributes h).bind fun slot hslot => ?_
      refine (loads_attributeBlocks h).bind fun blocks hblocks => ?_
      obtain ⟨blocks, rfl, hblocks⟩ := hblocks
      rw [optionalBlockAt_eq]
      refine (loads_optionalBlock (ih "block").block).bind fun children hc => ?_
      refine Node.Shaped.call (hname name hlookup) (fun hr => ?_) (hslot blocks hblocks) hc
      split
      next htrue => exact (h hr).fields.args htrue
      next => exact ⟨"", rfl⟩
    · refine (loads_paramsOfDatum fun hr => (h hr).fields.args).bind fun params _ => ?_
      refine (loads_required "name").bind fun name hlookup => ?_
      rw [blockAt_eq]
      refine (ih "block").block.bind fun items hitems => ?_
      refine Node.Shaped.mixin params.names (hname name hlookup) (fun _ => ?_) hitems
      cases params.rest with
      | none => rfl
      | some rest => rfl
  · exact Node.Shaped.placeholder
  · exact (loads_written _ fun hr => (h hr).optional "type").bind fun _ _ =>
      Fault.OfDocument.unsupportedType _

theorem loadsShaped_map (h : regular → (Datum.map entries).Regular)
    (ih : ∀ key, LoadsShaped regular (optional key entries)) :
    LoadsShaped regular (.map entries) where
  node := loads_node_map h ih
  alternate := by
    rw [alternate]
    split
    · refine (loads_conditional h ih).bind fun n hn => ?_
      obtain ⟨test, items, alternate, rfl, htest, hc, ha⟩ := hn
      exact Content.ShapedAlternate.conditional htest hc ha
    · rw [nodesOf_eq]
      exact (ih "nodes").nodesIn.bind fun items hitems => Content.ShapedAlternate.list hitems
  block := by
    rw [block, nodesOf_eq]
    exact (ih "nodes").nodesIn
  nodesIn := loads_nodesIn_of_ne_list h fun _ hd => by cases hd
  branchesIn hholds := by
    rw [branchesIn, branchesOf_eq]
    refine (ih "nodes").branchList fun hr htrue => ?_
    -- an empty mapping counts as false, but it lists no nodes either
    cases entries with
    | nil => cases htrue
    | cons entry rest =>
      obtain ⟨_, ⟨⟩, hlists⟩ := hholds hr rfl
      exact hlists htrue
  branchList := loads_branchList_of_ne_list h fun _ hd => by cases hd
  branch _ := by
    rw [branch, optionalBlockAt_eq]
    refine (loads_checkBranch h).bind fun _ _ => ?_
    refine (loads_required "expr").bind fun expr hexpr => ?_
    refine (loads_optionalBlock (ih "block").block).bind fun children hc => ?_
    exact ⟨_, children, rfl, fun hr => isWritable_branchExpr ((h hr).of_lookup hexpr).isWritable,
      hc⟩

theorem loadsShaped_list (ih : ∀ d ∈ items, LoadsShaped regular d) :
    LoadsShaped regular (.list items) where
  node := Fault.OfDocument.expectedNode _
  alternate := Fault.OfDocument.expectedBlock _
  block := Fault.OfDocument.expectedBlock _
  nodesIn := loads_nodes ih
  branchesIn := loads_branchesIn_of_ne_map fun _ hd => by cases hd
  branchList hlists := by
    refine loads_branches ih fun hr => ?_
    cases items with
    | nil => exact fun d hd => absurd hd List.not_mem_nil
    | cons d rest =>
      obtain ⟨_, ⟨⟩, hmaps⟩ := hlists hr rfl
      exact hmaps
  branch := loads_branch_of_ne_map fun _ hd => by cases hd

/-- Neither a list nor a mapping holds nodes; only null may stand in place of a block. -/
theorem loadsShaped_scalar (hlist : ∀ items, d ≠ .list items) (hmap : ∀ entries, d ≠ .map entries)
    (h : regular → d.Regular) : LoadsShaped regular d where
  node := by
    rw [node]
    · exact Fault.OfDocument.expectedNode _
    · exact hmap
  alternate := by
    cases d with
    | null => exact Content.ShapedAlternate.null
    | map entries => exact absurd rfl (hmap entries)
    | _ => exact Fault.OfDocument.expectedBlock _
  block := by
    cases d with
    | null => exact ShapedNodes.nil
    | map entries => exact absurd rfl (hmap entries)
    | _ => exact Fault.OfDocument.expectedBlock _
  nodesIn := loads_nodesIn_of_ne_list h hlist
  branchesIn := loads_branchesIn_of_ne_map hmap
  branchList := loads_branchList_of_ne_list h hlist
  branch := loads_branch_of_ne_map hmap

/-- By induction on the size: items and fields are smaller than what holds them. -/
theorem loadsShaped (h : regular → d.Regular) : LoadsShaped regular d := by
  induction hn : sizeOf d using Nat.strongRecOn generalizing d with
  | ind n ih =>
    subst hn
    cases d with
    | map entries =>
      exact loadsShaped_map h fun key =>
        ih _ (sizeOf_optional key entries) (fun hr => (h hr).optional key) rfl
    | list items =>
      refine loadsShaped_list fun item hitem => ?_
      have hlt : sizeOf item < sizeOf (Datum.list items) := by
        have := List.sizeOf_lt_of_mem hitem
        rw [Datum.list.sizeOf_spec]
        omega
      exact ih _ hlt (fun hr => (h hr).of_items rfl item hitem) rfl
    | _ => exact loadsShaped_scalar (fun _ hd => by cases hd) (fun _ hd => by cases hd) h

/-- A tree that is loaded is shaped, and loading ends in no other than a fault of documents. -/
theorem loads_tree (h : regular → d.Regular) :
    Loads regular (ShapedNodes regular) (tree d) := by
  cases d with
  | list items => exact (loadsShaped h).nodesIn
  | map entries =>
    rw [tree]
    split
    · exact (loadsShaped h).block
    · exact (loadsShaped h).node.bind fun n hn => ShapedNodes.cons hn ShapedNodes.nil
  | _ => exact Fault.OfDocument.expectedTree _

end Places

end Load

end Hyperscript
