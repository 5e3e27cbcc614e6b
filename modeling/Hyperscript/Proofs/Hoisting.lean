import Hyperscript.Proofs.Acceptance
import Hyperscript.Proofs.Script.Events

/-!
# Hoisted mixins

A mixin is defined at the start of the function around its declaration.  So it is defined as often
as the script has that function, and before every call in it.
-/

namespace Hyperscript

/-! ## Lines that define a mixin -/

/-- The line is the first one of the definition of this mixin. -/
def Line.definesMixin (name : String) (line : Line) : Bool :=
  (Mixin.reference name ++ " = function(").toList.isPrefixOf line.code.toList &&
    ") \x7b".toList.isSuffixOf line.code.toList

/-- The node declares the mixin of this name. -/
def Node.declares (name : String) : Node → Bool
  | .mixin (.str s) _ _ _ => s == name
  | _ => false

/-- The node calls the mixin of this name. -/
def Node.calls (name : String) : Node → Bool
  | .call (.str s) _ _ _ => s == name
  | _ => false

theorem Node.isMixin_of_declares {name : String} {n : Node} (h : n.declares name = true) :
    n.isMixin = true := by
  cases n with
  | mixin => rfl
  | _ => cases h

theorem Node.isCall_of_calls {name : String} {n : Node} (h : n.calls name = true) :
    n.isCall = true := by
  cases n with
  | call => rfl
  | _ => cases h

theorem Node.declaration_of_declares {name : String} {n : Node} (h : n.declares name = true) :
    (Content.node n).declaration?.map Declaration.name = some (.str name) := by
  unfold Node.declares at h
  split at h
  · rw [beq_iff_eq] at h
    subst h
    rfl
  · cases h

theorem Line.exists_of_definesMixin {name : String} {line : Line}
    (h : line.definesMixin name = true) :
    ∃ rest, line.code = Mixin.reference name ++ (" = function(" ++ rest) := by
  rw [Line.definesMixin, Bool.and_eq_true, List.isPrefixOf_iff_prefix] at h
  obtain ⟨⟨rest, hrest⟩, -⟩ := h
  refine ⟨String.ofList rest, String.toList_injective ?_⟩
  rw [← hrest]
  simp only [String.toList_append, String.toList_ofList, List.append_assoc]

theorem Line.not_definesMixin {name : String} {line : Line}
    (h : ∀ rest, line.code ≠ Mixin.reference name ++ rest) : line.definesMixin name = false := by
  rw [Bool.eq_false_iff]
  intro hdefines
  obtain ⟨rest, hrest⟩ := Line.exists_of_definesMixin hdefines
  exact h _ hrest

theorem Line.definesMixin_define (name paramList : String) (indent : Int) :
    Line.definesMixin name
      ⟨indent, Mixin.reference name ++ " = function(" ++ paramList ++ ") \x7b"⟩ = true := by
  rw [Line.definesMixin, Bool.and_eq_true, List.isPrefixOf_iff_prefix, List.isSuffixOf_iff_suffix]
  simp only [String.toList_append]
  exact ⟨(List.prefix_append _ _).trans (List.prefix_append _ _), List.suffix_append _ _⟩

/-- A line defines a mixin exactly if it bears the definition. -/
theorem Line.Bears.definesMixin {line : Line} {label : Option Event} (h : line.Bears label)
    (name : String) : line.definesMixin name = label.any (Event.defines (Node.declares name)) := by
  cases h with
  | @define indent above mixin params paramList count rest children hparams =>
    by_cases hname : mixin = name
    · subst hname
      rw [Line.definesMixin_define]
      simp [Event.defines, Node.declares]
    · have hother : (mixin == name) = false := beq_false_of_ne hname
      show _ = (mixin == name)
      rw [hother]
      apply Line.not_definesMixin
      intro tail heq
      rw [String.append_assoc, String.append_assoc] at heq
      exact hname (reference_append_inj heq).1
  | call =>
    apply Line.not_definesMixin
    intro rest heq
    -- a call starts with the name of an array, a definition with that of the table
    have hhead := congrArg (fun code => code.toList.head?) heq
    rw [callHead_eq, head_fresh, head_reference] at hhead
    cases hhead
  | declare => exact Line.not_definesMixin fun rest => (plain_declare _ name rest).1
  | result => exact Line.not_definesMixin fun rest => (plain_result _ name rest).1
  | last =>
    have hbrace : Foreign "\x7d" := by decide
    exact Line.not_definesMixin fun rest => ((hbrace.append _).plain name rest).1
  | plain hcode => exact Line.not_definesMixin fun rest => (hcode name rest).1

theorem LinesBear.countP_definesMixin {lines : List Line} {events : List Event}
    (h : LinesBear lines events) (name : String) :
    lines.countP (Line.definesMixin name) = events.countP (Event.defines (Node.declares name)) := by
  obtain ⟨labels, hlabels, rfl⟩ := h
  induction hlabels with
  | nil => rfl
  | @cons line label lines labels hline _ ih =>
    rw [List.countP_cons, ih, hline.definesMixin name]
    cases label with
    | none => rw [List.reduceOption_cons_of_none]; rfl
    | some e => rw [List.reduceOption_cons_of_some, List.countP_cons]; rfl

/-! ## The schedule of a compiled template -/

theorem filter_eq_singleton {α β : Type} {f : α → Option β} {p : α → Bool} {b : β}
    (hp : ∀ x, p x = true → f x = some b) {l : List α} (hnodup : (l.filterMap f).Nodup) {a : α}
    (ha : a ∈ l) (hpa : p a = true) : l.filter p = [a] := by
  induction l with
  | nil => cases ha
  | cons x l ih =>
    by_cases hx : p x = true
    · rw [List.filterMap_cons_some (hp x hx), List.nodup_cons] at hnodup
      have hnone : ∀ y ∈ l, ¬p y = true := fun y hy hpy =>
        hnodup.1 (List.mem_filterMap.2 ⟨y, hy, hp y hpy⟩)
      rw [List.filter_cons_of_pos hx, List.filter_eq_nil_iff.2 hnone]
      rcases List.mem_cons.1 ha with rfl | ha
      · rfl
      · exact absurd hpa (hnone a ha)
    · have hmem : a ∈ l := by
        rcases List.mem_cons.1 ha with rfl | ha
        · exact absurd hpa hx
        · exact ha
      have htail : (l.filterMap f).Nodup := by
        refine hnodup.sublist ?_
        rw [List.filterMap_cons]
        split
        · exact List.Sublist.refl _
        · exact List.sublist_cons_self _ _
      rw [List.filter_cons_of_neg hx]
      exact ih htail hmem

/-- A compiled template declares a mixin at one place only. -/
theorem places_of_declares {options : Options} (hformat : options.formatter = .absent)
    {nodes : List Content} (h : WellTypedNodes nodes) {compiled : Compiled}
    (hcompile : compile options (.list nodes) = .ok compiled) {above : List Node} {d : Node}
    (hocc : Occurs above d nodes) {name : String} (hname : d.declares name = true) :
    (placesOf (Content.list nodes).nodes).filter (fun place => place.2.declares name) =
      [(above, d)] := by
  obtain ⟨walked, hwalk, hwalked⟩ := h.walk
  obtain ⟨-, hdistinct, -⟩ := supported_of_compile hformat h hwalk hwalked hcompile
  -- the names are distinct along the walk, and the walk goes through the places in order
  have hvisits : (Content.list nodes).walk = .ok _ := h.visits
  rw [hwalk] at hvisits
  cases hvisits
  simp only [DistinctMixins, List.filterMap_map, List.map_filterMap] at hdistinct
  exact filter_eq_singleton (fun place hplace => Node.declaration_of_declares hplace) hdistinct
    (h.mem_placesOf hocc) hname

/-- The lines of a compiled template follow its schedule. -/
theorem exists_linesBear_of_compile {options : Options} (hformat : options.formatter = .absent)
    {nodes : List Content} (h : WellTypedNodes nodes) (havoids : Everywhere Node.AvoidsTable nodes)
    {compiled : Compiled} (hcompile : compile options (.list nodes) = .ok compiled) :
    ∃ mixins p count,
      (Session.program ⟨options, mixins, none, 0⟩ (.list nodes)).run 0 = .ok (p, count) ∧
      compiled.script = Line.renderAll options.pretty.isTrue (p.lines 0) ∧
      LinesBear (p.lines 0) (hoistedOf (Content.list nodes).nodes ++
        placedOf (Content.list nodes).nodes) := by
  obtain ⟨c, ds, mixins, p, count, -, -, -, hrun, rfl⟩ := exists_program_of_compile hformat hcompile
  obtain ⟨-, k₁, hdefine, hbody⟩ := program_emits hrun
  have hclear : Everywhere Node.Clear nodes := fun above n hocc =>
    ⟨h.of_occurs hocc, havoids above n hocc⟩
  exact ⟨mixins, p, count, hrun, rfl, Program.linesBear (hdefine.stmtsBear hclear)
    (hbody.stmtsBear (Scope.fillsFresh_filling _ 0) hclear)⟩

/-! ## How often a mixin is defined -/

theorem repeats_eq_zero {scopes : List Node} (h : ∀ s ∈ scopes, s.isEach = false) :
    repeats scopes = 0 := by
  rw [repeats, List.countP_eq_zero]
  intro pair hpair
  rw [h pair.1 (List.of_mem_zip hpair).1, Bool.false_and]
  exact Bool.false_ne_true

/-- The script of a template defines each of its mixins, and it does so twice for every `each` above
the declaration that has another `each` or a call as the next function below it. -/
theorem compile_defines_mixin (options : Options) (hformat : options.formatter = .absent)
    {nodes : List Content} (h : WellTypedNodes nodes) (havoids : Everywhere Node.AvoidsTable nodes)
    {compiled : Compiled} (hcompile : compile options (.list nodes) = .ok compiled)
    {above : List Node} {d : Node} (hocc : Occurs above d nodes) {name : String}
    (hname : d.declares name = true) :
    ∃ mixins p count,
      (Session.program ⟨options, mixins, none, 0⟩ (.list nodes)).run 0 = .ok (p, count) ∧
      compiled.script = String.join ((p.lines 0).map fun line =>
        (if options.pretty.isTrue then String.ofList (List.replicate line.indent.toNat ' ') else "")
          ++ line.code ++ "\n") ∧
      (p.lines 0).countP (Line.definesMixin name) =
        2 ^ repeats (above.filter Node.opensScope) ∧
      ((∀ m ∈ above, m.isEach = false) → (p.lines 0).countP (Line.definesMixin name) = 1) ∧
      1 ≤ (p.lines 0).countP (Line.definesMixin name) := by
  obtain ⟨mixins, p, count, hrun, hscript, hlines⟩ :=
    exists_linesBear_of_compile hformat h havoids hcompile
  have hcount : (p.lines 0).countP (Line.definesMixin name) =
      2 ^ repeats (above.filter Node.opensScope) := by
    rw [hlines.countP_definesMixin]
    exact countP_defines (fun _ => Node.isMixin_of_declares)
      (places_of_declares hformat h hcompile hocc hname)
  refine ⟨mixins, p, count, hrun, hscript, hcount, fun hloops => ?_, ?_⟩
  · rw [hcount, repeats_eq_zero fun s hs => hloops s (List.mem_filter.1 hs).1, pow_zero]
  · rw [hcount]
    exact Nat.one_le_two_pow

def tipDeclaration : Node :=
  .mixin (.str "tip") (.list []) .null (.list [.node (.text (.str "tip"))])

def noteCall : Node :=
  .call (.str "note") (.str "row") {} (.datum .null)

def boxCall : Node :=
  .call (.str "box") (.str "") {} (.list [.node tipDeclaration, .node noteCall])

def noteDeclaration : Node :=
  .mixin (.str "note") (.list [.str "x"]) .null (.list [.node (.text (.str "#\x7bx\x7d"))])

def rowItem : Node :=
  .tag (.str "li") {} (.list [.node noteDeclaration])

def rowLoop : Node :=
  .each (.str "page") (.str "row") .null (.list [.node boxCall, .node rowItem]) (.datum .null)

def pageLoop : Node :=
  .each (.str "pages") (.str "page") .null (.list [.node rowLoop]) (.datum .null)

def pageList : Node :=
  .tag (.str "ul") {} (.list [.node pageLoop])

/-- In two loops, one declaration in the block of a call and one in an item; the second mixin is
called before its declaration comes. -/
def pagesTemplate : List Content :=
  [.node (.mixin (.str "box") (.list []) .null (.list [.node .placeholder])), .node pageList]

theorem pagesTemplate_wellTyped : WellTypedNodes pagesTemplate := by
  have hplain : Attributes.WellTyped {} := .mk [] [] (by simp)
  have hbox : boxCall.WellTyped := .call hplain
    (.list (.cons (.mixin [] .null (.cons .text .nil)) (.cons (.call hplain .null) .nil)))
  have hitem : rowItem.WellTyped :=
    .tag hplain (.cons (.mixin ["x"] .null (.cons .text .nil)) .nil)
  have hrows : rowLoop.WellTyped := .each .null (.cons hbox (.cons hitem .nil)) .null
  have hpages : pageLoop.WellTyped := .each .null (.cons hrows .nil) .null
  exact .cons (.mixin [] .null (.cons .placeholder .nil))
    (.cons (.tag hplain (.cons hpages .nil)) .nil)

theorem pagesTemplate_avoidsTable : Everywhere Node.AvoidsTable pagesTemplate := by
  simp only [pagesTemplate, pageList, pageLoop, rowLoop, rowItem, noteDeclaration, boxCall,
    noteCall, tipDeclaration, everywhere_cons, everywhere_nil, Node.owns_mixin, Node.owns_tag,
    Node.owns_each_null, Node.owns_call, Node.not_owns_text, Node.not_owns_placeholder,
    Node.not_owns_call_null, forall_eq, false_implies, implies_true, and_true]
  decide

theorem pagesTemplate_occurs {above : List Node} {n : Node} {items : List Content}
    (howns : rowLoop.Owns items) (h : Occurs above n items) :
    Occurs (pageList :: pageLoop :: rowLoop :: above) n pagesTemplate :=
  .inside (.tail _ (.head _)) (Node.owns_tag.2 rfl) (.inside (.head _) (Node.owns_each_null.2 rfl)
    (.inside (.head _) howns h))

theorem tipDeclaration_occurs :
    Occurs [pageList, pageLoop, rowLoop, boxCall] tipDeclaration pagesTemplate :=
  pagesTemplate_occurs (Node.owns_each_null.2 rfl)
    (.inside (.head _) (Node.owns_call.2 rfl) (.here (.head _)))

/-- Either loop is right around another function: two of them make four definitions. -/
theorem compile_pagesTemplate_defines_tip :
    WellTypedNodes pagesTemplate ∧ Everywhere Node.AvoidsTable pagesTemplate ∧
    Occurs [pageList, pageLoop, rowLoop, boxCall] tipDeclaration pagesTemplate ∧
    ∃ (compiled : Compiled) (p : Program), compile {} (.list pagesTemplate) = .ok compiled ∧
      compiled.script = Line.renderAll false (p.lines 0) ∧
      (p.lines 0).countP (Line.definesMixin "tip") = 4 := by
  have hcompile : ∃ compiled, compile {} (.list pagesTemplate) = .ok compiled :=
    exists_compiled_of_scriptOf rfl ⟨_, rfl⟩
  obtain ⟨compiled, hcompile⟩ := hcompile
  obtain ⟨mixins, p, count, -, hscript, hcount, -⟩ := compile_defines_mixin {} rfl
    pagesTemplate_wellTyped pagesTemplate_avoidsTable hcompile tipDeclaration_occurs
    (show tipDeclaration.declares "tip" = true by decide)
  exact ⟨pagesTemplate_wellTyped, pagesTemplate_avoidsTable, tipDeclaration_occurs, compiled, p,
    hcompile, hscript, hcount⟩

/-! ## What is defined before a call -/

/-- What precedes an event in the schedule stands on an earlier line. -/
theorem Precedes.exists_lt {a b : Event} {labels : List (Option Event)}
    (h : Precedes a b labels.reduceOption) {i : Nat} (hi : labels[i]? = some (some b)) :
    ∃ j < i, labels[j]? = some (some a) := by
  -- the labels before the line are what comes before the event in the schedule
  have hsplit : labels = labels.take i ++ some b :: labels.drop (i + 1) := by
    obtain ⟨hlt, hget⟩ := List.getElem?_eq_some_iff.1 hi
    rw [← hget, ← List.drop_eq_getElem_cons hlt, List.take_append_drop]
  have hmem : a ∈ (labels.take i).reduceOption := by
    apply h _ (labels.drop (i + 1)).reduceOption
    conv_lhs => rw [hsplit]
    rw [List.reduceOption_append, List.reduceOption_cons_of_some]
  obtain ⟨j, hj⟩ := List.mem_iff_getElem?.1 (List.reduceOption_mem_iff.1 hmem)
  rw [List.getElem?_take] at hj
  split at hj
  · rename_i hlt
    exact ⟨j, hlt, hj⟩
  · cases hj

theorem exists_line_of_label {lines : List Line} {labels : List (Option Event)}
    (h : List.Forall₂ Line.Bears lines labels) {i : Nat} {label : Option Event}
    (hi : labels[i]? = some label) : ∃ line, lines[i]? = some line ∧ line.Bears label := by
  induction h generalizing i with
  | nil => cases hi
  | cons hline _ ih =>
    cases i with
    | zero =>
      cases hi
      exact ⟨_, rfl, hline⟩
    | succ i => exact ih hi

/-- Whenever the script of a template comes to a line of a call, it has defined the mixin that is
called, if the function that the mixin is declared in is around the call and no other mixin is
declared on the way from it to the call.  The nodes `outer` lead to that function, `inner` from
there to the declaration, and `path` to the call. -/
theorem compile_defines_before_calls (options : Options) (hformat : options.formatter = .absent)
    {nodes : List Content} (h : WellTypedNodes nodes) (havoids : Everywhere Node.AvoidsTable nodes)
    {compiled : Compiled} (hcompile : compile options (.list nodes) = .ok compiled)
    {outer inner path : List Node} {c d : Node} (hd : Occurs (outer ++ inner) d nodes)
    (hc : Occurs (outer ++ path) c nodes) {name : String} (hdeclares : d.declares name = true)
    (hcalls : c.calls name = true) (houter : ∀ s ∈ outer.getLast?, s.opensScope = true)
    (hinner : ∀ m ∈ inner, m.opensScope = false) (hpath : ∀ m ∈ path, m.isMixin = false) :
    ∃ mixins p count labels,
      (Session.program ⟨options, mixins, none, 0⟩ (.list nodes)).run 0 = .ok (p, count) ∧
      compiled.script = String.join ((p.lines 0).map fun line =>
        (if options.pretty.isTrue then String.ofList (List.replicate line.indent.toNat ' ') else "")
          ++ line.code ++ "\n") ∧
      List.Forall₂ Line.Bears (p.lines 0) labels ∧
      labels.reduceOption =
        hoistedOf (Content.list nodes).nodes ++ placedOf (Content.list nodes).nodes ∧
      (∃ i : Nat, labels[i]? = some (some (.call (outer ++ path) c))) ∧
      ∀ i : Nat, labels[i]? = some (some (.call (outer ++ path) c)) →
        ∃ j < i, labels[j]? = some (some (.define (outer ++ inner) d)) ∧
          ∃ line, (p.lines 0)[j]? = some line ∧ line.definesMixin name = true := by
  obtain ⟨mixins, p, count, hrun, hscript, labels, hlabels, hevents⟩ :=
    exists_linesBear_of_compile hformat h havoids hcompile
  refine ⟨mixins, p, count, labels, hrun, hscript, hlabels, hevents, ?_, fun i hi => ?_⟩
  · have hcall := call_mem_schedule (Node.isCall_of_calls hcalls) (h.mem_placesOf hc)
    rw [← List.mem_append, ← hevents, List.reduceOption_mem_iff] at hcall
    exact List.mem_iff_getElem?.1 hcall
  · have hprecedes := precedes_of_placesOf (c := c) (Node.isMixin_of_declares hdeclares) hinner
      hpath houter (h.mem_placesOf hd)
    rw [← hevents] at hprecedes
    obtain ⟨j, hlt, hj⟩ := hprecedes.exists_lt hi
    obtain ⟨line, hline, hbears⟩ := exists_line_of_label hlabels hj
    refine ⟨j, hlt, hj, line, hline, ?_⟩
    rw [hbears.definesMixin name]
    exact hdeclares

theorem noteDeclaration_occurs :
    Occurs ([pageList, pageLoop, rowLoop] ++ [rowItem]) noteDeclaration pagesTemplate :=
  pagesTemplate_occurs (Node.owns_each_null.2 rfl)
    (.inside (.tail _ (.head _)) (Node.owns_tag.2 rfl) (.here (.head _)))

theorem noteCall_occurs :
    Occurs ([pageList, pageLoop, rowLoop] ++ [boxCall]) noteCall pagesTemplate :=
  pagesTemplate_occurs (Node.owns_each_null.2 rfl)
    (.inside (.head _) (Node.owns_call.2 rfl) (.here (.tail _ (.head _))))

/-- The call stands in the block of another call, before the declaration. -/
theorem compile_pagesTemplate_defines_note_before_calls :
    WellTypedNodes pagesTemplate ∧ Everywhere Node.AvoidsTable pagesTemplate ∧
    Occurs ([pageList, pageLoop, rowLoop] ++ [rowItem]) noteDeclaration pagesTemplate ∧
    Occurs ([pageList, pageLoop, rowLoop] ++ [boxCall]) noteCall pagesTemplate ∧
    ∃ (compiled : Compiled) (p : Program) (labels : List (Option Event)),
      compile {} (.list pagesTemplate) = .ok compiled ∧
      compiled.script = Line.renderAll false (p.lines 0) ∧
      List.Forall₂ Line.Bears (p.lines 0) labels ∧
      (∃ i : Nat,
        labels[i]? = some (some (.call [pageList, pageLoop, rowLoop, boxCall] noteCall))) ∧
      ∀ i : Nat,
        labels[i]? = some (some (.call [pageList, pageLoop, rowLoop, boxCall] noteCall)) →
        ∃ j < i, ∃ line, (p.lines 0)[j]? = some line ∧ line.definesMixin "note" = true := by
  have hcompile : ∃ compiled, compile {} (.list pagesTemplate) = .ok compiled :=
    exists_compiled_of_scriptOf rfl ⟨_, rfl⟩
  obtain ⟨compiled, hcompile⟩ := hcompile
  obtain ⟨mixins, p, count, labels, -, hscript, hlabels, -, hcalled, hbefore⟩ :=
    compile_defines_before_calls {} rfl pagesTemplate_wellTyped pagesTemplate_avoidsTable hcompile
      noteDeclaration_occurs noteCall_occurs (show noteDeclaration.declares "note" = true by decide)
      (by decide) (by rintro s ⟨⟩; rfl) (by simp [rowItem]) (by simp [boxCall])
  refine ⟨pagesTemplate_wellTyped, pagesTemplate_avoidsTable, noteDeclaration_occurs,
    noteCall_occurs, compiled, p, labels, hcompile, hscript, hlabels, hcalled, fun i hi => ?_⟩
  obtain ⟨j, hlt, -, hline⟩ := hbefore i hi
  exact ⟨j, hlt, hline⟩

end Hyperscript
