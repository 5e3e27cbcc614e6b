import Hyperscript.Mixin
import Hyperscript.Node.Load

/-!
# Texts in the slots of a document

Two slots of a document hold a text with a format of its own: the value of an attribute, which is
static if it is one whole string literal, and the parameters of a mixin, which commas separate.
-/

namespace Hyperscript

/-! ## Static literals -/

namespace Load

/-- A text is one string literal without escapes, and `inner` stands between its quotes. -/
def IsLiteral (text inner : List Char) : Prop :=
  ∃ quote, (quote = '\x27' ∨ quote = '\x22') ∧ text = quote :: inner ++ [quote] ∧
    quote ∉ inner ∧ '\\' ∉ inner

theorem staticLiteral?_eq_some_iff {text inner : List Char} :
    staticLiteral? text = some inner ↔ IsLiteral text inner := by
  have hall : ∀ (quote : Char) (cs : List Char),
      cs.all (fun c => c != quote && c != '\\') = true ↔ quote ∉ cs ∧ '\\' ∉ cs := by
    intro quote cs
    simp only [List.all_eq_true, Bool.and_eq_true, bne_iff_ne, ne_eq, forall_and]
    exact and_congr ⟨fun h hq => h quote hq rfl, fun h c hc hcq => h (hcq ▸ hc)⟩
      ⟨fun h hb => h '\\' hb rfl, fun h c hc hcb => h (hcb ▸ hc)⟩
  constructor
  · intro h
    cases text with
    | nil => cases h
    | cons quote rest =>
      rw [staticLiteral?] at h
      split at h
      next hliteral =>
        -- what is left without the last character is what stands between the quotes
        obtain ⟨hquote, hlast, hinner⟩ := hliteral
        cases h
        obtain ⟨front, rfl⟩ := List.getLast?_eq_some_iff.1 hlast
        rw [List.dropLast_concat] at hinner ⊢
        exact ⟨quote, hquote, rfl, (hall quote front).1 hinner⟩
      next => cases h
  · rintro ⟨quote, hquote, rfl, hinner⟩
    rw [List.cons_append, staticLiteral?, List.getLast?_concat, List.dropLast_concat,
      if_pos ⟨hquote, rfl, (hall quote inner).2 hinner⟩]

theorem staticLiteral?_eq_none_iff {text : List Char} :
    staticLiteral? text = none ↔ ∀ inner, ¬IsLiteral text inner := by
  rw [Option.eq_none_iff_forall_ne_some]
  exact forall_congr' fun inner => not_congr staticLiteral?_eq_some_iff

end Load

/-! ## Trimmed texts -/

namespace Text

/-- There is no blank at either end. -/
structure Trimmed (cs : List Char) : Prop where
  head : ∀ c ∈ cs.head?, isBlank c = false
  last : ∀ c ∈ cs.getLast?, isBlank c = false

theorem dropWhile_eq_self {p : Char → Bool} {cs : List Char}
    (h : ∀ c ∈ cs.head?, p c = false) : cs.dropWhile p = cs := by
  cases cs with
  | nil => rfl
  | cons c cs => rw [List.dropWhile_cons_of_neg (by rw [h c rfl]; decide)]

theorem Trimmed.trimWhere_eq {cs : List Char} (h : Trimmed cs) : trimWhere isBlank cs = cs := by
  unfold trimWhere
  rw [dropWhile_eq_self h.head, dropWhile_eq_self, List.reverse_reverse]
  intro c hc
  rw [List.head?_reverse] at hc
  exact h.last c hc

theorem trimWhere_blank_cons {p : Char → Bool} {c : Char} (h : p c = true) (cs : List Char) :
    trimWhere p (c :: cs) = trimWhere p cs := by
  unfold trimWhere
  rw [List.dropWhile_cons_of_pos h]

theorem trimmed_trimWhere (cs : List Char) : Trimmed (trimWhere isBlank cs) := by
  have hdropped : ∀ l : List Char, ∀ c ∈ (l.dropWhile isBlank).head?, isBlank c = false := by
    intro l c hc
    have hhead := List.head?_dropWhile_not isBlank l
    rw [Option.mem_def.1 hc] at hhead
    exact hhead
  constructor
  · intro c hc
    -- the first character is still there after trimming the end
    have hprefix : trimWhere isBlank cs <+: cs.dropWhile isBlank := by
      rw [← List.reverse_suffix, trimWhere, List.reverse_reverse]
      exact List.dropWhile_suffix _
    obtain ⟨rest, hrest⟩ := hprefix
    apply hdropped cs c
    rw [← hrest, List.head?_append, Option.mem_def.1 hc]
    rfl
  · intro c hc
    rw [trimWhere, List.getLast?_reverse] at hc
    exact hdropped _ c hc

instance (cs : List Char) : Decidable (Trimmed cs) :=
  decidable_of_iff (trimWhere isBlank cs = cs)
    ⟨fun h => h ▸ trimmed_trimWhere cs, Trimmed.trimWhere_eq⟩

/-! ## Cutting -/

theorem cut_of_not_mem {sep : Char} {cs : List Char} (h : sep ∉ cs) : cut sep cs = [cs] := by
  induction cs with
  | nil => rfl
  | cons c cs ih =>
    rw [List.mem_cons, not_or] at h
    obtain ⟨hc, hcs⟩ := h
    rw [cut, if_neg (Ne.symm hc), ih hcs]

/-- Cutting takes off the piece before the first separator. -/
theorem cut_append {sep : Char} {cs : List Char} (h : sep ∉ cs) (rest : List Char) :
    cut sep (cs ++ sep :: rest) = cs :: cut sep rest := by
  induction cs with
  | nil => rw [List.nil_append, cut, if_pos rfl]
  | cons c cs ih =>
    rw [List.mem_cons, not_or] at h
    obtain ⟨hc, hcs⟩ := h
    rw [List.cons_append, cut, if_neg (Ne.symm hc), ih hcs]

end Text

/-! ## Parameter lists -/

namespace Mixin

open Text

/-- A parameter as it is listed: not empty, without a comma and trimmed. -/
structure Parameter (cs : List Char) : Prop where
  nonempty : cs ≠ []
  comma : ',' ∉ cs
  trimmed : Trimmed cs

/-- Three dots mark the parameter for further arguments. -/
def furtherMark : List Char := ['.', '.', '.']

/-- Parameters that can be told apart when they are listed. -/
structure Params.Normal (p : Params) : Prop where
  names : ∀ s ∈ p.names, Parameter s.toList
  rest : ∀ s, p.rest = some s → ',' ∉ s.toList ∧ Trimmed s.toList
  last : p.rest = none → ∀ s, p.names.getLast? = some s → ¬furtherMark <+: s.toList

/-- The parameters as they are listed. -/
def Params.pieces (p : Params) : List String :=
  p.names ++ (p.rest.map fun s => "..." ++ s).toList

/-- A blank after a comma does not count. -/
theorem paramNames_blank_cons (cs : List Char) : paramNames (' ' :: cs) = paramNames cs := by
  unfold paramNames
  rw [cut, if_neg (by decide)]
  cases cut ',' cs with
  | nil => rfl
  | cons piece pieces =>
    have hblank : isBlank ' ' = true := rfl
    simp only [List.map_cons, trimWhere_blank_cons hblank]

theorem Parameter.paramNames_append {cs : List Char} (h : Parameter cs) (rest : List Char) :
    paramNames (cs ++ ',' :: rest) = cs :: paramNames rest := by
  unfold paramNames
  rw [cut_append h.comma, List.map_cons, h.trimmed.trimWhere_eq, List.filter_cons_of_pos]
  simpa using h.nonempty

theorem Parameter.paramNames_self {cs : List Char} (h : Parameter cs) : paramNames cs = [cs] := by
  unfold paramNames
  rw [cut_of_not_mem h.comma, List.map_singleton, h.trimmed.trimWhere_eq, List.filter_cons_of_pos]
  · rfl
  · simpa using h.nonempty

theorem paramNames_intercalate {pieces : List (List Char)} (h : ∀ cs ∈ pieces, Parameter cs) :
    paramNames ([',', ' '].intercalate pieces) = pieces := by
  induction pieces with
  | nil => rfl
  | cons cs pieces ih =>
    obtain ⟨hcs, hpieces⟩ := List.forall_mem_cons.1 h
    cases pieces with
    | nil => rw [List.intercalate_singleton, hcs.paramNames_self]
    | cons next others =>
      rw [List.intercalate_cons_cons, List.append_assoc, List.cons_append,
        hcs.paramNames_append, List.cons_append, List.nil_append, paramNames_blank_cons, ih hpieces]

/-- The parameter for further arguments, with its mark. -/
theorem parameter_marked {s : String} (hcomma : ',' ∉ s.toList) (htrimmed : Trimmed s.toList) :
    Parameter (furtherMark ++ s.toList) where
  nonempty := by simp [furtherMark]
  comma := by simp [furtherMark, hcomma]
  trimmed := by
    refine ⟨fun c hc => ?_, fun c hc => ?_⟩
    · cases hc
      rfl
    · -- the last character is that of the name, or a dot if the name is empty
      rw [List.getLast?_append] at hc
      cases hlast : s.toList.getLast? with
      | none =>
        rw [hlast] at hc
        cases hc
        rfl
      | some d =>
        rw [hlast] at hc
        cases hc
        exact htrimmed.last c hlast

theorem Params.Normal.parameter_pieces {p : Params} (h : p.Normal) :
    ∀ cs ∈ p.pieces.map String.toList, Parameter cs := by
  intro cs hcs
  obtain ⟨s, hs, rfl⟩ := List.mem_map.1 hcs
  rcases List.mem_append.1 hs with hs | hs
  · exact h.names s hs
  · obtain ⟨rest, hrest, rfl⟩ := Option.map_eq_some_iff.1 (Option.mem_toList.1 hs)
    obtain ⟨hcomma, htrimmed⟩ := h.rest rest hrest
    rw [String.toList_append]
    exact parameter_marked hcomma htrimmed

/-- Reading the list of normal parameters gives them back. -/
theorem Params.Normal.parseParams {p : Params} (h : p.Normal) :
    Mixin.parseParams (", ".intercalate p.pieces).toList = p := by
  have hnames : paramNames (", ".intercalate p.pieces).toList = p.pieces.map String.toList := by
    rw [String.toList_intercalate]
    exact paramNames_intercalate h.parameter_pieces
  have hofList : ∀ names : List String, (names.map String.toList).map String.ofList = names := by
    intro names
    rw [List.map_map]
    exact (List.map_congr_left fun s _ => String.ofList_toList).trans (List.map_id names)
  unfold Mixin.parseParams
  rw [hnames]
  obtain ⟨names, rest⟩ := p
  cases rest with
  | none =>
    have hpieces : Params.pieces ⟨names, none⟩ = names := List.append_nil names
    rw [hpieces]
    dsimp only
    rw [hofList]
    split
    next rest hlast =>
      -- the last parameter is not marked
      rw [List.getLast?_map] at hlast
      obtain ⟨s, hs, hmarked⟩ := Option.map_eq_some_iff.1 hlast
      exact absurd ⟨rest, hmarked.symm⟩ (h.last rfl s hs)
    next => rfl
  | some s =>
    have hpieces : (Params.pieces ⟨names, some s⟩).map String.toList =
        names.map String.toList ++ [furtherMark ++ s.toList] := by
      simp only [Params.pieces, Option.map_some, Option.toList_some, List.map_append,
        List.map_singleton, String.toList_append]
      rfl
    rw [hpieces]
    dsimp only
    rw [List.getLast?_concat, List.dropLast_concat, hofList]
    simp only [furtherMark, List.cons_append, List.nil_append]
    rw [(h.rest s rfl).2.trimWhere_eq, String.ofList_toList]

end Mixin

end Hyperscript
