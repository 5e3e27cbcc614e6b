import Hyperscript.Proofs.RoundTrip
import Hyperscript.Proofs.Text.Quiet

/-!
# Parameter lists

What is read from the parameter list of a mixin is in normal form, whatever the list looks like:
parameters that are trimmed, not empty and without commas, and at most one of them, the last, for
further arguments.  Written down again and read again, they are the same parameters.  On the way
only commas and blanks get lost.
-/

namespace Hyperscript

/-! ## Pieces of a text -/

namespace Text

theorem not_mem_of_mem_cut {sep : Char} {cs piece : List Char} (h : piece ∈ cut sep cs) :
    sep ∉ piece := by
  induction cs generalizing piece with
  | nil => simp_all [cut]
  | cons c cs ih =>
    rw [cut] at h
    split at h
    next =>
      rcases List.mem_cons.1 h with rfl | h
      · exact List.not_mem_nil
      · exact ih h
    next hc =>
      cases hcut : cut sep cs with
      | nil =>
        rw [hcut] at h
        rw [List.mem_singleton.1 h, List.mem_singleton]
        exact Ne.symm hc
      | cons first others =>
        rw [hcut] at h ih
        rcases List.mem_cons.1 h with rfl | h
        · rw [List.mem_cons, not_or]
          exact ⟨Ne.symm hc, ih (List.mem_cons_self ..)⟩
        · exact ih (List.mem_cons_of_mem _ h)

/-- Cutting loses the separators and nothing else. -/
theorem flatten_cut (sep : Char) (cs : List Char) :
    (cut sep cs).flatten = cs.filter (· != sep) := by
  induction cs with
  | nil => rfl
  | cons c cs ih =>
    rw [cut]
    by_cases hc : c = sep
    · rw [if_pos hc, List.filter_cons_of_neg (by simp [hc]), ← ih]
      rfl
    · rw [if_neg hc, List.filter_cons_of_pos (by simp [hc]), ← ih]
      cases cut sep cs <;> rfl

/-- Trimming loses none of the characters that are not trimmed off. -/
theorem filter_trimWhere {p q : Char → Bool} (h : ∀ c, p c = true → q c = false)
    (cs : List Char) : (trimWhere p cs).filter q = cs.filter q := by
  have hdrop : ∀ l : List Char, (l.dropWhile p).filter q = l.filter q := by
    intro l
    have htaken : (l.takeWhile p).filter q = [] :=
      List.filter_eq_nil_iff.2 fun c hc => by
        simp [h c (List.all_eq_true.1 List.all_takeWhile c hc)]
    calc (l.dropWhile p).filter q
        = (l.takeWhile p ++ l.dropWhile p).filter q := by
          rw [List.filter_append, htaken, List.nil_append]
      _ = l.filter q := by rw [List.takeWhile_append_dropWhile]
  rw [trimWhere, List.filter_reverse, hdrop, List.filter_reverse, List.reverse_reverse, hdrop]

end Text

namespace Mixin

open Text

/-! ## Normal form -/

theorem parameter_of_mem_paramNames {args cs : List Char} (h : cs ∈ paramNames args) :
    Parameter cs := by
  obtain ⟨hmem, hne⟩ := List.mem_filter.1 h
  obtain ⟨piece, hpiece, rfl⟩ := List.mem_map.1 hmem
  exact {
    nonempty := by simpa using hne
    comma := fun hcomma => not_mem_of_mem_cut hpiece ((trimWhere_isInfix _ _).mem hcomma)
    trimmed := trimmed_trimWhere piece }

/-- Either the last parameter is marked as the one for further arguments, or there is none. -/
theorem parseParams_cases (args : List Char) :
    (∃ front rest, paramNames args = front ++ [furtherMark ++ rest] ∧
      parseParams args = ⟨front.map String.ofList,
        some (String.ofList (trimWhere isBlank rest))⟩) ∨
    (∀ last, (paramNames args).getLast? = some last → ¬furtherMark <+: last) ∧
      parseParams args = ⟨(paramNames args).map String.ofList, none⟩ := by
  unfold parseParams
  dsimp only
  split
  next rest hlast =>
    obtain ⟨front, hfront⟩ := List.getLast?_eq_some_iff.1 hlast
    exact .inl ⟨front, rest, hfront, by rw [hfront, List.dropLast_concat]⟩
  next hplain =>
    refine .inr ⟨?_, rfl⟩
    rintro last hlast ⟨rest, rfl⟩
    exact hplain rest hlast

theorem normal_parseParams (args : List Char) : (parseParams args).Normal := by
  have hnames : ∀ cs ∈ paramNames args, Parameter cs := fun _ => parameter_of_mem_paramNames
  have hofList : ∀ {names : List (List Char)}, (∀ cs ∈ names, Parameter cs) →
      ∀ s ∈ names.map String.ofList, Parameter s.toList := by
    intro names h s hs
    obtain ⟨cs, hcs, rfl⟩ := List.mem_map.1 hs
    rw [String.toList_ofList]
    exact h cs hcs
  obtain ⟨front, rest, hfront, hparams⟩ | ⟨hlast, hparams⟩ := parseParams_cases args
  · rw [hfront, List.forall_mem_append, List.forall_mem_singleton] at hnames
    have hcomma : ',' ∉ rest := fun h => hnames.2.comma (List.mem_append_right _ h)
    rw [hparams]
    refine ⟨hofList hnames.1, fun s hs => ?_, fun hnone _ _ => by cases hnone⟩
    cases hs
    rw [String.toList_ofList]
    exact ⟨fun h => hcomma ((trimWhere_isInfix _ _).mem h), trimmed_trimWhere rest⟩
  · rw [hparams]
    refine ⟨hofList hnames, fun s hs => (by cases hs), fun _ s hs => ?_⟩
    rw [List.getLast?_map] at hs
    obtain ⟨cs, hcs, rfl⟩ := Option.map_eq_some_iff.1 hs
    rw [String.toList_ofList]
    exact hlast cs hcs

/-! ## What parameter lists hold -/

/-- The characters of a parameter list other than commas and blanks. -/
def substance (cs : List Char) : List Char :=
  cs.filter fun c => !isBlank c && c != ','

theorem substance_append (xs ys : List Char) :
    substance (xs ++ ys) = substance xs ++ substance ys :=
  List.filter_append ..

theorem substance_trimWhere (cs : List Char) : substance (trimWhere isBlank cs) = substance cs :=
  filter_trimWhere (fun c hc => by simp [hc]) cs

theorem flatten_map_substance (pieces : List (List Char)) :
    (pieces.map substance).flatten = substance pieces.flatten :=
  List.filter_flatten.symm

theorem substance_intercalate (pieces : List (List Char)) :
    substance ([',', ' '].intercalate pieces) = (pieces.map substance).flatten := by
  have hseparator : substance [',', ' '] = [] := by decide
  induction pieces with
  | nil => rfl
  | cons cs pieces ih =>
    cases pieces with
    | nil => simp
    | cons next others =>
      rw [List.intercalate_cons_cons, substance_append, substance_append, hseparator, ih,
        List.append_nil]
      rfl

/-- Cutting, trimming and leaving out what is empty lose commas and blanks only. -/
theorem substance_paramNames (args : List Char) :
    ((paramNames args).map substance).flatten = substance args := by
  have htrimmed : ∀ pieces : List (List Char),
      (pieces.map (trimWhere isBlank)).map substance = pieces.map substance := by
    intro pieces
    rw [List.map_map]
    exact List.map_congr_left fun cs _ => substance_trimWhere cs
  rw [flatten_map_substance, paramNames, List.flatten_filter_not_isEmpty,
    ← flatten_map_substance, htrimmed, flatten_map_substance, flatten_cut, substance,
    List.filter_filter, substance]
  exact List.filter_congr fun c _ => by cases isBlank c <;> simp

theorem substance_pieces_parseParams (args : List Char) :
    substance (", ".intercalate (parseParams args).pieces).toList = substance args := by
  have htoList : ∀ names : List (List Char),
      (names.map String.ofList).map String.toList = names := by
    intro names
    rw [List.map_map]
    exact (List.map_congr_left fun s _ => String.toList_ofList).trans (List.map_id names)
  rw [String.toList_intercalate, ← substance_paramNames args]
  show substance ([',', ' '].intercalate _) = _
  rw [substance_intercalate]
  obtain ⟨front, rest, hfront, hparams⟩ | ⟨-, hparams⟩ := parseParams_cases args
  · have hmarked : ("..." ++ String.ofList (trimWhere isBlank rest)).toList =
        furtherMark ++ trimWhere isBlank rest := by
      simp [furtherMark]
    rw [hparams, hfront, Params.pieces, Option.map_some, Option.toList_some, List.map_append,
      htoList, List.map_append, List.map_append, List.map_singleton, List.map_singleton,
      List.map_singleton, hmarked, substance_append, substance_append, substance_trimWhere]
  · rw [hparams, Params.pieces, Option.map_none, Option.toList_none, List.append_nil, htoList]

/-- Every text can be read as a parameter list, and the parameters are in normal form.  Written down
with the mark of the last one and a comma and a blank between them, they are read as the same
parameters again.  All that a list has lost by then are commas and blanks. -/
theorem paramsOfDatum_normalises (args : String) :
    ∃ params, paramsOfDatum (.str args) = .ok params ∧ params.Normal ∧
      paramsOfDatum (.str (", ".intercalate params.pieces)) = .ok params ∧
      substance (", ".intercalate params.pieces).toList = substance args.toList := by
  have hnormal := normal_parseParams args.toList
  refine ⟨parseParams args.toList, paramsOfDatum_str args, hnormal, ?_,
    substance_pieces_parseParams args.toList⟩
  rw [paramsOfDatum_str, hnormal.parseParams]

end Mixin

end Hyperscript
