import Mathlib.Data.Fintype.Basic
import Mathlib.Data.List.Infix
import Hyperscript.Interpolation
import Hyperscript.Mixin
import Hyperscript.Proofs.Tree.WellTyped

/-!
# Texts without the letters of an array

The name of every child array ends in the letters `hild`.  A text without them is *quiet*.  What is
quoted, trimmed, cut into lines or put between brackets stays quiet, so that a script holds these
letters only where an array is used.

To see where the letters can come together, a text is scanned from left to right; all that matters
of what was read is how many of the letters stand at its end.
-/

namespace Hyperscript

/-- The text does not hold these four letters. -/
def Quiet (s : String) : Prop :=
  ¬['h', 'i', 'l', 'd'] <:+: s.toList

/-! ## Scanning -/

/-- Reads a character after `q` of the letters; there is no result once the fourth is read. -/
def follow (q : Fin 4) (c : Char) : Option (Fin 4) :=
  if q = 3 ∧ c = 'd' then none
  else if q = 2 ∧ c = 'l' then some 3
  else if q = 1 ∧ c = 'i' then some 2
  else if c = 'h' then some 1
  else some 0

def scan (q : Fin 4) (cs : List Char) : Option (Fin 4) :=
  cs.foldlM follow q

theorem scan_nil (q : Fin 4) : scan q [] = some q := rfl

theorem scan_cons (q : Fin 4) (c : Char) (cs : List Char) :
    scan q (c :: cs) = follow q c >>= (scan · cs) := by
  rw [scan, List.foldlM_cons]
  rfl

theorem scan_append (q : Fin 4) (xs ys : List Char) :
    scan q (xs ++ ys) = scan q xs >>= (scan · ys) := by
  rw [scan, List.foldlM_append]
  rfl

/-- Scanning fails exactly if the letters come together, with those that were read before. -/
theorem scan_eq_none_iff (cs : List Char) (q : Fin 4) :
    scan q cs = none ↔ ['h', 'i', 'l', 'd'] <:+: ['h', 'i', 'l', 'd'].take q ++ cs := by
  induction cs generalizing q with
  | nil =>
    rw [scan_nil]
    revert q
    decide
  | cons c cs ih =>
    rw [scan_cons]
    unfold follow
    -- after a character that does not fit, nothing that was read before can be part of a match
    match q with
    | 0 =>
      by_cases hh : c = 'h'
      · simp [hh, ih]
      · simp [hh, ih, List.infix_cons_iff, Ne.symm hh]
    | 1 =>
      by_cases hi : c = 'i'
      · simp [hi, ih]
      · by_cases hh : c = 'h'
        · simp [hh, ih, List.infix_cons_iff]
        · simp [hi, hh, ih, List.infix_cons_iff, Ne.symm hi, Ne.symm hh]
    | 2 =>
      by_cases hl : c = 'l'
      · simp [hl, ih]
      · by_cases hh : c = 'h'
        · simp [hh, ih, List.infix_cons_iff]
        · simp [hl, hh, ih, List.infix_cons_iff, Ne.symm hl, Ne.symm hh]
    | 3 =>
      by_cases hd : c = 'd'
      · simp [hd, List.infix_cons_iff]
      · by_cases hh : c = 'h'
        · simp [hh, ih, List.infix_cons_iff]
        · simp [hd, hh, ih, List.infix_cons_iff, Ne.symm hd, Ne.symm hh]

theorem quiet_iff {s : String} : Quiet s ↔ ∃ q, scan 0 s.toList = some q := by
  have hnone := scan_eq_none_iff s.toList 0
  rw [Quiet, ← Option.ne_none_iff_exists', ne_eq, hnone]
  rfl

instance (s : String) : Decidable (Quiet s) :=
  decidable_of_iff ((scan 0 s.toList).isSome = true) (by
    rw [quiet_iff, Option.isSome_iff_exists])

/-- What was read before can only help the letters to come together. -/
theorem scan_eq_none_of_zero {cs : List Char} (h : scan 0 cs = none) (q : Fin 4) :
    scan q cs = none := by
  rw [scan_eq_none_iff] at h ⊢
  exact h.trans (List.suffix_append _ _).isInfix

/-- The letters cannot come together across this text, nor within it. -/
def Wall (s : String) : Prop :=
  ∀ q, scan q s.toList = some 0

instance (s : String) : Decidable (Wall s) :=
  inferInstanceAs (Decidable (∀ q, scan q s.toList = some 0))

section Quiet

variable {a b s : String}

theorem Wall.quiet (h : Wall a) : Quiet a :=
  quiet_iff.2 ⟨0, h 0⟩

theorem Wall.append (ha : Wall a) (hb : Wall b) : Wall (a ++ b) := by
  intro q
  rw [String.toList_append, scan_append, ha q]
  exact hb 0

theorem Wall.append_quiet (ha : Wall a) (hs : Quiet s) : Quiet (a ++ s) := by
  obtain ⟨q, hq⟩ := quiet_iff.1 hs
  refine quiet_iff.2 ⟨q, ?_⟩
  rw [String.toList_append, scan_append, ha 0]
  exact hq

theorem Quiet.append_wall (hs : Quiet s) (hb : Wall b) : Quiet (s ++ b) := by
  obtain ⟨q, hq⟩ := quiet_iff.1 hs
  refine quiet_iff.2 ⟨0, ?_⟩
  rw [String.toList_append, scan_append, hq]
  exact hb q

/-- A quiet text between walls. -/
theorem Wall.wrap (ha : Wall a) (hs : Quiet s) (hb : Wall b) : Wall (a ++ s ++ b) := by
  intro q
  obtain ⟨r, hr⟩ := quiet_iff.1 hs
  rw [String.toList_append, String.toList_append, scan_append, scan_append, ha q]
  show scan 0 s.toList >>= (scan · b.toList) = some 0
  rw [hr]
  exact hb r

/-- Quiet texts on both sides of a wall. -/
theorem Quiet.join (ha : Quiet a) (hb : Wall b) (hs : Quiet s) : Quiet (a ++ b ++ s) := by
  obtain ⟨q, hq⟩ := quiet_iff.1 ha
  obtain ⟨r, hr⟩ := quiet_iff.1 hs
  refine quiet_iff.2 ⟨r, ?_⟩
  rw [String.toList_append, String.toList_append, scan_append, scan_append, hq]
  show scan q b.toList >>= (scan · s.toList) = some r
  rw [hb q]
  exact hr

theorem Quiet.of_isInfix (hs : Quiet s) {cs : List Char} (h : cs <:+: s.toList) :
    Quiet (String.ofList cs) := by
  intro hmem
  rw [String.toList_ofList] at hmem
  exact hs (hmem.trans h)

theorem quiet_intercalate {sep : String} (hsep : Wall sep) {texts : List String}
    (h : ∀ text ∈ texts, Quiet text) : Quiet (sep.intercalate texts) := by
  induction texts with
  | nil =>
    rw [String.intercalate_nil]
    exact quiet_iff.2 ⟨0, rfl⟩
  | cons text texts ih =>
    have hfirst := h text (List.mem_cons_self ..)
    have hothers := ih fun other hmem => h other (List.mem_cons_of_mem text hmem)
    cases texts with
    | nil => simpa using hfirst
    | cons next texts =>
      rw [String.intercalate_cons_cons]
      exact hfirst.join hsep hothers

end Quiet

/-! ## Quoting -/

/-- A spelling keeps the character, or puts a wall in place of one that is not among the letters. -/
def KeepsQuiet (c : Char) (spelling : List Char) : Prop :=
  spelling = [c] ∨ ∀ q, follow q c = some 0 ∧ scan q spelling = some 0

theorem scan_flatMap {spell : Char → List Char} (h : ∀ c, KeepsQuiet c (spell c)) (q : Fin 4)
    (cs : List Char) : scan q (cs.flatMap spell) = scan q cs := by
  induction cs generalizing q with
  | nil => rfl
  | cons c cs ih =>
    rw [List.flatMap_cons, scan_append, scan_cons]
    rcases h c with hc | hc
    · rw [hc, scan_cons]
      cases follow q c with
      | none => rfl
      | some r => exact ih r
    · rw [(hc q).1, (hc q).2]
      exact ih 0

theorem keepsQuiet_ite {c d : Char} {escape spelling : List Char}
    (hd : ∀ q, follow q d = some 0 ∧ scan q escape = some 0) (h : KeepsQuiet c spelling) :
    KeepsQuiet c (if c = d then escape else spelling) := by
  by_cases hcd : c = d
  · rw [if_pos hcd, hcd]
    exact .inr hd
  · rw [if_neg hcd]
    exact h

theorem follow_eq_zero {c : Char} (hh : c ≠ 'h') (hi : c ≠ 'i') (hl : c ≠ 'l') (hd : c ≠ 'd')
    (q : Fin 4) : follow q c = some 0 := by
  simp [follow, hh, hi, hl, hd]

theorem follow_zero {c : Char} (hh : c ≠ 'h') : follow 0 c = some 0 := by
  simp [follow, hh]

theorem digitChar_ne_h : ∀ n : Fin 16, Nat.digitChar n ≠ 'h' := by
  decide

theorem scan_hexDigits (width n : Nat) : scan 0 (Text.hexDigits width n) = some 0 := by
  induction width generalizing n with
  | zero => rfl
  | succ width ih =>
    have hdigit := digitChar_ne_h ⟨n % 16, Nat.mod_lt n (by decide)⟩
    rw [Text.hexDigits, scan_append, ih, Option.bind_eq_bind, Option.bind_some, scan_cons,
      follow_zero hdigit]
    rfl

theorem scan_escapeUnit (q : Fin 4) (n : Nat) : scan q (Text.escapeUnit n) = some 0 := by
  have hstart : scan q ['\\', 'u'] = some 0 := by
    revert q
    decide
  show scan q (['\\', 'u'] ++ Text.hexDigits 4 n) = some 0
  rw [scan_append, hstart]
  exact scan_hexDigits 4 n

theorem scan_escapeUnit_append (q : Fin 4) (n m : Nat) :
    scan q (Text.escapeUnit n ++ Text.escapeUnit m) = some 0 := by
  rw [scan_append, scan_escapeUnit]
  exact scan_escapeUnit 0 m

/-- A character that is not among the printable ones of ASCII. -/
theorem follow_of_toNat {c : Char} (h : c.toNat < 0x20 ∨ 0x7F ≤ c.toNat) (q : Fin 4) :
    follow q c = some 0 := by
  have hne : ∀ d : Char, 0x20 ≤ d.toNat → d.toNat < 0x7F → c ≠ d := by
    intro d hlow hhigh hcd
    subst hcd
    omega
  exact follow_eq_zero (hne _ (by decide) (by decide)) (hne _ (by decide) (by decide))
    (hne _ (by decide) (by decide)) (hne _ (by decide) (by decide)) q

theorem keepsQuiet_encodeChar (c : Char) : KeepsQuiet c (Text.encodeChar c) := by
  unfold Text.encodeChar
  -- first the characters with an escape of their own
  refine keepsQuiet_ite (by decide) (keepsQuiet_ite (by decide) (keepsQuiet_ite (by decide)
    (keepsQuiet_ite (by decide) (keepsQuiet_ite (by decide) (keepsQuiet_ite (by decide)
      (keepsQuiet_ite (by decide) ?_))))))
  by_cases hlow : c.toNat < 0x20
  · rw [if_pos hlow]
    exact .inr fun q => ⟨follow_of_toNat (.inl hlow) q, scan_escapeUnit q _⟩
  · rw [if_neg hlow]
    by_cases hhigh : c.toNat < 0x7F
    · rw [if_pos hhigh]
      exact .inl rfl
    · rw [if_neg hhigh]
      refine .inr fun q => ⟨follow_of_toNat (.inr (by omega)) q, ?_⟩
      by_cases hplane : c.toNat < 0x10000
      · rw [if_pos hplane]
        exact scan_escapeUnit q _
      · rw [if_neg hplane]
        exact scan_escapeUnit_append q _ _

theorem keepsQuiet_encodeNameChar (c : Char) : KeepsQuiet c (Text.encodeNameChar c) := by
  unfold Text.encodeNameChar
  exact keepsQuiet_ite (by decide) (keepsQuiet_ite (by decide) (.inl rfl))

/-- A quoted text is a wall, if it is quiet. -/
theorem wall_quoted {quote : Char} {spell : Char → List Char} (h : ∀ c, KeepsQuiet c (spell c))
    (hquote : ∀ q, follow q quote = some 0) {s : String} (hs : Quiet s) :
    Wall (String.ofList (quote :: s.toList.flatMap spell ++ [quote])) := by
  intro q
  obtain ⟨r, hr⟩ := quiet_iff.1 hs
  rw [String.toList_ofList, List.cons_append, scan_cons, hquote]
  show scan 0 (s.toList.flatMap spell ++ [quote]) = some 0
  rw [scan_append, scan_flatMap h, hr]
  show scan r [quote] = some 0
  rw [scan_cons, hquote]
  rfl

theorem wall_literal {s : String} (hs : Quiet s) : Wall (Text.literal s) :=
  wall_quoted keepsQuiet_encodeChar (by decide) hs

theorem wall_nameLiteral {s : String} (hs : Quiet s) : Wall (Text.nameLiteral s) :=
  wall_quoted keepsQuiet_encodeNameChar (by decide) hs

/-! ## Trimming, cutting and joining -/

theorem trimWhere_isInfix (p : Char → Bool) (cs : List Char) : Text.trimWhere p cs <:+: cs := by
  have hfront : cs.dropWhile p <:+: cs := (List.dropWhile_suffix p).isInfix
  have hback : ((cs.dropWhile p).reverse.dropWhile p).reverse <:+: cs.dropWhile p := by
    rw [← List.reverse_infix, List.reverse_reverse]
    exact (List.dropWhile_suffix p).isInfix
  exact hback.trans hfront

theorem quiet_trim {s : String} (hs : Quiet s) : Quiet (Text.trim s) :=
  hs.of_isInfix (trimWhere_isInfix _ _)

theorem cut_isInfix (sep : Char) (cs : List Char) :
    ∃ first others, Text.cut sep cs = first :: others ∧ first <+: cs ∧
      ∀ piece ∈ others, piece <:+: cs := by
  induction cs with
  | nil => exact ⟨[], [], rfl, List.prefix_rfl, by simp⟩
  | cons c cs ih =>
    obtain ⟨first, others, hcut, hfirst, hothers⟩ := ih
    have hsuffix : cs <:+: c :: cs := (List.suffix_cons c cs).isInfix
    by_cases hc : c = sep
    · refine ⟨[], first :: others, by rw [Text.cut, if_pos hc, hcut], List.nil_prefix, ?_⟩
      intro piece hpiece
      rcases List.mem_cons.1 hpiece with rfl | hpiece
      · exact hfirst.isInfix.trans hsuffix
      · exact (hothers piece hpiece).trans hsuffix
    · refine ⟨c :: first, others, by rw [Text.cut, if_neg hc, hcut],
        List.cons_prefix_cons.2 ⟨rfl, hfirst⟩, ?_⟩
      intro piece hpiece
      exact (hothers piece hpiece).trans hsuffix

theorem codeLines_isInfix {code line : String} (hline : line ∈ Text.codeLines code) :
    line.toList <:+: code.toList := by
  rw [Text.codeLines, List.mem_map] at hline
  obtain ⟨piece, hpiece, rfl⟩ := hline
  obtain ⟨first, others, hcut, hfirst, hothers⟩ :=
    cut_isInfix '\n' (Text.trimWhere (· == '\n') code.toList)
  rw [hcut] at hpiece
  have hpart : piece <:+: Text.trimWhere (· == '\n') code.toList := by
    rcases List.mem_cons.1 hpiece with rfl | hpiece
    · exact hfirst.isInfix
    · exact hothers piece hpiece
  rw [String.toList_ofList]
  exact hpart.trans (trimWhere_isInfix _ _)

theorem quiet_codeLines {code : String} (hcode : Quiet code) :
    ∀ line ∈ Text.codeLines code, Quiet line :=
  fun _ hline hletters => hcode (hletters.trans (codeLines_isInfix hline))

theorem quiet_toString (n : Nat) : Quiet (toString n) := by
  intro hmem
  have hdigits : (toString n).toList = Nat.toDigits 10 n := String.toList_ofList
  rw [hdigits] at hmem
  have hh : 'h' ∈ Nat.toDigits 10 n := hmem.subset (by simp)
  exact absurd (Nat.isDigit_of_mem_toDigits (by decide) (by decide) hh) (by decide)

theorem follow_toUpper {d : Char} (h : 'a' ≤ d ∧ d ≤ 'z') (q : Fin 4) :
    follow q d.toUpper = some 0 := by
  have hall : ∀ (n : Fin 26) (q : Fin 4), follow q (Char.ofNat (97 + n)).toUpper = some 0 := by
    decide
  have hlow : 97 ≤ d.toNat := h.1
  have hhigh : d.toNat ≤ 122 := h.2
  have hd := hall ⟨d.toNat - 97, by omega⟩ q
  have hsum : 97 + (d.toNat - 97) = d.toNat := by omega
  rwa [hsum, Char.ofNat_toNat] at hd

/-- Capitals in place of dashes bring no letters together. -/
theorem scan_camelCase {cs : List Char} {q : Fin 4} (h : scan q (Attribute.camelCase cs) = none) :
    scan q cs = none := by
  fun_induction Attribute.camelCase cs generalizing q with
  | case1 => exact h
  | case2 c => exact h
  | case3 c d rest hdash ih =>
    -- the capital starts again, where the dash and the letter may have got further
    rw [scan_cons, follow_toUpper hdash.2] at h
    have hrest := ih h
    have hdashes : follow q c = some 0 := by
      rw [hdash.1]
      exact follow_eq_zero (by decide) (by decide) (by decide) (by decide) q
    rw [scan_cons, hdashes]
    show scan 0 (d :: rest) = none
    rw [scan_cons]
    cases follow 0 d with
    | none => rfl
    | some r => exact scan_eq_none_of_zero hrest r
  | case4 c d rest hdash ih =>
    rw [scan_cons] at h ⊢
    cases hc : follow q c with
    | none => rfl
    | some r =>
      rw [hc] at h
      exact ih h

theorem quiet_datasetKey {name : String} (h : Quiet name) : Quiet (Attribute.datasetKey name) := by
  have hdrop : Quiet (String.ofList (name.toList.drop 5)) :=
    h.of_isInfix (List.drop_suffix 5 _).isInfix
  obtain ⟨q, hq⟩ := quiet_iff.1 hdrop
  rw [String.toList_ofList] at hq
  rw [Attribute.datasetKey, quiet_iff, String.toList_ofList, ← Option.ne_none_iff_exists']
  intro hnone
  rw [scan_camelCase hnone] at hq
  cases hq

/-! ## Attributes and names -/

/-- A tag is a constructor of that name, or it is written as a literal. -/
theorem tagCode_cases {options : Options} {name tag : String}
    (h : tagCode options (.str name) = .ok tag) :
    (isConstructorName name = true ∧ tag = name ++ ".tagName") ∨ tag = Text.literal name := by
  unfold tagCode at h
  by_cases hc : options.capitalConstructors.isTrue = true
  · by_cases hn : isConstructorName name = true
    · simp [hc, hn, Datum.searchable, bind, Except.bind, pure, Except.pure] at h
      exact .inl ⟨hn, h.symm⟩
    · simp [hc, hn, Datum.searchable, bind, Except.bind] at h
      exact .inr h.symm
  · simp [hc] at h
    exact .inr h.symm

theorem quiet_tagCode {options : Options} {name tag : String} (hname : Quiet name)
    (h : tagCode options (.str name) = .ok tag) : Quiet tag := by
  rcases tagCode_cases h with ⟨-, rfl⟩ | rfl
  · exact hname.append_wall (by decide)
  · exact (wall_literal hname).quiet

theorem quiet_reference {name : String} (h : Quiet name) : Quiet (Mixin.reference name) := by
  have hhead : Wall (Mixin.table ++ "[") := by decide
  exact ((hhead.append (wall_nameLiteral h)).append (by decide)).quiet

/-! ## Spans -/

/-- The spans of a text, in order. -/
def Interpolated.spans (t : Interpolated) : List Span :=
  t.tail.map Prod.fst

theorem Interpolated.spans_joinFrom (head : List Char) (next : Interpolated)
    (tail : List (Span × List Char)) :
    (joinFrom head next tail).spans = tail.map Prod.fst ++ next.spans := by
  induction tail generalizing head with
  | nil => rfl
  | cons part tail ih =>
    show part.1 :: (joinFrom part.2 next tail).spans = _
    rw [ih]
    rfl

/-- A span is cut out of the text. -/
theorem Interpolated.span_isInfix_split (cs : List Char) :
    ∀ span ∈ (split cs).spans, span.expr.toList <:+: cs := by
  fun_induction split cs with
  | case1 => nofun
  | case2 mark rest hmark ih =>
    intro span hspan
    exact (ih span hspan).trans (List.suffix_append ['\\', mark, '\x7b'] rest).isInfix
  | case3 mark rest hmark ih =>
    intro span hspan
    exact (ih span hspan).trans (List.suffix_cons _ _).isInfix
  | case4 => nofun
  | case5 mark rest _ hmark inside after hclose hlt expr hempty ih =>
    intro span hspan
    have hafter : after <:+: mark :: '\x7b' :: rest := by
      rw [Interpolation.eq_append_of_closeSpan hclose]
      exact ⟨mark :: '\x7b' :: inside ++ ['\x7d'], [], by simp⟩
    exact (ih span hspan).trans hafter
  | case6 mark rest _ hmark inside after hclose hlt expr hempty ih =>
    have hrest := Interpolation.eq_append_of_closeSpan hclose
    intro span hspan
    rcases List.mem_cons.1 hspan with rfl | hspan
    · have hinside : inside <:+: mark :: '\x7b' :: rest :=
        ⟨[mark, '\x7b'], '\x7d' :: after, by simp [hrest]⟩
      rw [String.toList_ofList]
      exact (trimWhere_isInfix _ inside).trans hinside
    · have hafter : after <:+: mark :: '\x7b' :: rest :=
        ⟨mark :: '\x7b' :: inside ++ ['\x7d'], [], by simp [hrest]⟩
      exact (ih span hspan).trans hafter
  | case7 mark rest _ hmark ih =>
    intro span hspan
    exact (ih span hspan).trans (List.suffix_cons _ _).isInfix
  | case8 c rest _ _ ih =>
    intro span hspan
    exact (ih span hspan).trans (List.suffix_cons _ _).isInfix

theorem Interpolated.spans_ofLines (texts : List (List Char)) :
    (ofLines texts).spans = texts.flatMap fun text => (split text).spans := by
  induction texts with
  | nil => rfl
  | cons text texts ih =>
    cases texts with
    | nil => simp [ofLines]
    | cons next texts =>
      have hjoin : (ofLines (text :: next :: texts)).spans =
          (split text).spans ++ (ofLines (next :: texts)).spans := spans_joinFrom ..
      simp [hjoin, ih]

theorem Interpolated.span_isInfix_ofLines (texts : List (List Char)) :
    ∀ span ∈ (ofLines texts).spans, ∃ text ∈ texts, span.expr.toList <:+: text := by
  intro span hspan
  rw [spans_ofLines, List.mem_flatMap] at hspan
  obtain ⟨text, htext, hspan⟩ := hspan
  exact ⟨text, htext, span_isInfix_split text span hspan⟩

/-- What the spans of adjacent texts hold is written in these texts. -/
theorem quiet_spans {texts : List String} (h : ∀ s ∈ texts, Quiet s) :
    ∀ span ∈ (Interpolated.ofLines (texts.map String.toList)).spans, Quiet span.expr := by
  intro span hspan
  obtain ⟨cs, hcs, hpart⟩ := Interpolated.span_isInfix_ofLines _ span hspan
  obtain ⟨s, hs, rfl⟩ := List.mem_map.1 hcs
  intro hletters
  exact h s hs (hletters.trans hpart)

/-! ## Slots of nodes -/

/-- The texts that a datum holds. -/
def Datum.texts : Datum → List String
  | .str s => [s]
  | .list items => items.filterMap fun
    | .str s => some s
    | _ => none
  | _ => []

theorem Datum.texts_list_str (texts : List String) :
    (Datum.list (texts.map .str)).texts = texts := by
  simp [Datum.texts, List.filterMap_map]

def AttributeEntry.texts : AttributeEntry → List String
  | .attr a => a.name.texts ++ a.value.texts
  | .datum d => d.texts

def AttributeSlot.texts : AttributeSlot → List String
  | .list entries => entries.flatMap AttributeEntry.texts
  | .datum d => d.texts

def Attributes.texts (a : Attributes) : List String :=
  a.entries.texts ++ a.blocks.texts

theorem quiet_valueCode {a : Attribute} (h : a.WellTyped) (hquiet : ∀ s ∈ a.value.texts, Quiet s)
    {value : String} (hvalue : a.valueCode = .ok value) : Quiet value := by
  unfold Attribute.valueCode at hvalue
  rcases h.value with ⟨b, hb⟩ | ⟨s, hs⟩
  · rw [hb] at hvalue
    cases hvalue
    cases b
    · show Quiet "false"
      decide
    · show Quiet "true"
      decide
  · have hquiet : Quiet s := hquiet s (by simp [hs, Datum.texts])
    rw [hs] at hvalue
    cases hvalue
    by_cases hdynamic : a.dynamic.isTrue = true
    · rw [if_pos hdynamic]
      exact (Wall.wrap (by decide) hquiet (by decide)).quiet
    · rw [if_neg hdynamic]
      exact (wall_literal hquiet).quiet

/-- A property has a literal for its key. -/
theorem Attribute.code_of_property {a : Attribute} {name : String} (hname : a.name = .str name)
    {options : Options} {p : Property} (hp : a.property options = .ok p) :
    ∃ key value, (key = name ∨ key = "className" ∨ key = datasetKey name) ∧
      a.valueCode = .ok value ∧ p.code = Text.literal key ++ ": " ++ value := by
  obtain ⟨value, hvalue, rfl⟩ := (property_eq_ok_iff hname).1 hp
  split
  · exact ⟨datasetKey name, value, .inr (.inr rfl), hvalue, rfl⟩
  · refine ⟨if name = "class" then "className" else name, value, ?_, hvalue, rfl⟩
    split
    · exact .inr (.inl rfl)
    · exact .inl rfl

theorem quiet_property {a : Attribute} (h : a.WellTyped)
    (hquiet : ∀ s ∈ AttributeEntry.texts (.attr a), Quiet s) {options : Options} {p : Property}
    (hp : a.property options = .ok p) : Quiet p.code := by
  obtain ⟨name, hname⟩ := h.name
  have hq : Quiet name := hquiet name (by simp [AttributeEntry.texts, hname, Datum.texts])
  obtain ⟨key, value, hkey, hvalue, hcode⟩ := Attribute.code_of_property hname hp
  have hk : Quiet key := by
    rcases hkey with rfl | rfl | rfl
    · exact hq
    · decide
    · exact quiet_datasetKey hq
  have hv : Quiet value := quiet_valueCode h
    (fun s hs => hquiet s (List.mem_append_right _ hs)) hvalue
  rw [hcode]
  exact (wall_literal hk).quiet.join (by decide) hv

/-- The members of a list that was gone through without a fault. -/
theorem exists_of_mem_mapM {α β : Type} {f : α → Except Fault β} {l : List α} {bs : List β}
    (h : l.mapM f = .ok bs) : ∀ b ∈ bs, ∃ a ∈ l, f a = .ok b := by
  induction l generalizing bs with
  | nil =>
    cases h
    intro b hb
    exact absurd hb List.not_mem_nil
  | cons a l ih =>
    rw [List.mapM_cons] at h
    cases ha : f a with
    | error fault =>
      rw [ha] at h
      cases h
    | ok b =>
      cases hl : l.mapM f with
      | error fault =>
        rw [ha, hl] at h
        cases h
      | ok others =>
        rw [ha, hl] at h
        cases h
        intro c hc
        rcases List.mem_cons.1 hc with rfl | hc
        · exact ⟨a, List.mem_cons_self .., ha⟩
        · obtain ⟨x, hx, hfx⟩ := ih hl c hc
          exact ⟨x, List.mem_cons_of_mem a hx, hfx⟩

theorem quiet_object {entries : List String} (h : ∀ entry ∈ entries, Quiet entry) :
    Quiet (Property.object entries) :=
  (Wall.wrap (by decide) (quiet_intercalate (by decide) h) (by decide)).quiet

/-- The entries of a property object are its properties, apart from the dataset, which has its
properties in an object of their own. -/
theorem Property.forall_entries {P : String → Prop} {properties : List Property}
    (h : ∀ p ∈ properties, P p.code)
    (hdataset : ∀ entries : List String, (∀ entry ∈ entries, P entry) →
      P (Text.literal "dataset" ++ ": " ++ object entries)) :
    ∀ entry ∈ Property.entries properties, P entry := by
  have hcodes : ∀ {some : List Property}, (∀ p ∈ some, p ∈ properties) →
      ∀ entry ∈ some.map Property.code, P entry := by
    intro some hsome entry hentry
    obtain ⟨p, hp, rfl⟩ := List.mem_map.1 hentry
    exact h p (hsome p hp)
  have hbefore := hcodes fun p hp => (List.takeWhile_prefix (fun p => !p.data)).subset hp
  have hafter : ∀ (keep : Property → Bool), ∀ entry ∈
      ((properties.dropWhile fun p => !p.data).filter keep).map Property.code, P entry :=
    fun keep => hcodes fun p hp =>
      (List.dropWhile_suffix fun p => !p.data).subset (List.mem_filter.1 hp).1
  intro entry hentry
  rw [Property.entries_eq] at hentry
  dsimp only at hentry
  split at hentry
  · exact hbefore entry hentry
  · simp only [List.mem_append, List.mem_singleton] at hentry
    -- before the dataset, the dataset itself, and after it
    rcases hentry with (hentry | rfl) | hentry
    · exact hbefore entry hentry
    · exact hdataset _ (hafter _)
    · exact hafter _ entry hentry

/-- The object of attributes holds the properties of these attributes. -/
theorem AttributeSlot.exists_of_object {attributes : List Attribute} {options : Options}
    {object : String} (h : (list (attributes.map .attr)).object options = .ok object) :
    ∃ properties, object = Property.object (Property.entries properties) ∧
      ∀ p ∈ properties, ∃ a ∈ attributes, a.property options = .ok p := by
  unfold AttributeSlot.object AttributeSlot.items at h
  cases hp : (attributes.map AttributeEntry.attr).mapM fun e => e.property options with
  | error fault =>
    simp only [bind, Except.bind, hp] at h
    cases h
  | ok properties =>
    simp only [bind, Except.bind, hp] at h
    cases h
    refine ⟨properties, rfl, fun p hmem => ?_⟩
    obtain ⟨entry, hentry, hproperty⟩ := exists_of_mem_mapM hp p hmem
    obtain ⟨a, ha, rfl⟩ := List.mem_map.1 hentry
    exact ⟨a, ha, hproperty⟩

theorem quiet_attributeObject {attributes : List Attribute} (h : ∀ a ∈ attributes, a.WellTyped)
    (hquiet : ∀ s ∈ (AttributeSlot.list (attributes.map .attr)).texts, Quiet s) {options : Options}
    {object : String}
    (hobject : (AttributeSlot.list (attributes.map .attr)).object options = .ok object) :
    Quiet object := by
  obtain ⟨properties, rfl, hproperties⟩ := AttributeSlot.exists_of_object hobject
  refine quiet_object (Property.forall_entries (fun p hmem => ?_) fun entries hentries => ?_)
  · obtain ⟨a, ha, hproperty⟩ := hproperties p hmem
    have htexts : ∀ s ∈ AttributeEntry.texts (.attr a), Quiet s := fun s hs =>
      hquiet s (List.mem_flatMap.2 ⟨_, List.mem_map_of_mem ha, hs⟩)
    exact quiet_property (h a ha) htexts hproperty
  · have hkey : Quiet "dataset" := by decide
    exact (wall_literal hkey).quiet.join (by decide) (quiet_object hentries)

/-- The blocks are assigned over the object, in their order. -/
theorem quiet_assigned {object : String} {blocks : List String} (hobject : Quiet object)
    (hblocks : ∀ block ∈ blocks, Quiet block) :
    Quiet ("Object.assign(\x7b\x7d, " ++ object ++ ", " ++
      ", ".intercalate (blocks.map fun block => "(" ++ block ++ ")") ++ ")") := by
  have hentries : ∀ entry ∈ blocks.map (fun block => "(" ++ block ++ ")"), Quiet entry := by
    intro entry hentry
    obtain ⟨block, hblock, rfl⟩ := List.mem_map.1 hentry
    exact (Wall.wrap (by decide) (hblocks block hblock) (by decide)).quiet
  have hfirst : Quiet ("Object.assign(\x7b\x7d, " ++ object) :=
    Wall.append_quiet (by decide) hobject
  have hall := hfirst.join (show Wall ", " by decide)
    (quiet_intercalate (show Wall ", " by decide) hentries)
  exact hall.append_wall (by decide)

/-- What the expression of attributes is, if there is one. -/
theorem attributesCode_cases {entries : AttributeSlot} {blocks : List String} {options : Options}
    {code : String}
    (h : Attributes.code? options ⟨entries, .list (blocks.map .str)⟩ = .ok (some code)) :
    ∃ object, entries.object options = .ok object ∧ (code = object ∨
      code = "Object.assign(\x7b\x7d, " ++ object ++ ", " ++
        ", ".intercalate (blocks.map fun block => "(" ++ block ++ ")") ++ ")") := by
  unfold Attributes.code? at h
  simp only [bind, Except.bind, Datum.items] at h
  split at h
  · cases h
  · cases hobject : entries.object options with
    | error fault =>
      rw [hobject] at h
      cases h
    | ok object =>
      refine ⟨object, rfl, ?_⟩
      rw [hobject] at h
      dsimp only at h
      split at h
      · cases h
        exact .inl rfl
      · rw [Attributes.mapM_blockCode_str] at h
        cases h
        exact .inr rfl

/-- The expression of quiet attributes. -/
theorem quiet_attributes {a : Attributes} (h : a.WellTyped) (hquiet : ∀ s ∈ a.texts, Quiet s)
    {options : Options} {code : String} (hcode : a.code? options = .ok (some code)) :
    Quiet code := by
  obtain ⟨attributes, blocks, h⟩ := h
  obtain ⟨object, hobject, hcases⟩ := attributesCode_cases hcode
  have hobject : Quiet object :=
    quiet_attributeObject h (fun s hs => hquiet s (List.mem_append_left _ hs)) hobject
  have hblocks : ∀ block ∈ blocks, Quiet block := by
    intro block hblock
    apply hquiet block
    apply List.mem_append_right
    show block ∈ (Datum.list (blocks.map .str)).texts
    rw [Datum.texts_list_str]
    exact hblock
  rcases hcases with rfl | rfl
  · exact hobject
  · exact quiet_assigned hobject hblocks

/-- The texts in the slots of a node. -/
def Node.texts : Node → List String
  | tag name attributes _ => name.texts ++ attributes.texts
  | text value => value.texts
  | code value _ _ => value.texts
  | comment value _ => value.texts
  | conditional test _ _ => test.texts
  | branch expr _ => expr.texts
  | switch expr _ => expr.texts
  | each obj val key _ _ => obj.texts ++ val.texts ++ key.texts
  | loop test _ => test.texts
  | mixin name params rest _ => name.texts ++ params.texts ++ rest.texts
  | call name args attributes _ => name.texts ++ args.texts ++ attributes.texts
  | placeholder | other _ => []

/-- No text of the node holds the letters of an array. -/
def Node.TextsQuiet (n : Node) : Prop :=
  ∀ s ∈ n.texts, Quiet s

instance (n : Node) : Decidable n.TextsQuiet :=
  inferInstanceAs (Decidable (∀ s ∈ n.texts, Quiet s))

end Hyperscript
