import Mathlib
import Hyperscript.Attribute
import Hyperscript.Proofs.Literals

/-!
# Keys of data attributes

In the `dataset` a data attribute goes by the rest of its name in camel case: a dash and the small
letter behind it become one capital letter.  `dashCase` is the way back.  The two undo each other
between the texts without a capital letter and the texts without a dash before a small letter, so
that data attributes whose names have no capital letters never meet in the `dataset`.
-/

namespace Hyperscript

namespace Attribute

/-- No character is a capital letter from `A` to `Z`. -/
def CapitalFree (cs : List Char) : Prop :=
  ∀ c ∈ cs, c.isUpper = false

instance (cs : List Char) : Decidable (CapitalFree cs) :=
  List.decidableBAll (fun c : Char => c.isUpper = false) cs

/-- A dash, and a letter from `a` to `z` behind it. -/
def DashedLetter (c d : Char) : Prop :=
  c = '-' ∧ d.isLower = true

/-- No letter from `a` to `z` stands behind a dash. -/
def NoDashedLetter (cs : List Char) : Prop :=
  cs.IsChain fun c d => ¬DashedLetter c d

/-- Every capital letter becomes a dash and the small letter. -/
def dashCase (cs : List Char) : List Char :=
  cs.flatMap fun c => if c.isUpper then ['-', c.toLower] else [c]

/-! ## One step of each -/

section Step

variable {c d : Char} {cs : List Char}

theorem dashedLetter_iff : DashedLetter c d ↔ c = '-' ∧ 'a' ≤ d ∧ d ≤ 'z' := by
  simp [DashedLetter, Char.isLower, Char.le_def]

theorem isUpper_toUpper (h : d.isLower = true) : d.toUpper.isUpper = true := by
  simp [Char.isAlpha, h]

theorem toLower_toUpper (h : d.isLower = true) : d.toUpper.toLower = d := by
  rw [Char.toLower_toUpper_eq_toLower,
    Char.toLower_eq_of_not_isUpper (Char.not_isUpper_of_isLower h)]

theorem toUpper_toLower (h : c.isUpper = true) : c.toLower.toUpper = c := by
  rw [Char.toUpper_toLower_eq_toUpper,
    Char.toUpper_eq_of_not_isLower (Char.not_isLower_of_isUpper h)]

theorem camelCase_dashedLetter (h : DashedLetter c d) :
    camelCase (c :: d :: cs) = d.toUpper :: camelCase cs := by
  rw [camelCase, if_pos (dashedLetter_iff.1 h)]

theorem camelCase_cons (h : ∀ d ∈ cs.head?, ¬DashedLetter c d) :
    camelCase (c :: cs) = c :: camelCase cs := by
  cases cs with
  | nil => rfl
  | cons d cs => rw [camelCase, if_neg (mt dashedLetter_iff.2 (h d rfl))]

theorem dashCase_cons_of_isUpper (h : c.isUpper = true) :
    dashCase (c :: cs) = '-' :: c.toLower :: dashCase cs := by
  simp [dashCase, h]

theorem dashCase_cons (h : c.isUpper = false) : dashCase (c :: cs) = c :: dashCase cs := by
  simp [dashCase, h]

/-- A small letter in front has been there before. -/
theorem mem_head?_of_camelCase (hd : d ∈ (camelCase cs).head?) (hlower : d.isLower = true) :
    d ∈ cs.head? := by
  fun_cases camelCase cs with
  | case1 => exact hd
  | case2 c => exact hd
  | case3 c e rest hdash =>
    rw [camelCase_dashedLetter (dashedLetter_iff.2 hdash)] at hd
    cases hd
    rw [Char.isLower_toUpper_eq_false] at hlower
    cases hlower
  | case4 c e rest hdash =>
    rw [camelCase, if_neg hdash] at hd
    exact hd

theorem mem_head?_of_dashCase (hd : d ∈ (dashCase cs).head?) (hlower : d.isLower = true) :
    d ∈ cs.head? := by
  cases cs with
  | nil => exact hd
  | cons c cs =>
    cases hc : c.isUpper with
    | true =>
      rw [dashCase_cons_of_isUpper hc] at hd
      cases hd
      cases hlower
    | false => rwa [dashCase_cons hc] at hd

end Step

/-! ## Whole texts -/

theorem dashCase_camelCase {cs : List Char} (h : CapitalFree cs) :
    dashCase (camelCase cs) = cs := by
  fun_induction camelCase cs with
  | case1 => rfl
  | case2 c => exact dashCase_cons (h c (List.mem_singleton_self c))
  | case3 c d rest hdash ih =>
    have hd : d.isLower = true := (dashedLetter_iff.2 hdash).2
    have hrest : CapitalFree rest := fun e he =>
      h e (List.mem_cons_of_mem c (List.mem_cons_of_mem d he))
    rw [dashCase_cons_of_isUpper (isUpper_toUpper hd), toLower_toUpper hd, ih hrest, hdash.1]
  | case4 c d rest hdash ih =>
    -- a character that stays is no capital, so it is not taken for a dashed letter
    obtain ⟨hc, hrest⟩ := List.forall_mem_cons.1 h
    rw [dashCase_cons hc, ih hrest]

theorem noDashedLetter_camelCase (cs : List Char) : NoDashedLetter (camelCase cs) := by
  fun_induction camelCase cs with
  | case1 => exact .nil
  | case2 c => exact .singleton c
  | case3 c d rest hdash ih =>
    refine List.IsChain.cons ih fun e _ hdashed => ?_
    have hupper := isUpper_toUpper (dashedLetter_iff.2 hdash).2
    rw [hdashed.1] at hupper
    cases hupper
  | case4 c d rest hdash ih =>
    -- a small letter that comes to stand behind `c` is `d`
    refine List.IsChain.cons ih fun e he hdashed => ?_
    cases mem_head?_of_camelCase he hdashed.2
    exact hdash (dashedLetter_iff.1 hdashed)

theorem camelCase_dashCase {cs : List Char} (h : NoDashedLetter cs) :
    camelCase (dashCase cs) = cs := by
  induction cs with
  | nil => rfl
  | cons c cs ih =>
    obtain ⟨hhead, htail⟩ := List.isChain_cons.1 h
    cases hc : c.isUpper with
    | true =>
      have hdashed : DashedLetter '-' c.toLower := ⟨rfl, by simp [Char.isAlpha, hc]⟩
      rw [dashCase_cons_of_isUpper hc, camelCase_dashedLetter hdashed, toUpper_toLower hc,
        ih htail]
    | false =>
      have hfirst : ∀ d ∈ (dashCase cs).head?, ¬DashedLetter c d := fun d hd hdashed =>
        hhead d (mem_head?_of_dashCase hd hdashed.2) hdashed
      rw [dashCase_cons hc, camelCase_cons hfirst, ih htail]

/-! ## Keys -/

theorem toList_datasetKey (s : String) :
    (datasetKey ("data-" ++ s)).toList = camelCase s.toList := by
  have hdrop : ("data-" ++ s).toList.drop 5 = s.toList := by
    rw [String.toList_append]
    rfl
  rw [datasetKey, hdrop, String.toList_ofList]

theorem dashCase_datasetKey {s : String} (hs : CapitalFree s.toList) :
    dashCase (datasetKey ("data-" ++ s)).toList = s.toList := by
  rw [toList_datasetKey, dashCase_camelCase hs]

/-- The key is the only text that leads back to the name and has no letter behind a dash. -/
theorem eq_datasetKey_iff {s : String} (hs : CapitalFree s.toList) (key : String) :
    key = datasetKey ("data-" ++ s) ↔
      dashCase key.toList = s.toList ∧ NoDashedLetter key.toList := by
  constructor
  · rintro rfl
    refine ⟨dashCase_datasetKey hs, ?_⟩
    rw [toList_datasetKey]
    exact noDashedLetter_camelCase s.toList
  · rintro ⟨hdash, hkey⟩
    rw [← String.toList_inj, toList_datasetKey, ← hdash, camelCase_dashCase hkey]

theorem datasetKey_ne {s t : String} (hs : CapitalFree s.toList) (ht : CapitalFree t.toList)
    (hne : t ≠ s) : datasetKey ("data-" ++ t) ≠ datasetKey ("data-" ++ s) := by
  intro hkey
  refine hne (String.toList_inj.1 ?_)
  rw [← dashCase_datasetKey ht, ← dashCase_datasetKey hs, hkey]

/-- A property of the `dataset` has the literal of the attribute's key for its key. -/
theorem key_of_property {a : Attribute} {name : String} (hname : a.name = .str name)
    {options : Options} {p : Property} (hp : a.property options = .ok p) (hdata : p.data = true) :
    p.key = Text.literal (datasetKey name) := by
  obtain ⟨value, -, rfl⟩ := (property_eq_ok_iff hname).1 hp
  split at hdata
  · next hmarshalled => rw [if_pos hmarshalled]
  · cases hdata

/-- If the name of a data attribute has no capital letters, its key leads back to it: each capital
letter of the key stands for a dash and the small letter.  The key is the only text that does so and
has no letter behind a dash.  Two such names never have the same key, and two such attributes never
the same member of the `dataset`. -/
theorem datasetKey_faithful {s : String} (hs : CapitalFree s.toList) :
    dashCase (datasetKey ("data-" ++ s)).toList = s.toList ∧
    (∀ key, key = datasetKey ("data-" ++ s) ↔
      dashCase key.toList = s.toList ∧ NoDashedLetter key.toList) ∧
    ∀ t : String, CapitalFree t.toList → t ≠ s →
      datasetKey ("data-" ++ t) ≠ datasetKey ("data-" ++ s) ∧
      ∀ (options : Options) (a b : Attribute) (p q : Property),
        a.name = .str ("data-" ++ s) → a.property options = .ok p → p.data = true →
        b.name = .str ("data-" ++ t) → b.property options = .ok q → q.data = true →
        q.key ≠ p.key := by
  refine ⟨dashCase_datasetKey hs, eq_datasetKey_iff hs, fun t ht hne => ?_⟩
  have hkeys := datasetKey_ne hs ht hne
  refine ⟨hkeys, fun options a b p q haname hp hpdata hbname hq hqdata hkey => hkeys ?_⟩
  rw [key_of_property haname hp hpdata, key_of_property hbname hq hqdata] at hkey
  exact Text.literal_injective hkey

/-- A data attribute without a value. -/
def dataFlag (s : String) : Attribute where
  name := .str ("data-" ++ s)
  value := .bool true

/-- Dashes may stand at the start, in a row, before a digit, before a letter outside `a` to `z`, and
at the end. -/
theorem datasetKey_faithful_dashes :
    CapitalFree "-a--b-1-é-".toList ∧ CapitalFree "-a-b-1-é-".toList ∧
    datasetKey ("data-" ++ "-a--b-1-é-") = "A-B-1-é-" ∧
    dashCase "A-B-1-é-".toList = "-a--b-1-é-".toList ∧
    datasetKey ("data-" ++ "-a-b-1-é-") ≠ "A-B-1-é-" ∧
    ∃ p q, (dataFlag "-a--b-1-é-").property {} = .ok p ∧ p.data = true ∧
      (dataFlag "-a-b-1-é-").property {} = .ok q ∧ q.data = true ∧ q.key ≠ p.key := by
  have hs : CapitalFree "-a--b-1-é-".toList := by decide
  have ht : CapitalFree "-a-b-1-é-".toList := by decide
  have hkey : datasetKey ("data-" ++ "-a--b-1-é-") = "A-B-1-é-" := by decide
  obtain ⟨hback, -, hother⟩ := datasetKey_faithful hs
  obtain ⟨hne, hproperties⟩ := hother "-a-b-1-é-" ht (by decide)
  rw [hkey] at hback hne
  exact ⟨hs, ht, hkey, hback, hne, _, _, rfl, rfl, rfl, rfl,
    hproperties {} (dataFlag _) (dataFlag _) _ _ rfl rfl rfl rfl rfl rfl⟩

/-- A capital letter in a name is not told from a dashed letter. -/
example : datasetKey ("data-" ++ "A") = datasetKey ("data-" ++ "-a") := by decide

end Attribute

end Hyperscript
