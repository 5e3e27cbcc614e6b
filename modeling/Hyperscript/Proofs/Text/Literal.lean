import Hyperscript.Text.Quoted

/-!
# Reading literals back

Between the quotes of a double-quoted literal every character is spelled in a way that tells it from
all others, and tells where its spelling ends.  So a character is read back in front of any other
text (`Spelling.readsAs`), and a text as a whole (`decode_encode`).  None of the spellings has a
control character in it (`le_of_mem_encode`), so a literal stands on one line.
-/

namespace Hyperscript.Text

/-- The spelling `xs` is read as the character `c`, whatever comes next. -/
def ReadsAs (xs : List Char) (c : Char) : Prop :=
  ∀ rest, decode (xs ++ rest) = (decode rest).map (c :: ·)

/-! ## Units -/

theorem hexValue?_digitChar : ∀ {k : Nat}, k < 16 → hexValue? (Nat.digitChar k) = some k := by
  decide

/-- A unit is told by its four digits. -/
theorem unit?_escapeUnit {n : Nat} (hn : n < 0x10000) :
    ∃ a b c d, escapeUnit n = ['\\', 'u', a, b, c, d] ∧ unit? a b c d = some n := by
  refine ⟨Nat.digitChar (n / 16 / 16 / 16 % 16), Nat.digitChar (n / 16 / 16 % 16),
    Nat.digitChar (n / 16 % 16), Nat.digitChar (n % 16), rfl, ?_⟩
  have hdigit : ∀ m, hexValue? (Nat.digitChar (m % 16)) = some (m % 16) := fun m =>
    hexValue?_digitChar (Nat.mod_lt m (by decide))
  simp only [unit?, hdigit, Option.bind_eq_bind, Option.bind_some, Option.pure_def,
    Option.some.injEq]
  omega

/-- A unit that is no half of a pair is a character. -/
theorem readsAs_escapeUnit {n : Nat} (hn : n < 0xD800 ∨ 0xE000 ≤ n ∧ n < 0x10000) :
    ReadsAs (escapeUnit n) (Char.ofNat n) := by
  intro rest
  obtain ⟨a, b, c, d, hdigits, hunit⟩ := unit?_escapeUnit (n := n) (by omega)
  have hhigh : ¬(0xD800 ≤ n ∧ n < 0xDC00) := by omega
  have hlow : ¬(0xDC00 ≤ n ∧ n < 0xE000) := by omega
  rw [hdigits]
  show decode ('\\' :: 'u' :: a :: b :: c :: d :: rest) = _
  rw [decode, hunit, Option.bind_some, if_neg hhigh, if_neg hlow]

/-- A pair of units is one character. -/
theorem readsAs_escapePair {offset : Nat} (h : offset < 0x100000) :
    ReadsAs (escapeUnit (0xD800 + offset / 0x400) ++ escapeUnit (0xDC00 + offset % 0x400))
      (Char.ofNat (0x10000 + offset)) := by
  intro rest
  obtain ⟨a, b, c, d, hhigh, hunit⟩ := unit?_escapeUnit (n := 0xD800 + offset / 0x400) (by omega)
  obtain ⟨e, f, g, h, hlow, hunit'⟩ := unit?_escapeUnit (n := 0xDC00 + offset % 0x400) (by omega)
  have hcode : 0x10000 + (0xD800 + offset / 0x400 - 0xD800) * 0x400 +
      (0xDC00 + offset % 0x400 - 0xDC00) = 0x10000 + offset := by omega
  rw [hhigh, hlow]
  show decode ('\\' :: 'u' :: a :: b :: c :: d :: '\\' :: 'u' :: e :: f :: g :: h :: rest) = _
  rw [decode, hunit, Option.bind_some, if_pos (by omega)]
  show ((unit? e f g h).bind _) = _
  rw [hunit', Option.bind_some, if_pos (by omega), hcode]

/-! ## Characters -/

/-- How a character may be spelled between the quotes. -/
inductive Spelling (c : Char) : List Char → Prop where
  /-- By an escape of its own. -/
  | short (letter : Char) : letter ≠ 'u' → shortEscape? letter = some c → Spelling c ['\\', letter]
  | unit : c.toNat < 0x10000 → Spelling c (escapeUnit c.toNat)
  | pair : 0x10000 ≤ c.toNat → Spelling c (escapeUnit (0xD800 + (c.toNat - 0x10000) / 0x400) ++
      escapeUnit (0xDC00 + (c.toNat - 0x10000) % 0x400))
  /-- By itself. -/
  | plain : c ≠ '\x22' → c ≠ '\\' → 0x20 ≤ c.toNat → Spelling c [c]

theorem spelling_encodeChar (c : Char) : Spelling c (encodeChar c) := by
  have hshort : ∀ {letter d}, letter ≠ 'u' → shortEscape? letter = some d → c = d →
      Spelling c ['\\', letter] := fun hletter hd hc => .short _ hletter (hc ▸ hd)
  unfold encodeChar
  refine iteInduction (hshort (by decide) rfl) fun hquote => ?_
  refine iteInduction (hshort (by decide) rfl) fun hback => ?_
  refine iteInduction (hshort (by decide) rfl) fun _ => ?_
  refine iteInduction (hshort (by decide) rfl) fun _ => ?_
  refine iteInduction (hshort (by decide) rfl) fun _ => ?_
  refine iteInduction (hshort (by decide) rfl) fun _ => ?_
  refine iteInduction (hshort (by decide) rfl) fun _ => ?_
  -- the other controls, what is left of ASCII, the basic plane and the planes beyond it
  refine iteInduction (fun h => .unit (by omega)) fun hcontrol => ?_
  refine iteInduction (fun _ => .plain hquote hback (by omega)) fun _ => ?_
  exact iteInduction .unit fun h => .pair (by omega)

theorem Spelling.readsAs {c : Char} {xs : List Char} (h : Spelling c xs) : ReadsAs xs c := by
  have hvalid : c.toNat < 0xD800 ∨ 0xDFFF < c.toNat ∧ c.toNat < 0x110000 := c.valid
  cases h with
  | short letter hletter h =>
    intro rest
    show decode ('\\' :: letter :: rest) = _
    rw [decode, h, Option.bind_some]
    exact fun _ _ _ _ _ hu => absurd hu hletter
  | unit h =>
    have hreads := readsAs_escapeUnit (n := c.toNat) (by omega)
    rwa [Char.ofNat_toNat] at hreads
  | pair h =>
    have hreads := @readsAs_escapePair (c.toNat - 0x10000) (by omega)
    rwa [Nat.add_sub_cancel' h, Char.ofNat_toNat] at hreads
  | plain hquote hback hcontrol =>
    intro rest
    show decode (c :: rest) = _
    rw [decode, if_neg (by simp [hquote, hback]; omega)]
    · exact fun _ _ _ _ _ h => absurd h hback
    · exact fun _ _ h => absurd h hback

theorem decode_encode (cs : List Char) : decode (encode cs) = some cs := by
  induction cs with
  | nil => rfl
  | cons c cs ih =>
    show decode (encodeChar c ++ encode cs) = _
    rw [(spelling_encodeChar c).readsAs, ih]
    rfl

/-! ## Control characters -/

theorem exists_of_mem_hexDigits {width n : Nat} {d : Char} (h : d ∈ hexDigits width n) :
    ∃ k, k < 16 ∧ d = Nat.digitChar k := by
  induction width generalizing n with
  | zero => cases h
  | succ width ih =>
    rcases List.mem_append.1 h with h | h
    · exact ih h
    · exact ⟨n % 16, Nat.mod_lt n (by decide), List.mem_singleton.1 h⟩

theorem le_of_mem_hexDigits {width n : Nat} {d : Char} (h : d ∈ hexDigits width n) :
    0x20 ≤ d.toNat := by
  have hdigit : ∀ k < 16, 0x20 ≤ (Nat.digitChar k).toNat := by decide
  obtain ⟨k, hk, rfl⟩ := exists_of_mem_hexDigits h
  exact hdigit k hk

theorem le_of_mem_escapeUnit {n : Nat} {d : Char} (h : d ∈ escapeUnit n) : 0x20 ≤ d.toNat := by
  rcases List.mem_cons.1 h with rfl | h
  · decide
  rcases List.mem_cons.1 h with rfl | h
  · decide
  · exact le_of_mem_hexDigits h

theorem le_of_shortEscape? {letter c : Char} (h : shortEscape? letter = some c) :
    0x20 ≤ letter.toNat := by
  have hletters : ∀ pair ∈ [('\x22', '\x22'), ('\\', '\\'), ('/', '/'), ('b', '\x08'),
      ('f', '\x0c'), ('n', '\n'), ('r', '\r'), ('t', '\t')], 0x20 ≤ pair.1.toNat := by decide
  obtain ⟨before, after, hlist, -⟩ := List.lookup_eq_some_iff.1 h
  exact hletters (letter, c) (by rw [hlist]; simp)

theorem Spelling.le {c : Char} {xs : List Char} (h : Spelling c xs) :
    ∀ d ∈ xs, 0x20 ≤ d.toNat := by
  intro d hd
  cases h with
  | short letter _ hshort =>
    rcases List.mem_cons.1 hd with rfl | hd
    · decide
    · rw [List.mem_singleton.1 hd]
      exact le_of_shortEscape? hshort
  | unit => exact le_of_mem_escapeUnit hd
  | pair =>
    rcases List.mem_append.1 hd with hd | hd
    · exact le_of_mem_escapeUnit hd
    · exact le_of_mem_escapeUnit hd
  | plain _ _ hc =>
    rw [List.mem_singleton.1 hd]
    exact hc

/-- No control character stands between the quotes. -/
theorem le_of_mem_encode {cs : List Char} {d : Char} (h : d ∈ encode cs) : 0x20 ≤ d.toNat := by
  obtain ⟨c, -, hd⟩ := List.mem_flatMap.1 h
  exact (spelling_encodeChar c).le d hd

end Hyperscript.Text
