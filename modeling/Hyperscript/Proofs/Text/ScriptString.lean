import Hyperscript.Proofs.Text.Literal

/-!
# String literals in scripts

A string of a script is a list of sixteen-bit units.  `StringLiteral.value?` reads a literal in
single or double quotes and gives the string it denotes.  A line feed or a carriage return may not
stand in a literal as it is; it has to be escaped.  Line separators beyond ASCII may.

The double-quoted literal of a text denotes that text (`value?_literal`).  For other ways to spell
a text between quotes, `value?_spelled` reduces reading the literal to reading each character.
-/

namespace Hyperscript.StringLiteral

/-! ## Units -/

/-- The units of a code point: a pair for one beyond the basic plane. -/
def unitsOfCode (n : Nat) : List Nat :=
  if n < 0x10000 then [n] else [0xD800 + (n - 0x10000) / 0x400, 0xDC00 + (n - 0x10000) % 0x400]

def unitsOf (c : Char) : List Nat :=
  unitsOfCode c.toNat

/-- The string of a script that is a text. -/
def units (cs : List Char) : List Nat :=
  cs.flatMap unitsOf

/-- The first unit tells whether it is one half of a pair. -/
theorem unitsOf_append_inj {c d : Char} {us vs : List Nat}
    (h : unitsOf c ++ us = unitsOf d ++ vs) : c = d ∧ us = vs := by
  have hc : c.toNat < 0xD800 ∨ 0xDFFF < c.toNat ∧ c.toNat < 0x110000 := c.valid
  have hd : d.toNat < 0xD800 ∨ 0xDFFF < d.toNat ∧ d.toNat < 0x110000 := d.valid
  rw [← Char.toNat_inj]
  unfold unitsOf unitsOfCode at h
  split at h <;> split at h <;>
    simp only [List.cons_append, List.nil_append, List.cons.injEq] at h
  -- a character of the basic plane is never one half of a pair
  · exact h
  · omega
  · omega
  · exact ⟨by omega, h.2.2⟩

theorem unitsOf_ne_nil (c : Char) : unitsOf c ≠ [] := by
  unfold unitsOf unitsOfCode
  split <;> simp

theorem units_injective {xs ys : List Char} (h : units xs = units ys) : xs = ys := by
  induction xs generalizing ys with
  | nil =>
    cases ys with
    | nil => rfl
    | cons y ys => exact absurd (List.append_eq_nil_iff.1 h.symm).1 (unitsOf_ne_nil y)
  | cons x xs ih =>
    cases ys with
    | nil => exact absurd (List.append_eq_nil_iff.1 h).1 (unitsOf_ne_nil x)
    | cons y ys =>
      obtain ⟨rfl, hrest⟩ := unitsOf_append_inj h
      rw [ih hrest]

/-! ## Reading a literal -/

/-- Where the next character of a literal stands. -/
inductive Place where
  | text
  /-- After a backslash. -/
  | escape
  /-- After an escaped zero: a digit may not follow. -/
  | zero
  /-- After an escaped carriage return: a line feed belongs to it. -/
  | carriage
  /-- After `\u`. -/
  | unit
  /-- Before a hexadecimal digit and `more` others. -/
  | digits (more value : Nat)
  /-- In the braces of `\u`; there has to be a digit. -/
  | braces (value : Option Nat)
  | closed
  deriving DecidableEq

/-- The characters that have to be escaped because they end a line. -/
def isLineBreak (c : Char) : Bool :=
  c = '\n' || c = '\r'

/-- The control character of an escape by a letter. -/
def control? (c : Char) : Option Nat :=
  [('b', 0x08), ('t', 0x09), ('n', 0x0A), ('v', 0x0B), ('f', 0x0C), ('r', 0x0D)].lookup c

/-- Reads a character that is not escaped: the units it stands for, and where the next one is. -/
def readText (quote c : Char) : Option (List Nat × Place) :=
  if c = quote then some ([], .closed)
  else if c = '\\' then some ([], .escape)
  else if isLineBreak c then none
  else some (unitsOf c, .text)

/-- Reads the character after a backslash.  An escaped end of line stands for nothing, and a
character without a meaning of its own for itself. -/
def readEscape (c : Char) : Option (List Nat × Place) :=
  if c = 'u' then some ([], .unit)
  else if c = 'x' then some ([], .digits 1 0)
  else if c = '0' then some ([0], .zero)
  else if c.isDigit then none
  else if c = '\r' then some ([], .carriage)
  else if c = '\n' ∨ c = '\u2028' ∨ c = '\u2029' then some ([], .text)
  else some (((control? c).map ([·])).getD (unitsOf c), .text)

/-- Reads a character in the braces of `\u`. -/
def readBraces (value : Option Nat) (c : Char) : Option (List Nat × Place) :=
  if c = '\x7d' then value.map fun n => (unitsOfCode n, .text)
  else (Text.hexValue? c).bind fun digit =>
    let n := value.getD 0 * 16 + digit
    if n ≤ 0x10FFFF then some ([], .braces (some n)) else none

/-- Reads a character of a literal. -/
def step (quote : Char) : Place → Char → Option (List Nat × Place)
  | .text, c => readText quote c
  | .escape, c => readEscape c
  | .zero, c => if c.isDigit then none else readText quote c
  | .carriage, c => if c = '\n' then some ([], .text) else readText quote c
  | .unit, c =>
    if c = '\x7b' then some ([], .braces none)
    else (Text.hexValue? c).map fun digit => ([], .digits 2 digit)
  | .digits 0 value, c => (Text.hexValue? c).map fun digit => ([value * 16 + digit], .text)
  | .digits (more + 1) value, c =>
    (Text.hexValue? c).map fun digit => ([], .digits more (value * 16 + digit))
  | .braces value, c => readBraces value c
  | .closed, _ => none

/-- Reads what is left of a literal; its quote has to close it at the end. -/
def read (quote : Char) : Place → List Char → Option (List Nat)
  | place, [] => if place = .closed then some [] else none
  | place, c :: cs => (step quote place c).bind fun (us, next) => (read quote next cs).map (us ++ ·)

/-- The string that a literal denotes, if the text is one. -/
def value? : List Char → Option (List Nat)
  | [] => none
  | quote :: rest =>
    if quote = '\x27' ∨ quote = '\x22' then read quote .text rest else none

/-! ## Spelled characters -/

/-- The characters are read as these units, whatever comes next. -/
def Reads (quote : Char) (xs : List Char) (us : List Nat) : Prop :=
  ∀ rest, read quote .text (xs ++ rest) = (read quote .text rest).map (us ++ ·)

variable {quote : Char}

theorem read_of_step {place next : Place} {c : Char} {us : List Nat}
    (h : step quote place c = some (us, next)) (cs : List Char) :
    read quote place (c :: cs) = (read quote next cs).map (us ++ ·) := by
  rw [read, h, Option.bind_some]

/-- A character without units is read on the way to another place. -/
theorem read_of_step_nil {place next : Place} {c : Char}
    (h : step quote place c = some ([], next)) (cs : List Char) :
    read quote place (c :: cs) = read quote next cs := by
  rw [read_of_step h]
  exact Option.map_id'

theorem Reads.append {xs ys : List Char} {us vs : List Nat} (hx : Reads quote xs us)
    (hy : Reads quote ys vs) : Reads quote (xs ++ ys) (us ++ vs) := by
  intro rest
  rw [List.append_assoc, hx, hy, Option.map_map]
  simp only [Function.comp_def, List.append_assoc]

/-- A character that is not escaped stands for itself, but a line break has to be escaped. -/
theorem read_plain {c : Char} (hquote : c ≠ quote) (hback : c ≠ '\\') (rest : List Char) :
    read quote .text (c :: rest) =
      if isLineBreak c then none else (read quote .text rest).map (unitsOf c ++ ·) := by
  rw [read, step, readText, if_neg hquote, if_neg hback]
  cases isLineBreak c <;> rfl

theorem read_backslash (hquote : quote ≠ '\\') (cs : List Char) :
    read quote .text ('\\' :: cs) = read quote .escape cs := by
  refine read_of_step_nil ?_ cs
  rw [step, readText, if_neg hquote.symm, if_pos rfl]

theorem reads_escape (hquote : quote ≠ '\\') {c : Char} {us : List Nat}
    (h : readEscape c = some (us, .text)) : Reads quote ['\\', c] us := by
  intro rest
  have hstep : step quote .escape c = some (us, .text) := h
  rw [List.cons_append, read_backslash hquote]
  exact read_of_step hstep rest

theorem reads_escapeUnit (hquote : quote ≠ '\\') {n : Nat} (hn : n < 0x10000) :
    Reads quote (Text.escapeUnit n) [n] := by
  intro rest
  obtain ⟨a, b, c, d, hdigits, hunit⟩ := Text.unit?_escapeUnit hn
  simp only [Text.unit?, Option.bind_eq_bind, Option.bind_eq_some_iff, Option.pure_def,
    Option.some.injEq] at hunit
  obtain ⟨w, hw, x, hx, y, hy, z, hz, rfl⟩ := hunit
  have hbrace : a ≠ '\x7b' := by
    rintro rfl
    cases hw
  have hfirst : step quote .unit a = some ([], .digits 2 w) := by
    rw [step, if_neg hbrace, hw, Option.map_some]
  have hsecond : step quote (.digits 2 w) b = some ([], .digits 1 (w * 16 + x)) := by
    rw [step, hx, Option.map_some]
  have hthird : step quote (.digits 1 (w * 16 + x)) c =
      some ([], .digits 0 ((w * 16 + x) * 16 + y)) := by
    rw [step, hy, Option.map_some]
  have hletter : step quote .escape 'u' = some ([], .unit) := rfl
  -- four digits, of which the last one gives the unit
  rw [hdigits]
  show read quote .text ('\\' :: 'u' :: a :: b :: c :: d :: rest) = _
  rw [read_backslash hquote, read_of_step_nil hletter, read_of_step_nil hfirst,
    read_of_step_nil hsecond, read_of_step_nil hthird]
  refine read_of_step ?_ rest
  rw [step, hz, Option.map_some]

theorem readEscape_of_shortEscape? {letter c : Char} (h : Text.shortEscape? letter = some c) :
    readEscape letter = some (unitsOf c, .text) := by
  have hletters : ∀ pair ∈ [('\x22', '\x22'), ('\\', '\\'), ('/', '/'), ('b', '\x08'),
      ('f', '\x0c'), ('n', '\n'), ('r', '\r'), ('t', '\t')],
      readEscape pair.1 = some (unitsOf pair.2, .text) := by decide
  obtain ⟨before, after, hlist, -⟩ := List.lookup_eq_some_iff.1 h
  exact hletters (letter, c) (by rw [hlist]; simp)

theorem reads_of_spelling {c : Char} {xs : List Char} (h : Text.Spelling c xs) :
    Reads '\x22' xs (unitsOf c) := by
  have hvalid : c.toNat < 0xD800 ∨ 0xDFFF < c.toNat ∧ c.toNat < 0x110000 := c.valid
  cases h with
  | short letter _ hshort => exact reads_escape (by decide) (readEscape_of_shortEscape? hshort)
  | unit hc =>
    rw [unitsOf, unitsOfCode, if_pos hc]
    exact reads_escapeUnit (by decide) hc
  | pair hc =>
    rw [unitsOf, unitsOfCode, if_neg (by omega)]
    exact (reads_escapeUnit (by decide) (by omega)).append
      (reads_escapeUnit (by decide) (by omega))
  | plain hquote hback hcontrol =>
    have hbreak : isLineBreak c = false := by
      rw [isLineBreak, Bool.or_eq_false_iff, decide_eq_false_iff_not, decide_eq_false_iff_not]
      constructor <;>
        · rintro rfl
          exact absurd hcontrol (by decide)
    intro rest
    rw [List.singleton_append, read_plain hquote hback, hbreak]
    rfl

/-- A text between quotes denotes itself, if each of its characters is spelled in a way that is read
as its units; one with a character that is `refused` is no literal. -/
theorem value?_spelled (hquote : quote = '\x27' ∨ quote = '\x22') (spell : Char → List Char)
    (refused : Char → Bool) {cs : List Char}
    (h : ∀ c ∈ cs, ∀ rest, read quote .text (spell c ++ rest) =
      if refused c then none else (read quote .text rest).map (unitsOf c ++ ·)) :
    value? (quote :: cs.flatMap spell ++ [quote]) =
      if cs.any refused then none else some (units cs) := by
  have hread : read quote .text (cs.flatMap spell ++ [quote]) =
      if cs.any refused then none else some (units cs) := by
    induction cs with
    | nil =>
      have hclose : step quote .text quote = some ([], .closed) := by
        rw [step, readText, if_pos rfl]
      exact read_of_step_nil hclose []
    | cons c cs ih =>
      obtain ⟨hc, hcs⟩ := List.forall_mem_cons.1 h
      rw [List.flatMap_cons, List.append_assoc, hc, ih hcs, List.any_cons]
      cases refused c with
      | true => rfl
      | false => cases cs.any refused <;> rfl
  rw [List.cons_append, value?, if_pos hquote, hread]

theorem value?_literal (s : String) :
    value? (Text.literal s).toList = some (units s.toList) := by
  have hspelled := value?_spelled (.inr rfl) Text.encodeChar (fun _ => false)
    fun c (_ : c ∈ s.toList) rest => reads_of_spelling (Text.spelling_encodeChar c) rest
  rw [Text.literal, String.toList_ofList, Text.encode, hspelled, List.any_eq_false.2 (by simp)]
  rfl

end Hyperscript.StringLiteral
