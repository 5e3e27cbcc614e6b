import Hyperscript.Datum.Spelling
import Hyperscript.Proofs.Text.ScriptString

/-!
# Safe literals

The literal of a text can be put anywhere into a script or a JSON document.  It consists of
printable ASCII characters, so it stands on one line.  Inside it a quote is always escaped, so that
it ends at its last quote and not before.  It is read as the text, by the rules of JSON and by those
of scripts.
-/

namespace Hyperscript

namespace Text

/-! ## Characters of a literal -/

/-- All characters are printable ASCII characters. -/
def PrintableAscii (cs : List Char) : Prop :=
  ∀ c ∈ cs, 0x20 ≤ c.toNat ∧ c.toNat < 0x7F

instance (cs : List Char) : Decidable (PrintableAscii cs) :=
  List.decidableBAll (fun c : Char => 0x20 ≤ c.toNat ∧ c.toNat < 0x7F) cs

theorem PrintableAscii.append {xs ys : List Char} (hx : PrintableAscii xs)
    (hy : PrintableAscii ys) : PrintableAscii (xs ++ ys) :=
  List.forall_mem_append.2 ⟨hx, hy⟩

theorem printableAscii_escapeUnit (n : Nat) : PrintableAscii (escapeUnit n) := by
  have hdigit : ∀ k < 16, 0x20 ≤ (Nat.digitChar k).toNat ∧ (Nat.digitChar k).toNat < 0x7F := by
    decide
  have hmark : PrintableAscii ['\\', 'u'] := by decide
  refine hmark.append fun d (hd : d ∈ hexDigits 4 n) => ?_
  obtain ⟨k, hk, rfl⟩ := exists_of_mem_hexDigits hd
  exact hdigit k hk

theorem printableAscii_encodeChar (c : Char) : PrintableAscii (encodeChar c) := by
  unfold encodeChar
  refine iteInduction (fun _ => by decide) fun _ => ?_
  refine iteInduction (fun _ => by decide) fun _ => ?_
  refine iteInduction (fun _ => by decide) fun _ => ?_
  refine iteInduction (fun _ => by decide) fun _ => ?_
  refine iteInduction (fun _ => by decide) fun _ => ?_
  refine iteInduction (fun _ => by decide) fun _ => ?_
  refine iteInduction (fun _ => by decide) fun _ => ?_
  refine iteInduction (fun _ => printableAscii_escapeUnit _) fun hcontrol => ?_
  refine iteInduction (fun hascii => ?_) fun _ => ?_
  · exact List.forall_mem_singleton.2 ⟨by omega, hascii⟩
  refine iteInduction (fun _ => printableAscii_escapeUnit _) fun _ => ?_
  exact (printableAscii_escapeUnit _).append (printableAscii_escapeUnit _)

theorem toList_literal (s : String) :
    (literal s).toList = '\x22' :: encode s.toList ++ ['\x22'] :=
  String.toList_ofList

theorem printableAscii_literal (s : String) : PrintableAscii (literal s).toList := by
  have hquote : PrintableAscii ['\x22'] := by decide
  have hencode : PrintableAscii (encode s.toList) := by
    intro d hd
    obtain ⟨c, -, hd⟩ := List.mem_flatMap.1 hd
    exact printableAscii_encodeChar c d hd
  rw [toList_literal]
  exact (hquote.append hencode).append hquote

/-- The characters at which a line of a script ends. -/
def lineTerminators : List Char := ['\n', '\r', '\u2028', '\u2029']

theorem not_mem_literal_of_mem_lineTerminators {c : Char} (h : c ∈ lineTerminators) (s : String) :
    c ∉ (literal s).toList := by
  have hterminators : lineTerminators.all (fun c => ¬PrintableAscii [c]) = true := by decide
  have hc : ¬PrintableAscii [c] := of_decide_eq_true (List.all_eq_true.1 hterminators c h)
  exact fun hmem => hc (List.forall_mem_singleton.2 (printableAscii_literal s c hmem))

/-! ## Quotes in a literal -/

/-- Whether the character behind this text is escaped: there is a backslash before it that is not
escaped itself. -/
def escapesNext (cs : List Char) : Bool :=
  cs.foldl (fun escaped c => !escaped && c == '\\') false

/-- The text escapes nothing behind it, and the quotes in it are escaped. -/
structure Sealed (cs : List Char) : Prop where
  settled : escapesNext cs = false
  quotes : ∀ before after, cs = before ++ '\x22' :: after → escapesNext before = true

theorem escapesNext_append {xs : List Char} (h : escapesNext xs = false) (ys : List Char) :
    escapesNext (xs ++ ys) = escapesNext ys := by
  unfold escapesNext at h ⊢
  rw [List.foldl_append, h]

theorem sealed_nil : Sealed [] where
  settled := rfl
  quotes before after h := by simp at h

theorem Sealed.append {xs ys : List Char} (hx : Sealed xs) (hy : Sealed ys) :
    Sealed (xs ++ ys) where
  settled := (escapesNext_append hx.settled ys).trans hy.settled
  quotes before after h := by
    rcases List.append_eq_append_iff.1 h with ⟨middle, rfl, hmiddle⟩ | ⟨middle, hxs, hmiddle⟩
    · rw [escapesNext_append hx.settled]
      exact hy.quotes middle after hmiddle
    · -- the quote is at the start of the second text if there is nothing left of the first
      cases middle with
      | nil =>
        rw [List.append_nil] at hxs
        rw [← hxs, ← List.append_nil xs, escapesNext_append hx.settled]
        exact hy.quotes [] after hmiddle.symm
      | cons c middle =>
        cases hmiddle
        exact hx.quotes before middle hxs

theorem sealed_singleton {c : Char} (hquote : c ≠ '\x22') (hback : c ≠ '\\') : Sealed [c] where
  settled := by simp [escapesNext, hback]
  quotes before after h := by
    have hmem : '\x22' ∈ [c] := h ▸ by simp
    exact absurd (List.mem_singleton.1 hmem).symm hquote

theorem sealed_escaped (letter : Char) : Sealed ['\\', letter] where
  settled := rfl
  quotes before after h := by
    cases before with
    | nil => cases h
    | cons c before =>
      cases before with
      | nil =>
        cases h
        rfl
      | cons d before => simp at h

theorem sealed_escapeUnit (n : Nat) : Sealed (escapeUnit n) := by
  have hdigit : ∀ k < 16, Nat.digitChar k ≠ '\x22' ∧ Nat.digitChar k ≠ '\\' := by decide
  have hdigits : ∀ cs : List Char, (∀ d ∈ cs, ∃ k, k < 16 ∧ d = Nat.digitChar k) → Sealed cs := by
    intro cs hcs
    induction cs with
    | nil => exact sealed_nil
    | cons d cs ih =>
      obtain ⟨⟨k, hk, rfl⟩, hrest⟩ := List.forall_mem_cons.1 hcs
      exact (sealed_singleton (hdigit k hk).1 (hdigit k hk).2).append (ih hrest)
  exact (sealed_escaped 'u').append (hdigits (hexDigits 4 n) fun _ => exists_of_mem_hexDigits)

theorem Spelling.isSealed {c : Char} {xs : List Char} (h : Spelling c xs) : Sealed xs := by
  cases h with
  | short letter => exact sealed_escaped letter
  | unit => exact sealed_escapeUnit _
  | pair => exact (sealed_escapeUnit _).append (sealed_escapeUnit _)
  | plain hquote hback => exact sealed_singleton hquote hback

theorem sealed_encode (cs : List Char) : Sealed (encode cs) := by
  induction cs with
  | nil => exact sealed_nil
  | cons c cs ih => exact (spelling_encodeChar c).isSealed.append ih

theorem literal_injective {s t : String} (h : literal s = literal t) : s = t := by
  rw [← String.toList_inj, toList_literal, toList_literal, List.append_left_inj,
    List.cons.injEq] at h
  have hread := congrArg decode h.2
  rw [decode_encode, decode_encode, Option.some.injEq] at hread
  exact String.toList_inj.1 hread

end Text

/-- The literal of a text is put between quotes.  Every quote in it is escaped, and the one that
closes it is not.  It consists of printable ASCII characters, so no line ends in it.  It is read as
the text, by the rules of JSON and by those of scripts, and no other text has the same literal. -/
theorem literal_faithful (s : String) :
    (Datum.str s).json = Text.literal s ∧
    (∃ body, (Text.literal s).toList = '\x22' :: body ++ ['\x22'] ∧
      (∀ before after, body = before ++ '\x22' :: after → Text.escapesNext before = true) ∧
      Text.escapesNext body = false ∧
      Text.decode body = some s.toList) ∧
    (∀ c ∈ (Text.literal s).toList, 0x20 ≤ c.toNat ∧ c.toNat < 0x7F) ∧
    (∀ c ∈ Text.lineTerminators, c ∉ (Text.literal s).toList) ∧
    StringLiteral.value? (Text.literal s).toList = some (StringLiteral.units s.toList) ∧
    ∀ t, Text.literal s = Text.literal t → s = t := by
  have hsealed := Text.sealed_encode s.toList
  refine ⟨rfl, ⟨Text.encode s.toList, Text.toList_literal s, hsealed.quotes, hsealed.settled,
    Text.decode_encode s.toList⟩, Text.printableAscii_literal s, fun c hc => ?_,
    StringLiteral.value?_literal s, fun _ => Text.literal_injective⟩
  exact Text.not_mem_literal_of_mem_lineTerminators hc s

end Hyperscript
