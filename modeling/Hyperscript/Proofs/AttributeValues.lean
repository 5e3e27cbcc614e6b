import Hyperscript.Proofs.RoundTrip
import Hyperscript.Proofs.Text.ScriptString

/-!
# Static and dynamic attribute values

An attribute in a document has the text of an expression for its value.  If that is one string
literal without escapes, the attribute is static and its value is written as a literal again, in
double quotes and with escapes.  Any other expression is passed on in parentheses.

Both literals denote the same string, so the value does not change.  The only exception is a literal
with a line break in it: a script would refuse it, and the one that is written denotes its inside.
-/

namespace Hyperscript

open StringLiteral (value? units isLineBreak)

/-- A literal without escapes denotes what stands between its quotes. -/
theorem value?_of_isLiteral {text inner : List Char} (h : Load.IsLiteral text inner) :
    value? text = if inner.any isLineBreak then none else some (units inner) := by
  obtain ⟨quote, hquote, rfl, hnotMem, hback⟩ := h
  have hne : ∀ c ∈ inner, c ≠ quote ∧ c ≠ '\\' := fun c hc =>
    ⟨fun h => hnotMem (h ▸ hc), fun h => hback (h ▸ hc)⟩
  have hvalue := StringLiteral.value?_spelled hquote (fun c => [c]) isLineBreak
    fun c hc => StringLiteral.read_plain (hne c hc).1 (hne c hc).2
  rwa [List.flatMap_singleton'] at hvalue

/-- An attribute whose value is given as text is static exactly if the text is one string literal
without escapes, and then the literal written for it denotes what stands between the quotes.  Any
other text is passed on as it is. -/
theorem attributeValue_denotes {entries : Load.Entries} {name : Datum} {text : String}
    (hname : Datum.lookup "name" entries = some name)
    (hval : Datum.lookup "val" entries = some (.str text)) :
    ∃ a, Load.attr (.map entries) = .ok a ∧
      (a.dynamic.isTrue = false ↔ ∃ inner, Load.IsLiteral text.toList inner) ∧
      (∀ inner, Load.IsLiteral text.toList inner →
        a.valueCode = .ok (Text.literal (String.ofList inner)) ∧
        value? (Text.literal (String.ofList inner)).toList = some (units inner) ∧
        value? text.toList = if inner.any isLineBreak then none else some (units inner)) ∧
      ((∀ inner, ¬Load.IsLiteral text.toList inner) →
        a.valueCode = .ok ("(" ++ text ++ ")")) := by
  rw [Load.attr_str hname hval]
  cases hliteral : Load.staticLiteral? text.toList with
  | some literal =>
    have hlit := Load.staticLiteral?_eq_some_iff.1 hliteral
    refine ⟨_, rfl, ⟨fun _ => ⟨literal, hlit⟩, fun _ => rfl⟩, fun inner hinner => ?_,
      fun hnone => absurd hlit (hnone literal)⟩
    -- there is one way to take a literal apart
    cases hliteral.symm.trans (Load.staticLiteral?_eq_some_iff.2 hinner)
    refine ⟨rfl, ?_, value?_of_isLiteral hlit⟩
    rw [StringLiteral.value?_literal, String.toList_ofList]
  | none =>
    have hexpr := Load.staticLiteral?_eq_none_iff.1 hliteral
    refine ⟨_, rfl, ⟨fun h => ?_, fun ⟨inner, hinner⟩ => absurd hinner (hexpr inner)⟩,
      fun inner hinner => absurd hinner (hexpr inner), fun _ => rfl⟩
    cases h

/-- The entries of an attribute with a given value. -/
def titleEntries (val : String) : Load.Entries :=
  [(.str "name", .str "title"), (.str "val", .str val)]

/-- A literal may hold quotes of the other kind; a sum of two literals is not one literal. -/
theorem attributeValue_denotes_title :
    (∃ a, Load.attr (.map (titleEntries "'say \"hi\"'")) = .ok a ∧
      a.valueCode = .ok (Text.literal "say \"hi\"") ∧
      value? "'say \"hi\"'".toList = value? (Text.literal "say \"hi\"").toList) ∧
    ∃ a, Load.attr (.map (titleEntries "'a' + 'b'")) = .ok a ∧ a.dynamic.isTrue = true ∧
      a.valueCode = .ok "('a' + 'b')" := by
  have hlookup : ∀ val, Datum.lookup "name" (titleEntries val) = some (.str "title") ∧
      Datum.lookup "val" (titleEntries val) = some (.str val) := fun val => ⟨rfl, rfl⟩
  constructor
  · obtain ⟨a, ha, -, hstatic, -⟩ :=
      attributeValue_denotes (hlookup "'say \"hi\"'").1 (hlookup _).2
    obtain ⟨hcode, hwritten, htext⟩ := hstatic "say \"hi\"".toList
      (Load.staticLiteral?_eq_some_iff.1 (by decide))
    rw [String.ofList_toList] at hcode hwritten
    exact ⟨a, ha, hcode, htext.trans hwritten.symm⟩
  · obtain ⟨a, ha, hiff, -, hdynamic⟩ :=
      attributeValue_denotes (hlookup "'a' + 'b'").1 (hlookup _).2
    have hexpr := Load.staticLiteral?_eq_none_iff.1
      (show Load.staticLiteral? "'a' + 'b'".toList = none by decide)
    refine ⟨a, ha, ?_, hdynamic hexpr⟩
    rw [← Bool.not_eq_false, hiff]
    exact fun ⟨inner, hinner⟩ => hexpr inner hinner

end Hyperscript
