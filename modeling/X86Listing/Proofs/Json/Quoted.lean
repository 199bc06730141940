import Mathlib.Tactic.IntervalCases
import X86Listing.Json
import X86Listing.Json.Quoted

/-!
# Quoted text read back

Escaping leaves neither a bare quote nor a control character, so quoted text ends at its own quote,
and the reader takes each escape as the character it was written for.

* `Quoted.ofText_quote` — any text is read back, whatever follows its closing quote.
-/

namespace X86Listing

/-! ## Escapes -/

/-- A control character is one of the first thirty-two. -/
theorem exists_eq_ofNat {c : Char} (h : c.toNat < 0x20) : ∃ n, n < 0x20 ∧ c = Char.ofNat n :=
  ⟨c.toNat, h, (Char.ofNat_toNat c).symm⟩

/-- A character that is no control character, quote or backslash stands for itself. -/
theorem Json.escapeChar_plain {c : Char} (hquote : c ≠ '"') (hslash : c ≠ '\\')
    (h : ¬c.toNat < 0x20) : escapeChar c = [c] := by
  have hcontrol : ∀ d : Char, d.toNat < 0x20 → c ≠ d := by
    rintro d hd rfl
    exact h hd
  unfold escapeChar
  split
  · exact absurd rfl hquote
  · exact absurd rfl hslash
  · exact absurd rfl (hcontrol '\n' (by decide))
  · exact absurd rfl (hcontrol '\r' (by decide))
  · exact absurd rfl (hcontrol '\t' (by decide))
  · exact absurd rfl (hcontrol '\x08' (by decide))
  · exact absurd rfl (hcontrol '\x0c' (by decide))
  · rw [if_neg (by omega), if_neg h]

namespace Quoted

/-- What an escape is written for is read, and the reader is where it was before. -/
theorem scan_escapeChar (c : Char) (found tail : List Char) :
    scan true .plain found (Json.escapeChar c ++ tail) = scan true .plain (c :: found) tail := by
  by_cases hcontrol : c.toNat < 0x20
  · obtain ⟨n, hn, rfl⟩ := exists_eq_ofNat hcontrol
    interval_cases n <;> rfl
  · by_cases hquote : c = '"'
    · subst hquote
      rfl
    · by_cases hslash : c = '\\'
      · subst hslash
        rfl
      · rw [Json.escapeChar_plain hquote hslash hcontrol, List.singleton_append]
        show (if c = '"' then _ else _) = _
        rw [if_neg hquote, if_neg hslash, if_neg hcontrol]

theorem scan_escapes (text found rest : List Char) :
    scan true .plain found (text.flatMap Json.escapeChar ++ '"' :: rest) =
      .ok (found.reverse ++ text, rest) := by
  induction text generalizing found with
  | nil =>
      rw [List.append_nil]
      rfl
  | cons c text ih =>
      rw [List.flatMap_cons, List.append_assoc, scan_escapeChar, ih, List.reverse_cons,
        List.append_assoc, List.singleton_append]

/-- A text behind its opening quote is read up to its closing quote. -/
theorem ofText_quote (text rest : List Char) :
    ofText true (text.flatMap Json.escapeChar ++ '"' :: rest) = .ok (text, rest) :=
  scan_escapes text [] rest

end Quoted

end X86Listing
