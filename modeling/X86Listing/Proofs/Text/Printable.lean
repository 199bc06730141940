import X86Listing.Proofs.Text.Numeral
import X86Listing.Text.MaskNames

/-!
# Printable text

A text is printable if all its characters are printable ASCII characters.  Such a text fits on a
line, and each of its characters is one byte in UTF-8.

* `isPrintable_of_bytes` — a string is printable if its bytes are.  The catalogs of names are long,
  and bytes are compared faster than characters.
* `BitNames.isPrintable_write` — the text of a mask is printable if the names of the bits are.
-/

namespace X86Listing.Text

/-- Every character is an ASCII character, and none is a control character. -/
def IsPrintable (text : List Char) : Prop :=
  ∀ c ∈ text, 0x20 ≤ c.toNat ∧ c.toNat < 0x7f

instance (text : List Char) : Decidable (IsPrintable text) :=
  List.decidableBAll _ text

variable {text : List Char}

@[simp] theorem isPrintable_cons {c : Char} :
    IsPrintable (c :: text) ↔ (0x20 ≤ c.toNat ∧ c.toNat < 0x7f) ∧ IsPrintable text :=
  List.forall_mem_cons

@[simp] theorem isPrintable_append {more : List Char} :
    IsPrintable (text ++ more) ↔ IsPrintable text ∧ IsPrintable more :=
  List.forall_mem_append

theorem IsPrintable.newline_not_mem (h : IsPrintable text) : '\n' ∉ text :=
  fun hmem => absurd (h '\n' hmem).1 (by decide)

theorem IsPrintable.utf8Size_eq_one (h : IsPrintable text) {c : Char} (hc : c ∈ text) :
    c.utf8Size = 1 := by
  rw [Char.utf8Size_eq_one_iff, UInt32.le_iff_toNat_le]
  exact Nat.le_of_lt (h c hc).2

/-! ## Strings by their bytes -/

/-- Whether all bytes of a string are those of printable characters. -/
def hasPrintableBytes (string : String) : Bool :=
  string.toByteArray.data.toList.all fun b => 0x20 ≤ b.toNat ∧ b.toNat < 0x7f

/-- A character that is not ASCII has a byte from 128 on. -/
theorem isPrintable_of_utf8EncodeChar {c : Char}
    (h : ∀ b ∈ String.utf8EncodeChar c, 0x20 ≤ b.toNat ∧ b.toNat < 0x7f) :
    0x20 ≤ c.toNat ∧ c.toNat < 0x7f := by
  have hbyte : ∀ n < 256, (UInt8.ofNat n).toNat = n := fun n hn => UInt8.toNat_ofNat_of_lt hn
  have hlast : UInt8.ofNat (c.val.toNat % 0x40 + 0x80) ∉ String.utf8EncodeChar c := by
    intro hmem
    have hlt := (h _ hmem).2
    rw [hbyte _ (by omega)] at hlt
    omega
  show 0x20 ≤ c.val.toNat ∧ c.val.toNat < 0x7f
  unfold String.utf8EncodeChar at h hlast
  dsimp only at h hlast
  split at h
  · have hc := h (UInt8.ofNat c.val.toNat) List.mem_cons_self
    rwa [hbyte _ (by omega)] at hc
  · rename_i hwide
    rw [if_neg hwide] at hlast
    split at hlast
    · exact absurd (by simp) hlast
    · split at hlast
      · exact absurd (by simp) hlast
      · exact absurd (by simp) hlast

theorem isPrintable_of_bytes {string : String} (h : hasPrintableBytes string = true) :
    IsPrintable string.toList := by
  intro c hc
  refine isPrintable_of_utf8EncodeChar fun b hb => ?_
  have hmem : b ∈ string.toByteArray.data.toList := by
    rw [← String.utf8Encode_toList, List.utf8Encode, List.toList_data_toByteArray]
    exact List.mem_flatMap.2 ⟨c, hc, hb⟩
  simpa using List.all_eq_true.1 h b hmem

/-! ## Numerals -/

theorem isPrintable_toDigits {b : Nat} (hb : 1 < b) (h : b ≤ 16) (n : Nat) :
    IsPrintable (Nat.toDigits b n) := by
  have hdigit : ∀ d < 16, 0x20 ≤ d.digitChar.toNat ∧ d.digitChar.toNat < 0x7f := by decide
  intro c hc
  obtain ⟨d, hd, rfl⟩ := exists_digit_of_mem hb hc
  exact hdigit d (by omega)

theorem isPrintable_signedDecimal (n : Int) : IsPrintable (signedDecimal n) := by
  have hdecimal : IsPrintable (decimal n.natAbs) := isPrintable_toDigits (by decide) (by decide) _
  unfold signedDecimal
  split
  · exact isPrintable_cons.2 ⟨by decide, hdecimal⟩
  · exact hdecimal

/-! ## Masks -/

theorem isPrintable_intercalate {sep : List Char} (hsep : IsPrintable sep)
    {pieces : List (List Char)} (h : ∀ piece ∈ pieces, IsPrintable piece) :
    IsPrintable (sep.intercalate pieces) := by
  induction pieces with
  | nil => exact fun c hc => absurd hc (by simp)
  | cons piece pieces ih =>
      obtain ⟨hpiece, hpieces⟩ := List.forall_mem_cons.1 h
      cases pieces with
      | nil => rwa [List.intercalate_singleton]
      | cons next rest =>
          rw [List.intercalate_cons_cons, isPrintable_append, isPrintable_append]
          exact ⟨⟨hpiece, hsep⟩, ih hpieces⟩

theorem BitNames.isPrintable_write {names : BitNames}
    (h : ∀ f ∈ names, IsPrintable f.1.toList) (mask : Nat) : IsPrintable (names.write mask) := by
  refine isPrintable_intercalate (by decide) ?_
  have hnamed : ∀ piece ∈ (names.filter fun f => mask.testBit f.2).map fun f => f.1.toList,
      IsPrintable piece := by
    intro piece hpiece
    obtain ⟨f, hf, rfl⟩ := List.mem_map.1 hpiece
    exact h f (List.mem_filter.1 hf).1
  unfold pieces
  dsimp only
  split
  · exact hnamed
  · rw [List.forall_mem_append, List.forall_mem_singleton]
    refine ⟨hnamed, ?_⟩
    simp only [marked, isPrintable_cons]
    exact ⟨by decide, by decide, isPrintable_toDigits (by decide) (Nat.le_refl 16) _⟩

end X86Listing.Text
