import X86Listing.Text.Blank
import X86Listing.Text.Numeral

/-!
# Numerals read back

A numeral grows at its end, one digit at a time (`toDigits_induction`).  That gives the two facts
that readers rest on: which characters a numeral consists of, and that reading the digits from the
left gives the number back.

* `ofHexadecimal?_hexadecimal` — a hexadecimal numeral is read as the number it was written for.
* `head?_decimal_ne` — a decimal numeral has no leading zero.
-/

namespace X86Listing.Text

/-- A numeral in base `b` is a single digit, or a shorter numeral with one more digit. -/
theorem toDigits_induction {b : Nat} (hb : 1 < b) {P : Nat → List Char → Prop}
    (digit : ∀ d, d < b → P d [d.digitChar])
    (more : ∀ n d, 0 < n → d < b → P n (Nat.toDigits b n) →
      P (b * n + d) (Nat.toDigits b n ++ [d.digitChar])) (n : Nat) :
    P n (Nat.toDigits b n) := by
  induction n using Nat.strongRecOn with
  | ind n ih =>
      by_cases hn : n < b
      · rw [Nat.toDigits_of_lt_base hn]
        exact digit n hn
      · have hle : b ≤ n := Nat.not_lt.mp hn
        have hpos : 0 < n / b := Nat.div_pos hle (by omega)
        have hlt : n % b < b := Nat.mod_lt n (by omega)
        have hP := more (n / b) (n % b) hpos hlt (ih _ (Nat.div_lt_self (by omega) hb))
        rw [Nat.div_add_mod] at hP
        rw [Nat.toDigits_of_base_le hb hle]
        exact hP

/-- Every character of a numeral is a digit. -/
theorem exists_digit_of_mem {b n : Nat} (hb : 1 < b) {c : Char} (h : c ∈ Nat.toDigits b n) :
    ∃ d, d < b ∧ c = d.digitChar := by
  revert h
  refine toDigits_induction (P := fun _ digits => c ∈ digits → ∃ d, d < b ∧ c = d.digitChar)
    hb ?_ ?_ n
  · intro d hd hc
    exact ⟨d, hd, List.mem_singleton.mp hc⟩
  · intro n d _ hd ih hc
    rcases List.mem_append.mp hc with hc | hc
    · exact ih hc
    · exact ⟨d, hd, List.mem_singleton.mp hc⟩

/-! ## Hexadecimal numerals -/

theorem hexDigit?_digitChar {d : Nat} (h : d < 16) : hexDigit? d.digitChar = some d := by
  revert h
  revert d
  decide

theorem hexValue?_append_digit (digits : List Char) (c : Char) :
    hexValue? (digits ++ [c]) =
      (hexValue? digits).bind fun value => (hexDigit? c).map fun digit => value * 16 + digit := by
  simp [hexValue?, List.foldlM_append]

/-- The digits of a number stand for the number. -/
theorem hexValue?_hexadecimal (n : Nat) : hexValue? (hexadecimal n) = some n := by
  refine toDigits_induction (P := fun n digits => hexValue? digits = some n) (b := 16)
    (by omega) ?_ ?_ n
  · intro d hd
    rw [← List.nil_append [_], hexValue?_append_digit, hexDigit?_digitChar hd]
    simp [hexValue?]
  · intro n d _ hd ih
    rw [hexValue?_append_digit, ih, hexDigit?_digitChar hd]
    simp [Nat.mul_comm]

theorem ne_of_mem_hexadecimal {n : Nat} {c e : Char} (h : c ∈ hexadecimal n)
    (he : hexDigit? e = none) : c ≠ e := by
  rintro rfl
  obtain ⟨d, hd, rfl⟩ := exists_digit_of_mem (by omega) h
  rw [hexDigit?_digitChar hd] at he
  exact absurd he (by simp)

theorem isBlank_digitChar {d : Nat} (h : d < 16) : isBlank d.digitChar = false := by
  revert h
  revert d
  decide

/-- No hexadecimal digit is a blank. -/
theorem isBlank_of_mem_hexadecimal {n : Nat} {c : Char} (h : c ∈ hexadecimal n) :
    isBlank c = false := by
  obtain ⟨d, hd, rfl⟩ := exists_digit_of_mem (by omega) h
  exact isBlank_digitChar hd

/-- A hexadecimal numeral is read as the number it was written for. -/
theorem ofHexadecimal?_hexadecimal (n : Nat) : ofHexadecimal? (hexadecimal n) = some n := by
  have hnil : hexadecimal n ≠ [] := Nat.toDigits_ne_nil
  have hplus : ∀ rest, hexadecimal n ≠ '+' :: rest := by
    intro rest h
    exact ne_of_mem_hexadecimal (n := n) (c := '+') (by simp [h]) (by decide) rfl
  unfold ofHexadecimal?
  split
  · rename_i rest h
    exact absurd h (hplus rest)
  · rw [if_neg (by simpa using hnil)]
    exact hexValue?_hexadecimal n

/-! ## Decimal numerals -/

theorem decimal_ne_nil (n : Nat) : decimal n ≠ [] := Nat.toDigits_ne_nil

/-- The numeral of a positive number does not start with a zero. -/
theorem head?_decimal_ne {n : Nat} (h : 0 < n) : (decimal n).head? ≠ some '0' := by
  revert h
  refine toDigits_induction (P := fun n digits => 0 < n → digits.head? ≠ some '0')
    (b := 10) (by omega) ?_ ?_ n
  · intro d hd hpos
    simp only [List.head?_cons, ne_eq, Option.some.injEq, Nat.digitChar_eq_zero]
    omega
  · intro n d hpos hd ih _
    rw [List.head?_append, Option.or_of_isSome (by simp)]
    exact ih hpos

end X86Listing.Text
