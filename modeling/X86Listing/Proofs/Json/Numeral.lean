import Mathlib.Data.List.TakeWhile
import X86Listing.Json.Numeral
import X86Listing.Proofs.Text.Numeral

/-!
# Integers read back as numerals

The numeral of an integer is a minus sign, if need be, and digits without a leading zero, so it is
read in whole as long as what follows does not go on with it (`EndsNumeral`).  An integer with 64
bits is far below the bound for floats, and so the value is the integer itself.

* `JsonNumeral.ofText_signedDecimal` — which numeral is read.
* `JsonNumeral.fits_ofInt`, `JsonNumeral.toJson_ofInt` — it is small enough, and what its value is.
-/

namespace X86Listing.JsonNumeral

open Text (decimal signedDecimal toDigits_induction exists_digit_of_mem head?_decimal_ne)

/-! ## Digits -/

theorem isDigit_digitChar {d : Nat} (h : d < 10) : isDigit d.digitChar = true := by
  revert h
  revert d
  decide

theorem isDigit_of_mem_decimal {n : Nat} {c : Char} (h : c ∈ decimal n) : isDigit c = true := by
  obtain ⟨d, hd, rfl⟩ := exists_digit_of_mem (by omega) h
  exact isDigit_digitChar hd

theorem toNat_digitChar_sub {d : Nat} (h : d < 10) : d.digitChar.toNat - '0'.toNat = d :=
  Nat.toNat_digitChar_sub_48_of_lt_ten h

/-- The digits of a number stand for the number. -/
theorem natValue_decimal (n : Nat) : natValue (decimal n) = n := by
  refine toDigits_induction (P := fun n digits => natValue digits = n) (b := 10)
    (by omega) ?_ ?_ n
  · intro d hd
    show 0 * 10 + (d.digitChar.toNat - '0'.toNat) = d
    rw [toNat_digitChar_sub hd]
    omega
  · intro n d _ hd ih
    unfold natValue at ih ⊢
    rw [List.foldl_append, ih]
    show n * 10 + (d.digitChar.toNat - '0'.toNat) = 10 * n + d
    rw [toNat_digitChar_sub hd]
    omega

/-! ## The numeral that is read -/

/-- Whether a numeral ends in front of this text: the text goes on with something else. -/
def EndsNumeral (rest : List Char) : Prop :=
  ∀ c, rest.head? = some c → isDigit c = false ∧ c ≠ '.' ∧ c ≠ 'e' ∧ c ≠ 'E'

/-- The numeral of an integer. -/
def ofInt (value : Int) : JsonNumeral :=
  ⟨decide (value < 0), decimal value.natAbs, none, none⟩

variable {rest : List Char}

theorem digits_decimal (short : ReadFault) (n : Nat) (h : EndsNumeral rest) :
    digits short (decimal n ++ rest) = .ok (decimal n, rest) := by
  have hdigits : ∀ c ∈ decimal n, isDigit c = true := fun c hc => isDigit_of_mem_decimal hc
  have htake : rest.takeWhile isDigit = [] ∧ rest.dropWhile isDigit = rest := by
    cases rest with
    | nil => exact ⟨rfl, rfl⟩
    | cons c rest =>
        have hc := (h c rfl).1
        exact ⟨List.takeWhile_cons_of_neg (by simp [hc]), List.dropWhile_cons_of_neg (by simp [hc])⟩
  unfold digits
  rw [List.takeWhile_append_of_pos hdigits, List.dropWhile_append_of_pos hdigits, htake.1,
    htake.2, List.append_nil, if_neg (by simpa using Text.decimal_ne_nil n)]

theorem wholePart_decimal (short : ReadFault) (n : Nat) (h : EndsNumeral rest) :
    wholePart short (decimal n ++ rest) = .ok (decimal n, rest) := by
  have hzero : ¬((decimal n).length > 1 ∧ (decimal n).head? = some '0') := by
    rintro ⟨hlong, hhead⟩
    -- only the numeral of zero starts with a zero, and that is its only digit
    cases n with
    | zero => exact absurd hlong (by decide)
    | succ n => exact head?_decimal_ne (Nat.succ_pos n) hhead
  unfold wholePart
  rw [digits_decimal short n h]
  show (if _ then _ else _) = _
  rw [if_neg hzero]

theorem fractionPart_of_ends (short : ReadFault) (h : EndsNumeral rest) :
    fractionPart short rest = .ok (none, rest) := by
  unfold fractionPart
  split
  · exact absurd rfl (h '.' rfl).2.1
  · rfl

theorem exponentPart_of_ends (short : ReadFault) (h : EndsNumeral rest) :
    exponentPart short rest = .ok (none, rest) := by
  unfold exponentPart
  split
  · rename_i c tail
    obtain ⟨_, _, he, hE⟩ := h c rfl
    rw [if_neg (by simp [he, hE])]
  · rfl

/-- The digits of a number do not start with a minus sign. -/
theorem decimal_append_ne (n : Nat) (tail : List Char) : decimal n ++ rest ≠ '-' :: tail := by
  intro h
  cases hdecimal : decimal n with
  | nil => exact Text.decimal_ne_nil n hdecimal
  | cons c digits =>
      rw [hdecimal, List.cons_append, List.cons.injEq] at h
      have hc := isDigit_of_mem_decimal (n := n) (c := c) (by simp [hdecimal])
      rw [h.1] at hc
      exact absurd hc (by decide)

/-- The numeral of an integer is read up to its end. -/
theorem ofText_signedDecimal (short : ReadFault) (value : Int) (h : EndsNumeral rest) :
    ofText short (signedDecimal value ++ rest) = .ok (ofInt value, rest) := by
  unfold ofInt signedDecimal
  by_cases hneg : value < 0
  · rw [if_pos hneg, decide_eq_true hneg, List.cons_append]
    simp only [ofText, wholePart_decimal short _ h, fractionPart_of_ends short h,
      exponentPart_of_ends short h, bind, Except.bind]
  · rw [if_neg hneg, decide_eq_false hneg]
    unfold ofText
    split
    rename_i negative text hsign
    split at hsign
    · rename_i tail heq
      exact absurd heq (decimal_append_ne _ _)
    · cases hsign
      simp only [wholePart_decimal short _ h, fractionPart_of_ends short h,
        exponentPart_of_ends short h, bind, Except.bind]

/-! ## Its size and value -/

theorem accumulate_append_digit {value whole : Nat} {found : List Char}
    (h : accumulate value found = (whole, 0)) {d : Nat} (hd : d < 10)
    (hbound : 10 * whole + d ≤ maxWord) :
    accumulate value (found ++ [d.digitChar]) = (10 * whole + d, 0) := by
  induction found generalizing value with
  | nil =>
      cases h
      show (if _ then _ else _) = _
      rw [toNat_digitChar_sub hd, if_pos (by omega)]
      show (_, 0) = _
      rw [Nat.mul_comm]
  | cons c found ih =>
      unfold accumulate at h
      dsimp only at h
      show (if _ then _ else _) = _
      split at h
      · rename_i hle
        rw [if_pos hle]
        exact ih h
      · cases h

/-- All digits of a number with 64 bits count. -/
theorem accumulate_decimal {n : Nat} (h : n ≤ maxWord) : accumulate 0 (decimal n) = (n, 0) := by
  revert h
  refine toDigits_induction
    (P := fun n digits => n ≤ maxWord → accumulate 0 digits = (n, 0)) (b := 10)
    (by omega) ?_ ?_ n
  · intro d hd hbound
    have hnone : accumulate 0 [] = (0, 0) := rfl
    have hone := accumulate_append_digit hnone hd (by omega)
    simpa using hone
  · intro n d _ hd ih hbound
    exact accumulate_append_digit (ih (by omega)) hd hbound

/-- Rounding at most doubles. -/
theorem round53_le (n : Nat) : round53 n ≤ 2 * n := by
  unfold round53
  split
  · omega
  · rename_i hn
    dsimp only
    have hpos : n ≠ 0 := by
      rintro rfl
      exact hn (by decide)
    have hunit : 1 <<< (Nat.log2 n - 52) ≤ n := by
      rw [Nat.one_shiftLeft]
      calc 2 ^ (Nat.log2 n - 52) ≤ 2 ^ Nat.log2 n :=
            Nat.pow_le_pow_right (by omega) (Nat.sub_le _ _)
        _ ≤ n := Nat.log2_self_le hpos
    generalize 1 <<< (Nat.log2 n - 52) = unit at hunit
    have hdiv : n / unit * unit ≤ n := Nat.div_mul_le_self n unit
    split
    · rw [Nat.add_mul]
      omega
    · omega

/-- The integers that have 64 bits, with or without a sign. -/
def HasWord (value : Int) : Prop :=
  Int64.minValue.toInt ≤ value ∧ value ≤ maxWord

theorem HasWord.natAbs_le {value : Int} (h : HasWord value) : value.natAbs ≤ maxWord := by
  obtain ⟨hlow, hhigh⟩ := h
  have hmin : -(maxWord : Int) ≤ Int64.minValue.toInt := by decide
  omega

/-- The numeral of an integer with 64 bits is small enough. -/
theorem fits_ofInt {value : Int} (h : HasWord value) : (ofInt value).fits = true := by
  have hround := round53_le value.natAbs
  have hbound : 2 * maxWord < floatBound := by decide
  have hone : round53 (Nat.pow 10 (0 : Int).toNat) = 1 := by decide
  unfold fits ofInt
  rw [accumulate_decimal h.natAbs_le]
  show productFits value.natAbs 0 = true
  unfold productFits
  rw [decide_eq_true_eq, hone, Nat.mul_one]
  refine .inr (.inr ⟨by omega, ?_⟩)
  calc round53 value.natAbs ≤ 2 * value.natAbs := hround
    _ ≤ 2 * maxWord := Nat.mul_le_mul_left 2 h.natAbs_le
    _ < floatBound := hbound

/-- The numeral of an integer with 64 bits has that value. -/
theorem toJson_ofInt {value : Int} (h : HasWord value) : (ofInt value).toJson = .int value := by
  obtain ⟨hlow, hhigh⟩ := h
  have hinteger : (ofInt value).integer? = some value := by
    have hmin : Int64.minValue.toInt = -(1 <<< 63 : Nat) := by decide
    unfold integer? ofInt
    rw [natValue_decimal, if_neg (by simp)]
    by_cases hneg : value < 0
    · rw [if_pos (by simpa using hneg), if_pos (by omega)]
      congr 1
      omega
    · rw [if_neg (by simpa using hneg), if_pos (by omega)]
      congr 1
      omega
  unfold toJson
  rw [hinteger]

end X86Listing.JsonNumeral
