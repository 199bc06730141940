import Mathlib
import X86Listing.Proofs.Engine.Targets

/-!
# The encoded immediate is read back

An instruction encodes an immediate in a field of one, two or four bytes, in two's complement with
the least significant byte first.  Reading the field gives back what was written there: all signed
numbers of the field's width, and whatever stands in the bytes before and behind it.

* `twosComplement` — the bytes of a number, and `littleEndian_twosComplement_modEq`, what they
  stand for.
* `signedLittleEndian_eq_iff` — the signed number of some bytes is the one of their residue class
  that has their width.
* `encodedImmediate_eq_some_iff` — when an immediate is read, and which.
* `encodedImmediate_congr` — the bytes of the field are all that matters.
* `encodedImmediate_reads_back` — all of this together.
-/

namespace X86Listing

/-! ## Numbers as bytes -/

/-- The lowest bytes of a number in two's complement, the least significant one first.  The division
rounds down, so a negative number ends in bytes `0xff`. -/
def twosComplement : (size : Nat) → (value : Int) → List UInt8
  | 0, _ => []
  | size + 1, value => UInt8.ofInt value :: twosComplement size (value / 256)

@[simp] theorem length_twosComplement (size : Nat) (value : Int) :
    (twosComplement size value).length = size := by
  induction size generalizing value with
  | zero => rfl
  | succ size ih => rw [twosComplement, List.length_cons, ih]

theorem toNat_byte_ofInt (value : Int) : ((UInt8.ofInt value).toNat : Int) = value % 256 := by
  have hpos : 0 ≤ value % 256 := Int.emod_nonneg _ (by decide)
  have hlt : value % 256 < 256 := Int.emod_lt_of_pos _ (by decide)
  have hbyte : (UInt8.ofInt value).toNat = (value % 256).toNat :=
    UInt8.toNat_ofNat_of_lt' (by rw [UInt8.size]; omega)
  rw [hbyte, Int.toNat_of_nonneg hpos]

/-- The bytes of a number stand for it, as far as they reach. -/
theorem littleEndian_twosComplement_modEq (size : Nat) (value : Int) :
    (littleEndian (twosComplement size value) : Int) ≡ value [ZMOD 2 ^ (8 * size)] := by
  induction size generalizing value with
  | zero => exact Int.modEq_one
  | succ size ih =>
      have hpow : (2 : Int) ^ (8 * (size + 1)) = 256 * 2 ^ (8 * size) := by
        rw [Nat.mul_succ, pow_add, mul_comm]
        norm_num
      rw [hpow, twosComplement, littleEndian, Nat.cast_add, Nat.cast_mul, toNat_byte_ofInt]
      calc value % 256 + 256 * (littleEndian (twosComplement size (value / 256)) : Int)
          ≡ value % 256 + 256 * (value / 256) [ZMOD 256 * 2 ^ (8 * size)] :=
            ((ih (value / 256)).mul_left' (c := 256)).add_left _
        _ = value := Int.emod_add_mul_ediv value 256

/-- The number that bytes stand for has them as its digits. -/
theorem littleEndian_eq_ofDigits (bytes : List UInt8) :
    littleEndian bytes = Nat.ofDigits 256 (bytes.map UInt8.toNat) := by
  induction bytes with
  | nil => rfl
  | cons byte bytes ih => rw [littleEndian, List.map_cons, Nat.ofDigits_cons, ih]

/-- The signed numbers that so many bytes can hold. -/
def IsSigned (size : Nat) (value : Int) : Prop :=
  -2 ^ (8 * size - 1) ≤ value ∧ value < 2 ^ (8 * size - 1)

instance (size : Nat) (value : Int) : Decidable (IsSigned size value) :=
  inferInstanceAs (Decidable (_ ∧ _))

/-- A signed number of up to eight bytes is a word. -/
theorem IsSigned.toInt_ofInt {size : Nat} {value : Int} (h : IsSigned size value)
    (hsize : size ≤ 8) : (Int64.ofInt value).toInt = value := by
  have hpow : (2 : Int) ^ (8 * size - 1) ≤ 2 ^ 63 := pow_le_pow_right₀ (by decide) (by omega)
  obtain ⟨hlow, hhigh⟩ := h
  exact Int64.toInt_ofInt_of_le (by omega) (by omega)

/-- Up to eight bytes are sign-extended to a word without loss. -/
theorem toInt_signedLittleEndian {bytes : List UInt8} (hlength : bytes.length ≤ 8) :
    (signedLittleEndian bytes).toInt =
      (littleEndian bytes : Int).bmod (2 ^ (8 * bytes.length)) := by
  -- the balanced remainder lies in the range of a word, so that nothing is cut off
  have hpos : 0 < 2 ^ (8 * bytes.length) := Nat.two_pow_pos _
  have hpow : 2 ^ (8 * bytes.length) ≤ 2 ^ 64 := Nat.pow_le_pow_right (by decide) (by omega)
  have hlow := @Int.le_bmod (littleEndian bytes) _ hpos
  have hhigh := @Int.bmod_lt (littleEndian bytes) _ hpos
  rw [signedLittleEndian, Nat.one_shiftLeft]
  exact Int64.toInt_ofInt_of_le (by omega) (by omega)

/-- **The signed number of some bytes** is the one number of their width in their residue class. -/
theorem signedLittleEndian_eq_iff {bytes : List UInt8} (hpos : 1 ≤ bytes.length)
    (hlength : bytes.length ≤ 8) (value : Int64) :
    signedLittleEndian bytes = value ↔ IsSigned bytes.length value.toInt ∧
      value.toInt ≡ littleEndian bytes [ZMOD 2 ^ (8 * bytes.length)] := by
  have hwidth : 8 * bytes.length ≠ 0 := by omega
  rw [← Int64.toInt_inj, toInt_signedLittleEndian hlength]
  constructor
  · intro hvalue
    have hmod := bmod_two_pow_modEq (littleEndian bytes) (8 * bytes.length)
    rw [hvalue] at hmod
    exact ⟨(bmod_two_pow_eq_iff hwidth hmod.symm).1 hvalue, hmod⟩
  · rintro ⟨hsigned, hmod⟩
    exact (bmod_two_pow_eq_iff hwidth hmod.symm).2 hsigned

/-! ## Fields -/

/-- A field of at least one byte has its size if all of it is there. -/
theorem length_field_eq_iff {bytes : List UInt8} {offset size : Nat} (hpos : 1 ≤ size) :
    ((bytes.drop offset).take size).length = size ↔ offset + size ≤ bytes.length := by
  rw [List.length_take, List.length_drop]
  omega

section

variable {bytes : List UInt8} {offset size : UInt8}

theorem encodedImmediate_isSome_iff :
    (encodedImmediate bytes offset size).isSome = true ↔ HasImmediate bytes offset size := by
  rw [encodedImmediate_eq_ite]
  split <;> simpa

theorem immediateSize_bounds (hwidth : size = 1 ∨ size = 2 ∨ size = 4) :
    1 ≤ size.toNat ∧ size.toNat ≤ 8 := by
  rcases hwidth with rfl | rfl | rfl <;> decide

/-- **What is read**: the signed number of the field's width that has the field's bytes. -/
theorem encodedImmediate_eq_some_iff {value : Int64} :
    encodedImmediate bytes offset size = some value ↔ HasImmediate bytes offset size ∧
      IsSigned size.toNat value.toInt ∧
      value.toInt ≡ littleEndian ((bytes.drop offset.toNat).take size.toNat)
        [ZMOD 2 ^ (8 * size.toNat)] := by
  rw [encodedImmediate_eq_ite]
  by_cases hfield : HasImmediate bytes offset size
  · obtain ⟨hpos, hle⟩ := immediateSize_bounds hfield.2.1
    have hlength := (length_field_eq_iff hpos).2 hfield.2.2
    have hread := signedLittleEndian_eq_iff (hlength.symm ▸ hpos) (hlength.symm ▸ hle) value
    rw [hlength] at hread
    rw [if_pos hfield, Option.some.injEq, hread]
    exact (and_iff_right hfield).symm
  · rw [if_neg hfield]
    constructor
    · intro hread
      cases hread
    · intro hread
      exact absurd hread.1 hfield

/-- **Bytes outside the field do not matter**: neither what they are nor how many there are behind
it. -/
theorem encodedImmediate_congr {bytes' : List UInt8}
    (h : ∀ position, offset.toNat ≤ position → position < offset.toNat + size.toNat →
      bytes[position]? = bytes'[position]?) :
    encodedImmediate bytes offset size = encodedImmediate bytes' offset size := by
  have hfield : (bytes.drop offset.toNat).take size.toNat =
      (bytes'.drop offset.toNat).take size.toNat := by
    refine List.ext_getElem? fun index => ?_
    rw [List.getElem?_take, List.getElem?_take]
    split
    · rw [List.getElem?_drop, List.getElem?_drop]
      exact h _ (by omega) (by omega)
    · rfl
  -- the field alone tells whether all of it is there
  have hiff : HasImmediate bytes offset size ↔ HasImmediate bytes' offset size := by
    refine and_congr_right fun _ => and_congr_right fun hwidth => ?_
    have hpos := (immediateSize_bounds hwidth).1
    rw [← length_field_eq_iff hpos, hfield, length_field_eq_iff hpos]
  rw [encodedImmediate_eq_ite, encodedImmediate_eq_ite, hfield]
  exact if_congr hiff rfl rfl

/-- **What is written is read**, whatever stands before and behind it. -/
theorem encodedImmediate_twosComplement (hoffset : offset ≠ 0)
    (hwidth : size = 1 ∨ size = 2 ∨ size = 4) {before : List UInt8}
    (hbefore : before.length = offset.toNat) (after : List UInt8) {value : Int}
    (hvalue : IsSigned size.toNat value) :
    encodedImmediate (before ++ twosComplement size.toNat value ++ after) offset size =
      some (.ofInt value) := by
  have hfield : ((before ++ twosComplement size.toNat value ++ after).drop offset.toNat).take
      size.toNat = twosComplement size.toNat value := by
    rw [List.append_assoc, List.drop_left' hbefore]
    exact List.take_left' (length_twosComplement _ _)
  have hinside : offset.toNat + size.toNat ≤
      (before ++ twosComplement size.toNat value ++ after).length := by
    rw [List.length_append, List.length_append, length_twosComplement, hbefore]
    omega
  rw [encodedImmediate_eq_some_iff, hfield, hvalue.toInt_ofInt (immediateSize_bounds hwidth).2]
  exact ⟨⟨hoffset, hwidth, hinside⟩, hvalue, (littleEndian_twosComplement_modEq _ _).symm⟩

end

/-- **The encoded immediate is read back exactly.**

* It is read if and only if its place is not 0, it has one, two or four bytes, and all of them are
  there.  Then it is a signed number of so many bytes, and it has the bytes of the field as its
  digits, modulo the width.
* A signed number of the width that is written to the field is read back, with any bytes before and
  behind it.
* Bytes outside the field never matter. -/
theorem encodedImmediate_reads_back (offset size : UInt8) :
    (∀ bytes : List UInt8,
      ((encodedImmediate bytes offset size).isSome = true ↔
        offset ≠ 0 ∧ (size = 1 ∨ size = 2 ∨ size = 4) ∧
          offset.toNat + size.toNat ≤ bytes.length) ∧
      ∀ value, encodedImmediate bytes offset size = some value →
        (-2 ^ (8 * size.toNat - 1) ≤ value.toInt ∧ value.toInt < 2 ^ (8 * size.toNat - 1)) ∧
        value.toInt ≡
          (Nat.ofDigits 256 (((bytes.drop offset.toNat).take size.toNat).map UInt8.toNat) : Nat)
          [ZMOD 2 ^ (8 * size.toNat)]) ∧
    (offset ≠ 0 → size = 1 ∨ size = 2 ∨ size = 4 → ∀ (before after : List UInt8) (value : Int),
      before.length = offset.toNat →
      -2 ^ (8 * size.toNat - 1) ≤ value → value < 2 ^ (8 * size.toNat - 1) →
      ∃ word, encodedImmediate (before ++ twosComplement size.toNat value ++ after) offset size =
        some word ∧ word.toInt = value) ∧
    ∀ bytes bytes' : List UInt8,
      (∀ position, offset.toNat ≤ position → position < offset.toNat + size.toNat →
        bytes[position]? = bytes'[position]?) →
      encodedImmediate bytes offset size = encodedImmediate bytes' offset size := by
  refine ⟨fun bytes => ⟨encodedImmediate_isSome_iff, ?_⟩, ?_, fun _ _ => encodedImmediate_congr⟩
  · intro value hread
    obtain ⟨-, hsigned, hmod⟩ := encodedImmediate_eq_some_iff.1 hread
    rw [littleEndian_eq_ofDigits] at hmod
    exact ⟨hsigned, hmod⟩
  · intro hoffset hwidth before after value hbefore hlow hhigh
    have hvalue : IsSigned size.toNat value := ⟨hlow, hhigh⟩
    exact ⟨_, encodedImmediate_twosComplement hoffset hwidth hbefore after hvalue,
      hvalue.toInt_ofInt (immediateSize_bounds hwidth).2⟩

/-- The least number of two bytes, written behind an opcode of one byte, is read back; the bytes
around the field may be others, and one byte less than the field is not enough. -/
theorem encodedImmediate_reads_back_least :
    let bytes : List UInt8 := [0xe9] ++ twosComplement 2 (-0x8000) ++ [0x90]
    bytes = [0xe9, 0x00, 0x80, 0x90] ∧
      (∃ word, encodedImmediate bytes 1 2 = some word ∧ word.toInt = -0x8000) ∧
      encodedImmediate bytes 1 2 = encodedImmediate [0x05, 0x00, 0x80] 1 2 ∧
      (encodedImmediate [0xe9, 0x00] 1 2).isSome = false := by
  intro bytes
  obtain ⟨hread, hwritten, hlocal⟩ := encodedImmediate_reads_back 1 2
  refine ⟨by decide, ?_, hlocal _ _ ?_, ?_⟩
  · exact hwritten (by decide) (by decide) [0xe9] [0x90] (-0x8000) rfl (by decide) (by decide)
  · intro position hlow hhigh
    obtain rfl | rfl : position = 1 ∨ position = 2 := by
      change 1 ≤ position at hlow
      change position < 3 at hhigh
      omega
    all_goals rfl
  · exact Bool.eq_false_iff.2 (mt (hread [0xe9, 0x00]).1.1 (by decide))

end X86Listing
