import X86Listing.Flag

/-!
# The masks of an action table

Collapsing a table gives a mask whose bits are those of the flags that were collected, and nothing
else.  Since no two flags share a bit, a mask of flags contains exactly those flags.

* `FlagMask.testBit_ofFlags` — every bit of a mask belongs to one of its flags.
* `FlagMasks.contains_read_ofTable`, `FlagMasks.contains_write_ofTable` — a flag is in a mask of a
  table exactly if its action reads or writes it.
-/

namespace X86Listing

/-! ## Masks of flags -/

namespace FlagMask

/-- The mask of one flag has the bit of this flag, and no other. -/
theorem testBit_single (flag : CpuFlag) (bit : Nat) :
    (single flag).bits.toNat.testBit bit = true ↔ flag.bit = bit := by
  have hbits : (single flag).bits.toNat = 2 ^ flag.bit := by cases flag <;> rfl
  rw [hbits, Nat.testBit_two_pow, decide_eq_true_eq]

theorem toNat_bits_union (a b : FlagMask) :
    (a.union b).bits.toNat = a.bits.toNat ||| b.bits.toNat :=
  UInt32.toNat_or _ _

/-- The bits of flags that are added to a mask, on top of the mask's own. -/
theorem testBit_foldl_union (flags : List CpuFlag) (mask : FlagMask) (bit : Nat) :
    (flags.foldl (fun mask flag => mask.union (single flag)) mask).bits.toNat.testBit bit = true ↔
      mask.bits.toNat.testBit bit = true ∨ ∃ flag ∈ flags, flag.bit = bit := by
  induction flags generalizing mask with
  | nil => simp
  | cons flag flags ih =>
      rw [List.foldl_cons, ih, toNat_bits_union, Nat.testBit_or, Bool.or_eq_true, testBit_single]
      simp [or_assoc]

/-- **A mask of flags has the bits of these flags**, and no other. -/
theorem testBit_ofFlags (flags : List CpuFlag) (bit : Nat) :
    (ofFlags flags).bits.toNat.testBit bit = true ↔ ∃ flag ∈ flags, flag.bit = bit := by
  rw [ofFlags, testBit_foldl_union]
  simp [empty]

/-- A mask of flags contains these flags, and no other. -/
theorem contains_ofFlags (flags : List CpuFlag) (flag : CpuFlag) :
    (ofFlags flags).contains flag = true ↔ flag ∈ flags := by
  rw [contains, testBit_ofFlags]
  constructor
  · rintro ⟨other, hmem, hbit⟩
    rwa [← CpuFlag.bit_injective hbit]
  · intro hmem
    exact ⟨flag, hmem, rfl⟩

end FlagMask

/-! ## Masks of a table -/

namespace FlagMasks

variable (table : FlagTable)

theorem contains_read_ofTable (flag : CpuFlag) :
    (ofTable table).read.contains flag = (table flag).reads := by
  rw [Bool.eq_iff_iff, ofTable, FlagMask.contains_ofFlags]
  simp [CpuFlag.mem_all]

theorem contains_write_ofTable (flag : CpuFlag) :
    (ofTable table).write.contains flag = (table flag).writes := by
  rw [Bool.eq_iff_iff, ofTable, FlagMask.contains_ofFlags]
  simp [CpuFlag.mem_all]

/-- A bit of the read mask is that of a flag that is read. -/
theorem exists_of_testBit_read {bit : Nat}
    (h : (ofTable table).read.bits.toNat.testBit bit = true) :
    ∃ flag, (table flag).reads = true ∧ flag.bit = bit := by
  obtain ⟨flag, hmem, hbit⟩ := (FlagMask.testBit_ofFlags _ _).1 h
  exact ⟨flag, (List.mem_filter.1 hmem).2, hbit⟩

/-- A bit of the write mask is that of a flag that is written. -/
theorem exists_of_testBit_write {bit : Nat}
    (h : (ofTable table).write.bits.toNat.testBit bit = true) :
    ∃ flag, (table flag).writes = true ∧ flag.bit = bit := by
  obtain ⟨flag, hmem, hbit⟩ := (FlagMask.testBit_ofFlags _ _).1 h
  exact ⟨flag, (List.mem_filter.1 hmem).2, hbit⟩

end FlagMasks

end X86Listing
