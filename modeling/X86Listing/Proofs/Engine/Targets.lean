import Mathlib
import X86Listing.Engine.Record
import X86Listing.Proofs.Raw.Operands
import X86Listing.Proofs.Session

/-!
# Resolved addresses

The engine decodes as if every instruction stood at address 0, and reports branch targets cut to
some width.  The raw instruction takes the displacement out of a target, and the listing adds the
real address back.  Here the two halves are put together: `Session.decode_resolves` says, for
every operand that the engine writes out, what the listing shows in its place, as a sum of
integers modulo `2 ^ 64`.

* `displacement_add` — the displacement of a raw instruction leads back to the target.
* `resolve_rawOperand` — what a listing shows for one operand of a record.
* `Session.decode_resolves` — the same for every explicit operand of a decoded instruction.
-/

namespace X86Listing

/-! ## Words as integers -/

theorem toInt64_eq_ofInt (address : Address) : address.toInt64 = Int64.ofInt address.toNat := by
  apply Int64.toBitVec.inj
  rw [UInt64.toBitVec_toInt64, Int64.toBitVec_ofInt, BitVec.ofInt_natCast,
    ← UInt64.toNat_toBitVec, BitVec.ofNat_toNat, BitVec.setWidth_eq]

/-- What relative values count from, as an integer modulo `2 ^ 64`. -/
theorem RawInstruction.nextAddress_eq (raw : RawInstruction) (address : Address) :
    raw.nextAddress address = Int64.ofInt (address.toNat + raw.length.toNat) := by
  rw [nextAddress, toInt64_eq_ofInt, ← Int64.ofInt_eq_ofNat, ← Int64.ofInt_add, Int.add_comm]

/-- How many bits of a target the engine reports, with and without the operand-size prefix. -/
def MachineMode.targetWidth : MachineMode → (sizeOverride : Bool) → Nat
  | .long64, _ => 64
  | .compat32, true => 16
  | .compat32, false => 32

/-- A target is sign-extended from its lowest bits. -/
theorem widenTarget_eq (mode : MachineMode) (sizeOverride : Bool) (target : Int64) :
    widenTarget mode sizeOverride target =
      Int64.ofInt (target.toInt.bmod (2 ^ mode.targetWidth sizeOverride)) := by
  cases mode with
  | long64 =>
      have hself : target.toInt.bmod (2 ^ 64) = target.toInt := target.toInt_bmod
      rw [widenTarget, MachineMode.targetWidth, hself, Int64.ofInt_toInt]
  | compat32 =>
      cases sizeOverride with
      | true =>
          rw [widenTarget, ← Int64.ofInt_int16ToInt, Int64.toInt_toInt16]
          rfl
      | false =>
          rw [widenTarget, ← Int64.ofInt_int32ToInt, Int64.toInt_toInt32]
          rfl

/-- What is left of a target when the length is taken off its lowest bits. -/
theorem displacementFromTarget_eq (mode : MachineMode) (sizeOverride : Bool) (length : UInt8)
    (target : Int64) :
    displacementFromTarget mode sizeOverride length target =
      .ofInt (target.toInt.bmod (2 ^ mode.targetWidth sizeOverride) - length.toNat) := by
  rw [displacementFromTarget, widenTarget_eq, ← Int64.ofInt_eq_ofNat, ← Int64.ofInt_sub]

theorem bmod_two_pow_modEq (a : Int) (width : Nat) : a.bmod (2 ^ width) ≡ a [ZMOD 2 ^ width] := by
  have hself := @Int.bmod_emod a (2 ^ width)
  rwa [Nat.cast_pow, Nat.cast_ofNat] at hself

/-- The balanced remainders are the signed numbers of a width. -/
theorem bmod_two_pow_eq_iff {width : Nat} (hwidth : width ≠ 0) {a b : Int}
    (h : a ≡ b [ZMOD 2 ^ width]) :
    a.bmod (2 ^ width) = b ↔ -2 ^ (width - 1) ≤ b ∧ b < 2 ^ (width - 1) := by
  obtain ⟨width, rfl⟩ := Nat.exists_eq_succ_of_ne_zero hwidth
  have hdvd : ((2 ^ (width + 1) : Nat) : Int) ∣ b - a := by
    rw [Nat.cast_pow, Nat.cast_ofNat]
    exact h.dvd
  have hpow : ((2 ^ (width + 1) : Nat) : Int) = 2 * 2 ^ width := by
    rw [Nat.cast_pow, Nat.cast_ofNat, pow_succ']
  rw [Int.bmod_eq_iff (Nat.two_pow_pos _), Nat.succ_eq_add_one, Nat.add_sub_cancel]
  constructor
  · rintro ⟨hlow, hhigh, -⟩
    rw [hpow] at hlow hhigh
    omega
  · rintro ⟨hlow, hhigh⟩
    refine ⟨?_, ?_, hdvd⟩
    · rw [hpow]
      omega
    · rw [hpow]
      omega

/-- A word stands for the integers of one residue class. -/
theorem ofInt_eq_iff_modEq {a : Int} {word : Int64} :
    Int64.ofInt a = word ↔ a ≡ word.toInt [ZMOD 2 ^ 64] := by
  rw [← Int64.toInt_inj, Int64.toInt_ofInt]
  constructor
  · intro hbmod
    rw [← hbmod]
    exact (bmod_two_pow_modEq a 64).symm
  · intro hmod
    exact (bmod_two_pow_eq_iff (by decide) hmod).2 ⟨word.le_toInt, word.toInt_lt⟩

/-- The numbers of the two instruction pointers. -/
theorem Register.isInstructionPointer_ofNumber (number : UInt16) :
    (ofNumber number).isInstructionPointer = true ↔ number = 41 ∨ number = 26 := by
  have hindex : ∀ index : Fin 246, (ofNumber number = ⟨index⟩ ↔
      number.toNat = index.val ∨ 246 ≤ number.toNat ∧ index.val = 0) := by
    intro index
    by_cases hlt : number.toNat < 246
    · rw [ofNumber, dif_pos hlt, Register.mk.injEq, Fin.ext_iff]
      change number.toNat = index.val ↔ _
      omega
    · have hindex := index.isLt
      rw [ofNumber, dif_neg hlt, Register.none, Register.mk.injEq, Fin.ext_iff]
      change 0 = index.val ↔ _
      omega
  rw [isInstructionPointer, decide_eq_true_eq, rip, eip, hindex, hindex, ← UInt16.toNat_inj,
    ← UInt16.toNat_inj]
  change (number.toNat = 41 ∨ _ ∧ (41 : Nat) = 0) ∨ (number.toNat = 26 ∨ _ ∧ (26 : Nat) = 0) ↔
    number.toNat = 41 ∨ number.toNat = 26
  omega

/-! ## The encoded field -/

/-- The bytes have an immediate at the offset: a field of one, two or four bytes, all of it there,
and not at the front, where the opcode is. -/
def HasImmediate (bytes : List UInt8) (offset size : UInt8) : Prop :=
  offset ≠ 0 ∧ (size = 1 ∨ size = 2 ∨ size = 4) ∧ offset.toNat + size.toNat ≤ bytes.length

instance (bytes : List UInt8) (offset size : UInt8) : Decidable (HasImmediate bytes offset size) :=
  inferInstanceAs (Decidable (_ ∧ _))

/-- An immediate that is there is read, as the signed number that its bytes stand for. -/
theorem encodedImmediate_eq_ite (bytes : List UInt8) (offset size : UInt8) :
    encodedImmediate bytes offset size =
      if HasImmediate bytes offset size then
        some (signedLittleEndian ((bytes.drop offset.toNat).take size.toNat))
      else none := by
  rw [encodedImmediate]
  by_cases hoffset : offset = 0
  · rw [if_pos hoffset, if_neg fun h => h.1 hoffset]
  · rw [if_neg hoffset]
    by_cases hwidth : size = 1 ∨ size = 2 ∨ size = 4
    · rw [if_pos hwidth, fieldAt?]
      by_cases hinside : offset.toNat + size.toNat ≤ bytes.length
      · rw [if_pos hinside, if_pos ⟨hoffset, hwidth, hinside⟩, Option.map_some]
      · rw [if_neg hinside, if_neg fun h => hinside h.2.2, Option.map_none]
    · rw [if_neg hwidth, if_neg fun h => hwidth h.2.1]

/-! ## What a listing shows for an operand -/

namespace EngineRecord

/-- The record's immediates are branch targets: it is in the group of relative branches, or it is a
jump or a call and has exactly one immediate. -/
def HasTargets (record : EngineRecord) : Prop :=
  7 ∈ record.groups ∨
    ((1 ∈ record.groups ∨ 2 ∈ record.groups) ∧ record.operands.countP (·.isImmediate) = 1)

instance (record : EngineRecord) : Decidable record.HasTargets :=
  inferInstanceAs (Decidable (_ ∨ _))

/-- The instruction's bytes hold the displacement, in a field of one, two or four bytes. -/
def EncodesDisplacement (record : EngineRecord) : Prop :=
  record.immediateOffset ≠ 0 ∧
    (record.immediateSize = 1 ∨ record.immediateSize = 2 ∨ record.immediateSize = 4) ∧
    record.immediateOffset.toNat + record.immediateSize.toNat ≤ record.size.toNat

instance (record : EngineRecord) : Decidable record.EncodesDisplacement :=
  inferInstanceAs (Decidable (_ ∧ _))

/-- The field of the first `size` bytes that holds the displacement, as a signed number. -/
def encodedDisplacement (record : EngineRecord) (bytes : List UInt8) : Int :=
  Int.bmod (littleEndian (((bytes.take record.size.toNat).drop
    record.immediateOffset.toNat).take record.immediateSize.toNat))
    (2 ^ (8 * record.immediateSize.toNat))

/-- How many bits of a target the engine reports. -/
def targetWidth (record : EngineRecord) : MachineMode → Nat
  | .long64 => 64
  | .compat32 => if record.sizePrefix = 0x66 then 16 else 32

/-- What a listing shows for an operand of a record whose bytes stand at an address.  Sums are
sums of integers, cut to a word at the end. -/
def resolvedKind (record : EngineRecord) (mode : MachineMode) (bytes : List UInt8)
    (address : Address) (operand : EngineOperand) : OperandKind :=
  match operand.kind with
  | .register number => .register (.ofNumber number)
  | .immediate value =>
      if record.HasTargets then
        if record.EncodesDisplacement then
          .immediate (.ofInt (address.toNat + record.size.toNat + record.encodedDisplacement bytes))
        else .immediate (.ofInt (address.toNat + value.toInt.bmod (2 ^ record.targetWidth mode)))
      else .immediate value
  | .memory segment base index scale displacement =>
      if base = 41 ∨ base = 26 then
        .memory ⟨operand.size.toUInt16, .ofNumber segment, .none, .ofNumber index,
          scale.toUInt32.toUInt8,
          .ofInt (address.toNat + record.size.toNat + displacement.toInt)⟩
      else
        .memory ⟨operand.size.toUInt16, .ofNumber segment, .ofNumber base, .ofNumber index,
          scale.toUInt32.toUInt8, displacement⟩
  | .invalid => .absent

/-! ## Taking a target apart and putting it together -/

theorem targetWidth_eq (record : EngineRecord) (mode : MachineMode) :
    record.targetWidth mode = mode.targetWidth (record.sizePrefix = operandSizePrefix) := by
  cases mode with
  | long64 => rfl
  | compat32 =>
      by_cases hprefix : record.sizePrefix = 0x66 <;>
        simp [targetWidth, MachineMode.targetWidth, operandSizePrefix, hprefix]

theorem isRelative_iff (record : EngineRecord) : record.isRelative = true ↔ record.HasTargets := by
  simp [isRelative, HasTargets, relativeGroup, jumpGroup, callGroup]

theorem bytes_eq_take {record : EngineRecord} {bytes : List UInt8}
    (hwindow : record.size.toNat ≤ maxInstructionSize) (hbytes : record.size.toNat ≤ bytes.length) :
    record.bytes (bytes.take maxInstructionSize) = bytes.take record.size.toNat := by
  have hfull : record.size.toNat - (bytes.take maxInstructionSize).length = 0 := by
    rw [List.length_take]
    omega
  rw [EngineRecord.bytes, hfull, List.replicate_zero, List.append_nil, List.take_take,
    Nat.min_eq_left hwindow]

section

variable {record : EngineRecord} {mode : MachineMode} {bytes : List UInt8}
  (hwindow : record.size.toNat ≤ maxInstructionSize) (hbytes : record.size.toNat ≤ bytes.length)

include hwindow hbytes

/-- The field is read if it is there, and then as the signed number that it holds. -/
theorem encodedImmediate_eq :
    encodedImmediate (record.bytes (bytes.take maxInstructionSize)) record.immediateOffset
        record.immediateSize =
      if record.EncodesDisplacement then some (.ofInt (record.encodedDisplacement bytes))
      else none := by
  have hlength : (bytes.take record.size.toNat).length = record.size.toNat := by
    rw [List.length_take]
    omega
  have hfield : HasImmediate (bytes.take record.size.toNat) record.immediateOffset
      record.immediateSize ↔ record.EncodesDisplacement := by
    rw [HasImmediate, hlength, EncodesDisplacement]
  rw [bytes_eq_take hwindow hbytes, encodedImmediate_eq_ite]
  by_cases hencodes : record.EncodesDisplacement
  · have hwidth : (((bytes.take record.size.toNat).drop record.immediateOffset.toNat).take
        record.immediateSize.toNat).length = record.immediateSize.toNat := by
      have hinside := hencodes.2.2
      rw [List.length_take, List.length_drop, hlength]
      omega
    rw [if_pos (hfield.2 hencodes), if_pos hencodes, signedLittleEndian, hwidth,
      Nat.one_shiftLeft, encodedDisplacement]
  · rw [if_neg (mt hfield.1 hencodes), if_neg hencodes]

omit hbytes in
/-- The length that is added back is the one that was taken off. -/
theorem toNat_length : record.length.toNat = record.size.toNat := by
  rw [EngineRecord.length, UInt16.toNat_toUInt8]
  rw [maxInstructionSize] at hwindow
  omega

/-- **A target**, taken apart by the decoder and put together at the address. -/
theorem displacement_add (address : Address) (target : Int64) :
    record.displacement mode (bytes.take maxInstructionSize) target +
        .ofInt (address.toNat + record.size.toNat) =
      if record.EncodesDisplacement then
        .ofInt (address.toNat + record.size.toNat + record.encodedDisplacement bytes)
      else .ofInt (address.toNat + target.toInt.bmod (2 ^ record.targetWidth mode)) := by
  rw [displacement, encodedImmediate_eq hwindow hbytes]
  split
  · rw [Option.getD_some, ← Int64.ofInt_add, Int.add_comm]
  · -- the length cancels, whatever the width of the target
    rw [Option.getD_none, displacementFromTarget_eq, ← record.targetWidth_eq,
      toNat_length hwindow, ← Int64.ofInt_add]
    congr 1
    omega

/-- **What a written operand becomes**, through the raw instruction and its address. -/
theorem resolve_rawOperand (address : Address) (operand : EngineOperand) :
    (record.rawOperand mode (bytes.take maxInstructionSize) operand).resolve
        (.ofInt (address.toNat + record.size.toNat)) =
      ⟨record.resolvedKind mode bytes address operand, .explicit, operand.actions.access⟩ := by
  rw [RawOperand.resolve, rawOperand]
  congr 1
  rw [rawKind.eq_def, resolvedKind.eq_def]
  cases operand.kind with
  | register number => rfl
  | invalid => rfl
  | immediate value =>
      by_cases htargets : record.HasTargets
      · have hrelative := record.isRelative_iff.2 htargets
        simp only [hrelative, if_true, htargets, RawKind.resolve, resolveImmediate,
          displacement_add hwindow hbytes]
        split <;> rfl
      · have hrelative : record.isRelative = false := by
          rw [← Bool.not_eq_true, record.isRelative_iff]
          exact htargets
        simp [hrelative, htargets, RawKind.resolve, resolveImmediate]
  | memory segment base index scale displacement =>
      simp only [RawKind.resolve, MemoryReference.resolve,
        Register.isInstructionPointer_ofNumber]
      split
      · rw [← Int64.ofInt_toInt displacement, ← Int64.ofInt_add, Int.add_comm]
        simp only [Int64.ofInt_toInt]
      · rfl

end

end EngineRecord

/-! ## From the engine to the listing -/

/-- **The whole path from a record to resolved addresses.**  If the engine knows an instruction
that lies in its window, decoding succeeds, and every operand that the engine writes out among the
first `maxOperands` is shown as `EngineRecord.resolvedKind` says; an immediate counts as relative
exactly in the records that have targets. -/
theorem Session.decode_resolves (mode : MachineMode) (engine : Engine) (bytes : List UInt8)
    (address : Address) (record : EngineRecord)
    (hrecord : engine (bytes.take maxInstructionSize) = some record) (hnumber : record.number ≠ 0)
    (hpos : 1 ≤ record.size.toNat)
    (hsize : record.size.toNat ≤ min maxInstructionSize bytes.length) :
    ∃ raw insn, ByteDecoder.askEngine mode engine bytes = some raw ∧
      (ofEngine mode engine).decode bytes address = (.ok insn, ofEngine mode engine) ∧
      ∀ position < maxOperands, ∀ operand, record.operands[position]? = some operand →
        (∀ value, operand.kind = .immediate value → ∃ displacement relative,
          raw.operands[position]?.map RawOperand.kind =
            some (.immediate displacement relative) ∧ (relative = true ↔ record.HasTargets)) ∧
        insn.operands[position]? = some
          ⟨record.resolvedKind mode bytes address operand, .explicit, operand.actions.access⟩ := by
  have hwindow : record.size.toNat ≤ maxInstructionSize := by omega
  have hbytes : record.size.toNat ≤ bytes.length := by omega
  obtain ⟨raw, hraw⟩ : ∃ raw,
      RawInstruction.ofRecord? mode (bytes.take maxInstructionSize) record = some raw :=
    ⟨_, RawInstruction.ofRecord?_eq_some_iff.2 ⟨hnumber, rfl⟩⟩
  have hask : ByteDecoder.askEngine mode engine bytes = some raw := by
    rw [ByteDecoder.askEngine, hrecord]
    exact hraw
  have hlength : raw.length.toNat = record.size.toNat := by
    obtain ⟨-, rfl⟩ := RawInstruction.ofRecord?_eq_some_iff.1 hraw
    exact EngineRecord.toNat_length hwindow
  have hfits : raw.fits bytes = true := by
    rw [RawInstruction.fits_iff, hlength]
    exact ⟨hpos, hbytes⟩
  refine ⟨raw, Instruction.ofRaw raw address, hask, ?_, ?_⟩
  · have hne : bytes ≠ [] := by
      rintro rfl
      rw [List.length_nil] at hbytes
      omega
    rw [decode_ofEngine hne, hask]
    simp only [hfits, if_true]
  · intro position hposition operand hoperand
    have hfound := RawInstruction.getElem?_operands_ofRecord hraw hposition hoperand
    constructor
    · intro value hvalue
      rw [hfound, Option.map_some, EngineRecord.rawOperand, hvalue, ← record.isRelative_iff]
      cases hrelative : record.isRelative with
      | true => exact ⟨_, true, by rw [EngineRecord.rawKind, hrelative, if_pos rfl], Iff.rfl⟩
      | false => exact ⟨_, false, by rw [EngineRecord.rawKind, hrelative]; rfl, Iff.rfl⟩
    · rw [Instruction.ofRaw]
      simp only [List.getElem?_map, List.getElem?_take_of_lt hposition, hfound, Option.map_some]
      rw [RawInstruction.nextAddress_eq, hlength,
        EngineRecord.resolve_rawOperand hwindow hbytes]

/-- A jump of five bytes with the operand-size prefix at address 4, without an encoded
displacement: 16 bits of the target count, so the jump goes backwards past address 0.  Its memory
operand is relative to the instruction pointer and does so too. -/
theorem Session.decode_resolves_backwards :
    let record : EngineRecord := ⟨1, 5, [1], [], [], 0, 0, 0, 0x66,
      [⟨.immediate 0xfff0, 2, 0⟩, ⟨.memory 0 41 35 8 (-10), 4, 1⟩]⟩
    let engine : Engine := fun _ => some record
    let bytes : List UInt8 := [0x66, 0xff, 0, 0, 0, 0]
    engine (bytes.take maxInstructionSize) = some record ∧ record.number ≠ 0 ∧
      1 ≤ record.size.toNat ∧ record.size.toNat ≤ min maxInstructionSize bytes.length ∧
      ∃ insn, (ofEngine .compat32 engine).decode bytes 4 = (.ok insn, ofEngine .compat32 engine) ∧
        insn.operands[0]? = some ⟨.immediate (-12), .explicit, ⟨1⟩⟩ ∧
        insn.operands[1]? =
          some ⟨.memory ⟨4, .none, .none, .ofNumber 35, 8, -1⟩, .explicit, ⟨1⟩⟩ := by
  intro record engine bytes
  refine ⟨rfl, by decide, by decide, by decide, ?_⟩
  obtain ⟨raw, insn, -, hdecode, hoperands⟩ := decode_resolves .compat32 engine bytes 4 record rfl
    (by decide) (by decide) (by decide)
  refine ⟨insn, hdecode, ?_, ?_⟩
  · exact (hoperands 0 (by decide) _ rfl).2.trans (by decide)
  · exact (hoperands 1 (by decide) _ rfl).2.trans (by decide)

end X86Listing
