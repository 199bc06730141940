import Mathlib
import X86Listing.Proofs.Engine.Targets

/-!
# Two ways to a displacement

The displacement of a branch is read from the field that encodes it, or taken out of the target that
the engine reports.  The engine adds the length of the instruction to the displacement and keeps the
lowest bits of the sum, as many as `MachineMode.targetWidth` says.  Taking the length off again
always gives the displacement back modulo that power of two, and it gives the displacement itself if
the sum is a signed number of that width.

* `displacementFromTarget_modEq`, `displacementFromTarget_long64`,
  `displacementFromTarget_compat32_iff` — what is left of a target without the length.
* `RawInstruction.ofRecord?_of_missing` — lowering a record whose field is missing.
* `EngineRecord.displacements_agree` — both together.
-/

namespace X86Listing

/-! ## Taking the length off a target -/

theorem MachineMode.targetWidth_le (mode : MachineMode) (sizeOverride : Bool) :
    mode.targetWidth sizeOverride ≤ 64 := by
  cases mode <;> cases sizeOverride <;> decide

section

variable {mode : MachineMode} {sizeOverride : Bool} {length : UInt8} {displacement target : Int64}
  (h : target.toInt ≡ displacement.toInt + length.toNat [ZMOD 2 ^ mode.targetWidth sizeOverride])

/-- The displacement comes back if the target's lowest bits, as a signed number, are the whole sum
modulo the word. -/
theorem displacementFromTarget_eq_iff :
    displacementFromTarget mode sizeOverride length target = displacement ↔
      target.toInt.bmod (2 ^ mode.targetWidth sizeOverride) ≡
        displacement.toInt + length.toNat [ZMOD 2 ^ 64] := by
  rw [displacementFromTarget_eq, ofInt_eq_iff_modEq, Int.modEq_iff_dvd, Int.modEq_iff_dvd,
    sub_sub_eq_add_sub]

include h

/-- Modulo the width the displacement always comes back. -/
theorem displacementFromTarget_modEq :
    (displacementFromTarget mode sizeOverride length target).toInt ≡ displacement.toInt
      [ZMOD 2 ^ mode.targetWidth sizeOverride] := by
  have hdvd : (2 : Int) ^ mode.targetWidth sizeOverride ∣ 2 ^ 64 :=
    pow_dvd_pow 2 (mode.targetWidth_le sizeOverride)
  rw [displacementFromTarget_eq, Int64.toInt_ofInt]
  calc (target.toInt.bmod (2 ^ mode.targetWidth sizeOverride) - length.toNat).bmod (2 ^ 64)
      ≡ target.toInt.bmod (2 ^ mode.targetWidth sizeOverride) - length.toNat
        [ZMOD 2 ^ mode.targetWidth sizeOverride] := (bmod_two_pow_modEq _ 64).of_dvd hdvd
    _ ≡ target.toInt - length.toNat [ZMOD 2 ^ mode.targetWidth sizeOverride] :=
        (bmod_two_pow_modEq _ _).sub_right _
    _ ≡ displacement.toInt + length.toNat - length.toNat
        [ZMOD 2 ^ mode.targetWidth sizeOverride] := h.sub_right _
    _ = displacement.toInt := add_sub_cancel_right _ _

/-- In long mode the whole sum is reported. -/
theorem displacementFromTarget_long64 (hmode : mode = .long64) :
    displacementFromTarget mode sizeOverride length target = displacement := by
  subst hmode
  exact displacementFromTarget_eq_iff.2 ((bmod_two_pow_modEq _ 64).trans h)

/-- In compatibility mode the sum must be a signed number of the width that is reported. -/
theorem displacementFromTarget_compat32_iff (hmode : mode = .compat32) :
    displacementFromTarget mode sizeOverride length target = displacement ↔
      -2 ^ (mode.targetWidth sizeOverride - 1) ≤ displacement.toInt + length.toNat ∧
        displacement.toInt + length.toNat < 2 ^ (mode.targetWidth sizeOverride - 1) := by
  have hwidth : mode.targetWidth sizeOverride ≠ 0 ∧ mode.targetWidth sizeOverride ≤ 32 := by
    subst hmode
    cases sizeOverride <;> decide
  rw [displacementFromTarget_eq_iff, ← bmod_two_pow_eq_iff hwidth.1 h]
  constructor
  · intro hmod
    -- both numbers are too small to differ by a multiple of the word
    have hpow : ((2 ^ mode.targetWidth sizeOverride : Nat) : Int) ≤ 2 ^ 32 := by
      exact_mod_cast Nat.pow_le_pow_right (by decide) hwidth.2
    have hlow := @Int.le_bmod target.toInt (2 ^ mode.targetWidth sizeOverride)
      (Nat.two_pow_pos _)
    have hhigh := @Int.bmod_lt target.toInt (2 ^ mode.targetWidth sizeOverride)
      (Nat.two_pow_pos _)
    have hword := displacement.le_toInt
    have hword' := displacement.toInt_lt
    have hlength := length.toNat_lt
    obtain ⟨multiple, hmultiple⟩ := hmod.dvd
    omega
  · intro heq
    rw [heq]

end

/-! ## Records whose field is missing -/

/-- The place of the encoded immediate matters for the displacements of branches alone. -/
theorem RawInstruction.ofRecord?_immediateField {mode : MachineMode} {window : List UInt8}
    {record : EngineRecord} {offset size : UInt8}
    (h : ∀ operand ∈ record.operands, ∀ target, operand.kind = .immediate target →
      { record with immediateOffset := offset, immediateSize := size }.displacement mode window
        target = record.displacement mode window target) :
    ofRecord? mode window { record with immediateOffset := offset, immediateSize := size } =
      ofRecord? mode window record := by
  have hoperand : ∀ operand ∈ record.operands,
      { record with immediateOffset := offset, immediateSize := size }.rawOperand mode window
        operand = record.rawOperand mode window operand := by
    intro operand hmem
    rw [EngineRecord.rawOperand, EngineRecord.rawOperand]
    congr 1
    cases hkind : operand.kind with
    | register number => rfl
    | memory segment base index scale displacement => rfl
    | invalid => rfl
    | immediate target =>
        rw [EngineRecord.rawKind, EngineRecord.rawKind, h operand hmem target hkind]
        rfl
  have hwritten : { record with immediateOffset := offset, immediateSize := size }.explicitOperands
      mode window = record.explicitOperands mode window :=
    List.map_congr_left hoperand
  rw [ofRecord?, ofRecord?, EngineRecord.allOperands, EngineRecord.allOperands, hwritten]
  rfl

/-- The displacement leads to the immediates of the record: each of them is the sum of the
displacement and the length, as far as the engine reports it. -/
def EngineRecord.Reaches (record : EngineRecord) (mode : MachineMode) (displacement : Int64) :
    Prop :=
  ∀ operand ∈ record.operands, ∀ target, operand.kind = .immediate target →
    target.toInt ≡ displacement.toInt + record.length.toNat [ZMOD 2 ^ record.targetWidth mode]

/-- The sum of the displacement and the length is a signed number of the width that is reported; in
long mode it may be any sum. -/
def EngineRecord.FitsTarget (record : EngineRecord) (mode : MachineMode) (displacement : Int64) :
    Prop :=
  mode = .compat32 → -2 ^ (record.targetWidth mode - 1) ≤ displacement.toInt + record.length.toNat ∧
    displacement.toInt + record.length.toNat < 2 ^ (record.targetWidth mode - 1)

/-- **A missing field is no loss** if the field holds a displacement that comes back from the
target. -/
theorem RawInstruction.ofRecord?_of_missing {mode : MachineMode} {window : List UInt8}
    {record : EngineRecord} {displacement : Int64}
    (hencoded : encodedImmediate (record.bytes window) record.immediateOffset
      record.immediateSize = some displacement)
    (hreaches : record.Reaches mode displacement) (hfits : record.FitsTarget mode displacement)
    {offset size : UInt8} (hmissing : encodedImmediate (record.bytes window) offset size = none) :
    ofRecord? mode window { record with immediateOffset := offset, immediateSize := size } =
      ofRecord? mode window record := by
  refine ofRecord?_immediateField fun operand hmem target hkind => ?_
  have hreach := hreaches operand hmem target hkind
  rw [EngineRecord.FitsTarget, record.targetWidth_eq] at hfits
  rw [record.targetWidth_eq] at hreach
  have hback : displacementFromTarget mode
      (record.sizePrefix = EngineRecord.operandSizePrefix) record.length target = displacement := by
    cases mode with
    | long64 => exact displacementFromTarget_long64 hreach rfl
    | compat32 => exact (displacementFromTarget_compat32_iff hreach rfl).2 (hfits rfl)
  have hfield : record.displacement mode window target = displacement := by
    rw [EngineRecord.displacement, hencoded, Option.getD_some]
  rw [hfield]
  change (encodedImmediate (record.bytes window) offset size).getD _ = _
  rw [hmissing, Option.getD_none]
  exact hback

/-- **The two ways to a displacement agree.**  Let a target be the sum of a displacement and the
length of the instruction, as far as the engine reports it.

* What is left of the target without the length is the displacement modulo the width.  In long mode
  it is the displacement; in compatibility mode it is so if and only if the sum is a signed number
  of the width.
* If the bytes of a record encode such a displacement for all its targets, then the record is
  lowered to the same raw instruction with and without its encoded field.  A record that is not a
  branch never looks at the field. -/
theorem EngineRecord.displacements_agree (mode : MachineMode) :
    (∀ (sizeOverride : Bool) (length : UInt8) (displacement target : Int64),
      target.toInt ≡ displacement.toInt + length.toNat [ZMOD 2 ^ mode.targetWidth sizeOverride] →
      (displacementFromTarget mode sizeOverride length target).toInt ≡ displacement.toInt
        [ZMOD 2 ^ mode.targetWidth sizeOverride] ∧
      (mode = .long64 →
        displacementFromTarget mode sizeOverride length target = displacement) ∧
      (mode = .compat32 →
        (displacementFromTarget mode sizeOverride length target = displacement ↔
          -2 ^ (mode.targetWidth sizeOverride - 1) ≤ displacement.toInt + length.toNat ∧
            displacement.toInt + length.toNat < 2 ^ (mode.targetWidth sizeOverride - 1)))) ∧
    ∀ (window : List UInt8) (record : EngineRecord) (displacement : Int64),
      encodedImmediate (record.bytes window) record.immediateOffset record.immediateSize =
        some displacement →
      record.Reaches mode displacement → record.FitsTarget mode displacement →
      ∀ offset size, encodedImmediate (record.bytes window) offset size = none →
        RawInstruction.ofRecord? mode window
            { record with immediateOffset := offset, immediateSize := size } =
          RawInstruction.ofRecord? mode window record ∧
        (record.number ≠ 0 → (RawInstruction.ofRecord? mode window record).isSome = true) := by
  constructor
  · intro sizeOverride length displacement target h
    exact ⟨displacementFromTarget_modEq h, displacementFromTarget_long64 h,
      displacementFromTarget_compat32_iff h⟩
  · intro window record displacement hencoded hreaches hfits offset size hmissing
    refine ⟨RawInstruction.ofRecord?_of_missing hencoded hreaches hfits hmissing, ?_⟩
    intro hnumber
    rw [Option.isSome_iff_exists]
    exact ⟨_, RawInstruction.ofRecord?_eq_some_iff.2 ⟨hnumber, rfl⟩⟩

/-- A jump of four bytes with the operand-size prefix.  The largest displacement for which the sum
is a signed number of 16 bits comes back from a target that shows more bits; one more does not. -/
theorem EngineRecord.displacements_agree_edge :
    let record : EngineRecord := ⟨1, 4, [7], [], [], 0, 2, 2, 0x66, [⟨.immediate 0x17fff, 2, 0⟩]⟩
    let window : List UInt8 := [0x66, 0xe9, 0xfb, 0x7f]
    encodedImmediate (record.bytes window) 2 2 = some 0x7ffb ∧
      record.Reaches .compat32 0x7ffb ∧ record.FitsTarget .compat32 0x7ffb ∧
      encodedImmediate (record.bytes window) 0 2 = none ∧
      RawInstruction.ofRecord? .compat32 window
          { record with immediateOffset := 0, immediateSize := 2 } =
        RawInstruction.ofRecord? .compat32 window record ∧
      displacementFromTarget .compat32 true 4 0x7fff = 0x7ffb ∧
      displacementFromTarget .compat32 true 4 0x8000 ≠ 0x7ffc := by
  intro record window
  have hencoded : encodedImmediate (record.bytes window) 2 2 = some 0x7ffb := by decide
  have hreaches : record.Reaches .compat32 0x7ffb := by
    intro operand hmem target hkind
    obtain rfl := List.mem_singleton.1 hmem
    cases hkind
    decide
  have hfits : record.FitsTarget .compat32 0x7ffb := fun _ => by decide
  obtain ⟨hnumbers, hrecords⟩ := displacements_agree .compat32
  refine ⟨hencoded, hreaches, hfits, rfl,
    (hrecords window record _ hencoded hreaches hfits 0 2 rfl).1, ?_, ?_⟩
  · exact ((hnumbers true 4 0x7ffb 0x7fff (by decide)).2.2 rfl).2 (by decide)
  · rw [Ne, (hnumbers true 4 0x7ffc 0x8000 (by decide)).2.2 rfl]
    decide

end X86Listing
