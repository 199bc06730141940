import X86Listing.Proofs.Engine.FlagWord

/-!
# Writes that a listing hides

A flag has one action.  When a word reports both a test and a write of the same flag, the action has
to stand for both, and only the combination of a test with a modification has an action of its own.
A test together with a reset, a set or an undefined result is shown as a test alone.

* `EngineRecord.writes_ofWord_iff_of_reportsWrite` — which reported writes survive in the action.
* `Instruction.contains_flagsWrite_iff_of_reportsWrite` — which of them a listing shows, and what it
  shows in place of the others.
* `Instruction.not_forall_contains_flagsWrite` — a write that is not shown.
-/

namespace X86Listing

namespace EngineRecord

variable (record : EngineRecord)

/-- The word reports that the instruction changes the flag: it modifies, resets or sets the flag, or
leaves it undefined. -/
def ReportsWrite (flag : CpuFlag) : Prop :=
  record.Reports .modify flag ∨ record.Reports .reset flag ∨ record.Reports .set flag ∨
    record.Reports .undefined flag

instance (flag : CpuFlag) : Decidable (record.ReportsWrite flag) :=
  inferInstanceAs (Decidable (_ ∨ _))

/-- A reported write survives unless the flag is tested and not modified. -/
theorem writes_ofWord_iff_of_reportsWrite {flag : CpuFlag} (h : record.ReportsWrite flag) :
    (FlagTable.ofWord record.flagLayout record.flagWord flag).writes = true ↔
      (record.Reports .test flag → record.Reports .modify flag) := by
  rw [record.writes_ofWord_iff]
  constructor
  · rintro (hmodify | ⟨htest, -⟩) htested
    · exact hmodify
    · exact absurd htested htest
  · intro hkept
    by_cases htest : record.Reports .test flag
    · exact .inl (hkept htest)
    · rcases h with hmodify | hlesser
      · exact .inl hmodify
      · exact .inr ⟨htest, hlesser⟩

end EngineRecord

/-- **Which reported writes a listing shows.**  If a record is lowered and its word reports a write
of a flag, then the flag is among the written flags if and only if the word does not test it or
reports a modification of it.  A flag whose write is hidden is among the flags that are read, so
that no instruction seems to leave it alone. -/
theorem Instruction.contains_flagsWrite_iff_of_reportsWrite (mode : MachineMode)
    (window : List UInt8) (record : EngineRecord) (raw : RawInstruction) (address : Address)
    (hraw : RawInstruction.ofRecord? mode window record = some raw) (flag : CpuFlag)
    (hwrite : record.ReportsWrite flag) :
    ((ofRaw raw address).flagsWrite.contains flag = true ↔
      (record.Reports .test flag → record.Reports .modify flag)) ∧
    ((ofRaw raw address).flagsWrite.contains flag = false →
      (ofRaw raw address).flagsRead.contains flag = true) := by
  have hshown : (ofRaw raw address).flagsWrite.contains flag = true ↔
      (record.Reports .test flag → record.Reports .modify flag) := by
    rw [contains_flagsWrite_ofRecord hraw]
    exact record.writes_ofWord_iff_of_reportsWrite hwrite
  refine ⟨hshown, fun hhidden => ?_⟩
  rw [contains_flagsRead_ofRecord hraw, record.reads_ofWord_iff]
  refine Decidable.byContradiction fun htest => ?_
  rw [hshown.2 fun htested => absurd htested htest] at hhidden
  cases hhidden

/-- The carry flag is tested, modified and reset, and the zero flag is tested and reset: the first
write is shown and the second one is not. -/
theorem Instruction.contains_flagsWrite_iff_of_reportsWrite_tested :
    let record : EngineRecord := ⟨1, 2, [], [], [], 0x0008002800400002, 0, 0, 0, []⟩
    ∃ raw, RawInstruction.ofRecord? .long64 [] record = some raw ∧
      record.ReportsWrite .carry ∧ (ofRaw raw 0).flagsWrite.contains .carry = true ∧
      record.ReportsWrite .zero ∧ (ofRaw raw 0).flagsWrite.contains .zero = false ∧
      (ofRaw raw 0).flagsRead.contains .zero = true := by
  intro record
  have hcarry : record.ReportsWrite .carry := by decide +kernel
  have hzero : record.ReportsWrite .zero := by decide +kernel
  refine ⟨_, rfl, hcarry, ?_, hzero, ?_⟩
  · exact (contains_flagsWrite_iff_of_reportsWrite .long64 [] record _ 0 rfl .carry hcarry).1.2
      (by decide +kernel)
  · obtain ⟨hshown, hread⟩ := contains_flagsWrite_iff_of_reportsWrite .long64 [] record _ 0 rfl
      .zero hzero
    have hhidden := Bool.eq_false_iff.2 (mt hshown.1 (by decide +kernel))
    exact ⟨hhidden, hread hhidden⟩

/-- **Not every reported write is shown**: a word that tests the zero flag and resets it hides the
reset. -/
theorem Instruction.not_forall_contains_flagsWrite :
    ¬ ∀ (mode : MachineMode) (window : List UInt8) (record : EngineRecord) (raw : RawInstruction)
      (address : Address), RawInstruction.ofRecord? mode window record = some raw →
        ∀ flag ∈ record.wordFlags, record.ReportsWrite flag →
          (ofRaw raw address).flagsWrite.contains flag = true := by
  intro hall
  have hshown := hall .long64 [] ⟨1, 2, [], [], [], 0x0008000800000000, 0, 0, 0, []⟩ _ 0 rfl .zero
    (by decide) (by decide +kernel)
  revert hshown
  decide +kernel

end X86Listing
