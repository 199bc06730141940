import X86Listing.Raw.OfRecord

/-!
# The operands of a lowered record

The operands that are written out come first, in the engine's order and as `EngineRecord.rawOperand`
makes them.  Adding hidden uses leaves them alone (`addAllHidden_append`), because a hidden use is
merged with hidden operands only, so that they are also the first of a lowered record's operands
(`RawInstruction.getElem?_operands_ofRecord`).
-/

namespace X86Listing

/-! ## Hidden uses behind written operands -/

/-- A hidden use is never merged with an operand that is written out. -/
theorem addHidden_append (number : UInt16) (actions : RawActions) {written : List RawOperand}
    (h : ∀ operand ∈ written, operand.visibility = .explicit) (hidden : List RawOperand) :
    addHidden number actions (written ++ hidden) = written ++ addHidden number actions hidden := by
  induction written with
  | nil => rfl
  | cons operand written ih =>
      have hvisible : operand.isHidden number = false := by
        simp [RawOperand.isHidden, h operand List.mem_cons_self]
      rw [List.cons_append, addHidden, hvisible, List.cons_append,
        ← ih fun other hmem => h other (List.mem_cons_of_mem _ hmem)]
      rfl

theorem addAllHidden_append (numbers : List UInt16) (actions : RawActions)
    {written : List RawOperand} (h : ∀ operand ∈ written, operand.visibility = .explicit)
    (hidden : List RawOperand) :
    addAllHidden numbers actions (written ++ hidden) =
      written ++ addAllHidden numbers actions hidden := by
  induction numbers generalizing hidden with
  | nil => rfl
  | cons number numbers ih =>
      change addAllHidden numbers actions (addHidden number actions (written ++ hidden)) = _
      rw [addHidden_append number actions h, ih]
      rfl

/-! ## All operands -/

namespace EngineRecord

theorem visibility_explicitOperands (record : EngineRecord) (mode : MachineMode)
    (window : List UInt8) :
    ∀ operand ∈ record.explicitOperands mode window, operand.visibility = .explicit := by
  intro operand hmem
  obtain ⟨source, -, rfl⟩ := List.mem_map.1 hmem
  rfl

/-- The operands that are written out come first, the hidden ones behind them. -/
theorem allOperands_eq_append (record : EngineRecord) (mode : MachineMode) (window : List UInt8) :
    record.allOperands mode window = record.explicitOperands mode window ++
      addAllHidden record.regsWrite .write (addAllHidden record.regsRead .read []) := by
  have hread := addAllHidden_append record.regsRead .read
    (record.visibility_explicitOperands mode window) []
  rw [List.append_nil] at hread
  rw [allOperands, hread,
    addAllHidden_append record.regsWrite .write (record.visibility_explicitOperands mode window)]

/-- A written operand keeps its place among all operands. -/
theorem getElem?_allOperands (record : EngineRecord) (mode : MachineMode) (window : List UInt8)
    {position : Nat} {operand : EngineOperand} (h : record.operands[position]? = some operand) :
    (record.allOperands mode window)[position]? = some (record.rawOperand mode window operand) := by
  obtain ⟨hlt, -⟩ := List.getElem?_eq_some_iff.1 h
  rw [allOperands_eq_append, explicitOperands,
    List.getElem?_append_left (by rwa [List.length_map]), List.getElem?_map, h]
  rfl

end EngineRecord

namespace RawInstruction

/-- What a record is lowered to. -/
theorem ofRecord?_eq_some_iff {mode : MachineMode} {window : List UInt8} {record : EngineRecord}
    {raw : RawInstruction} :
    ofRecord? mode window record = some raw ↔ record.number ≠ 0 ∧
      raw = ⟨record.length, .ofNumber record.number,
        (record.allOperands mode window).take maxOperands,
        .ofWord record.flagLayout record.flagWord⟩ := by
  by_cases hnumber : record.number = 0
  · simp [ofRecord?, hnumber]
  · simp [ofRecord?, hnumber, eq_comm]

/-- **Lowering keeps the written operands** that are not cut off. -/
theorem getElem?_operands_ofRecord {mode : MachineMode} {window : List UInt8}
    {record : EngineRecord} {raw : RawInstruction} (hraw : ofRecord? mode window record = some raw)
    {position : Nat} (hposition : position < maxOperands) {operand : EngineOperand}
    (h : record.operands[position]? = some operand) :
    raw.operands[position]? = some (record.rawOperand mode window operand) := by
  obtain ⟨-, rfl⟩ := ofRecord?_eq_some_iff.1 hraw
  rw [List.getElem?_take_of_lt hposition]
  exact record.getElem?_allOperands mode window h

end RawInstruction

end X86Listing
