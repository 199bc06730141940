import X86Listing.Proofs.Flag

/-!
# What masks tell of a table

A table that is given as a list of actions has an entry at every position, and each position
belongs to a flag (`CpuFlag.atPosition`), whose bit is somewhere else in a mask.  Two masks keep of
an entry whether it reads and whether it writes, and nothing else:

* `FlagMask.ofFlags_eq_iff` — a mask of flags is the mask of these flags alone.
* `FlagMasks.ofTable_eq_iff` — tables have the same masks if their entries read and write alike.
* `FlagMasks.testBit_ofTable_congr` — a bit depends on the entries of its own flag.
* `FlagMasks.classify_actions` — all of this for tables by position.
-/

namespace X86Listing

/-! ## Positions -/

namespace CpuFlag

/-- The flag at a position of the table. -/
def atPosition (position : Fin 21) : CpuFlag :=
  all.get position

theorem position_lt (flag : CpuFlag) : flag.position < 21 := by
  cases flag <;> decide

theorem position_atPosition (position : Fin 21) : (atPosition position).position = position := by
  revert position
  decide

theorem atPosition_position (flag : CpuFlag) :
    atPosition ⟨flag.position, flag.position_lt⟩ = flag := by
  cases flag <;> rfl

/-- What holds at every position holds of every flag. -/
theorem forall_atPosition {motive : CpuFlag → Prop} :
    (∀ flag, motive flag) ↔ ∀ position, motive (atPosition position) := by
  constructor
  · intro h position
    exact h _
  · intro h flag
    rw [← flag.atPosition_position]
    exact h _

end CpuFlag

namespace FlagTable

/-- The table that has these actions at its positions. -/
def ofActions (actions : Vector FlagAction 21) : FlagTable := fun flag =>
  have := flag.position_lt
  actions[flag.position]

theorem ofActions_atPosition (actions : Vector FlagAction 21) (position : Fin 21) :
    ofActions actions (.atPosition position) = actions[position] := by
  simp only [ofActions, CpuFlag.position_atPosition, Fin.getElem_fin]

/-- An entry that is replaced is that of one flag. -/
theorem ofActions_set (actions : Vector FlagAction 21) (position : Fin 21) (action : FlagAction)
    {flag : CpuFlag} (h : flag ≠ .atPosition position) :
    ofActions (actions.set position action) flag = ofActions actions flag := by
  have hposition : position.val ≠ flag.position := by
    intro heq
    apply h
    rw [← flag.atPosition_position]
    congr 1
    exact Fin.ext heq.symm
  exact Vector.getElem_set_ne _ _ hposition

end FlagTable

/-! ## Actions -/

theorem FlagAction.reads_iff (action : FlagAction) :
    action.reads = true ↔ action = .tested ∨ action = .testedModified := by
  cases action <;> decide

theorem FlagAction.writes_iff (action : FlagAction) :
    action.writes = true ↔ action = .reset ∨ action = .set ∨ action = .undefined ∨
      action = .testedModified ∨ action = .modified := by
  cases action <;> decide

/-! ## Masks that agree -/

namespace FlagMask

/-- A bit is set in both masks or in neither, if the flags that own it are in both or in neither. -/
theorem testBit_ofFlags_congr {flags others : List CpuFlag} {bit : Nat}
    (h : ∀ flag, flag.bit = bit → (flag ∈ flags ↔ flag ∈ others)) :
    (ofFlags flags).bits.toNat.testBit bit = (ofFlags others).bits.toNat.testBit bit := by
  rw [Bool.eq_iff_iff, testBit_ofFlags, testBit_ofFlags]
  exact exists_congr fun flag => and_congr_left fun hbit => h flag hbit

/-- **A mask of flags determines the flags.** -/
theorem ofFlags_eq_iff (flags others : List CpuFlag) :
    ofFlags flags = ofFlags others ↔ ∀ flag, flag ∈ flags ↔ flag ∈ others := by
  constructor
  · intro h flag
    rw [← contains_ofFlags, h, contains_ofFlags]
  · intro h
    rw [mk.injEq, ← UInt32.toNat_inj]
    exact Nat.eq_of_testBit_eq fun bit => testBit_ofFlags_congr fun flag _ => h flag

end FlagMask

namespace FlagMasks

variable {table other : FlagTable}

/-- **The masks of a table determine which entries read and which write**, and nothing else. -/
theorem ofTable_eq_iff : ofTable table = ofTable other ↔ ∀ flag,
    (table flag).reads = (other flag).reads ∧ (table flag).writes = (other flag).writes := by
  simp only [ofTable, mk.injEq, FlagMask.ofFlags_eq_iff, List.mem_filter, CpuFlag.mem_all, true_and,
    ← Bool.eq_iff_iff, forall_and]

/-- A bit of the masks depends on the flags that own it. -/
theorem testBit_ofTable_congr {bit : Nat} (h : ∀ flag, flag.bit = bit → table flag = other flag) :
    (ofTable table).read.bits.toNat.testBit bit = (ofTable other).read.bits.toNat.testBit bit ∧
    (ofTable table).write.bits.toNat.testBit bit =
      (ofTable other).write.bits.toNat.testBit bit := by
  constructor
  · refine FlagMask.testBit_ofFlags_congr fun flag hbit => ?_
    rw [List.mem_filter, List.mem_filter, h flag hbit]
  · refine FlagMask.testBit_ofFlags_congr fun flag hbit => ?_
    rw [List.mem_filter, List.mem_filter, h flag hbit]

end FlagMasks

/-! ## Tables by position -/

/-- **The masks classify the whole table.**  For all tables of 21 actions:

* the flag at a position is in the read mask if and only if the action there is a test, with or
  without a modification, and in the write mask if and only if the action is one of the five that
  change the flag;
* a bit of either mask is that of a flag;
* two tables have the same masks if and only if at every position both entries read or neither does,
  and both write or neither does;
* another action at one position changes at most the bit of the flag there, so that no entry stands
  for another. -/
theorem FlagMasks.classify_actions (actions other : Vector FlagAction 21) :
    let masks := ofTable (.ofActions actions)
    (∀ position : Fin 21,
      (masks.read.contains (.atPosition position) = true ↔
        actions[position] = .tested ∨ actions[position] = .testedModified) ∧
      (masks.write.contains (.atPosition position) = true ↔
        actions[position] = .reset ∨ actions[position] = .set ∨ actions[position] = .undefined ∨
          actions[position] = .testedModified ∨ actions[position] = .modified)) ∧
    (∀ bit, masks.read.bits.toNat.testBit bit = true ∨ masks.write.bits.toNat.testBit bit = true →
      ∃ position, (CpuFlag.atPosition position).bit = bit) ∧
    (masks = ofTable (.ofActions other) ↔ ∀ position : Fin 21,
      actions[position].reads = other[position].reads ∧
        actions[position].writes = other[position].writes) ∧
    ∀ (position : Fin 21) (action : FlagAction) (bit : Nat),
      bit ≠ (CpuFlag.atPosition position).bit →
      let replaced := ofTable (.ofActions (actions.set position action))
      replaced.read.bits.toNat.testBit bit = masks.read.bits.toNat.testBit bit ∧
        replaced.write.bits.toNat.testBit bit = masks.write.bits.toNat.testBit bit := by
  intro masks
  refine ⟨fun position => ⟨?_, ?_⟩, ?_, ?_, ?_⟩
  · rw [contains_read_ofTable, FlagTable.ofActions_atPosition]
    exact actions[position].reads_iff
  · rw [contains_write_ofTable, FlagTable.ofActions_atPosition]
    exact actions[position].writes_iff
  · intro bit hbit
    obtain ⟨flag, hflag⟩ : ∃ flag : CpuFlag, flag.bit = bit := by
      rcases hbit with hbit | hbit
      · obtain ⟨flag, -, hflag⟩ := exists_of_testBit_read _ hbit
        exact ⟨flag, hflag⟩
      · obtain ⟨flag, -, hflag⟩ := exists_of_testBit_write _ hbit
        exact ⟨flag, hflag⟩
    exact ⟨⟨flag.position, flag.position_lt⟩, by rw [flag.atPosition_position, hflag]⟩
  · -- a table by flag is a table by position
    rw [ofTable_eq_iff, CpuFlag.forall_atPosition]
    simp only [FlagTable.ofActions_atPosition]
  · intro position action bit hbit
    refine testBit_ofTable_congr fun flag hflag => ?_
    refine FlagTable.ofActions_set actions position action ?_
    rintro rfl
    exact hbit hflag.symm

/-- An addition with carry tests and modifies the carry flag and modifies the zero flag.  A zero
flag that is left undefined makes no difference to the masks, one that is tested does, and in
neither case is there a difference in the bit of the carry flag. -/
theorem FlagMasks.classify_actions_adc :
    let untouched : Vector FlagAction 21 := Vector.replicate 21 .untouched
    let actions := (untouched.set 0 .testedModified).set 3 .modified
    let masks := ofTable (.ofActions actions)
    masks.read.contains .carry = true ∧ masks.write.contains .zero = true ∧
      masks.read.contains .zero = false ∧
      masks = ofTable (.ofActions (actions.set 3 .undefined)) ∧
      masks ≠ ofTable (.ofActions (actions.set 3 .tested)) ∧
      (0 ≠ (CpuFlag.atPosition 3).bit ∧
        (ofTable (.ofActions (actions.set 3 .tested))).read.bits.toNat.testBit 0 =
          masks.read.bits.toNat.testBit 0) := by
  intro untouched actions masks
  obtain ⟨hentries, -, hundefined, hlocal⟩ := classify_actions actions (actions.set 3 .undefined)
  obtain ⟨-, -, htested, -⟩ := classify_actions actions (actions.set 3 .tested)
  refine ⟨(hentries 0).1.2 (by decide), (hentries 3).2.2 (by decide), ?_,
    hundefined.2 (by decide), mt htested.1 (by decide), by decide, ?_⟩
  · exact Bool.eq_false_iff.2 (mt (hentries 3).1.1 (by decide))
  · exact (hlocal 3 .tested 0 (by decide)).1

end X86Listing
