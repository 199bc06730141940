import Mathlib
import X86Listing.Instruction.OfRaw
import X86Listing.Proofs.Raw.Operands

/-!
# Hidden uses

A lowered record lists the operands that are written out and behind them the registers that are used
without being written out.  The hidden operands grow one use at a time, by a search for the register
that may change an operand in the middle of the list.  What comes of it needs no search: one operand
for each register, in the order in which the registers are named for the first time, with a read and
a write just where the record names the register among those read and those written.

* `addHidden_hiddenUses` — one more use of a register, seen before or not.
* `addAllHidden_hiddenUses` — all uses of one kind, by induction on their list.
* `Instruction.operands_ofRecord` — the operands of a record from the engine to the listing.
-/

namespace X86Listing

/-! ## Registers in the order of their first use -/

/-- A register that is named once more is new or was listed already. -/
theorem eraseDups_append_singleton (numbers : List UInt16) (number : UInt16) :
    (numbers ++ [number]).eraseDups =
      if number ∈ numbers then numbers.eraseDups else numbers.eraseDups ++ [number] := by
  rw [List.eraseDups_append]
  split
  · rename_i hseen
    simp [List.removeAll, hseen]
  · rename_i hnew
    simp [List.removeAll, hnew, List.eraseDups_cons]

/-- No register is listed twice. -/
theorem nodup_eraseDups (numbers : List UInt16) : numbers.eraseDups.Nodup := by
  induction numbers using List.reverseRecOn with
  | nil => exact List.nodup_nil
  | append_singleton numbers number ih =>
      rw [eraseDups_append_singleton]
      split
      · exact ih
      · rename_i hnew
        rw [← List.concat_eq_append]
        exact ih.concat (mt List.mem_eraseDups.1 hnew)

/-! ## Adding uses -/

namespace RawActions

theorem none_union (actions : RawActions) : RawActions.none.union actions = actions := by
  simp [union, RawActions.none]

/-- To be used twice in the same way is to be used once. -/
theorem union_union_self (actions more : RawActions) :
    (actions.union more).union more = actions.union more := by
  simp [union, UInt8.or_assoc]

end RawActions

/-- One hidden operand for each register, with the actions that the register has. -/
def hiddenUses (numbers : List UInt16) (actions : UInt16 → RawActions) : List RawOperand :=
  numbers.map fun number => .hidden number (actions number)

/-- The actions of registers after some of them are used in one more way. -/
def addUses (numbers : List UInt16) (more : RawActions) (actions : UInt16 → RawActions) :
    UInt16 → RawActions :=
  fun number => if number ∈ numbers then (actions number).union more else actions number

theorem hiddenUses_cons (number : UInt16) (numbers : List UInt16) (actions : UInt16 → RawActions) :
    hiddenUses (number :: numbers) actions =
      .hidden number (actions number) :: hiddenUses numbers actions :=
  rfl

theorem hiddenUses_append (numbers others : List UInt16) (actions : UInt16 → RawActions) :
    hiddenUses (numbers ++ others) actions =
      hiddenUses numbers actions ++ hiddenUses others actions :=
  List.map_append

/-- Uses in the same way may be taken together. -/
theorem addUses_addUses (number : UInt16) (numbers : List UInt16) (more : RawActions)
    (actions : UInt16 → RawActions) :
    addUses numbers more (addUses [number] more actions) =
      addUses (number :: numbers) more actions := by
  funext other
  by_cases hother : other = number
  · subst hother
    by_cases hmem : other ∈ numbers
    · simp [addUses, hmem, RawActions.union_union_self]
    · simp [addUses, hmem]
  · simp [addUses, hother]

/-- The use of a register shows in no operand of another register. -/
theorem hiddenUses_addUses_of_not_mem {numbers : List UInt16} {number : UInt16}
    (h : number ∉ numbers) (more : RawActions) (actions : UInt16 → RawActions) :
    hiddenUses numbers (addUses [number] more actions) = hiddenUses numbers actions := by
  refine List.map_congr_left fun other hother => ?_
  have hne : other ≠ number := fun heq => h (heq ▸ hother)
  simp [addUses, hne]

theorem isHidden_hidden (number other : UInt16) (actions : RawActions) :
    (RawOperand.hidden other actions).isHidden number = true ↔ other = number := by
  simp [RawOperand.isHidden, RawOperand.hidden]

/-- A register that has no operand yet gets one at the end. -/
theorem addHidden_of_not_mem {numbers : List UInt16} {number : UInt16} (h : number ∉ numbers)
    (actions : UInt16 → RawActions) (more : RawActions) :
    addHidden number more (hiddenUses numbers actions) =
      hiddenUses numbers actions ++ [.hidden number more] := by
  induction numbers with
  | nil => rfl
  | cons other numbers ih =>
      rw [List.mem_cons, not_or] at h
      obtain ⟨hother, hrest⟩ := h
      rw [hiddenUses_cons, addHidden, if_neg (mt (isHidden_hidden _ _ _).1 (Ne.symm hother)),
        ih hrest, List.cons_append]

/-- A register that has an operand gets its actions added there. -/
theorem addHidden_of_mem {numbers : List UInt16} (hnodup : numbers.Nodup) {number : UInt16}
    (h : number ∈ numbers) (actions : UInt16 → RawActions) (more : RawActions) :
    addHidden number more (hiddenUses numbers actions) =
      hiddenUses numbers (addUses [number] more actions) := by
  induction numbers with
  | nil => exact absurd h List.not_mem_nil
  | cons other numbers ih =>
      obtain ⟨hfresh, hnodup⟩ := List.nodup_cons.1 hnodup
      rw [hiddenUses_cons, hiddenUses_cons, addHidden]
      by_cases hother : other = number
      · -- the operand is found, and no later one is of the same register
        subst hother
        rw [if_pos ((isHidden_hidden _ _ _).2 rfl), hiddenUses_addUses_of_not_mem hfresh]
        simp [addUses, RawOperand.hidden]
      · have hrest := ih hnodup ((List.mem_cons.1 h).resolve_left (Ne.symm hother))
        rw [if_neg (mt (isHidden_hidden _ _ _).1 hother), hrest]
        simp [addUses, hother]

/-- **One more use**: the register is named once more, and its actions grow. -/
theorem addHidden_hiddenUses {seen : List UInt16} {actions : UInt16 → RawActions}
    (hfresh : ∀ number, number ∉ seen → actions number = .none) (number : UInt16)
    (more : RawActions) :
    addHidden number more (hiddenUses seen.eraseDups actions) =
      hiddenUses (seen ++ [number]).eraseDups (addUses [number] more actions) := by
  rw [eraseDups_append_singleton]
  split
  · rename_i hseen
    exact addHidden_of_mem (nodup_eraseDups seen) (List.mem_eraseDups.2 hseen) actions more
  · rename_i hnew
    have hunlisted := mt List.mem_eraseDups.1 hnew
    rw [addHidden_of_not_mem hunlisted, hiddenUses_append, hiddenUses_addUses_of_not_mem hunlisted]
    simp [hiddenUses, addUses, hfresh number hnew, RawActions.none_union]

/-- **All uses of one kind**, one after the other. -/
theorem addAllHidden_hiddenUses (numbers : List UInt16) (more : RawActions) {seen : List UInt16}
    {actions : UInt16 → RawActions} (hfresh : ∀ number, number ∉ seen → actions number = .none) :
    addAllHidden numbers more (hiddenUses seen.eraseDups actions) =
      hiddenUses (seen ++ numbers).eraseDups (addUses numbers more actions) := by
  induction numbers generalizing seen actions with
  | nil =>
      have hnone : addUses [] more actions = actions := by
        funext number
        simp [addUses]
      rw [List.append_nil, hnone]
      rfl
  | cons number numbers ih =>
      have hfresh' : ∀ other, other ∉ seen ++ [number] →
          addUses [number] more actions other = .none := by
        intro other hother
        rw [List.mem_append, not_or] at hother
        rw [addUses, if_neg hother.2, hfresh other hother.1]
      change addAllHidden numbers more (addHidden number more _) = _
      rw [addHidden_hiddenUses hfresh, ih hfresh', addUses_addUses, List.append_assoc,
        List.singleton_append]

/-! ## The operands of a record -/

/-- The operand is the hidden use of a register in a record: it reads the register just if the
record names the register among those read, writes it just if the record names it among those
written, and says nothing else. -/
structure EngineRecord.IsHiddenUse (record : EngineRecord) (number : UInt16)
    (operand : RawOperand) : Prop where
  kind : operand.kind = .register number
  size : operand.size = 0
  visibility : operand.visibility = .hidden
  actions : ∀ bit, operand.actions.bits.toNat.testBit bit = true ↔
    bit = 0 ∧ number ∈ record.regsRead ∨ bit = 1 ∧ number ∈ record.regsWrite

/-- The bits of a register's actions after it may have been used in one more way. -/
theorem testBit_addUses (numbers : List UInt16) (more : RawActions)
    (actions : UInt16 → RawActions) (number : UInt16) (bit : Nat) :
    (addUses numbers more actions number).bits.toNat.testBit bit = true ↔
      (actions number).bits.toNat.testBit bit = true ∨
        number ∈ numbers ∧ more.bits.toNat.testBit bit = true := by
  rw [addUses]
  split
  · rename_i hmem
    simp [RawActions.union, hmem]
  · rename_i hmem
    simp [hmem]

namespace RawActions

theorem testBit_none (bit : Nat) : RawActions.none.bits.toNat.testBit bit = false :=
  Nat.zero_testBit bit

theorem testBit_read (bit : Nat) : read.bits.toNat.testBit bit = true ↔ bit = 0 := by
  change (2 ^ 0).testBit bit = true ↔ _
  rw [Nat.testBit_two_pow, decide_eq_true_eq, eq_comm]

theorem testBit_write (bit : Nat) : write.bits.toNat.testBit bit = true ↔ bit = 1 := by
  change (2 ^ 1).testBit bit = true ↔ _
  rw [Nat.testBit_two_pow, decide_eq_true_eq, eq_comm]

end RawActions

namespace EngineRecord

variable (record : EngineRecord)

/-- The actions of each register in the hidden operands of a record. -/
def hiddenActions : UInt16 → RawActions :=
  addUses record.regsWrite .write (addUses record.regsRead .read fun _ => .none)

/-- Reads first and writes behind them, both uses of a register in one operand. -/
theorem addAllHidden_eq_hiddenUses :
    addAllHidden record.regsWrite .write (addAllHidden record.regsRead .read []) =
      hiddenUses (record.regsRead ++ record.regsWrite).eraseDups record.hiddenActions := by
  have hread : addAllHidden record.regsRead .read [] =
      hiddenUses record.regsRead.eraseDups (addUses record.regsRead .read fun _ => .none) :=
    @addAllHidden_hiddenUses record.regsRead .read [] (fun _ => .none) fun _ _ => rfl
  rw [hread]
  refine addAllHidden_hiddenUses record.regsWrite .write fun number hnumber => ?_
  rw [addUses, if_neg hnumber]

theorem isHiddenUse_hidden (number : UInt16) :
    record.IsHiddenUse number (.hidden number (record.hiddenActions number)) where
  kind := rfl
  size := rfl
  visibility := rfl
  actions bit := by
    change (record.hiddenActions number).bits.toNat.testBit bit = true ↔ _
    rw [hiddenActions, testBit_addUses, testBit_addUses, RawActions.testBit_none,
      RawActions.testBit_read, RawActions.testBit_write]
    simp [and_comm]

theorem forall₂_isHiddenUse (numbers : List UInt16) :
    List.Forall₂ record.IsHiddenUse numbers (hiddenUses numbers record.hiddenActions) := by
  refine List.forall₂_map_right_iff.2 (List.forall₂_same.2 fun number _ => ?_)
  exact record.isHiddenUse_hidden number

end EngineRecord

/-! ## From the engine to the listing -/

/-- Cutting the list a second time changes nothing. -/
theorem Instruction.operands_ofRaw {raw : RawInstruction} (h : raw.operands.length ≤ maxOperands)
    (address : Address) :
    (ofRaw raw address).operands = raw.operands.map (·.resolve (raw.nextAddress address)) := by
  rw [ofRaw, List.take_of_length_le h]

/-- A listing keeps the visibility of operands. -/
theorem filter_explicit_map_resolve (operands : List RawOperand) (next : Int64) :
    (operands.map (·.resolve next)).filter (fun operand => operand.visibility = .explicit) =
      (operands.filter fun operand => operand.visibility = .explicit).map (·.resolve next) := by
  rw [List.filter_map]
  rfl

/-- **The operands of a record, from the engine to the listing.**  Every record that is lowered has
hidden uses, one for each register that is read or written without being written out, in the order
in which the registers are named for the first time, reads before writes.

* The raw operands are the operands that are written out, unchanged and in order, and behind them
  the hidden uses, cut to `maxOperands`: the cut comes last and takes nothing from a hidden use that
  stays.
* The listing has one operand for each raw operand, in the same order.
* The operands that the listing shows as written out are those of the engine's operands that were
  not cut off. -/
theorem Instruction.operands_ofRecord (mode : MachineMode) (window : List UInt8)
    (record : EngineRecord) (raw : RawInstruction) (address : Address)
    (hraw : RawInstruction.ofRecord? mode window record = some raw) :
    let written := record.operands.map (record.rawOperand mode window)
    let used := (record.regsRead ++ record.regsWrite).eraseDups
    let next := raw.nextAddress address
    ∃ hidden, List.Forall₂ record.IsHiddenUse used hidden ∧ used.Nodup ∧
      raw.operands = (written ++ hidden).take maxOperands ∧
      (∀ operand ∈ written, operand.visibility = .explicit) ∧
      (ofRaw raw address).operands = raw.operands.map (·.resolve next) ∧
      (ofRaw raw address).explicitOperands = (written.take maxOperands).map (·.resolve next) := by
  intro written used next
  have hwritten : ∀ operand ∈ written, operand.visibility = .explicit :=
    record.visibility_explicitOperands mode window
  have hhidden : ∀ operand ∈ hiddenUses used record.hiddenActions,
      operand.visibility = .hidden := by
    intro operand hmem
    obtain ⟨number, -, rfl⟩ := List.mem_map.1 hmem
    rfl
  have hoperands : raw.operands =
      (written ++ hiddenUses used record.hiddenActions).take maxOperands := by
    obtain ⟨-, rfl⟩ := RawInstruction.ofRecord?_eq_some_iff.1 hraw
    rw [record.allOperands_eq_append, record.addAllHidden_eq_hiddenUses]
    rfl
  have hlisted : (ofRaw raw address).operands = raw.operands.map (·.resolve next) := by
    refine operands_ofRaw ?_ address
    rw [hoperands]
    exact List.length_take_le _ _
  refine ⟨_, record.forall₂_isHiddenUse used, nodup_eraseDups _, hoperands, hwritten, hlisted, ?_⟩
  have hkept : (written.take maxOperands).filter (fun operand => operand.visibility = .explicit) =
      written.take maxOperands := by
    refine List.filter_eq_self.2 fun operand hmem => decide_eq_true ?_
    exact hwritten operand (List.mem_of_mem_take hmem)
  have hdropped : ∀ count, ((hiddenUses used record.hiddenActions).take count).filter
      (fun operand => operand.visibility = .explicit) = [] := by
    intro count
    refine List.filter_eq_nil_iff.2 fun operand hmem => ?_
    rw [hhidden operand (List.mem_of_mem_take hmem)]
    decide
  rw [explicitOperands, hlisted, filter_explicit_map_resolve, hoperands, List.take_append,
    List.filter_append, hkept, hdropped, List.append_nil]

/-- Nine operands that are written out, all of them the stack pointer, leave room for one hidden
use.  It is a read of the stack pointer that is also named as a write after the room is used up. -/
theorem Instruction.operands_ofRecord_crowded :
    let record : EngineRecord := ⟨1, 2, [], [44, 41, 44], [25, 44], 0, 0, 0, 0,
      List.replicate 9 ⟨.register 44, 8, 1⟩⟩
    ∃ raw, RawInstruction.ofRecord? .long64 [] record = some raw ∧ raw.operands.length = 10 ∧
      (∃ operand, raw.operands[9]? = some operand ∧ record.IsHiddenUse 44 operand) ∧
      (ofRaw raw 0).explicitOperands =
        List.replicate 9 ⟨.register (.ofNumber 44), .explicit, ⟨1⟩⟩ := by
  intro record
  obtain ⟨hidden, hhidden, -, hraw, -, -, hexplicit⟩ := operands_ofRecord .long64 [] record _ 0 rfl
  have hused : (record.regsRead ++ record.regsWrite).eraseDups = [44, 41, 25] := by decide
  rw [hused] at hhidden
  obtain ⟨first, rest, hfirst, -, rfl⟩ := List.forall₂_cons_left_iff.1 hhidden
  refine ⟨_, rfl, rfl, ⟨first, ?_, hfirst⟩, hexplicit.trans (by decide)⟩
  rw [hraw]
  rfl

end X86Listing
