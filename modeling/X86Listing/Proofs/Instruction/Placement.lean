import X86Listing.Instruction.OfRaw

/-!
# Placing an instruction elsewhere

A raw instruction does not know where it stands.  Placed at two addresses it becomes two
instructions that differ in the address and in what was counted from the end of the instruction:
the values of relative immediates, and the displacements of memory references whose base was the
instruction pointer.  All of them differ by the distance of the addresses, modulo `2 ^ 64`
(`Instruction.shifted_ofRaw`).
-/

namespace X86Listing

/-! ## What counts from the end of the instruction -/

/-- Whether the operand counts from the end of the instruction: a relative immediate, or a memory
reference whose base is one of the two instruction pointers. -/
def RawKind.isRelative : RawKind → Bool
  | .immediate _ relative => relative
  | .memory _ base _ _ _ => (Register.ofNumber base).isInstructionPointer
  | .unused | .register _ | .unknown _ => false

/-- The immediate with another value, or the memory reference with another displacement, `delta`
further on. -/
def OperandKind.shift (delta : Int64) : OperandKind → OperandKind
  | .immediate value => .immediate (value + delta)
  | .memory reference => .memory { reference with displacement := reference.displacement + delta }
  | .absent => .absent
  | .register reg => .register reg

/-- The operand with its value or its displacement `delta` further on, and nothing else changed. -/
def Operand.shift (operand : Operand) (delta : UInt64) : Operand :=
  { operand with kind := operand.kind.shift delta.toInt64 }

/-- An operand that counts from the end of the instruction moves with it, and no other does. -/
theorem RawKind.resolve_add (kind : RawKind) (size : UInt16) (next delta : Int64) :
    kind.resolve size (next + delta) =
      if kind.isRelative then (kind.resolve size next).shift delta else kind.resolve size next := by
  cases kind with
  | unused => rfl
  | register number => rfl
  | unknown code => rfl
  | immediate value relative =>
      cases relative with
      | false => rfl
      | true => simp [resolve, resolveImmediate, isRelative, OperandKind.shift, Int64.add_assoc]
  | memory segment base index scale displacement =>
      cases hbase : (Register.ofNumber base).isInstructionPointer with
      | false => simp [resolve, MemoryReference.resolve, isRelative, hbase]
      | true =>
          simp [resolve, MemoryReference.resolve, isRelative, hbase, OperandKind.shift,
            Int64.add_assoc]

theorem RawOperand.resolve_add (operand : RawOperand) (next : Int64) (delta : UInt64) :
    operand.resolve (next + delta.toInt64) =
      if operand.kind.isRelative then (operand.resolve next).shift delta
      else operand.resolve next := by
  rw [resolve, RawKind.resolve_add]
  split <;> rfl

theorem RawInstruction.nextAddress_add (raw : RawInstruction) (address delta : Address) :
    raw.nextAddress (address + delta) = raw.nextAddress address + delta.toInt64 := by
  rw [nextAddress, nextAddress, UInt64.toInt64_add, Int64.add_assoc]

/-! ## The same raw instruction at two addresses -/

/-- The instruction `moved` is the instruction `insn` placed `delta` further on, where `raw` is what
the decoder said: its operands that count from the end of the instruction move by `delta`, and all
else is the same. -/
structure Instruction.Shifted (raw : RawInstruction) (delta : UInt64) (insn moved : Instruction) :
    Prop where
  address : moved.address = insn.address + delta
  size : moved.size = insn.size
  mnemonic : moved.mnemonic = insn.mnemonic
  flagsRead : moved.flagsRead = insn.flagsRead
  flagsWrite : moved.flagsWrite = insn.flagsWrite
  length : moved.operands.length = insn.operands.length
  operands : ∀ (position : Nat) (operand : Operand), insn.operands[position]? = some operand →
    ∃ source : RawOperand, raw.operands[position]? = some source ∧ moved.operands[position]? =
      some (if source.kind.isRelative then operand.shift delta else operand)

/-- **Placing a raw instruction elsewhere shifts it.** -/
theorem Instruction.shifted_ofRaw (raw : RawInstruction) (address delta : Address) :
    Shifted raw delta (ofRaw raw address) (ofRaw raw (address + delta)) where
  address := rfl
  size := rfl
  mnemonic := rfl
  flagsRead := rfl
  flagsWrite := rfl
  length := by simp [ofRaw]
  operands := by
    intro position operand hoperand
    rw [ofRaw, List.getElem?_map, Option.map_eq_some_iff] at hoperand
    obtain ⟨source, hsource, rfl⟩ := hoperand
    refine ⟨source, ?_, ?_⟩
    · rw [List.getElem?_take] at hsource
      split at hsource
      · exact hsource
      · cases hsource
    · rw [ofRaw, List.getElem?_map, hsource, Option.map_some, RawInstruction.nextAddress_add,
        RawOperand.resolve_add]

end X86Listing
