import X86Listing.Flag
import X86Listing.Machine
import X86Listing.Mnemonic
import X86Listing.Operand

/-!
# Raw instructions

What a byte decoder says of one instruction, in the decoder's own terms: registers by number,
branch targets as displacements from the end of the instruction, memory references that may be
relative to the instruction pointer, and an action for every flag.  A raw instruction does not
know where it stands; `Instruction.ofRaw` places it.
-/

namespace X86Listing

/-- How a decoder reports an access: bit 0 reads, bit 1 writes, bit 2 reads and bit 3 writes under
a condition. -/
structure RawActions where
  /-- The bits. -/
  bits : UInt8
  deriving DecidableEq, Repr

namespace RawActions

/-- No action. -/
protected def none : RawActions := ⟨0⟩

/-- An unconditional read. -/
def read : RawActions := ⟨1⟩

/-- An unconditional write. -/
def write : RawActions := ⟨2⟩

/-- The actions of both. -/
def union (a b : RawActions) : RawActions := ⟨a.bits ||| b.bits⟩

/-- Whether there is a read, conditional or not. -/
def reads (actions : RawActions) : Bool :=
  actions.bits.toNat.testBit 0 || actions.bits.toNat.testBit 2

/-- Whether there is a write, conditional or not. -/
def writes (actions : RawActions) : Bool :=
  actions.bits.toNat.testBit 1 || actions.bits.toNat.testBit 3

end RawActions

/-- What a raw operand is. -/
inductive RawKind
  /-- An empty operand slot. -/
  | unused
  | register (number : UInt16)
  | memory (segment base index : UInt16) (scale : UInt8) (displacement : Int64)
  /-- A value; a relative one counts from the end of the instruction. -/
  | immediate (value : Int64) (relative : Bool)
  /-- Something the decoder could not classify. -/
  | unknown (code : UInt8)
  deriving DecidableEq, Repr

/-- One operand as the decoder reports it. -/
structure RawOperand where
  kind : RawKind
  /-- Width in bytes. -/
  size : UInt16
  visibility : Visibility
  actions : RawActions
  deriving DecidableEq, Repr

/-- An empty operand slot. -/
def RawOperand.unused : RawOperand :=
  ⟨.unused, 0, .invalid, .none⟩

/-- One instruction as the decoder reports it. -/
structure RawInstruction where
  /-- Number of bytes used. -/
  length : UInt8
  mnemonic : Mnemonic
  operands : List RawOperand
  /-- What the instruction does to each flag. -/
  flags : FlagTable

end X86Listing
