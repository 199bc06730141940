import X86Listing.Flag
import X86Listing.Machine
import X86Listing.Mnemonic
import X86Listing.Operand

/-!
# Instructions

One line of a listing: an address, a size in bytes, a mnemonic, the operands and the flags that are
read and written.
-/

namespace X86Listing

/-- One decoded instruction, with all addresses resolved. -/
structure Instruction where
  /-- Where the instruction starts. -/
  address : Address
  /-- Size in bytes. -/
  size : UInt8
  mnemonic : Mnemonic
  /-- Operands in the decoder's order. -/
  operands : List Operand
  flagsRead : FlagMask
  /-- Flags that are set, cleared, modified or left undefined. -/
  flagsWrite : FlagMask
  deriving DecidableEq, Repr

namespace Instruction

/-- The operand at a position. -/
def operand? (insn : Instruction) (position : Nat) : Option Operand :=
  insn.operands[position]?

/-- The operands that are written out. -/
def explicitOperands (insn : Instruction) : List Operand :=
  insn.operands.filter fun operand => operand.visibility = .explicit

/-- The address right after the instruction, modulo `2 ^ 64`. -/
def endAddress (insn : Instruction) : Address :=
  insn.address + insn.size.toUInt64

/-- The instruction in one short line, without operands. -/
def summary (insn : Instruction) : String :=
  Text.markedString insn.address.toNat ++ ": " ++ insn.mnemonic.name ++ " (" ++
    Text.decimalString insn.size.toNat ++ " bytes)"

end Instruction

end X86Listing
