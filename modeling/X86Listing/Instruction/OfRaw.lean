import X86Listing.Instruction
import X86Listing.Raw

/-!
# Placing a raw instruction at an address

`Instruction.ofRaw` turns a decoder's raw instruction into a line of a listing.  It never fails.

* A relative immediate becomes the address it refers to.
* A memory reference whose base is the instruction pointer loses its base, and its displacement
  becomes the address it refers to.
* At most `maxOperands` operands are kept; an operand that the decoder could not classify becomes
  nothing, but keeps its place.
* The flag table becomes a pair of masks.

All address arithmetic wraps at `2 ^ 64`.
-/

namespace X86Listing

namespace RawInstruction

/-- The address after the instruction, as a signed word: what relative values count from. -/
def nextAddress (raw : RawInstruction) (address : Address) : Int64 :=
  Int64.ofNat raw.length.toNat + address.toInt64

end RawInstruction

/-- An absolute value: a relative one is counted from `next`. -/
def resolveImmediate (value : Int64) (relative : Bool) (next : Int64) : Int64 :=
  if relative then value + next else value

namespace MemoryReference

/-- Count a displacement from `next` if the base is the instruction pointer, and drop that base. -/
def resolve (memory : MemoryReference) (next : Int64) : MemoryReference :=
  if memory.base.isInstructionPointer then
    { memory with base := .none, displacement := memory.displacement + next }
  else memory

end MemoryReference

namespace RawActions

/-- Access as listings show it: conditions are forgotten. -/
def access (actions : RawActions) : Access :=
  .ofReadWrite actions.reads actions.writes

end RawActions

namespace RawKind

/-- What the operand refers to once `next` is the address after the instruction.  The operand's
size matters for a memory reference alone. -/
def resolve (kind : RawKind) (size : UInt16) (next : Int64) : OperandKind :=
  match kind with
  | .immediate value relative => .immediate (resolveImmediate value relative next)
  | .register number => .register (.ofNumber number)
  | .memory segment base index scale displacement =>
      .memory (MemoryReference.resolve
        ⟨size, .ofNumber segment, .ofNumber base, .ofNumber index, scale, displacement⟩ next)
  | .unused | .unknown _ => .absent

end RawKind

/-- The operand as listings show it. -/
def RawOperand.resolve (operand : RawOperand) (next : Int64) : Operand where
  kind := operand.kind.resolve operand.size next
  visibility := operand.visibility
  access := operand.actions.access

/-- **Normalisation.**  The listing's line for a raw instruction at an address. -/
def Instruction.ofRaw (raw : RawInstruction) (address : Address) : Instruction :=
  let masks := FlagMasks.ofTable raw.flags
  { address := address
    size := raw.length
    mnemonic := raw.mnemonic
    operands := (raw.operands.take maxOperands).map (·.resolve (raw.nextAddress address))
    flagsRead := masks.read
    flagsWrite := masks.write }

end X86Listing
