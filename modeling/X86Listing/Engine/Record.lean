/-!
# Records of a disassembly engine

A disassembly engine is shown a window of bytes and answers with a record of the first instruction
in it, or with nothing.  It decodes as if the window stood at address 0.  The record is the
engine's own view of the instruction, with numbers for everything; `RawInstruction.ofRecord` reads
it.

An engine that is played back from a recorded answer (`EngineRecord.replay`) refuses a window that
is too short for the recorded instruction, as a real engine does.
-/

namespace X86Listing

/-- What an engine's operand is. -/
inductive EngineKind
  | register (number : UInt16)
  /-- A value; for a branch, the target. -/
  | immediate (value : Int64)
  | memory (segment base index : UInt16) (scale : Int32) (displacement : Int64)
  | invalid
  deriving DecidableEq, Repr

/-- One operand as the engine reports it. -/
structure EngineOperand where
  kind : EngineKind
  /-- Width in bytes. -/
  size : UInt8
  /-- 1 reads, 2 writes, 3 does both; other codes say nothing. -/
  access : UInt8
  deriving DecidableEq, Repr

/-- Whether the operand is a value. -/
def EngineOperand.isImmediate (operand : EngineOperand) : Bool :=
  match operand.kind with
  | .immediate _ => true
  | _ => false

/-- What the engine says of one instruction. -/
structure EngineRecord where
  /-- Instruction number; 0 for one that the engine does not know. -/
  number : UInt32
  /-- Number of bytes used. -/
  size : UInt16
  /-- The groups the instruction belongs to. -/
  groups : List UInt8
  /-- Registers that are read without being written out. -/
  regsRead : List UInt16
  /-- Registers that are written without being written out. -/
  regsWrite : List UInt16
  /-- What happens to the flags, one bit for each flag and effect. -/
  flagWord : UInt64
  /-- Where the immediate stands among the instruction's bytes; 0 if unknown. -/
  immediateOffset : UInt8
  /-- Width of the immediate in bytes. -/
  immediateSize : UInt8
  /-- The operand-size prefix byte; 0 if there is none. -/
  sizePrefix : UInt8
  operands : List EngineOperand
  deriving DecidableEq, Repr

namespace EngineRecord

/-- The group of jumps. -/
def jumpGroup : UInt8 := 1

/-- The group of calls. -/
def callGroup : UInt8 := 2

/-- The group of branches to a relative target. -/
def relativeGroup : UInt8 := 7

/-- The group of x87 instructions. -/
def fpuGroup : UInt8 := 169

/-- The prefix byte that selects the other operand size. -/
def operandSizePrefix : UInt8 := 0x66

/-- The instruction's bytes: the first `size` bytes of the window.  An engine that reports more
bytes than it was shown takes the missing ones for zeros. -/
def bytes (record : EngineRecord) (window : List UInt8) : List UInt8 :=
  window.take record.size.toNat ++ List.replicate (record.size.toNat - window.length) 0

/-- Whether immediates are branch targets: the instruction is a relative branch, or a jump or call
with exactly one immediate. -/
def isRelative (record : EngineRecord) : Bool :=
  record.groups.contains relativeGroup ||
    ((record.groups.contains jumpGroup || record.groups.contains callGroup) &&
      record.operands.countP (·.isImmediate) == 1)

/-- Play a recorded answer back: it is refused if the window is shorter than the instruction,
unless the recording forces it. -/
def replay (record : EngineRecord) (force : Bool) (window : List UInt8) : Option EngineRecord :=
  if record.size.toNat ≤ window.length || force then some record else none

end EngineRecord

/-- A disassembly engine: the record of the first instruction in a window. -/
abbrev Engine := List UInt8 → Option EngineRecord

/-! ## Engines that cannot be opened -/

/-- Why an engine could not be opened: an error number of the engine. -/
structure EngineError where
  code : Nat
  deriving DecidableEq, Repr

/-- The engine's text for its error number. -/
def EngineError.text (error : EngineError) : String :=
  match error.code with
  | 1 => "Out-Of-Memory error"
  | 2 => "Unsupported architecture"
  | 3 => "Invalid handle"
  | 4 => "Invalid csh argument"
  | 5 => "Invalid/unsupported mode"
  | 6 => "Invalid/unsupported option"
  | 7 => "Information is unavailable because detail option is OFF"
  | 8 => "Dynamic memory management uninitialized (see CS_OPT_MEM)"
  | 9 => "Unsupported version (bindings)"
  | 10 => "Access irrelevant data in \"diet\" engine"
  | 11 => "Access irrelevant data for \"data\" instruction in SKIPDATA mode"
  | 12 => "X86 AT&T syntax is unsupported (opt-out at compile time)"
  | 13 => "X86 Intel syntax is unsupported (opt-out at compile time)"
  | 14 => "X86 MASM syntax is unsupported (opt-out at compile time)"
  | _ => "Encountered Unknown Capstone Return Error"

end X86Listing
