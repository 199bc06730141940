import X86Listing.Register
import X86Listing.Text.MaskNames

/-!
# Operands

An operand is nothing, a register, an immediate value or a memory reference, together with where it
shows up in the instruction and how it is accessed.  In a finished listing immediates and memory
displacements are absolute: they no longer depend on the instruction pointer.
-/

namespace X86Listing

/-- Where an operand shows up relative to the instruction as it is written. -/
inductive Visibility
  /-- Written out. -/
  | explicit
  /-- Not written at all, like the stack pointer of a push. -/
  | hidden
  /-- Written, but fixed by the mnemonic. -/
  | implicit
  | invalid
  deriving DecidableEq, Repr

namespace Visibility

/-- All visibilities. -/
def all : List Visibility := [explicit, hidden, implicit, invalid]

/-- The name used in listings. -/
def name : Visibility → String
  | explicit => "explicit"
  | hidden => "hidden"
  | implicit => "implicit"
  | invalid => "invalid"

/-- The visibility with exactly this name. -/
def ofName? (name : String) : Option Visibility :=
  all.find? fun visibility => visibility.name == name

end Visibility

/-! ## Access -/

/-- How an operand is accessed.  Bit 0 is a read and bit 1 a write; the other bits of the byte mean
nothing and are kept. -/
structure Access where
  /-- The bits. -/
  bits : UInt8
  deriving DecidableEq, Repr

namespace Access

/-- No access. -/
protected def none : Access := ⟨0⟩

/-- Access that reads, writes, does both or neither. -/
def ofReadWrite (reads writes : Bool) : Access :=
  ⟨(if reads then 1 else 0) ||| (if writes then 2 else 0)⟩

/-- Whether the operand is read. -/
def reads (access : Access) : Bool :=
  access.bits.toNat.testBit 0

/-- Whether the operand is written. -/
def writes (access : Access) : Bool :=
  access.bits.toNat.testBit 1

/-- The name table of access bits. -/
def bitNames : Text.BitNames := [("READ", 0), ("WRITE", 1)]

/-- The text of an access: `READ | WRITE`. -/
def text (access : Access) : String :=
  String.ofList (bitNames.write access.bits.toNat)

/-- Read the text of an access. -/
def ofText? (text : String) : Option Access :=
  (bitNames.read? UInt8.size text.toList).map fun bits => ⟨UInt8.ofNat bits⟩

end Access

/-! ## Operands -/

/-- A memory reference: segment, base, scaled index and displacement. -/
structure MemoryReference where
  /-- Width of the access in bytes. -/
  size : UInt16
  segment : Register
  base : Register
  index : Register
  scale : UInt8
  displacement : Int64
  deriving DecidableEq, Repr

/-- A reference without base and index is to a fixed address. -/
def MemoryReference.isAbsolute (memory : MemoryReference) : Bool :=
  memory.base.isNone && memory.index.isNone

/-- What an operand refers to. -/
inductive OperandKind
  /-- Nothing. -/
  | absent
  | register (reg : Register)
  | immediate (value : Int64)
  | memory (memory : MemoryReference)
  deriving DecidableEq, Repr

/-- The name of an operand's kind. -/
def OperandKind.name : OperandKind → String
  | absent => "none"
  | register _ => "register"
  | immediate _ => "immediate"
  | memory _ => "memory"

/-- An operand of an instruction. -/
structure Operand where
  kind : OperandKind
  visibility : Visibility
  access : Access
  deriving DecidableEq, Repr

namespace Operand

/-- An operand that is not placed in an instruction yet. -/
def ofKind (kind : OperandKind) : Operand :=
  ⟨kind, .invalid, .none⟩

/-- The operand that is nothing. -/
def absent : Operand := ofKind .absent

/-- Whether the operand is nothing, wherever it stands and however it is accessed. -/
def isAbsent (operand : Operand) : Bool :=
  operand.kind = .absent

/-- Whether the operand is read. -/
def reads (operand : Operand) : Bool := operand.access.reads

/-- Whether the operand is written. -/
def writes (operand : Operand) : Bool := operand.access.writes

/-- The register of a register operand. -/
def register? (operand : Operand) : Option Register :=
  match operand.kind with
  | .register reg => some reg
  | _ => none

/-- The value of an immediate operand. -/
def immediate? (operand : Operand) : Option Int64 :=
  match operand.kind with
  | .immediate value => some value
  | _ => none

/-- The reference of a memory operand. -/
def memory? (operand : Operand) : Option MemoryReference :=
  match operand.kind with
  | .memory memory => some memory
  | _ => none

end Operand

end X86Listing
