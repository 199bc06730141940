import X86Listing.Text.MaskNames

/-!
# CPU flags

The arithmetic, system and x87 flags, the bit that each occupies in a mask, and what an instruction
does to a flag.  A table that gives every flag an action is collapsed into two masks, the flags
read and the flags written, by `FlagMasks.ofTable`.
-/

namespace X86Listing

/-! ## Flags and masks -/

/-- A processor flag, in the order of a decoder's action table. -/
inductive CpuFlag
  | carry | parity | auxiliaryCarry | zero | sign | trap | interrupt | direction | overflow
  | ioPrivilegeLevel | nestedTask | resume | virtualMode | alignmentCheck | virtualInterrupt
  | virtualInterruptPending | identification
  /-- The four condition flags of the x87 status word. -/
  | c0 | c1 | c2 | c3
  deriving DecidableEq, Repr

namespace CpuFlag

/-- All flags, in table order. -/
def all : List CpuFlag :=
  [carry, parity, auxiliaryCarry, zero, sign, trap, interrupt, direction, overflow,
    ioPrivilegeLevel, nestedTask, resume, virtualMode, alignmentCheck, virtualInterrupt,
    virtualInterruptPending, identification, c0, c1, c2, c3]

theorem mem_all (flag : CpuFlag) : flag ∈ all := by cases flag <;> decide

/-- The position of a flag in the table. -/
def position (flag : CpuFlag) : Nat :=
  all.idxOf flag

/-- The bit a flag occupies in a mask: its bit in the flags register, and bits 22 to 25 for the
x87 condition flags.  Bits and table positions do not agree, for the register has gaps. -/
def bit : CpuFlag → Nat
  | carry => 0
  | parity => 2
  | auxiliaryCarry => 4
  | zero => 6
  | sign => 7
  | trap => 8
  | interrupt => 9
  | direction => 10
  | overflow => 11
  | ioPrivilegeLevel => 12
  | nestedTask => 14
  | resume => 16
  | virtualMode => 17
  | alignmentCheck => 18
  | virtualInterrupt => 19
  | virtualInterruptPending => 20
  | identification => 21
  | c0 => 22
  | c1 => 23
  | c2 => 24
  | c3 => 25

/-- The manual's abbreviation, used in the text of masks. -/
def abbreviation : CpuFlag → String
  | carry => "CF"
  | parity => "PF"
  | auxiliaryCarry => "AF"
  | zero => "ZF"
  | sign => "SF"
  | trap => "TF"
  | interrupt => "IF"
  | direction => "DF"
  | overflow => "OF"
  | ioPrivilegeLevel => "IOPL"
  | nestedTask => "NT"
  | resume => "RF"
  | virtualMode => "VM"
  | alignmentCheck => "AC"
  | virtualInterrupt => "VIF"
  | virtualInterruptPending => "VIP"
  | identification => "ID"
  | c0 => "C0"
  | c1 => "C1"
  | c2 => "C2"
  | c3 => "C3"

/-- The full name, used where flags are listed one by one. -/
def name : CpuFlag → String
  | carry => "Carry"
  | parity => "Parity"
  | auxiliaryCarry => "AuxiliaryCarry"
  | zero => "Zero"
  | sign => "Sign"
  | trap => "Trap"
  | interrupt => "Interrupt"
  | direction => "Direction"
  | overflow => "Overflow"
  | ioPrivilegeLevel => "IoPrivilegeLevel"
  | nestedTask => "NestedTask"
  | resume => "Resume"
  | virtualMode => "VirtualMode"
  | alignmentCheck => "AlignmentCheck"
  | virtualInterrupt => "VirtualInterrupt"
  | virtualInterruptPending => "VirtualInterruptPending"
  | identification => "Identification"
  | c0 => "C0"
  | c1 => "C1"
  | c2 => "C2"
  | c3 => "C3"

/-- The flag with exactly this full name. -/
def ofName? (name : String) : Option CpuFlag :=
  all.find? fun flag => flag.name == name

/-- No two flags share a bit. -/
theorem bit_injective {f g : CpuFlag} (h : f.bit = g.bit) : f = g := by
  revert h
  cases f <;> cases g <;> decide

end CpuFlag

/-- A set of flags, as bits of a 32-bit mask.  Bits that belong to no flag may be set too. -/
structure FlagMask where
  /-- The mask's bits. -/
  bits : UInt32
  deriving DecidableEq, Repr

namespace FlagMask

/-- The mask without bits. -/
def empty : FlagMask := ⟨0⟩

instance : Inhabited FlagMask := ⟨empty⟩

/-- The mask of one flag. -/
def single (flag : CpuFlag) : FlagMask :=
  ⟨UInt32.ofNat (1 <<< flag.bit)⟩

/-- The bits of either mask. -/
def union (a b : FlagMask) : FlagMask :=
  ⟨a.bits ||| b.bits⟩

/-- The mask of a list of flags. -/
def ofFlags (flags : List CpuFlag) : FlagMask :=
  flags.foldl (fun mask flag => mask.union (single flag)) empty

/-- Whether the flag's bit is set. -/
def contains (mask : FlagMask) (flag : CpuFlag) : Bool :=
  mask.bits.toNat.testBit flag.bit

/-- The name table of mask bits. -/
def bitNames : Text.BitNames :=
  CpuFlag.all.map fun flag => (flag.abbreviation, flag.bit)

/-- The text of a mask: `CF | ZF`. -/
def text (mask : FlagMask) : String :=
  String.ofList (bitNames.write mask.bits.toNat)

/-- Read the text of a mask. -/
def ofText? (text : String) : Option FlagMask :=
  (bitNames.read? UInt32.size text.toList).map fun bits => ⟨UInt32.ofNat bits⟩

end FlagMask

/-! ## Actions -/

/-- What an instruction does to one flag. -/
inductive FlagAction
  /-- The instruction leaves the flag alone. -/
  | untouched
  | tested
  | testedModified
  | modified
  /-- The flag is cleared. -/
  | reset
  | set
  | undefined
  deriving DecidableEq, Repr

namespace FlagAction

/-- All actions. -/
def all : List FlagAction :=
  [untouched, tested, testedModified, modified, reset, set, undefined]

/-- The name used where a table is listed. -/
def name : FlagAction → String
  | untouched => "None"
  | tested => "Tested"
  | testedModified => "TestedModified"
  | modified => "Modified"
  | reset => "Set0"
  | set => "Set1"
  | undefined => "Undefined"

/-- The action with exactly this name. -/
def ofName? (name : String) : Option FlagAction :=
  all.find? fun action => action.name == name

/-- Whether the instruction depends on the flag's old value. -/
def reads : FlagAction → Bool
  | tested | testedModified => true
  | _ => false

/-- Whether the instruction may change the flag. -/
def writes : FlagAction → Bool
  | testedModified | modified | reset | set | undefined => true
  | _ => false

end FlagAction

/-- What an instruction does to every flag. -/
abbrev FlagTable := CpuFlag → FlagAction

/-- The table of an instruction that touches no flag. -/
def FlagTable.untouched : FlagTable := fun _ => .untouched

/-- The flags an instruction reads and the flags it writes. -/
structure FlagMasks where
  read : FlagMask
  write : FlagMask
  deriving DecidableEq, Repr

/-- Collapse a table into masks.  A flag that is tested and modified is in both. -/
def FlagMasks.ofTable (table : FlagTable) : FlagMasks where
  read := .ofFlags (CpuFlag.all.filter fun flag => (table flag).reads)
  write := .ofFlags (CpuFlag.all.filter fun flag => (table flag).writes)

end X86Listing
