import X86Listing.Instruction
import X86Listing.Json

/-!
# Instructions as JSON

An instruction is an object with its fields in a fixed order.  An operand is an object too: first
`type`, which names its kind, then the fields of that kind, then `visibility` and `access`.  Masks
are written as text and registers and mnemonics by name.
-/

namespace X86Listing

/-- The fields of a memory reference. -/
def MemoryReference.jsonFields (memory : MemoryReference) : List (String × Json) :=
  [("size", .int memory.size.toNat),
    ("segment", .string memory.segment.name),
    ("base", .string memory.base.name),
    ("index", .string memory.index.name),
    ("scale", .int memory.scale.toNat),
    ("displacement", .int memory.displacement.toInt)]

/-- The fields that a kind of operand has besides its name. -/
def OperandKind.jsonFields : OperandKind → List (String × Json)
  | .absent => []
  | .register reg => [("reg", .string reg.name)]
  | .immediate value => [("value", .int value.toInt)]
  | .memory reference => reference.jsonFields

/-- An operand as a JSON object. -/
def Operand.toJson (operand : Operand) : Json :=
  .object (("type", .string operand.kind.name) :: operand.kind.jsonFields ++
    [("visibility", .string operand.visibility.name), ("access", .string operand.access.text)])

/-- An instruction as a JSON object. -/
def Instruction.toJson (insn : Instruction) : Json :=
  .object [
    ("address", .int insn.address.toNat),
    ("size", .int insn.size.toNat),
    ("mnemonic", .string insn.mnemonic.name),
    ("operands", .array (insn.operands.map Operand.toJson)),
    ("flags_read", .string insn.flagsRead.text),
    ("flags_write", .string insn.flagsWrite.text)]

/-- A listing as one indented JSON array. -/
def prettyListing (listing : List Instruction) : String :=
  String.ofList (Json.array (listing.map Instruction.toJson)).pretty

end X86Listing
