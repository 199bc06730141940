import X86Listing.Instruction.ToJson
import X86Listing.Json.Scan

/-!
# Instructions from JSON

Instructions are read from the left, and the first fault decides how a text is refused.

* Fields may come in any order.  A field that an instruction does not have is skipped.  A known
  field that comes twice is refused at its second name, and a missing one at the closing brace.
  An instruction may also be written as an array of its six fields in order.
* A mnemonic or a visibility is a name.  An object whose only field is that name, with the value
  `null`, will do too.  A value that starts with any other character is malformed.
* The key of such an object has to be a string.  Versions of the JSON library differ in the fault of
  any other key, and whichever is installed is used, so `NameKey` says which fault it is.
* Of an operand's fields, `visibility` and `access` are checked where they stand.  The others are
  kept as they come, and at the closing brace those that belong to the operand's kind are checked.
-/

namespace X86Listing

/-- How the key is read where a name is written as an object. -/
inductive NameKey
  /-- As the name of a field, in newer versions: any other key than a string is malformed. -/
  | fieldName
  /-- As a text, in older versions: another scalar is a misfit once it has been read, and an array or
  an object is one at once. -/
  | text
  deriving DecidableEq, Repr

/-- Read the key. -/
def NameKey.scan : NameKey → Scan String
  | fieldName => Scan.fieldName
  | text => Scan.text

namespace Scan

/-! ## Fields of one value -/

/-- The least value of a signed 64-bit field. -/
def minSigned : Int := Int64.minValue.toInt

/-- The largest value of a signed 64-bit field. -/
def maxSigned : Int := Int64.maxValue.toInt

/-- An unsigned integer, given how many values it can have. -/
def unsigned (size : Nat) : Scan Nat := do
  return (← integer 0 (size - 1)).toNat

/-- Something that a text has to stand for. -/
def ofOption {α : Type} : Option α → Scan α
  | some found => pure found
  | none => fault .mismatch

/-- One of several named things: its name, or an object with its name alone. -/
def named {α : Type} (key : NameKey) (ofName? : String → Option α) : Scan α := do
  let c ← peek
  if c = '"' then do
    ofOption (ofName? (← text))
  else if c = '\x7b' then do
    advance
    let found ← ofOption (ofName? (← key.scan))
    expect ':'
    match ← wantScalar with
    | .null => do
        expect '\x7d'
        return found
    | _ => fault .mismatch
  else fault .malformed

/-- A text that stands for something. -/
def worded {α : Type} (ofText? : String → Option α) : Scan α := do
  ofOption (ofText? (← text))

end Scan

/-! ## Kept fields -/

/-- The fields of an operand that are kept until its kind is known. -/
abbrev KeptFields := List (String × Json)

namespace KeptFields

/-- The only field of this name; it is refused if it is missing or comes twice. -/
def the? (kept : KeptFields) (name : String) : Option Json :=
  match kept.filter fun field => field.1 == name with
  | [field] => some field.2
  | _ => none

/-- An integer between two bounds. -/
def integer? (kept : KeptFields) (name : String) (low high : Int) : Option Int :=
  match kept.the? name with
  | some (.int value) => if low ≤ value ∧ value ≤ high then some value else none
  | _ => none

/-- An unsigned integer, given how many values it can have. -/
def unsigned? (kept : KeptFields) (name : String) (size : Nat) : Option Nat :=
  (kept.integer? name 0 (size - 1)).map Int.toNat

/-- A signed 64-bit integer. -/
def signed? (kept : KeptFields) (name : String) : Option Int64 :=
  (kept.integer? name Scan.minSigned Scan.maxSigned).map Int64.ofInt

/-- A register: its name, or an object with its name alone and nothing as its value. -/
def register? (kept : KeptFields) (name : String) : Option Register :=
  match kept.the? name with
  | some (.string found) => Register.ofName? found
  | some (.object [(found, .null)]) => Register.ofName? found
  | some (.object [(found, .object [])]) => Register.ofName? found
  | _ => none

/-- The kinds of operands, in the order in which a number may select them. -/
def kindNames : List String := ["none", "register", "immediate", "memory"]

/-- The name of the operand's kind, which may be given by its number. -/
def kindName? (kept : KeptFields) : Option String :=
  match kept.the? "type" with
  | some (.string found) => some found
  | some (.int number) => if 0 ≤ number then kindNames[number.toNat]? else none
  | _ => none

/-- The memory reference that the fields describe. -/
def memory? (kept : KeptFields) : Option MemoryReference := do
  let size ← kept.unsigned? "size" UInt16.size
  let segment ← kept.register? "segment"
  let base ← kept.register? "base"
  let index ← kept.register? "index"
  let scale ← kept.unsigned? "scale" UInt8.size
  let displacement ← kept.signed? "displacement"
  return ⟨.ofNat size, segment, base, index, .ofNat scale, displacement⟩

/-- What the fields describe.  Fields of other kinds do not matter. -/
def kind? (kept : KeptFields) : Option OperandKind := do
  match ← kept.kindName? with
  | "none" => return .absent
  | "register" => return .register (← kept.register? "reg")
  | "immediate" => return .immediate (← kept.signed? "value")
  | "memory" => return .memory (← kept.memory?)
  | _ => none

end KeptFields

/-! ## Operands -/

/-- What has been read of an operand. -/
structure OperandDraft where
  visibility : Option Visibility
  access : Option Access
  /-- Its other fields, the latest first. -/
  kept : KeptFields

namespace OperandDraft

/-- Nothing yet. -/
def empty : OperandDraft := ⟨none, none, []⟩

/-- Arrays and objects may be nested so deep in a kept field, which stands inside an operand, an
array of operands and an instruction. -/
def keptNesting : Nat := Scan.maxNesting - 3

/-- Read the colon and the value of a field. -/
def step (key : NameKey) (draft : OperandDraft) (name : String) : Scan OperandDraft := do
  match name with
  | "visibility" =>
      if draft.visibility.isSome then Scan.fault .mismatch
      else do
        Scan.expect ':'
        let found ← Scan.named key Visibility.ofName?
        return { draft with visibility := some found }
  | "access" =>
      if draft.access.isSome then Scan.fault .mismatch
      else do
        Scan.expect ':'
        let found ← Scan.worded Access.ofText?
        return { draft with access := some found }
  | _ => do
      Scan.expect ':'
      let found ← Scan.value keptNesting
      return { draft with kept := (name, found) :: draft.kept }

/-- The operand, if everything is there. -/
def finish? (draft : OperandDraft) : Option Operand := do
  let visibility ← draft.visibility
  let access ← draft.access
  let kind ← KeptFields.kind? draft.kept.reverse
  return ⟨kind, visibility, access⟩

end OperandDraft

/-- Read an operand. -/
def Scan.operand (key : NameKey) : Scan Operand := do
  if (← Scan.peek) = '\x7b' then do
    Scan.advance
    let draft ← Scan.fields (OperandDraft.step key) .empty
    Scan.ofOption draft.finish?
  else Scan.misfit

/-- Read a list of operands. -/
def Scan.operands (key : NameKey) : Scan (List Operand) := do
  if (← Scan.peek) = '[' then do
    Scan.advance
    Scan.items (Scan.operand key)
  else Scan.misfit

/-! ## Instructions -/

namespace Scan

/-- Read an address. -/
def address : Scan Address := do
  return .ofNat (← unsigned UInt64.size)

/-- Read the size of an instruction. -/
def byte : Scan UInt8 := do
  return .ofNat (← unsigned UInt8.size)

/-- Read a mnemonic. -/
def mnemonic (key : NameKey) : Scan Mnemonic := named key Mnemonic.ofName?

/-- Read a set of flags. -/
def flags : Scan FlagMask := worded FlagMask.ofText?

end Scan

/-- What has been read of an instruction. -/
structure InstructionDraft where
  address : Option Address
  size : Option UInt8
  mnemonic : Option Mnemonic
  operands : Option (List Operand)
  flagsRead : Option FlagMask
  flagsWrite : Option FlagMask

namespace InstructionDraft

/-- Nothing yet. -/
def empty : InstructionDraft := ⟨none, none, none, none, none, none⟩

/-- A field that may not have been read before: its colon and its value. -/
def once {α : Type} (before : Option α) (scan : Scan α) : Scan (Option α) :=
  if before.isSome then Scan.fault .mismatch
  else do
    Scan.expect ':'
    return some (← scan)

/-- Read the colon and the value of a field. -/
def step (key : NameKey) (draft : InstructionDraft) (name : String) : Scan InstructionDraft := do
  match name with
  | "address" => return { draft with address := ← once draft.address Scan.address }
  | "size" => return { draft with size := ← once draft.size Scan.byte }
  | "mnemonic" => return { draft with mnemonic := ← once draft.mnemonic (Scan.mnemonic key) }
  | "operands" => return { draft with operands := ← once draft.operands (Scan.operands key) }
  | "flags_read" => return { draft with flagsRead := ← once draft.flagsRead Scan.flags }
  | "flags_write" => return { draft with flagsWrite := ← once draft.flagsWrite Scan.flags }
  | _ => do
      Scan.expect ':'
      Scan.skip
      return draft

/-- The instruction, if everything is there. -/
def finish? (draft : InstructionDraft) : Option Instruction := do
  return ⟨← draft.address, ← draft.size, ← draft.mnemonic, ← draft.operands, ← draft.flagsRead,
    ← draft.flagsWrite⟩

end InstructionDraft

namespace Scan

/-- Go on to the next field of an instruction that is written as an array. -/
def nextItem (first : Bool) : Scan Unit := do
  let c ← peek
  if c = ']' then fault .mismatch
  else if first then pure ()
  else do
    expect ','
    if (← peek) = ']' then fault .malformed else pure ()

/-- The six fields of an instruction in order, and the closing bracket. -/
def instructionItems (key : NameKey) : Scan Instruction := do
  nextItem true
  let address ← address
  nextItem false
  let size ← byte
  nextItem false
  let mnemonic ← mnemonic key
  nextItem false
  let operands ← operands key
  nextItem false
  let flagsRead ← flags
  nextItem false
  let flagsWrite ← flags
  expect ']'
  return ⟨address, size, mnemonic, operands, flagsRead, flagsWrite⟩

/-- Read an instruction. -/
def instruction (key : NameKey) : Scan Instruction := do
  let c ← peek
  if c = '\x7b' then do
    advance
    let draft ← fields (InstructionDraft.step key) .empty
    ofOption draft.finish?
  else if c = '[' then do
    advance
    instructionItems key
  else misfit

end Scan

/-- The instruction that a text holds. -/
def Instruction.ofJsonText (key : NameKey) (text : List Char) : Except ReadFault Instruction :=
  (Scan.instruction key).run text

/-- Which of several named things a JSON value names. -/
def Json.named? {α : Type} (ofName? : String → Option α) (value : Json) : Option α :=
  ((Scan.named .fieldName ofName?).run value.compact).toOption

/-- The instruction that a JSON value describes. -/
def Instruction.ofJson? (value : Json) : Option Instruction :=
  (Instruction.ofJsonText .fieldName value.compact).toOption

namespace OperandKind

/-- The names of the fields that a kind has besides its name, in order. -/
def fieldNames? : String → Option (List String)
  | "none" => some []
  | "register" => some ["reg"]
  | "immediate" => some ["value"]
  | "memory" => some ["size", "segment", "base", "index", "scale", "displacement"]
  | _ => none

/-- What a JSON value describes, if it is an operand without visibility and access: an object with
the fields of its kind and perhaps others, or an array of exactly those fields in order.  The kind
comes first in the array, and it has to be given by its name. -/
def ofJson? : Json → Option OperandKind
  | .object fields =>
      match KeptFields.the? fields "type" with
      | some (.string _) => KeptFields.kind? fields
      | _ => none
  | .array (.string kind :: values) => do
      let names ← fieldNames? kind
      if names.length = values.length then
        KeptFields.kind? (("type", .string kind) :: names.zip values)
      else none
  | _ => none

end OperandKind

end X86Listing
