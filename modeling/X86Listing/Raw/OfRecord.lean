import X86Listing.Engine.Displacement
import X86Listing.Engine.FlagWord
import X86Listing.Engine.Record
import X86Listing.Raw

/-!
# Raw instructions from engine records

`RawInstruction.ofRecord` reads a record of the disassembly engine.

* Branch targets become displacements from the end of the instruction, so that the raw instruction
  does not depend on where the engine thought it stood.
* The registers that are used without being written out follow the written operands as hidden
  operands, one for each register, and then the list is cut to `maxOperands`.
* The flag word becomes an action for each flag.
-/

namespace X86Listing

/-! ## Operands -/

namespace RawActions

/-- The actions of an engine's access code. -/
def ofAccessCode (code : UInt8) : RawActions :=
  if code = 1 then .read
  else if code = 2 then .write
  else if code = 3 then .union .read .write
  else .none

end RawActions

namespace EngineOperand

/-- The actions of an operand.  Engines give immediates no access code; they are read. -/
def actions (operand : EngineOperand) : RawActions :=
  let stated := RawActions.ofAccessCode operand.access
  if operand.isImmediate ∧ stated = .none then .read else stated

end EngineOperand

namespace EngineRecord

/-- The length of the instruction as a raw instruction keeps it, in one byte. -/
def length (record : EngineRecord) : UInt8 :=
  record.size.toUInt8

/-- The displacement of a branch to `target`: the encoded one if the instruction's bytes hold it,
else the one that the target implies. -/
def displacement (record : EngineRecord) (mode : MachineMode) (window : List UInt8)
    (target : Int64) : Int64 :=
  (encodedImmediate (record.bytes window) record.immediateOffset record.immediateSize).getD
    (displacementFromTarget mode (record.sizePrefix = operandSizePrefix) record.length target)

/-- What an operand of the record is. -/
def rawKind (record : EngineRecord) (mode : MachineMode) (window : List UInt8) :
    EngineKind → RawKind
  | .register number => .register number
  | .immediate value =>
      if record.isRelative then .immediate (record.displacement mode window value) true
      else .immediate value false
  | .memory segment base index scale displacement =>
      .memory segment base index scale.toUInt32.toUInt8 displacement
  | .invalid => .unused

/-- A written operand of the record. -/
def rawOperand (record : EngineRecord) (mode : MachineMode) (window : List UInt8)
    (operand : EngineOperand) : RawOperand where
  kind := record.rawKind mode window operand.kind
  size := operand.size.toUInt16
  visibility := .explicit
  actions := operand.actions

/-- The operands that are written out. -/
def explicitOperands (record : EngineRecord) (mode : MachineMode) (window : List UInt8) :
    List RawOperand :=
  record.operands.map (record.rawOperand mode window)

end EngineRecord

/-! ## Hidden registers -/

namespace RawOperand

/-- A register that is used without being written out. -/
def hidden (number : UInt16) (actions : RawActions) : RawOperand :=
  ⟨.register number, 0, .hidden, actions⟩

/-- Whether the operand is the hidden use of a register. -/
def isHidden (operand : RawOperand) (number : UInt16) : Bool :=
  operand.visibility = .hidden ∧ operand.kind = .register number

end RawOperand

/-- Add a hidden use of a register: to the hidden operand of that register if there is one, else as
a new operand at the end. -/
def addHidden (number : UInt16) (actions : RawActions) : List RawOperand → List RawOperand
  | [] => [.hidden number actions]
  | operand :: rest =>
      if operand.isHidden number then
        { operand with actions := operand.actions.union actions } :: rest
      else operand :: addHidden number actions rest

/-- Add a hidden use of each register in turn. -/
def addAllHidden (numbers : List UInt16) (actions : RawActions) (operands : List RawOperand) :
    List RawOperand :=
  numbers.foldl (fun operands number => addHidden number actions operands) operands

/-! ## Records -/

namespace EngineRecord

/-- All operands of the record: those written out, then the hidden ones. -/
def allOperands (record : EngineRecord) (mode : MachineMode) (window : List UInt8) :
    List RawOperand :=
  addAllHidden record.regsWrite .write
    (addAllHidden record.regsRead .read (record.explicitOperands mode window))

/-- The layout of the record's flag word. -/
def flagLayout (record : EngineRecord) : FlagLayout :=
  if record.groups.contains fpuGroup then .fpu else .integer

end EngineRecord

/-- **Lowering.**  The raw instruction of a record; an instruction without a number has none. -/
def RawInstruction.ofRecord? (mode : MachineMode) (window : List UInt8) (record : EngineRecord) :
    Option RawInstruction :=
  if record.number = 0 then none
  else some {
    length := record.length
    mnemonic := .ofNumber record.number
    operands := (record.allOperands mode window).take maxOperands
    flags := .ofWord record.flagLayout record.flagWord }

end X86Listing
