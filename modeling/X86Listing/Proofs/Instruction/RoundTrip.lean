import X86Listing.Proofs.Instruction.Operands

/-!
# Instructions read back

An instruction is written as an object with its six fields in order.  Reading goes through them one
by one, each into its place in the draft, so it ends with the instruction itself.

* `InstructionDraft.fieldsRead` — reading the written fields gathers the whole instruction.
* `Instruction.ofJsonText_toJson` — an instruction is read back from its compact form.
-/

namespace X86Listing

open JsonNumeral (EndsNumeral)
open Scan (Reads FieldsRead)

/-! ## Numbers -/

theorem Scan.reads_address (address : Address) {rest : List Char} (hrest : EndsNumeral rest) :
    Reads Scan.address (Text.signedDecimal address.toNat ++ rest) address rest := by
  have hread := (reads_unsigned address.toNat_lt_size (Nat.le_refl _) hrest).map UInt64.ofNat
  rwa [UInt64.ofNat_toNat] at hread

theorem Scan.reads_byte (byte : UInt8) {rest : List Char} (hrest : EndsNumeral rest) :
    Reads Scan.byte (Text.signedDecimal byte.toNat ++ rest) byte rest := by
  have hread := (reads_unsigned byte.toNat_lt_size (by decide) hrest).map UInt8.ofNat
  rwa [UInt8.ofNat_toNat] at hread

/-! ## Fields -/

namespace InstructionDraft

/-- A field that has not been read before is read behind its colon and put in its place. -/
theorem reads_once {α : Type} {place : Option α} (hplace : place = none) {scan : Scan α}
    {text rest : List Char} {value : α} (h : Reads scan text value rest)
    (put : Option α → InstructionDraft) :
    Reads (do return put (← once place scan)) (':' :: text) (put (some value)) rest := by
  subst hplace
  have honce : Reads (once none scan) (':' :: text) (some value) rest :=
    (Scan.reads_expect (by decide)).bind (h.map some)
  exact honce.map put

/-- What has been read of an instruction at its end. -/
def whole (insn : Instruction) : InstructionDraft :=
  ⟨some insn.address, some insn.size, some insn.mnemonic, some insn.operands, some insn.flagsRead,
    some insn.flagsWrite⟩

section Fields

variable (insn : Instruction) (draft : InstructionDraft) {key : NameKey} {rest : List Char}

theorem reads_address (h : draft.address = none) (hrest : EndsNumeral rest) :
    Reads (draft.step key "address") (':' :: ((Json.int insn.address.toNat).compact ++ rest))
      { draft with address := some insn.address } rest :=
  reads_once h (Scan.reads_address insn.address hrest) _

theorem reads_size (h : draft.size = none) (hrest : EndsNumeral rest) :
    Reads (draft.step key "size") (':' :: ((Json.int insn.size.toNat).compact ++ rest))
      { draft with size := some insn.size } rest :=
  reads_once h (Scan.reads_byte insn.size hrest) _

theorem reads_mnemonic (h : draft.mnemonic = none) :
    Reads (draft.step key "mnemonic") (':' :: ((Json.string insn.mnemonic.name).compact ++ rest))
      { draft with mnemonic := some insn.mnemonic } rest :=
  reads_once h (Scan.reads_named insn.mnemonic.ofName?_name rest) _

theorem reads_operands (h : draft.operands = none) :
    Reads (draft.step key "operands")
      (':' :: ((Json.array (insn.operands.map Operand.toJson)).compact ++ rest))
      { draft with operands := some insn.operands } rest :=
  reads_once h (Scan.reads_operands insn.operands rest) _

theorem reads_flagsRead (h : draft.flagsRead = none) :
    Reads (draft.step key "flags_read") (':' :: ((Json.string insn.flagsRead.text).compact ++ rest))
      { draft with flagsRead := some insn.flagsRead } rest :=
  reads_once h (Scan.reads_worded insn.flagsRead.ofText?_text rest) _

theorem reads_flagsWrite (h : draft.flagsWrite = none) :
    Reads (draft.step key "flags_write")
      (':' :: ((Json.string insn.flagsWrite.text).compact ++ rest))
      { draft with flagsWrite := some insn.flagsWrite } rest :=
  reads_once h (Scan.reads_worded insn.flagsWrite.ofText?_text rest) _

end Fields

/-- Reading the fields of an instruction gathers all of it. -/
theorem fieldsRead (key : NameKey) (insn : Instruction) :
    FieldsRead (step key) empty insn.toJson.fields (whole insn) :=
  .cons (fun _ hrest => reads_address insn _ rfl hrest) <|
  .cons (fun _ hrest => reads_size insn _ rfl hrest) <|
  .cons (fun _ _ => reads_mnemonic insn _ rfl) <|
  .cons (fun _ _ => reads_operands insn _ rfl) <|
  .cons (fun _ _ => reads_flagsRead insn _ rfl) <|
  .cons (fun _ _ => reads_flagsWrite insn _ rfl) <|
  .nil _

end InstructionDraft

/-! ## The whole text -/

theorem Scan.reads_instruction (key : NameKey) (insn : Instruction) (rest : List Char) :
    Reads (Scan.instruction key) (insn.toJson.compact ++ rest) insn rest := by
  have hfields := (InstructionDraft.fieldsRead key insn).reads_fields rest
  show Reads (Scan.instruction key) ((Json.object insn.toJson.fields).compact ++ rest) insn rest
  rw [Json.compact_object_append]
  refine Reads.peek_bind (by decide) ?_
  rw [if_pos rfl]
  refine Reads.advance_bind ?_
  exact hfields.bind (reads_pure insn rest)

/-- An instruction is read back from its compact form. -/
theorem Instruction.ofJsonText_toJson (key : NameKey) (insn : Instruction) :
    Instruction.ofJsonText key insn.toJson.compact = .ok insn := by
  have hread := Scan.reads_instruction key insn []
  rw [List.append_nil] at hread
  have hwhole : Reads (Scan.instruction key <* Scan.finish) insn.toJson.compact insn [] :=
    hread.bind rfl
  show (fun found : Instruction × List Char => found.1) <$>
    (Scan.instruction key <* Scan.finish) insn.toJson.compact = _
  rw [hwhole]
  rfl

end X86Listing
