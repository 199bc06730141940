import X86Listing.Instruction.OfJson
import X86Listing.Proofs.Json.Fuel

/-!
# Blanks behind an instruction

An instruction ends with the brace or bracket that closes it, and its reader does not look behind
that (`Scan.isClosed_instruction`).  Only blanks may follow, so blanks at the end of a text decide
nothing about the instruction it holds: `Instruction.ofJsonText_append`.  They may decide
which fault a text has, for instance where a string is not closed.
-/

namespace X86Listing

namespace Scan

variable {α β : Type} (key : NameKey) {input rest blanks : List Char}

/-! ## Fields of one value -/

theorem isLocal_ofOption (found : Option α) : IsLocal (ofOption found) := by
  cases found with
  | none => exact isLocal_fault _
  | some value => exact isLocal_pure value

theorem IsClosed.ofOption {scan : Scan α} (h : IsClosed scan) (f : α → Option β) :
    IsClosed (do ofOption (f (← scan))) := by
  refine h.bind_still fun {value} input result rest => ?_
  cases f value with
  | none => exact iff_of_false not_reads_fault fun hread => not_reads_fault hread.1
  | some found => simp [Scan.ofOption, reads_pure_iff]

theorem isLocal_unsigned (size : Nat) : IsLocal (unsigned size) :=
  (isLocal_integer 0 (size - 1)).map Int.toNat

theorem isLocal_nameKey : IsLocal key.scan := by
  cases key with
  | fieldName => exact isClosed_fieldName.isLocal
  | text => exact isLocal_text

theorem isLocal_named (ofName? : String → Option α) : IsLocal (named key ofName?) := by
  refine isLocal_peek.bind fun c => ?_
  refine (isLocal_text.bind fun name => isLocal_ofOption _).ite <| IsLocal.ite ?_ (isLocal_fault _)
  refine isLocal_advance.bind fun _ => (isLocal_nameKey key).bind fun name =>
    (isLocal_ofOption (ofName? name)).bind fun found => (isLocal_expect ':').bind fun _ =>
    isLocal_wantScalar.bind fun value => ?_
  cases value with
  | null => exact (isLocal_expect '\x7d').map fun _ => found
  | _ => exact isLocal_fault _

theorem isLocal_worded (ofText? : String → Option α) : IsLocal (worded ofText?) :=
  isLocal_text.bind fun content => isLocal_ofOption (ofText? content)

end Scan

open Scan (IsLocal IsClosed)

/-! ## Operands -/

theorem OperandDraft.isLocal_step (key : NameKey) (draft : OperandDraft) (name : String) :
    IsLocal (draft.step key name) := by
  unfold step
  split
  · exact (Scan.isLocal_fault _).ite <| (Scan.isLocal_expect ':').bind fun _ =>
      (Scan.isLocal_named key _).map fun found => { draft with visibility := some found }
  · exact (Scan.isLocal_fault _).ite <| (Scan.isLocal_expect ':').bind fun _ =>
      (Scan.isLocal_worded _).map fun found => { draft with access := some found }
  · exact (Scan.isLocal_expect ':').bind fun _ =>
      (Scan.isLocal_value _).map fun found => { draft with kept := (name, found) :: draft.kept }

namespace Scan

variable (key : NameKey)

theorem isLocal_operand : IsLocal (operand key) := by
  refine isLocal_peek.bind fun c => IsLocal.ite ?_ isLocal_misfit
  exact isLocal_advance.bind fun _ =>
    ((isClosed_fields (OperandDraft.isLocal_step key) .empty).ofOption OperandDraft.finish?).isLocal

theorem isLocal_operands : IsLocal (operands key) := by
  refine isLocal_peek.bind fun c => IsLocal.ite ?_ isLocal_misfit
  exact isLocal_advance.bind fun _ => (isClosed_items (isLocal_operand key)).isLocal

/-! ## Instructions -/

theorem isLocal_address : IsLocal Scan.address :=
  (isLocal_unsigned UInt64.size).map UInt64.ofNat

theorem isLocal_byte : IsLocal byte :=
  (isLocal_unsigned UInt8.size).map UInt8.ofNat

end Scan

namespace InstructionDraft

theorem isLocal_once {α : Type} (before : Option α) {scan : Scan α} (h : IsLocal scan) :
    IsLocal (once before scan) :=
  (Scan.isLocal_fault _).ite <| (Scan.isLocal_expect ':').bind fun _ => h.map some

theorem isLocal_step (key : NameKey) (draft : InstructionDraft) (name : String) :
    IsLocal (draft.step key name) := by
  unfold step
  split
  · exact (isLocal_once _ Scan.isLocal_address).map _
  · exact (isLocal_once _ Scan.isLocal_byte).map _
  · exact (isLocal_once _ (Scan.isLocal_named key _)).map _
  · exact (isLocal_once _ (Scan.isLocal_operands key)).map _
  · exact (isLocal_once _ (Scan.isLocal_worded _)).map _
  · exact (isLocal_once _ (Scan.isLocal_worded _)).map _
  · exact (Scan.isLocal_expect ':').bind fun _ => Scan.isLocal_skip.map fun _ => draft

end InstructionDraft

namespace Scan

theorem isLocal_nextItem (first : Bool) : IsLocal (nextItem first) := by
  refine isLocal_peek.bind fun c => (isLocal_fault _).ite <| (isLocal_pure ()).ite ?_
  exact (isLocal_expect ',').bind fun _ => isLocal_peek.bind fun _ =>
    (isLocal_fault _).ite (isLocal_pure ())

theorem isClosed_instructionItems (key : NameKey) : IsClosed (instructionItems key) :=
  (isLocal_nextItem true).bind_closed fun _ => isLocal_address.bind_closed fun address =>
  (isLocal_nextItem false).bind_closed fun _ => isLocal_byte.bind_closed fun size =>
  (isLocal_nextItem false).bind_closed fun _ => (isLocal_named key _).bind_closed fun mnemonic =>
  (isLocal_nextItem false).bind_closed fun _ => (isLocal_operands key).bind_closed fun operands =>
  (isLocal_nextItem false).bind_closed fun _ => (isLocal_worded _).bind_closed fun flagsRead =>
  (isLocal_nextItem false).bind_closed fun _ => (isLocal_worded _).bind_closed fun flagsWrite =>
  (isClosed_expect ']').map fun _ =>
    Instruction.mk address size mnemonic operands flagsRead flagsWrite

/-- An instruction ends with its brace or bracket. -/
theorem isClosed_instruction (key : NameKey) : IsClosed (instruction key) := by
  have hmisfit : IsClosed (misfit : Scan Instruction) :=
    isLocal_wantScalar.bind_closed fun _ => isClosed_fault _
  have hfields := (isClosed_fields (InstructionDraft.isLocal_step key) .empty).ofOption
    InstructionDraft.finish?
  refine isLocal_peek.bind_closed fun c => ?_
  exact (isLocal_advance.bind_closed fun _ => hfields).ite <|
    (isLocal_advance.bind_closed fun _ => isClosed_instructionItems key).ite hmisfit

/-! ## Whole texts -/

theorem reads_finish_iff :
    Reads finish input () rest ↔ rest = [] ∧ ∀ c ∈ input, isGap c = true := by
  have hpeek : Reads peek? input (input.dropWhile isGap).head? (input.dropWhile isGap) := rfl
  constructor
  · intro h
    obtain ⟨found, middle, hfound, hnext⟩ := reads_bind_iff.1 h
    cases hpeek.symm.trans hfound
    cases hdrop : input.dropWhile isGap with
    | nil =>
        rw [hdrop] at hnext
        exact ⟨(reads_pure_iff.1 hnext).2.symm, List.dropWhile_eq_nil_iff.1 hdrop⟩
    | cons c tail =>
        rw [hdrop] at hnext
        exact absurd hnext not_reads_fault
  · rintro ⟨rfl, hgap⟩
    rw [List.dropWhile_eq_nil_iff.2 hgap] at hpeek
    exact hpeek.bind (reads_pure () [])

/-- A text holds a value if the value is read and only blanks follow. -/
theorem run_eq_ok_iff {scan : Scan α} {value : α} :
    scan.run input = .ok value ↔
      ∃ rest, Reads scan input value rest ∧ ∀ c ∈ rest, isGap c = true := by
  have hrun : scan.run input = .ok value ↔ ∃ rest, Reads (scan <* finish) input value rest := by
    show Prod.fst <$> (scan <* finish) input = .ok value ↔ ∃ rest, (scan <* finish) input = _
    cases (scan <* finish) input with
    | error reason => exact iff_of_false (by rintro ⟨⟩) (by rintro ⟨_, ⟨⟩⟩)
    | ok found =>
        obtain ⟨found, rest⟩ := found
        constructor
        · rintro ⟨⟩
          exact ⟨rest, rfl⟩
        · rintro ⟨_, ⟨⟩⟩
          rfl
  rw [hrun]
  constructor
  · rintro ⟨rest, h⟩
    obtain ⟨found, middle, hfound, hnext⟩ := reads_bind_iff.1 h
    obtain ⟨_, last, hfinish, hlast⟩ := reads_bind_iff.1 hnext
    obtain ⟨rfl, -⟩ := reads_pure_iff.1 hlast
    exact ⟨middle, hfound, (reads_finish_iff.1 hfinish).2⟩
  · rintro ⟨middle, hvalue, hgap⟩
    exact ⟨[], hvalue.bind ((reads_finish_iff.2 ⟨rfl, hgap⟩).bind (reads_pure value []))⟩

/-- Behind a value that is closed blanks do not matter. -/
theorem IsClosed.run_append {scan : Scan α} (h : IsClosed scan)
    (hblanks : ∀ c ∈ blanks, isGap c = true) {value : α} :
    scan.run (input ++ blanks) = .ok value ↔ scan.run input = .ok value := by
  rw [run_eq_ok_iff, run_eq_ok_iff]
  constructor
  · rintro ⟨rest, hread, hrest⟩
    obtain ⟨front, c, hinput, hc⟩ := h.closes hread
    have hmem : c ∉ blanks := fun hmem => by simp [hblanks c hmem] at hc
    -- the value does not end inside the blanks
    obtain ⟨inner, rfl⟩ : ∃ inner, rest = inner ++ blanks := by
      rcases List.append_eq_append_iff.1 hinput with ⟨inner, -, heq⟩ | ⟨inner, -, heq⟩
      · exact absurd (by simp [heq]) hmem
      · cases inner with
        | nil =>
            rw [List.nil_append] at heq
            exact absurd (heq ▸ List.mem_cons_self) hmem
        | cons d inner => exact ⟨inner, (List.cons.inj heq).2⟩
    exact ⟨inner, h.extend.1 hread, fun d hd => hrest d (List.mem_append_left blanks hd)⟩
  · rintro ⟨rest, hread, hrest⟩
    refine ⟨rest ++ blanks, h.extend.2 hread, ?_⟩
    intro c hc
    exact (List.mem_append.1 hc).elim (hrest c) (hblanks c)

end Scan

/-- Blanks at the end of a text decide nothing about the instruction that it holds. -/
theorem Instruction.ofJsonText_append {key : NameKey} {text blanks : List Char}
    {insn : Instruction} (h : ∀ c ∈ blanks, Scan.isGap c = true) :
    ofJsonText key (text ++ blanks) = .ok insn ↔ ofJsonText key text = .ok insn :=
  (Scan.isClosed_instruction key).run_append h

end X86Listing
