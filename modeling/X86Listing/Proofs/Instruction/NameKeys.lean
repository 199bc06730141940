import X86Listing.JsonLines
import X86Listing.Proofs.Instruction.Blanks

/-!
# The key of a name in object form

The key of a name that is written as an object has to be a string, in whichever way it is read.  So
a `NameKey` decides nothing about the texts that can be read and what they are read as, but only
how the other texts are at fault.

* `Scan.reads_text_iff` — a text is read where the name of a field is, and as the same string.
* `Scan.Included` — what one reader reads, another one reads too; it is kept by `>>=` and by loops.
* `JsonLines.read_eq_ok_iff` — a listing is read in both ways or in neither.
-/

namespace X86Listing

namespace Scan

variable {α β : Type} {text rest : List Char}

/-! ## Keys -/

theorem reads_numeral_ne_string {name : String} : ¬ Reads numeral text (.string name) rest := by
  intro h
  obtain ⟨⟨found, middle⟩, -, hnext⟩ := bind_eq_ok_iff.1 h
  dsimp only at hnext
  split at hnext
  · cases hvalue : found.integer? <;> simp [JsonNumeral.toJson, hvalue] at hnext
  · cases hnext

theorem reads_letters_ne_string {name : String} {word : List Char} {value : Json}
    (hvalue : value ≠ .string name) :
    ¬ Reads (do letters word; return value) text (.string name) rest := by
  intro h
  obtain ⟨_, middle, -, hnext⟩ := reads_bind_iff.1 h
  exact hvalue (reads_pure_iff.1 hnext).1

/-- A scalar is a string where it starts with a quote. -/
theorem reads_scalar_string_iff {name : String} :
    Reads scalar text (.string name) rest ↔ Reads fieldName text name rest := by
  unfold scalar fieldName
  rw [reads_bind_iff, reads_bind_iff]
  refine exists_congr fun c => exists_congr fun middle => and_congr_right fun _ => ?_
  by_cases hquote : c = '"'
  · rw [if_pos hquote, if_pos hquote, reads_bind_iff, reads_bind_iff]
    refine exists_congr fun _ => exists_congr fun inner => and_congr_right fun _ => ?_
    rw [reads_bind_iff]
    simp [reads_pure_iff]
  · rw [if_neg hquote, if_neg hquote]
    refine iff_of_false ?_ not_reads_fault
    split
    · exact reads_numeral_ne_string
    split
    · exact reads_letters_ne_string (by simp)
    split
    · exact reads_letters_ne_string (by simp)
    split
    · exact reads_letters_ne_string (by simp)
    · exact not_reads_fault

/-- What has been read decides how a reader goes on. -/
theorem Reads.bind_iff {scan : Scan α} {next : α → Scan β} {value : α} {result : β}
    {middle : List Char} (h : Reads scan text value middle) :
    Reads (scan >>= next) text result rest ↔ Reads (next value) middle result rest := by
  show (scan text >>= fun found => next found.1 found.2) = _ ↔ _
  rw [h]
  exact Iff.rfl

/-- The character that is seen is seen again. -/
theorem Reads.peek_again {c : Char} (h : Reads peek text c rest) : Reads peek rest c rest := by
  rw [List.eq_cons_of_mem_head? (reads_peek_iff.1 h).2]
  exact reads_peek (isGap_of_reads_peek h)

/-- Where a scalar is wanted scalars are read; only the fault of an array or object is another. -/
theorem reads_wantScalar_iff {value : Json} :
    Reads wantScalar text value rest ↔ Reads scalar text value rest := by
  unfold wantScalar
  constructor
  · intro h
    obtain ⟨c, middle, hpeek, hnext⟩ := reads_bind_iff.1 h
    split at hnext
    · exact absurd hnext not_reads_fault
    · exact hpeek.bind (hpeek.peek_again.bind_iff.1 hnext)
  · intro h
    obtain ⟨c, middle, hpeek, hnext⟩ := reads_bind_iff.1 h
    refine hpeek.bind ?_
    split
    · rename_i hc
      rcases hc with rfl | rfl
      · exact absurd hnext not_reads_fault
      · exact absurd hnext not_reads_fault
    · exact hpeek.peek_again.bind hnext

/-- A text is read where the name of a field is, and as the same string. -/
theorem reads_text_iff {name : String} :
    Reads Scan.text text name rest ↔ Reads fieldName text name rest := by
  rw [← reads_scalar_string_iff, ← reads_wantScalar_iff]
  constructor
  · intro h
    obtain ⟨value, middle, hvalue, hnext⟩ := reads_bind_iff.1 h
    cases value with
    | string found =>
        obtain ⟨rfl, rfl⟩ := reads_pure_iff.1 hnext
        exact hvalue
    | _ => exact absurd hnext not_reads_fault
  · intro h
    exact h.bind (reads_pure name rest)

theorem reads_nameKey_iff (key : NameKey) {name : String} :
    Reads key.scan text name rest ↔ Reads fieldName text name rest := by
  cases key with
  | fieldName => exact Iff.rfl
  | text => exact reads_text_iff

/-! ## Readers with other keys -/

/-- What the first reader reads, the second one reads too. -/
def Included (scan other : Scan α) : Prop :=
  ∀ ⦃text value rest⦄, Reads scan text value rest → Reads other text value rest

theorem Included.refl (scan : Scan α) : Included scan scan :=
  fun _ _ _ h => h

theorem Included.bind {scan other : Scan α} {next next' : α → Scan β} (h : Included scan other)
    (hnext : ∀ value, Included (next value) (next' value)) :
    Included (scan >>= next) (other >>= next') := by
  intro text result rest hread
  obtain ⟨value, middle, hvalue, hresult⟩ := reads_bind_iff.1 hread
  exact (h hvalue).bind (hnext value hresult)

/-- Both readers begin in the same way. -/
theorem Included.after (scan : Scan α) {next next' : α → Scan β}
    (h : ∀ value, Included (next value) (next' value)) :
    Included (scan >>= next) (scan >>= next') :=
  (Included.refl scan).bind h

theorem Included.map {scan other : Scan α} (h : Included scan other) (f : α → β) :
    Included (do return f (← scan)) (do return f (← other)) :=
  h.bind fun value => .refl (pure (f value))

theorem Included.ite {p : Prop} [Decidable p] {scan other scan' other' : Scan α}
    (h : Included scan other) (h' : Included scan' other') :
    Included (if p then scan else scan') (if p then other else other') := by
  split
  · exact h
  · exact h'

theorem Included.items {item item' : Scan α} (h : Included item item') :
    Included (items item) (items item') := by
  have hloop : ∀ fuel first found,
      Included (itemsLoop item fuel first found) (itemsLoop item' fuel first found) := by
    intro fuel
    induction fuel with
    | zero => exact fun _ _ => .refl _
    | succ fuel ih =>
        intro first found
        have hnext := h.bind fun next => ih false (next :: found)
        exact .after peek fun c => (Included.refl _).ite <| hnext.ite <|
          .after (expect ',') fun _ => .after peek fun _ => (Included.refl _).ite hnext
  exact .after get fun text => hloop (text.length + 1) true []

theorem Included.fields {step step' : β → String → Scan β}
    (h : ∀ found name, Included (step found name) (step' found name)) (start : β) :
    Included (fields step start) (fields step' start) := by
  have hloop : ∀ fuel first found,
      Included (fieldsLoop step fuel first found) (fieldsLoop step' fuel first found) := by
    intro fuel
    induction fuel with
    | zero => exact fun _ _ => .refl _
    | succ fuel ih =>
        intro first found
        have hfield := Included.after fieldName fun name =>
          (h found name).bind fun next => ih false next
        exact .after peek fun c => (Included.refl _).ite <| hfield.ite <|
          .after (expect ',') fun _ => hfield
  exact .after get fun text => hloop (text.length + 1) true start

variable (key other : NameKey)

theorem included_named (ofName? : String → Option α) :
    Included (named key ofName?) (named other ofName?) := by
  have hkey : Included key.scan other.scan := fun _ _ _ h =>
    (reads_nameKey_iff other).2 ((reads_nameKey_iff key).1 h)
  exact .after peek fun c => (Included.refl _).ite <| .ite
    (.after advance fun _ => hkey.bind fun _ => .refl _) (.refl _)

end Scan

open Scan (Included)

variable (key other : NameKey)

theorem OperandDraft.included_step (draft : OperandDraft) (name : String) :
    Included (draft.step key name) (draft.step other name) := by
  unfold step
  split
  · exact (Included.refl _).ite <| .after (Scan.expect ':') fun _ =>
      (Scan.included_named key other _).map fun found => { draft with visibility := some found }
  · exact .refl _
  · exact .refl _

theorem Scan.included_operand : Included (operand key) (operand other) :=
  .after peek fun _ => .ite (.after advance fun _ =>
    (Included.fields (OperandDraft.included_step key other) .empty).bind fun _ => .refl _) (.refl _)

theorem Scan.included_operands : Included (operands key) (operands other) :=
  .after peek fun _ => .ite (.after advance fun _ => (included_operand key other).items) (.refl _)

namespace InstructionDraft

theorem included_once {α : Type} (before : Option α) {scan scan' : Scan α}
    (h : Included scan scan') : Included (once before scan) (once before scan') :=
  (Included.refl _).ite <| .after (Scan.expect ':') fun _ => h.map some

theorem included_step (draft : InstructionDraft) (name : String) :
    Included (draft.step key name) (draft.step other name) := by
  unfold step
  split
  · exact .refl _
  · exact .refl _
  · exact (included_once _ (Scan.included_named key other _)).map
      fun found => { draft with mnemonic := found }
  · exact (included_once _ (Scan.included_operands key other)).map
      fun found => { draft with operands := found }
  · exact .refl _
  · exact .refl _
  · exact .refl _

end InstructionDraft

namespace Scan

theorem included_instructionItems : Included (instructionItems key) (instructionItems other) :=
  .after _ fun _ => .after _ fun _ => .after _ fun _ => .after _ fun _ => .after _ fun _ =>
  (included_named key other _).bind fun _ => .after _ fun _ =>
  (included_operands key other).bind fun _ => .refl _

theorem included_instruction : Included (instruction key) (instruction other) :=
  .after peek fun _ => .ite
    (.after advance fun _ =>
      (Included.fields (InstructionDraft.included_step key other) .empty).bind fun _ => .refl _) <|
    .ite (.after advance fun _ => included_instructionItems key other) (.refl _)

end Scan

/-! ## Whole texts -/

theorem Instruction.ofJsonText_eq_ok_iff {text : List Char} {insn : Instruction} :
    ofJsonText key text = .ok insn ↔ ofJsonText other text = .ok insn := by
  unfold ofJsonText
  rw [Scan.run_eq_ok_iff, Scan.run_eq_ok_iff]
  constructor
  · rintro ⟨rest, hread, hrest⟩
    exact ⟨rest, Scan.included_instruction key other hread, hrest⟩
  · rintro ⟨rest, hread, hrest⟩
    exact ⟨rest, Scan.included_instruction other key hread, hrest⟩

/-- **The key decides nothing but faults.**  A text is read as a listing in whichever way the keys
of names are read. -/
theorem JsonLines.read_eq_ok_iff {text : List Char} {listing : List Instruction} :
    read key text = .ok listing ↔ read other text = .ok listing := by
  unfold read
  simp only [mapM_eq_ok_iff, Instruction.ofJsonText_eq_ok_iff key other]

/-- The fault of a key that is cut off depends on how keys are read. -/
example :
    (Scan.named .fieldName Visibility.ofName?).run ['\x7b', 'n'] = .error .malformed ∧
      (Scan.named .text Visibility.ofName?).run ['\x7b', 'n'] = .error .truncated :=
  ⟨rfl, rfl⟩

end X86Listing
