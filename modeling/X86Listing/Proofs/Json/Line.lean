import X86Listing.Instruction.ToJson
import X86Listing.Proofs.Json.Quoted
import X86Listing.Proofs.Text.Printable

/-!
# Written JSON fits on a line

The names in an instruction are printable, and so are numerals and the marks of JSON.  So the
compact form of an instruction is printable: `Instruction.isPrintable_compact`.  It holds no line
feed, and each of its characters is a byte.
-/

namespace X86Listing

open Text (IsPrintable isPrintable_cons isPrintable_append isPrintable_of_bytes)

/-! ## Names -/

theorem Register.isPrintable_name (reg : Register) : IsPrintable reg.name.toList := by
  have hall : Register.catalog.all Text.hasPrintableBytes = true := by decide +kernel
  exact isPrintable_of_bytes (List.all_eq_true.1 hall _ (List.get_mem ..))

theorem Mnemonic.isPrintable_name (mnemonic : Mnemonic) : IsPrintable mnemonic.name.toList := by
  have hall : Mnemonic.catalog.all Text.hasPrintableBytes = true := by decide +kernel
  exact isPrintable_of_bytes (List.all_eq_true.1 hall _ (List.get_mem ..))

theorem Visibility.isPrintable_name (visibility : Visibility) :
    IsPrintable visibility.name.toList := by
  cases visibility <;> decide

theorem OperandKind.isPrintable_name (kind : OperandKind) : IsPrintable kind.name.toList := by
  cases kind with
  | absent => exact @isPrintable_of_bytes "none" (by decide)
  | register reg => exact @isPrintable_of_bytes "register" (by decide)
  | immediate value => exact @isPrintable_of_bytes "immediate" (by decide)
  | memory reference => exact @isPrintable_of_bytes "memory" (by decide)

theorem Access.isPrintable_text (access : Access) : IsPrintable access.text.toList := by
  unfold Access.text
  rw [String.toList_ofList]
  exact Text.BitNames.isPrintable_write (by decide) _

theorem FlagMask.isPrintable_text (mask : FlagMask) : IsPrintable mask.text.toList := by
  unfold FlagMask.text
  rw [String.toList_ofList]
  exact Text.BitNames.isPrintable_write (by decide +kernel) _

/-! ## Values -/

namespace Json

theorem isPrintable_escapeChar {c : Char} (h : 0x20 ≤ c.toNat ∧ c.toNat < 0x7f) :
    IsPrintable (escapeChar c) := by
  by_cases hquote : c = '"'
  · subst hquote
    decide
  · by_cases hslash : c = '\\'
    · subst hslash
      decide
    · rw [escapeChar_plain hquote hslash (by omega), isPrintable_cons]
      exact ⟨h, List.forall_mem_nil _⟩

theorem isPrintable_quote {text : String} (h : IsPrintable text.toList) :
    IsPrintable (quote text) := by
  have hescaped : IsPrintable (text.toList.flatMap escapeChar) := by
    intro d hd
    obtain ⟨c, hc, hd⟩ := List.mem_flatMap.1 hd
    exact isPrintable_escapeChar (h c hc) d hd
  unfold quote
  simp only [isPrintable_cons, isPrintable_append]
  exact ⟨by decide, hescaped, by decide⟩

theorem isPrintable_array {items : List Json} (h : ∀ item ∈ items, IsPrintable item.compact) :
    IsPrintable (array items).compact := by
  have hitems : IsPrintable (compactItems items) := by
    induction items with
    | nil => exact List.forall_mem_nil _
    | cons item items ih =>
        obtain ⟨hitem, hitems⟩ := List.forall_mem_cons.1 h
        cases items with
        | nil => exact hitem
        | cons next rest =>
            rw [compactItems, isPrintable_append, isPrintable_cons]
            exact ⟨hitem, by decide, ih hitems⟩
  rw [compact]
  simp only [isPrintable_cons, isPrintable_append]
  exact ⟨by decide, hitems, by decide⟩

/-- A field whose name and value are printable. -/
def IsPrintableField (field : String × Json) : Prop :=
  IsPrintable field.1.toList ∧ IsPrintable field.2.compact

theorem isPrintable_object {fields : List (String × Json)}
    (h : ∀ field ∈ fields, IsPrintableField field) :
    IsPrintable (object fields).compact := by
  have hfields : IsPrintable (compactFields fields) := by
    induction fields with
    | nil => exact List.forall_mem_nil _
    | cons field fields ih =>
        obtain ⟨name, value⟩ := field
        obtain ⟨⟨hname, hvalue⟩, hfields⟩ := List.forall_mem_cons.1 h
        have hquote := isPrintable_quote hname
        cases fields with
        | nil =>
            rw [compactFields, isPrintable_append, isPrintable_cons]
            exact ⟨hquote, by decide, hvalue⟩
        | cons next rest =>
            rw [compactFields, isPrintable_append, isPrintable_cons, isPrintable_append,
              isPrintable_cons]
            exact ⟨hquote, by decide, hvalue, by decide, ih hfields⟩
  rw [compact]
  simp only [isPrintable_cons, isPrintable_append]
  exact ⟨by decide, hfields, by decide⟩

/-! ## Fields -/

theorem isPrintableField_string {name content : String} (hname : Text.hasPrintableBytes name = true)
    (h : IsPrintable content.toList) : IsPrintableField (name, .string content) :=
  ⟨isPrintable_of_bytes hname, isPrintable_quote h⟩

theorem isPrintableField_int {name : String} (hname : Text.hasPrintableBytes name = true)
    (value : Int) : IsPrintableField (name, .int value) :=
  ⟨isPrintable_of_bytes hname, Text.isPrintable_signedDecimal value⟩

end Json

open Json (isPrintableField_string isPrintableField_int)

theorem MemoryReference.isPrintableField_jsonFields (memory : MemoryReference) :
    ∀ field ∈ memory.jsonFields, Json.IsPrintableField field := by
  unfold jsonFields
  simp only [List.forall_mem_cons]
  exact ⟨isPrintableField_int (by decide) _,
    isPrintableField_string (by decide) memory.segment.isPrintable_name,
    isPrintableField_string (by decide) memory.base.isPrintable_name,
    isPrintableField_string (by decide) memory.index.isPrintable_name,
    isPrintableField_int (by decide) _, isPrintableField_int (by decide) _,
    List.forall_mem_nil _⟩

theorem OperandKind.isPrintableField_jsonFields (kind : OperandKind) :
    ∀ field ∈ kind.jsonFields, Json.IsPrintableField field := by
  cases kind with
  | absent => exact List.forall_mem_nil _
  | register reg =>
      exact List.forall_mem_singleton.2
        (isPrintableField_string (by decide) reg.isPrintable_name)
  | immediate value => exact List.forall_mem_singleton.2 (isPrintableField_int (by decide) _)
  | memory reference => exact reference.isPrintableField_jsonFields

theorem Operand.isPrintable_compact (operand : Operand) : IsPrintable operand.toJson.compact := by
  apply Json.isPrintable_object
  simp only [List.cons_append, List.forall_mem_cons, List.forall_mem_append]
  exact ⟨isPrintableField_string (by decide) operand.kind.isPrintable_name,
    operand.kind.isPrintableField_jsonFields,
    isPrintableField_string (by decide) operand.visibility.isPrintable_name,
    isPrintableField_string (by decide) operand.access.isPrintable_text, List.forall_mem_nil _⟩

/-- An instruction is written in printable characters. -/
theorem Instruction.isPrintable_compact (insn : Instruction) :
    IsPrintable insn.toJson.compact := by
  have hoperands : IsPrintable (Json.array (insn.operands.map Operand.toJson)).compact := by
    apply Json.isPrintable_array
    intro item hitem
    obtain ⟨operand, _, rfl⟩ := List.mem_map.1 hitem
    exact operand.isPrintable_compact
  apply Json.isPrintable_object
  simp only [List.forall_mem_cons]
  exact ⟨isPrintableField_int (by decide) _, isPrintableField_int (by decide) _,
    isPrintableField_string (by decide) insn.mnemonic.isPrintable_name,
    ⟨@isPrintable_of_bytes "operands" (by decide), hoperands⟩,
    isPrintableField_string (by decide) insn.flagsRead.isPrintable_text,
    isPrintableField_string (by decide) insn.flagsWrite.isPrintable_text, List.forall_mem_nil _⟩

end X86Listing
