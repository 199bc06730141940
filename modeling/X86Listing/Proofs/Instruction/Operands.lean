import X86Listing.Instruction.OfJson
import X86Listing.Proofs.Json.Compound
import X86Listing.Proofs.Names

/-!
# Operands read back

An operand is written with its kind's name and the fields of that kind, which the reader keeps as
they come, and then its visibility and access, which the reader checks where they stand.

* `KeptFields.kind?_ofKind` — the kept fields of a kind describe that kind.
* `OperandDraft.fieldsRead` — reading the written fields gathers the whole operand.
* `Scan.itemReads_operand` — an operand is read wherever it is written.
-/

namespace X86Listing

open JsonNumeral (HasWord EndsNumeral)

/-! ## Numbers with 64 bits -/

theorem hasWord_ofNat {n : Nat} (h : n < UInt64.size) : HasWord n := by
  have hmin : Int64.minValue.toInt ≤ 0 := by decide
  unfold HasWord JsonNumeral.maxWord
  omega

theorem hasWord_toInt (value : Int64) : HasWord value.toInt := by
  have hmax : Int64.maxValue.toInt ≤ JsonNumeral.maxWord := by decide
  exact ⟨value.minValue_le_toInt, Int.le_trans value.toInt_le hmax⟩

namespace Scan

variable {α : Type} {key : NameKey} {rest : List Char}

/-! ## Names and masks -/

/-- A name that stands for something is read as that. -/
theorem reads_named {ofName? : String → Option α} {name : String} {value : α}
    (h : ofName? name = some value) (rest : List Char) :
    Reads (named key ofName?) (Json.quote name ++ rest) value rest := by
  have htext := reads_text name rest
  rw [quote_append] at htext ⊢
  refine Reads.peek_bind (by decide) ?_
  rw [if_pos rfl]
  refine htext.bind ?_
  rw [h]
  exact reads_pure value rest

/-- A text that stands for something is read as that. -/
theorem reads_worded {ofText? : String → Option α} {content : String} {value : α}
    (h : ofText? content = some value) (rest : List Char) :
    Reads (worded ofText?) (Json.quote content ++ rest) value rest := by
  refine (reads_text content rest).bind ?_
  rw [h]
  exact reads_pure value rest

/-- A number below a bound is read as such a number. -/
theorem reads_unsigned {size n : Nat} (h : n < size) (hsize : size ≤ UInt64.size)
    (hrest : EndsNumeral rest) :
    Reads (unsigned size) (Text.signedDecimal n ++ rest) n rest := by
  have hword : HasWord n := hasWord_ofNat (by omega)
  have hread : Reads (integer 0 (size - 1)) (Text.signedDecimal n ++ rest) n rest :=
    reads_integer (by omega) (by omega) hword hrest
  exact hread.map Int.toNat

end Scan

/-! ## Kept fields -/

/-- The values of kept fields: texts, and integers with 64 bits. -/
def Json.IsPlain (value : Json) : Prop :=
  (∃ content, value = .string content) ∨ ∃ number, HasWord number ∧ value = .int number

theorem Json.isPlain_string (content : String) : IsPlain (.string content) :=
  .inl ⟨content, rfl⟩

theorem Json.isPlain_int {number : Int} (h : HasWord number) : IsPlain (.int number) :=
  .inr ⟨number, h, rfl⟩

theorem Json.IsPlain.reads_value {value : Json} (h : value.IsPlain) (nesting : Nat)
    {rest : List Char} (hrest : EndsNumeral rest) :
    Scan.Reads (Scan.value nesting) (value.compact ++ rest) value rest := by
  rcases h with ⟨content, rfl⟩ | ⟨number, hword, rfl⟩
  · exact Scan.reads_value_quoted nesting content rest
  · exact Scan.reads_value_int nesting hword hrest

namespace KeptFields

/-- The kept fields of an operand that is written out: the kind's name, then its own fields. -/
def ofKind (kind : OperandKind) : KeptFields :=
  ("type", .string kind.name) :: kind.jsonFields

variable {kept : KeptFields} {name : String}

theorem unsigned?_of_the? {size n : Nat} (h : kept.the? name = some (.int n)) (hn : n < size) :
    kept.unsigned? name size = some n := by
  unfold unsigned? integer?
  rw [h]
  show (if _ then _ else _ : Option Int).map Int.toNat = _
  rw [if_pos ⟨by omega, by omega⟩]
  rfl

theorem signed?_of_the? {value : Int64} (h : kept.the? name = some (.int value.toInt)) :
    kept.signed? name = some value := by
  unfold signed? integer?
  rw [h]
  show (if _ then _ else _ : Option Int).map Int64.ofInt = _
  rw [if_pos ⟨value.minValue_le_toInt, value.toInt_le⟩, Option.map_some, Int64.ofInt_toInt]

theorem register?_of_the? {reg : Register} (h : kept.the? name = some (.string reg.name)) :
    kept.register? name = some reg := by
  unfold register?
  rw [h]
  exact reg.ofName?_name

/-- The fields of a memory reference describe that reference. -/
theorem memory?_ofKind (reference : MemoryReference) :
    memory? (ofKind (.memory reference)) = some reference := by
  have hsize : (ofKind (.memory reference)).unsigned? "size" UInt16.size =
      some reference.size.toNat := unsigned?_of_the? (by rfl) reference.size.toNat_lt_size
  have hsegment : (ofKind (.memory reference)).register? "segment" = some reference.segment :=
    register?_of_the? (by rfl)
  have hbase : (ofKind (.memory reference)).register? "base" = some reference.base :=
    register?_of_the? (by rfl)
  have hindex : (ofKind (.memory reference)).register? "index" = some reference.index :=
    register?_of_the? (by rfl)
  have hscale : (ofKind (.memory reference)).unsigned? "scale" UInt8.size =
      some reference.scale.toNat := unsigned?_of_the? (by rfl) reference.scale.toNat_lt_size
  have hdisplacement : (ofKind (.memory reference)).signed? "displacement" =
      some reference.displacement := signed?_of_the? (by rfl)
  unfold memory?
  rw [hsize, hsegment, hbase, hindex, hscale, hdisplacement]
  simp

/-- The kept fields of a kind describe that kind. -/
theorem kind?_ofKind (kind : OperandKind) : kind? (ofKind kind) = some kind := by
  have hname : (ofKind kind).kindName? = some kind.name := by
    cases kind <;> rfl
  unfold kind?
  rw [hname]
  cases kind with
  | absent => rfl
  | register reg =>
      have hreg : (ofKind (.register reg)).register? "reg" = some reg :=
        register?_of_the? (by rfl)
      show ((ofKind (.register reg)).register? "reg" >>= fun found => _) = _
      rw [hreg]
      rfl
  | immediate value =>
      have hvalue : (ofKind (.immediate value)).signed? "value" = some value :=
        signed?_of_the? (by rfl)
      show ((ofKind (.immediate value)).signed? "value" >>= fun found => _) = _
      rw [hvalue]
      rfl
  | memory reference =>
      show (memory? (ofKind (.memory reference)) >>= fun found => _) = _
      rw [memory?_ofKind]
      rfl

/-- No kept field of a kind has the name of a field that is checked where it stands. -/
theorem name_ne_of_mem {kind : OperandKind} {field : String × Json} (h : field ∈ ofKind kind) :
    field.1 ≠ "visibility" ∧ field.1 ≠ "access" := by
  have hall : ((ofKind kind).map Prod.fst).all
      (fun name => decide (name ≠ "visibility" ∧ name ≠ "access")) = true := by
    cases kind <;> rfl
  exact of_decide_eq_true (List.all_eq_true.mp hall field.1 (List.mem_map_of_mem h))

theorem isPlain_of_mem {kind : OperandKind} {field : String × Json} (h : field ∈ ofKind kind) :
    field.2.IsPlain := by
  rcases List.mem_cons.mp h with rfl | h
  · exact Json.isPlain_string _
  · cases kind with
    | absent => exact absurd h List.not_mem_nil
    | register reg =>
        rw [List.mem_singleton.mp h]
        exact Json.isPlain_string _
    | immediate value =>
        rw [List.mem_singleton.mp h]
        exact Json.isPlain_int (hasWord_toInt value)
    | memory reference =>
        have hsize := hasWord_ofNat (Nat.lt_trans reference.size.toNat_lt_size (by decide))
        have hscale := hasWord_ofNat (Nat.lt_trans reference.scale.toNat_lt_size (by decide))
        simp only [OperandKind.jsonFields, MemoryReference.jsonFields, List.mem_cons,
          List.not_mem_nil, or_false] at h
        rcases h with rfl | rfl | rfl | rfl | rfl | rfl
        · exact Json.isPlain_int hsize
        · exact Json.isPlain_string _
        · exact Json.isPlain_string _
        · exact Json.isPlain_string _
        · exact Json.isPlain_int hscale
        · exact Json.isPlain_int (hasWord_toInt reference.displacement)

end KeptFields

/-! ## Operands -/

namespace OperandDraft

open Scan (Reads FieldsRead)

variable {key : NameKey} {rest : List Char}

/-- A field that is neither of the checked ones is kept. -/
theorem reads_step_kept (draft : OperandDraft) {field : String × Json}
    (hname : field.1 ≠ "visibility" ∧ field.1 ≠ "access") (hplain : field.2.IsPlain)
    (hrest : EndsNumeral rest) :
    Reads (draft.step key field.1) (':' :: (field.2.compact ++ rest))
      { draft with kept := field :: draft.kept } rest := by
  unfold step
  split
  · rename_i h
    exact absurd h hname.1
  · rename_i h
    exact absurd h hname.2
  · refine (Scan.reads_expect (by decide)).bind ?_
    exact (hplain.reads_value keptNesting hrest).map
      fun found => { draft with kept := (field.1, found) :: draft.kept }

/-- Fields of other names are all kept, the latest first. -/
theorem fieldsRead_kept (draft : OperandDraft) {fields : KeptFields}
    (hname : ∀ field ∈ fields, field.1 ≠ "visibility" ∧ field.1 ≠ "access")
    (hplain : ∀ field ∈ fields, field.2.IsPlain) :
    FieldsRead (step key) draft fields { draft with kept := fields.reverse ++ draft.kept } := by
  induction fields generalizing draft with
  | nil => exact .nil draft
  | cons field fields ih =>
      have hrest := ih { draft with kept := field :: draft.kept }
        (fun f hf => hname f (List.mem_cons_of_mem _ hf))
        (fun f hf => hplain f (List.mem_cons_of_mem _ hf))
      rw [List.reverse_cons, List.append_assoc]
      refine .cons ?_ hrest
      intro rest hends
      exact reads_step_kept draft (hname field List.mem_cons_self)
        (hplain field List.mem_cons_self) hends

/-- The first visibility is read. -/
theorem reads_step_visibility {draft : OperandDraft} (visibility : Visibility)
    (h : draft.visibility = none) :
    Reads (draft.step key "visibility") (':' :: (Json.quote visibility.name ++ rest))
      { draft with visibility := some visibility } rest := by
  show Reads (if draft.visibility.isSome then _ else _) _ _ _
  rw [h, if_neg (by decide)]
  refine (Scan.reads_expect (by decide)).bind ?_
  exact (Scan.reads_named visibility.ofName?_name rest).map _

/-- The first access is read. -/
theorem reads_step_access {draft : OperandDraft} (access : Access) (h : draft.access = none) :
    Reads (draft.step key "access") (':' :: (Json.quote access.text ++ rest))
      { draft with access := some access } rest := by
  show Reads (if draft.access.isSome then _ else _) _ _ _
  rw [h, if_neg (by decide)]
  refine (Scan.reads_expect (by decide)).bind ?_
  exact (Scan.reads_worded access.ofText?_text rest).map _

/-- What has been read of an operand at its end. -/
def whole (operand : Operand) : OperandDraft :=
  ⟨some operand.visibility, some operand.access, (KeptFields.ofKind operand.kind).reverse⟩

/-- Reading the fields of an operand gathers all of it. -/
theorem fieldsRead (key : NameKey) (operand : Operand) :
    FieldsRead (step key) empty operand.toJson.fields (whole operand) := by
  have hkept : FieldsRead (step key) empty (KeptFields.ofKind operand.kind)
      { empty with kept := (KeptFields.ofKind operand.kind).reverse ++ [] } :=
    fieldsRead_kept empty (fun _ hfield => KeptFields.name_ne_of_mem hfield)
      (fun _ hfield => KeptFields.isPlain_of_mem hfield)
  rw [List.append_nil] at hkept
  refine hkept.append ?_
  exact .cons (fun _ _ => reads_step_visibility operand.visibility rfl) <|
    .cons (fun _ _ => reads_step_access operand.access rfl) <|
    .nil _

/-- The whole draft is the operand. -/
theorem finish?_whole (operand : Operand) : (whole operand).finish? = some operand := by
  -- a draft keeps its latest field first, and finishing turns the fields round again
  unfold finish? whole
  rw [List.reverse_reverse]
  show (KeptFields.kind? (KeptFields.ofKind operand.kind) >>= fun kind => _) = _
  rw [KeptFields.kind?_ofKind]
  rfl

end OperandDraft

namespace Scan

variable {key : NameKey}

theorem reads_operand (operand : Operand) (rest : List Char) :
    Reads (Scan.operand key) (operand.toJson.compact ++ rest) operand rest := by
  have hfields := (OperandDraft.fieldsRead key operand).reads_fields rest
  show Reads (Scan.operand key) ((Json.object operand.toJson.fields).compact ++ rest) operand rest
  rw [Json.compact_object_append]
  refine Reads.peek_bind (by decide) ?_
  rw [if_pos rfl]
  refine Reads.advance_bind ?_
  refine hfields.bind ?_
  rw [OperandDraft.finish?_whole]
  exact reads_pure operand rest

theorem itemReads_operand (operand : Operand) :
    ItemReads (Scan.operand key) operand.toJson operand where
  head := ⟨'\x7b', _, by rw [Operand.toJson, Json.compact], by decide, by decide⟩
  reads rest _ := reads_operand operand rest

/-- The operands of an instruction are read in order. -/
theorem reads_operands (operands : List Operand) (rest : List Char) :
    Reads (Scan.operands key) ((Json.array (operands.map Operand.toJson)).compact ++ rest)
      operands rest := by
  rw [Json.compact_array_append]
  refine Reads.peek_bind (by decide) ?_
  rw [if_pos rfl]
  exact (reads_items itemReads_operand operands rest).advance_bind

end Scan

end X86Listing
