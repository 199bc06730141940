import X86Listing.Proofs.Engine.Targets

/-!
# What a raw operand becomes

Placing a raw instruction at an address turns what counts from the end of the instruction into an
address, and nothing else.  `RawKind.ResolvesTo` lists the cases, with `CountedFrom` for the
arithmetic: an address less the end of the instruction is the value that was counted from it.

* `countedFrom_iff` — of a relative value and an address each can be told from the other.
* `RawInstruction.nextAddress_eq_toInt64` — the end that relative values count from, a signed word,
  is the end of the instruction, an unsigned one.
* `RawKind.resolvesTo_iff` — the rules say what a listing shows, and leave no choice.
* `Instruction.ofRaw_resolves` — every operand is resolved by the rules, and depends neither on the
  other operands nor on the flags.
-/

namespace X86Listing

/-! ## Counting from the end -/

/-- The address is as far behind `stop` as the relative value says, modulo `2 ^ 64`. -/
def CountedFrom (stop : Address) (relative absolute : Int64) : Prop :=
  absolute.toInt - stop.toNat ≡ relative.toInt [ZMOD 2 ^ 64]

/-- Of the two words each determines the other. -/
theorem countedFrom_iff {stop : Address} {relative absolute : Int64} :
    CountedFrom stop relative absolute ↔ relative + stop.toInt64 = absolute := by
  have hsum : relative + stop.toInt64 = .ofInt (relative.toInt + stop.toNat) := by
    rw [toInt64_eq_ofInt, Int64.ofInt_add, Int64.ofInt_toInt]
  rw [hsum, ofInt_eq_iff_modEq, CountedFrom, Int.modEq_comm, Int.modEq_iff_dvd, Int.modEq_iff_dvd,
    sub_sub, add_comm (stop.toNat : Int)]

/-- Relative values count from the end of the instruction. -/
theorem RawInstruction.nextAddress_eq_toInt64 (raw : RawInstruction) (address : Address) :
    raw.nextAddress address = (Instruction.ofRaw raw address).endAddress.toInt64 := by
  have hlength : raw.length.toUInt64.toInt64 = Int64.ofNat raw.length.toNat := by
    rw [toInt64_eq_ofInt, UInt8.toNat_toUInt64, Int64.ofInt_eq_ofNat]
  change _ = (address + raw.length.toUInt64).toInt64
  rw [nextAddress, UInt64.toInt64_add, hlength, Int64.add_comm]

/-! ## The cases -/

/-- What a raw operand of a given size becomes in an instruction that ends at `stop`. -/
inductive RawKind.ResolvesTo (size : UInt16) (stop : Address) : RawKind → OperandKind → Prop
  | unused : ResolvesTo size stop .unused .absent
  | unknown (code : UInt8) : ResolvesTo size stop (.unknown code) .absent
  | register (number : UInt16) :
      ResolvesTo size stop (.register number) (.register (.ofNumber number))
  | value (value : Int64) : ResolvesTo size stop (.immediate value false) (.immediate value)
  /-- A relative immediate becomes the address that it leads to. -/
  | target {value target : Int64} (counted : CountedFrom stop value target) :
      ResolvesTo size stop (.immediate value true) (.immediate target)
  | reference (segment : UInt16) {base : UInt16} (index : UInt16) (scale : UInt8)
      (displacement : Int64) (hbase : ¬ (base = 41 ∨ base = 26)) :
      ResolvesTo size stop (.memory segment base index scale displacement)
        (.memory ⟨size, .ofNumber segment, .ofNumber base, .ofNumber index, scale, displacement⟩)
  /-- A reference from the instruction pointer loses its base, whatever its segment and index. -/
  | pointer (segment : UInt16) {base : UInt16} (index : UInt16) (scale : UInt8)
      {displacement address : Int64} (hbase : base = 41 ∨ base = 26)
      (counted : CountedFrom stop displacement address) :
      ResolvesTo size stop (.memory segment base index scale displacement)
        (.memory ⟨size, .ofNumber segment, .none, .ofNumber index, scale, address⟩)

namespace RawKind

/-- A reference from the instruction pointer. -/
theorem resolve_pointer {base : UInt16} (hbase : base = 41 ∨ base = 26) (segment index : UInt16)
    (scale : UInt8) (displacement : Int64) (size : UInt16) (next : Int64) :
    (memory segment base index scale displacement).resolve size next =
      .memory ⟨size, .ofNumber segment, .none, .ofNumber index, scale, displacement + next⟩ := by
  rw [resolve, MemoryReference.resolve,
    if_pos ((Register.isInstructionPointer_ofNumber base).2 hbase)]

/-- Any other reference. -/
theorem resolve_reference {base : UInt16} (hbase : ¬ (base = 41 ∨ base = 26))
    (segment index : UInt16) (scale : UInt8) (displacement : Int64) (size : UInt16) (next : Int64) :
    (memory segment base index scale displacement).resolve size next =
      .memory ⟨size, .ofNumber segment, .ofNumber base, .ofNumber index, scale, displacement⟩ := by
  rw [resolve, MemoryReference.resolve,
    if_neg (mt (Register.isInstructionPointer_ofNumber base).1 hbase)]

/-- The cases say what a listing shows, and leave no choice. -/
theorem resolvesTo_iff {kind : RawKind} {size : UInt16} {stop : Address} {shown : OperandKind} :
    kind.ResolvesTo size stop shown ↔ kind.resolve size stop.toInt64 = shown := by
  constructor
  · intro h
    cases h with
    | unused => rfl
    | unknown code => rfl
    | register number => rfl
    | value value => rfl
    | target counted => rw [← countedFrom_iff.1 counted, resolve, resolveImmediate, if_pos rfl]
    | reference segment index scale displacement hbase => exact resolve_reference hbase ..
    | pointer segment index scale hbase counted =>
        rw [← countedFrom_iff.1 counted]
        exact resolve_pointer hbase ..
  · rintro rfl
    cases kind with
    | unused => exact .unused
    | unknown code => exact .unknown code
    | register number => exact .register number
    | immediate value relative =>
        cases relative with
        | false => exact .value value
        | true => exact .target (countedFrom_iff.2 rfl)
    | memory segment base index scale displacement =>
        by_cases hbase : base = 41 ∨ base = 26
        · rw [resolve_pointer hbase]
          exact .pointer segment index scale hbase (countedFrom_iff.2 rfl)
        · rw [resolve_reference hbase]
          exact .reference segment index scale displacement hbase

end RawKind

/-- No memory reference of a listing is from the instruction pointer. -/
theorem RawKind.ResolvesTo.base_ne {kind : RawKind} {size : UInt16} {stop : Address}
    {reference : MemoryReference} (h : kind.ResolvesTo size stop (.memory reference)) :
    reference.base ≠ .rip ∧ reference.base ≠ .eip := by
  cases h with
  | pointer segment index scale hbase counted =>
      have hnone : Register.none ≠ .rip ∧ Register.none ≠ .eip := by decide
      exact hnone
  | @reference segment base index scale displacement hbase =>
      have hother := mt (Register.isInstructionPointer_ofNumber base).1 hbase
      rw [Register.isInstructionPointer, decide_eq_true_eq, not_or] at hother
      exact hother

/-! ## Whole instructions -/

/-- The operand of a listing is what the raw operand becomes in an instruction that ends at `stop`,
with the same visibility and access. -/
structure RawOperand.ShownAs (source : RawOperand) (stop : Address) (shown : Operand) : Prop where
  kind : source.kind.ResolvesTo source.size stop shown.kind
  visibility : shown.visibility = source.visibility
  reads : shown.reads = source.actions.reads
  writes : shown.writes = source.actions.writes

theorem RawActions.reads_access (actions : RawActions) : actions.access.reads = actions.reads := by
  rw [access, Access.reads, Access.ofReadWrite]
  cases actions.reads <;> cases actions.writes <;> rfl

theorem RawActions.writes_access (actions : RawActions) :
    actions.access.writes = actions.writes := by
  rw [access, Access.writes, Access.ofReadWrite]
  cases actions.reads <;> cases actions.writes <;> rfl

theorem RawOperand.shownAs_resolve (source : RawOperand) (stop : Address) :
    source.ShownAs stop (source.resolve stop.toInt64) where
  kind := RawKind.resolvesTo_iff.2 rfl
  visibility := rfl
  reads := source.actions.reads_access
  writes := source.actions.writes_access

namespace Instruction

variable (raw : RawInstruction) (address : Address)

/-- Each raw operand that is not cut off is shown at its own position. -/
theorem getElem?_operands_ofRaw {position : Nat} (h : position < maxOperands) :
    (ofRaw raw address).operands[position]? =
      raw.operands[position]?.map (·.resolve (raw.nextAddress address)) := by
  rw [ofRaw, List.getElem?_map, List.getElem?_take_of_lt h]

theorem length_operands_ofRaw :
    (ofRaw raw address).operands.length = min maxOperands raw.operands.length := by
  rw [ofRaw, List.length_map, List.length_take]

/-- Replacing a raw operand replaces the operand at the same position, and nothing else. -/
theorem ofRaw_set (replaced : Nat) (other : RawOperand) :
    ofRaw { raw with operands := raw.operands.set replaced other } address =
      { ofRaw raw address with
        operands := (ofRaw raw address).operands.set replaced
          (other.resolve (raw.nextAddress address)) } := by
  rw [ofRaw, ofRaw, List.take_set, List.map_set]
  rfl

/-- **What placing a raw instruction does**, for any raw instruction at any address.

* The first `maxOperands` raw operands are shown, each at its position and as `RawKind.ResolvesTo`
  says for an instruction that ends where this one ends.
* No memory reference of the listing has one of the two instruction pointers as its base.
* Replacing a raw operand changes no other operand and nothing outside the operands; if it is one
  that is cut off, it changes nothing at all.
* Replacing the flag table changes the masks and nothing else. -/
theorem ofRaw_resolves :
    (ofRaw raw address).operands.length = min maxOperands raw.operands.length ∧
    (∀ position < maxOperands, ∀ source, raw.operands[position]? = some source →
      ∃ shown, (ofRaw raw address).operands[position]? = some shown ∧
        source.ShownAs (ofRaw raw address).endAddress shown) ∧
    (∀ operand ∈ (ofRaw raw address).operands, ∀ reference, operand.kind = .memory reference →
      reference.base ≠ .rip ∧ reference.base ≠ .eip) ∧
    (∀ (replaced : Nat) (other : RawOperand),
      let changed := ofRaw { raw with operands := raw.operands.set replaced other } address
      changed = { ofRaw raw address with operands := changed.operands } ∧
      (∀ position, position ≠ replaced →
        changed.operands[position]? = (ofRaw raw address).operands[position]?) ∧
      (maxOperands ≤ replaced → changed = ofRaw raw address)) ∧
    ∀ flags : FlagTable, ∃ read write, ofRaw { raw with flags := flags } address =
      { ofRaw raw address with flagsRead := read, flagsWrite := write } := by
  have hend := raw.nextAddress_eq_toInt64 address
  refine ⟨length_operands_ofRaw raw address, ?_, ?_, ?_, fun flags => ⟨_, _, rfl⟩⟩
  · intro position hposition source hsource
    refine ⟨source.resolve (raw.nextAddress address), ?_, ?_⟩
    · rw [getElem?_operands_ofRaw raw address hposition, hsource, Option.map_some]
    · rw [hend]
      exact source.shownAs_resolve _
  · intro operand hmem reference hkind
    obtain ⟨source, -, rfl⟩ := List.mem_map.1 hmem
    have hshown := (source.shownAs_resolve (ofRaw raw address).endAddress).kind
    rw [← hend, hkind] at hshown
    exact hshown.base_ne
  · intro replaced other changed
    have hchanged : changed = _ := ofRaw_set raw address replaced other
    rw [hchanged]
    refine ⟨rfl, fun position hne => List.getElem?_set_ne (Ne.symm hne), fun hcut => ?_⟩
    have hshort : (ofRaw raw address).operands.length ≤ replaced := by
      rw [length_operands_ofRaw]
      exact le_trans (min_le_left _ _) hcut
    rw [List.set_eq_of_length_le hshort]

/-- An instruction of five bytes that ends at address 3, behind the wrap of addresses: a branch from
there goes back past address 0, and a reference passes the largest signed word.  Replacing the
branch leaves the reference alone. -/
theorem ofRaw_resolves_wrapped :
    let branch : RawOperand := ⟨.immediate (-10) true, 4, .explicit, .read⟩
    let reference : RawOperand := ⟨.memory 0 26 35 8 0x7fffffffffffffff, 4, .explicit, .read⟩
    let raw : RawInstruction := ⟨5, .ofNumber 62, [branch, reference], .untouched⟩
    let insn := ofRaw raw 0xfffffffffffffffe
    insn.endAddress = 3 ∧
      (∃ shown, insn.operands[0]? = some shown ∧ shown.kind = .immediate (-7)) ∧
      (∃ shown, insn.operands[1]? = some shown ∧
        shown.kind = .memory ⟨4, .none, .none, .ofNumber 35, 8, -0x7ffffffffffffffe⟩) ∧
      (ofRaw { raw with operands := [.unused, reference] } 0xfffffffffffffffe).operands[1]? =
        insn.operands[1]? := by
  intro branch reference raw insn
  obtain ⟨-, hshown, -, hlocal, -⟩ := ofRaw_resolves raw 0xfffffffffffffffe
  obtain ⟨first, hfirst, hbranch⟩ := hshown 0 (by decide) branch rfl
  obtain ⟨second, hsecond, hreference⟩ := hshown 1 (by decide) reference rfl
  refine ⟨by decide, ⟨first, hfirst, ?_⟩, ⟨second, hsecond, ?_⟩,
    (hlocal 0 .unused).2.1 1 (by decide)⟩
  · rw [← RawKind.resolvesTo_iff.1 hbranch.kind]
    decide
  · rw [← RawKind.resolvesTo_iff.1 hreference.kind]
    decide

end Instruction

end X86Listing
