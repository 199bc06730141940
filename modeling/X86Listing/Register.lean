import X86Listing.Register.Names

/-!
# Registers

A register is a position in the catalog of register names.  Decoders speak of registers by number;
a number outside the catalog means no register, so `ofNumber` is total, and it undoes `number`.
-/

namespace X86Listing

/-- An x86 register, physical or pseudo (`eiz`, `riz`, `eflags`, `fpsw`), or none. -/
structure Register where
  /-- Position in the catalog. -/
  index : Fin 246
  deriving DecidableEq, Repr

namespace Register

/-- No register. -/
protected def none : Register := ⟨0⟩

/-- The 32-bit instruction pointer. -/
def eip : Register := ⟨26⟩

/-- The 64-bit instruction pointer. -/
def rip : Register := ⟨41⟩

instance : Inhabited Register := ⟨Register.none⟩

/-- The assembler name; `none` for no register. -/
def name (reg : Register) : String :=
  catalog.get (reg.index.cast catalog_length.symm)

/-- The register of a number; numbers outside the catalog mean no register. -/
def ofNumber (number : UInt16) : Register :=
  if h : number.toNat < 246 then ⟨⟨number.toNat, h⟩⟩ else Register.none

/-- The number of a register. -/
def number (reg : Register) : UInt16 :=
  UInt16.ofNat reg.index.val

/-- The register with exactly this name. -/
def ofName? (name : String) : Option Register :=
  (catalog.idxOf? name).bind fun i => if h : i < 246 then some ⟨⟨i, h⟩⟩ else none

/-- Whether this is no register. -/
def isNone (reg : Register) : Bool :=
  reg = Register.none

/-- Whether this is one of the two instruction pointers that can be a memory base. -/
def isInstructionPointer (reg : Register) : Bool :=
  reg = rip ∨ reg = eip

/-- Numbering registers loses nothing. -/
theorem ofNumber_number (reg : Register) : ofNumber reg.number = reg := by
  obtain ⟨i, hi⟩ := reg
  have h : (UInt16.ofNat i).toNat = i := by simp; omega
  simp [ofNumber, number, h, hi]

end Register

end X86Listing
