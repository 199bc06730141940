import X86Listing.Mnemonic.Names

/-!
# Mnemonics

A mnemonic is a position in the catalog of instruction names.  Mnemonics are ordered by that
position, which is the decoder's instruction number and not the alphabet's order.
-/

namespace X86Listing

/-- Which instruction it is: one value for each instruction number, and one for unknown. -/
structure Mnemonic where
  /-- Position in the catalog. -/
  index : Fin 1524
  deriving DecidableEq, Repr

namespace Mnemonic

/-- The unknown instruction. -/
def invalid : Mnemonic := ⟨0⟩

instance : Inhabited Mnemonic := ⟨invalid⟩

/-- The mnemonic in lower case; `invalid` for the unknown instruction. -/
def name (mnemonic : Mnemonic) : String :=
  catalog.get (mnemonic.index.cast catalog_length.symm)

/-- The mnemonic of an instruction number; numbers outside the catalog are unknown. -/
def ofNumber (number : UInt32) : Mnemonic :=
  if h : number.toNat < 1524 then ⟨⟨number.toNat, h⟩⟩ else invalid

/-- The instruction number. -/
def number (mnemonic : Mnemonic) : UInt32 :=
  UInt32.ofNat mnemonic.index.val

/-- The mnemonic with exactly this name. -/
def ofName? (name : String) : Option Mnemonic :=
  (catalog.idxOf? name).bind fun i => if h : i < 1524 then some ⟨⟨i, h⟩⟩ else none

/-- Whether the instruction is unknown. -/
def isInvalid (mnemonic : Mnemonic) : Bool :=
  mnemonic = invalid

/-- Sort by instruction number; equal mnemonics all stay. -/
def sort (mnemonics : List Mnemonic) : List Mnemonic :=
  mnemonics.mergeSort fun a b => a.index ≤ b.index

/-- Numbering mnemonics loses nothing. -/
theorem ofNumber_number (mnemonic : Mnemonic) : ofNumber mnemonic.number = mnemonic := by
  obtain ⟨i, hi⟩ := mnemonic
  have h : (UInt32.ofNat i).toNat = i := by simp; omega
  simp [ofNumber, number, h, hi]

end Mnemonic

end X86Listing
