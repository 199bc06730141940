import X86Listing.Flag

/-!
# Flag words

An engine packs what an instruction does to the flags into one 64-bit word, with one bit for each
pair of a flag and an effect.  There are two layouts: one for the integer flags and one for the
condition flags of the x87 unit.  A flag that a layout does not mention stays untouched.
-/

namespace X86Listing

/-- The bits of a flag word that belong to one flag. -/
structure FlagBits where
  test : Option Nat
  modify : Option Nat
  reset : Option Nat
  set : Option Nat
  undefined : Option Nat
  deriving DecidableEq, Repr

namespace FlagBits

/-- The bits of a flag that the layout does not mention. -/
def absent : FlagBits := ⟨none, none, none, none, none⟩

/-- Whether an effect has a bit and that bit is set. -/
def isSet (word : UInt64) (bit : Option Nat) : Bool :=
  bit.any word.toNat.testBit

/-- The action that the word reports for the flag.  A test or a modification hides the effects
that follow it in the order reset, set, undefined. -/
def action (bits : FlagBits) (word : UInt64) : FlagAction :=
  match isSet word bits.test, isSet word bits.modify with
  | true, true => .testedModified
  | true, false => .tested
  | false, true => .modified
  | false, false =>
    if isSet word bits.reset then .reset
    else if isSet word bits.set then .set
    else if isSet word bits.undefined then .undefined
    else .untouched

end FlagBits

/-- Where the bits of a flag are: the layout of a flag word. -/
abbrev FlagLayout := CpuFlag → FlagBits

namespace FlagLayout

/-- The layout of the integer flags.  The engine reports neither the privilege level nor the
virtual-mode and identification flags. -/
def integer : FlagLayout
  | .carry => ⟨some 37, some 1, some 22, some 30, some 45⟩
  | .parity => ⟨some 36, some 4, some 29, some 56, some 43⟩
  | .auxiliaryCarry => ⟨some 50, some 0, some 26, some 55, some 44⟩
  | .zero => ⟨some 35, some 3, some 51, some 54, some 42⟩
  | .sign => ⟨some 34, some 2, some 25, some 53, some 41⟩
  | .trap => ⟨some 49, some 6, some 27, none, none⟩
  | .interrupt => ⟨some 48, some 7, some 24, some 32, none⟩
  | .direction => ⟨some 39, some 8, some 23, some 31, none⟩
  | .overflow => ⟨some 33, some 5, some 21, some 52, some 40⟩
  | .nestedTask => ⟨some 38, some 9, some 28, none, none⟩
  | .resume => ⟨some 47, some 10, some 46, none, none⟩
  | .alignmentCheck => ⟨none, none, some 58, none, none⟩
  | _ => .absent

/-- The layout of the x87 condition flags. -/
def fpu : FlagLayout
  | .c0 => ⟨some 16, some 0, some 4, some 8, some 12⟩
  | .c1 => ⟨some 17, some 1, some 5, some 9, some 13⟩
  | .c2 => ⟨some 18, some 2, some 6, some 10, some 14⟩
  | .c3 => ⟨some 19, some 3, some 7, some 11, some 15⟩
  | _ => .absent

end FlagLayout

/-- The action of every flag that a word reports. -/
def FlagTable.ofWord (layout : FlagLayout) (word : UInt64) : FlagTable :=
  fun flag => (layout flag).action word

end X86Listing
