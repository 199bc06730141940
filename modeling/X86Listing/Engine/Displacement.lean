import X86Listing.Machine

/-!
# Branch displacements

A branch is reported with its target, computed as if the instruction stood at address 0.  The raw
instruction wants the displacement from the end of the instruction instead.  There are two ways to
get it: read the field in which the instruction encodes it (`encodedImmediate`), or take the target
and undo the addition (`displacementFromTarget`).  The second way has to know how wide the engine's
addition was, for the target is cut to that width.
-/

namespace X86Listing

/-- The number that bytes stand for, least significant byte first. -/
def littleEndian : List UInt8 → Nat
  | [] => 0
  | byte :: rest => byte.toNat + 256 * littleEndian rest

/-- The two's complement number that bytes stand for, least significant byte first. -/
def signedLittleEndian (bytes : List UInt8) : Int64 :=
  Int64.ofInt (Int.bmod (littleEndian bytes) (1 <<< (8 * bytes.length)))

/-- The field of the instruction's bytes that starts at `offset` and has `size` bytes, if all of it
is there. -/
def fieldAt? (bytes : List UInt8) (offset size : Nat) : Option (List UInt8) :=
  if offset + size ≤ bytes.length then some ((bytes.drop offset).take size) else none

/-- The immediate as encoded in the instruction's bytes, sign-extended.  Offset 0 means that there
is none, and only fields of one, two and four bytes are read. -/
def encodedImmediate (bytes : List UInt8) (offset size : UInt8) : Option Int64 :=
  if offset = 0 then none
  else if size = 1 ∨ size = 2 ∨ size = 4 then
    (fieldAt? bytes offset.toNat size.toNat).map signedLittleEndian
  else none

/-- Sign-extend a target from the width of the engine's addition: the full word in long mode, 16
bits in compatibility mode with the operand-size prefix, and 32 bits without it. -/
def widenTarget (mode : MachineMode) (sizeOverride : Bool) (target : Int64) : Int64 :=
  match mode, sizeOverride with
  | .long64, _ => target
  | .compat32, true => target.toInt16.toInt64
  | .compat32, false => target.toInt32.toInt64

/-- The displacement that leads from the end of an instruction at address 0 to the target. -/
def displacementFromTarget (mode : MachineMode) (sizeOverride : Bool) (length : UInt8)
    (target : Int64) : Int64 :=
  widenTarget mode sizeOverride target - Int64.ofNat length.toNat

end X86Listing
