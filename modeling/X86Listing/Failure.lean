import X86Listing.Engine.Record
import X86Listing.Json.Fault
import X86Listing.Machine
import X86Listing.Text.Numeral

/-!
# Failures

What can go wrong, and what is said of it.  A decode that fails is an everyday event of a sweep and
has a type of its own.
-/

namespace X86Listing

/-- Nothing decodes at this address. -/
structure DecodeFailure where
  address : Address
  deriving DecidableEq, Repr

/-- What to say of it. -/
def DecodeFailure.message (failure : DecodeFailure) : String :=
  "failed to decode instruction at " ++ Text.markedString failure.address.toNat

/-- Why there is no listing, or none was written. -/
inductive Failure
  /-- The disassembly engine could not be opened. -/
  | engine (error : EngineError)
  /-- Nothing decodes at an address. -/
  | decode (failure : DecodeFailure)
  /-- A text is no instruction. -/
  | reading (fault : ReadFault)
  /-- Writing failed inside a JSON value. -/
  | value (cause : String)
  /-- Writing failed between JSON values, or at the end. -/
  | output (cause : String)
  deriving DecidableEq, Repr

/-- The message of a failure.  A text that cannot be read has none, only a kind of fault. -/
def Failure.message? : Failure → Option String
  | engine error => some ("Capstone error: " ++ error.text)
  | decode failure => some failure.message
  | reading _ => none
  | value cause => some ("JSON serialization error: " ++ cause)
  | output cause => some ("I/O error: " ++ cause)

/-- The kind of a failure of JSON.  A value that cannot be written fails because its text cannot be
put out. -/
def Failure.category? : Failure → Option String
  | reading fault => some fault.category
  | value _ => some "io"
  | _ => none

end X86Listing
