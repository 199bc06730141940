/-!
# Faults of a text

A text that is read as JSON can be at fault in three ways.  Reading goes from left to right, so the
first fault is the one that counts.
-/

namespace X86Listing

/-- Why a text cannot be read. -/
inductive ReadFault
  /-- The text is no JSON. -/
  | malformed
  /-- The text ends inside a value. -/
  | truncated
  /-- The text is JSON, but not of the kind that is wanted. -/
  | mismatch
  deriving DecidableEq, Repr

/-- The usual name for the kind of fault. -/
def ReadFault.category : ReadFault → String
  | malformed => "syntax"
  | truncated => "eof"
  | mismatch => "data"

end X86Listing
