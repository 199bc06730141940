import X86Listing.Failure
import X86Listing.Instruction.OfJson
import X86Listing.Sink
import X86Listing.Text.Blank
import X86Listing.Text.Lines

/-!
# JSON Lines

A listing as JSON Lines is one JSON object on a line for each instruction, and every line ends in a
line feed.  Reading skips the lines that are blank and stops at the first one that is no
instruction.
-/

namespace X86Listing

namespace JsonLines

/-! ## Writing -/

/-- The line of an instruction, without its end. -/
def line (insn : Instruction) : List Char :=
  insn.toJson.compact

/-- The text of a listing. -/
def write (listing : List Instruction) : List Char :=
  listing.flatMap fun insn => line insn ++ ['\n']

/-- Offer a part of a listing's text; `wrap` says what it means if that fails. -/
def offerPart (sink : Sink) (wrap : String → Failure) (taken : Nat) (text : List Char) :
    List Char × Option Failure :=
  let (front, cause) := sink.offer taken text
  (front, cause.map wrap)

/-- Offer the lines of a listing to a sink that has taken `taken` characters before, and then ask it
to pass everything on: what it has taken in the end, and what failed. -/
def offerAll (sink : Sink) : (taken : Nat) → List Instruction → List Char × Option Failure
  | _, [] => ([], sink.flushCause.map Failure.output)
  | taken, insn :: rest =>
      Sink.andThen (offerPart sink .value taken (line insn)) fun ofLine =>
      Sink.andThen (offerPart sink .output (taken + ofLine) ['\n']) fun ofEnd =>
      offerAll sink (taken + ofLine + ofEnd) rest

/-- Write a listing to a sink: the text that the sink has taken, and what failed. -/
def writeTo (sink : Sink) (listing : List Instruction) : List Char × Option Failure :=
  offerAll sink 0 listing

/-! ## Reading -/

/-- The lines that are not blank. -/
def fullLines (text : List Char) : List (List Char) :=
  (Text.lines text).filter fun line => !line.all Text.isBlank

/-- Read a listing; `key` says how the key is read where a name is written as an object. -/
def read (key : NameKey) (text : List Char) : Except ReadFault (List Instruction) :=
  (fullLines text).mapM (Instruction.ofJsonText key)

end JsonLines

end X86Listing
