import X86Listing.Session

/-!
# Linear sweeps

A sweep decodes an image from front to back.  Where an instruction decodes, the sweep goes on right
behind it; where nothing decodes, the sweep skips one byte and tries again.

`Session.walk` is the sweep itself.  It goes through the bytes one by one and keeps the number of
bytes that the last instruction still covers, so it ends with the bytes.  What it did is a list of
steps, one for each offset at which it tried to decode, and everything else is read off the steps:
the instructions found, the number of bytes skipped, the log.
-/

namespace X86Listing

/-! ## Steps -/

/-- What a sweep did at an offset of the image. -/
inductive SweepStep
  /-- An instruction was decoded. -/
  | decoded (offset : Nat) (insn : Instruction)
  /-- Nothing decoded, and the byte was skipped. -/
  | skipped (offset : Nat)
  deriving DecidableEq, Repr

namespace SweepStep

/-- The offset that was tried. -/
def offset : SweepStep → Nat
  | decoded offset _ => offset
  | skipped offset => offset

/-- How many bytes the step goes forward. -/
def size : SweepStep → Nat
  | decoded _ insn => insn.size.toNat
  | skipped _ => 1

/-- The instruction that was decoded, if any. -/
def instruction? : SweepStep → Option Instruction
  | decoded _ insn => some insn
  | skipped _ => none

/-- Whether a byte was skipped. -/
def isSkip : SweepStep → Bool
  | decoded _ _ => false
  | skipped _ => true

/-- What the log says of the step, in an image that starts at `base`. -/
def logLine? (base : Address) : SweepStep → Option LogLine
  | decoded _ _ => none
  | skipped offset =>
      some ⟨.trace, "Nothing decodes at " ++
        Text.markedString (base + UInt64.ofNat offset).toNat ++ ", skipping a byte"⟩

end SweepStep

/-- What a sweep found. -/
structure Sweep where
  instructions : List Instruction
  /-- The number of bytes skipped because nothing decoded there. -/
  skipped : Nat
  deriving DecidableEq, Repr

/-- The outcome of a list of steps. -/
def Sweep.ofSteps (steps : List SweepStep) : Sweep where
  instructions := steps.filterMap SweepStep.instruction?
  skipped := steps.countP SweepStep.isSkip

/-! ## Sweeping a range -/

namespace Session

variable {σ : Type}

/-- Go through `count` bytes, the first of which is at `offset`.  `covered` bytes still belong to
the last instruction.  The bytes that are shown to the decoder may go on behind the last one that
is tried. -/
def walk (base : Address) :
    (count offset covered : Nat) → List UInt8 → Session σ → List SweepStep × Session σ
  | 0, _, _, _, session => ([], session)
  | count + 1, offset, covered + 1, bytes, session =>
      walk base count (offset + 1) covered bytes.tail session
  | count + 1, offset, 0, bytes, session =>
      let (result, session) := session.decode bytes (base + UInt64.ofNat offset)
      match result with
      | .ok insn =>
          let (steps, session) :=
            walk base count (offset + 1) (insn.size.toNat - 1) bytes.tail session
          (.decoded offset insn :: steps, session)
      | .error _ =>
          let (steps, session) := walk base count (offset + 1) 0 bytes.tail session
          (.skipped offset :: steps, session)

/-- The end of the bytes that are shown to the decoder when the range ends at `stop`: an
instruction that starts in the range may run past it. -/
def windowEnd (image : List UInt8) (stop : Nat) : Nat :=
  min (stop + maxInstructionSize) image.length

/-- Sweep the instruction starts from `start` up to `stop`. -/
def sweepRange (session : Session σ) (image : List UInt8) (base : Address) (start stop : Nat) :
    List SweepStep × Session σ :=
  walk base (stop - start) start 0
    ((image.drop start).take (windowEnd image stop - start)) session

/-! ## Sweeping an image -/

/-- The steps of the sweep of a whole image. -/
def linearSteps (session : Session σ) (image : List UInt8) (base : Address) :
    List SweepStep × Session σ :=
  session.sweepRange image base 0 image.length

/-- **The linear sweep** of an image whose first byte is at `base`. -/
def linearSweep (session : Session σ) (image : List UInt8) (base : Address) : Sweep :=
  Sweep.ofSteps (session.linearSteps image base).1

end Session

/-- The log of the linear sweep that took the given steps and so much time. -/
def linearLog (image : List UInt8) (base : Address) (steps : List SweepStep) (elapsed : String) :
    List LogLine :=
  let sweep := Sweep.ofSteps steps
  steps.filterMap (SweepStep.logLine? base) ++
    [⟨.debug, "Linear sweep of " ++ Text.decimalString image.length ++ " bytes: " ++
      Text.decimalString sweep.instructions.length ++ " instructions, " ++
      Text.decimalString sweep.skipped ++ " bytes skipped in " ++ elapsed⟩]

end X86Listing
