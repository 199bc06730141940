import X86Listing.Engine.Record
import X86Listing.Sweep

/-!
# Sweeps in chunks

A large image is cut into chunks of `chunkSize` bytes, and the chunks are swept at the same time,
each in a session of its own.  The start of a chunk counts as the start of an instruction.  An
instruction that runs over the end of its chunk is kept, and the next chunk may find other
instructions in the same bytes.

The results are put together in the order of their offsets in the image, which the addresses give
back even where they wrap.  If a session cannot be opened for some chunk, the first such chunk's
error is the result.
-/

namespace X86Listing

/-- The number of bytes in a chunk; the last one may be shorter. -/
def chunkSize : Nat := 4096

/-- How many chunks an image of so many bytes has. -/
def chunkCount (size : Nat) : Nat :=
  (size + (chunkSize - 1)) / chunkSize

/-- Where a chunk starts. -/
def chunkStart (index : Nat) : Nat :=
  index * chunkSize

/-- Where a chunk of an image ends. -/
def chunkStop (image : List UInt8) (index : Nat) : Nat :=
  min (chunkStart index + chunkSize) image.length

section

variable {σ : Type}

/-- The steps of the sweep of one chunk. -/
def chunkSteps (session : Session σ) (image : List UInt8) (base : Address) (index : Nat) :
    List SweepStep :=
  (session.sweepRange image base (chunkStart index) (chunkStop image index)).1

/-- The steps of every chunk's sweep, in the order of the chunks, given how a session is opened for
each chunk. -/
def allChunkSteps (opened : Nat → Except EngineError (Session σ)) (image : List UInt8)
    (base : Address) : Except EngineError (List (List SweepStep)) :=
  (List.range (chunkCount image.length)).mapM fun index =>
    (opened index).map fun session => chunkSteps session image base index

end

/-- The offset of an instruction in an image that starts at `base`. -/
def Instruction.offsetFrom (insn : Instruction) (base : Address) : UInt64 :=
  insn.address - base

/-- Put sweeps together: the instructions by offset, those of one offset in the order in which they
come. -/
def Sweep.merge (base : Address) (parts : List Sweep) : Sweep where
  instructions := (parts.flatMap Sweep.instructions).mergeSort fun a b =>
    a.offsetFrom base ≤ b.offsetFrom base
  skipped := parts.foldr (fun part total => part.skipped + total) 0

/-- **The sweep in chunks** of an image whose first byte is at `base`. -/
def parallelSweep {σ : Type} (opened : Nat → Except EngineError (Session σ))
    (image : List UInt8) (base : Address) : Except EngineError Sweep :=
  (allChunkSteps opened image base).map fun chunks => .merge base (chunks.map Sweep.ofSteps)

/-- The log of a sweep in chunks that ended in so much time, with the lines of the chunks in order.
An empty image is not worth a line. -/
def parallelLog (image : List UInt8) (base : Address)
    (chunks : Except EngineError (List (List SweepStep))) (elapsed : String) : List LogLine :=
  if image.isEmpty then []
  else
    ⟨.debug, "Processing " ++ Text.decimalString image.length ++ " bytes in " ++
      Text.decimalString (chunkCount image.length) ++ " chunks"⟩ ::
    match chunks with
    | .error _ => []
    | .ok chunks =>
        chunks.flatten.filterMap (SweepStep.logLine? base) ++
          [⟨.debug, "Parallel sweep completed in " ++ elapsed ++ ": " ++
            Text.decimalString (Sweep.merge base (chunks.map Sweep.ofSteps)).instructions.length ++
            " instructions"⟩]

end X86Listing
