import X86Listing.Decoder
import X86Listing.Failure
import X86Listing.Instruction.OfRaw
import X86Listing.Log

/-!
# Sessions

A session is a byte decoder at work.  It guards the decoder's answers: whatever the decoder says,
`Session.decode` returns an instruction only if it has at least one byte and lies inside the bytes
it was given.  An empty run of bytes never reaches the decoder.
-/

namespace X86Listing

/-- Whether a raw instruction has a length and lies inside the bytes. -/
def RawInstruction.fits (raw : RawInstruction) (bytes : List UInt8) : Bool :=
  raw.length ≠ 0 ∧ (bytes.take raw.length.toNat).length = raw.length.toNat

/-- A byte decoder and its current state. -/
structure Session (σ : Type) where
  decoder : ByteDecoder σ
  state : σ

namespace Session

variable {σ : Type}

/-- The mode in which bytes are read. -/
def mode (session : Session σ) : MachineMode :=
  session.decoder.mode

/-- The session of a decoder without state. -/
def ofDecoder (decoder : ByteDecoder Unit) : Session Unit :=
  ⟨decoder, ()⟩

/-- Decode the first instruction in the bytes, which stand at the address. -/
def decode (session : Session σ) (bytes : List UInt8) (address : Address) :
    Except DecodeFailure Instruction × Session σ :=
  match bytes with
  | [] => (.error ⟨address⟩, session)
  | _ :: _ =>
      let (answer, state) := session.decoder.answer bytes session.state
      let result := match answer with
        | none => .error ⟨address⟩
        | some raw =>
            if raw.fits bytes then .ok (Instruction.ofRaw raw address) else .error ⟨address⟩
      (result, { session with state })

/-- Open a session with an engine, which may have failed to open. -/
def create (mode : MachineMode) (engine : Except EngineError Engine) :
    Except EngineError (Session Unit) :=
  engine.map fun engine => ofDecoder (.ofEngine mode engine)

/-- The log line of a session that opens an engine in a mode. -/
def openedLine (mode : MachineMode) : LogLine :=
  ⟨.trace, "Created decoder session in " ++ mode.name ++ " mode"⟩

/-- A description of an engine's session for debugging. -/
def describe (mode : MachineMode) : String :=
  "Session \x7b decoder: CapstoneDecoder \x7b mode: " ++ mode.tag ++ " \x7d \x7d"

end Session

end X86Listing
