import X86Listing.Raw.OfRecord

/-!
# Byte decoders

A byte decoder is fixed to one machine mode and finds the first instruction in a run of bytes.  It
may keep a state between calls, so that nothing is assumed of its answers: the same bytes may be
answered differently the next time.

* `ofEngine` is the decoder that asks a disassembly engine.  The engine sees the first
  `maxInstructionSize` bytes and has no state.
* `recording` adds a record of the calls to a decoder and changes none of its answers.
-/

namespace X86Listing

/-- A byte decoder with states `σ`. -/
structure ByteDecoder (σ : Type) where
  /-- The mode in which bytes are read. -/
  mode : MachineMode
  /-- The first instruction in the bytes, or nothing, and the state after the call. -/
  answer : List UInt8 → σ → Option RawInstruction × σ

namespace ByteDecoder

/-- A decoder without state. -/
def ofFunction (mode : MachineMode) (answer : List UInt8 → Option RawInstruction) :
    ByteDecoder Unit :=
  ⟨mode, fun bytes state => (answer bytes, state)⟩

/-- Ask the engine for the first instruction in the bytes. -/
def askEngine (mode : MachineMode) (engine : Engine) (bytes : List UInt8) :
    Option RawInstruction :=
  let window := bytes.take maxInstructionSize
  (engine window).bind (RawInstruction.ofRecord? mode window)

/-- The decoder of an engine. -/
def ofEngine (mode : MachineMode) (engine : Engine) : ByteDecoder Unit :=
  ofFunction mode (askEngine mode engine)

/-- The same decoder, with all bytes it was shown, the latest first, beside its state. -/
def recording {σ : Type} (decoder : ByteDecoder σ) : ByteDecoder (σ × List (List UInt8)) where
  mode := decoder.mode
  answer bytes state :=
    let (raw, next) := decoder.answer bytes state.1
    (raw, next, bytes :: state.2)

end ByteDecoder

end X86Listing
