import X86Listing.Session

/-!
# What a session guarantees

Nothing is assumed of a decoder: at every call it may answer what it likes.  All that is known of an
instruction that leaves a session is what the session checks, and it is collected here.

* `Session.decode_cases` — a call ends in one of two ways.
* `Session.size_pos_of_decode`, `Session.size_le_of_decode`, `Session.address_of_decode` — an
  instruction has a length, lies inside the bytes it was read from, and stands where it was asked
  for.
* `Session.decode_recorded` — a recording decoder gives the same answers, and its record grows by
  the bytes shown.
* `Session.decode_of_answersWith` — with a decoder that answers by the bytes alone, so does the
  session, and the address only says where the instruction is placed.
-/

namespace X86Listing

/-- The check of a raw instruction against the bytes, in numbers. -/
theorem RawInstruction.fits_iff (raw : RawInstruction) (bytes : List UInt8) :
    raw.fits bytes = true ↔ 1 ≤ raw.length.toNat ∧ raw.length.toNat ≤ bytes.length := by
  have hzero : raw.length ≠ 0 ↔ 1 ≤ raw.length.toNat := by
    rw [Ne, ← UInt8.toNat_inj, UInt8.toNat_zero]
    omega
  simp only [fits, hzero, List.length_take, decide_eq_true_eq]
  omega

/-- The decoder's answer depends only on the bytes that it is shown: whatever its state, it is that
of a function. -/
def ByteDecoder.AnswersWith {σ : Type} (decoder : ByteDecoder σ)
    (answer : List UInt8 → Option RawInstruction) : Prop :=
  ∀ bytes state, (decoder.answer bytes state).1 = answer bytes

namespace Session

variable {σ : Type} {session next : Session σ} {bytes : List UInt8} {address : Address}

/-! ## The two outcomes of a call -/

/-- A call returns a raw instruction of the decoder that fits, or it fails at the address.  The
decoder stays the same, and only its state may change. -/
theorem decode_cases (session : Session σ) (bytes : List UInt8) (address : Address) :
    (∃ raw next, session.decoder.answer bytes session.state = (some raw, next) ∧
      raw.fits bytes = true ∧ session.decode bytes address =
        (.ok (Instruction.ofRaw raw address), { session with state := next })) ∨
    ∃ next, session.decode bytes address = (.error ⟨address⟩, { session with state := next }) := by
  cases bytes with
  | nil => exact Or.inr ⟨session.state, rfl⟩
  | cons b bs =>
      rcases h : session.decoder.answer (b :: bs) session.state with ⟨answer, state⟩
      cases answer with
      | none => exact Or.inr ⟨state, by simp [decode, h]⟩
      | some raw =>
          by_cases hfits : raw.fits (b :: bs) = true
          · exact Or.inl ⟨raw, state, rfl, hfits, by simp [decode, h, hfits]⟩
          · exact Or.inr ⟨state, by simp [decode, h, hfits]⟩

/-- The raw instruction behind an instruction. -/
theorem exists_raw_of_decode {insn : Instruction}
    (h : session.decode bytes address = (.ok insn, next)) :
    ∃ raw : RawInstruction, raw.fits bytes = true ∧ insn = Instruction.ofRaw raw address := by
  rcases decode_cases session bytes address with ⟨raw, state, -, hfits, hdec⟩ | ⟨state, hdec⟩
  · rw [hdec] at h
    cases h
    exact ⟨raw, hfits, rfl⟩
  · rw [hdec] at h
    cases h

theorem size_pos_of_decode {insn : Instruction}
    (h : session.decode bytes address = (.ok insn, next)) : 1 ≤ insn.size.toNat := by
  obtain ⟨raw, hfits, rfl⟩ := exists_raw_of_decode h
  exact ((raw.fits_iff bytes).1 hfits).1

theorem size_le_of_decode {insn : Instruction}
    (h : session.decode bytes address = (.ok insn, next)) : insn.size.toNat ≤ bytes.length := by
  obtain ⟨raw, hfits, rfl⟩ := exists_raw_of_decode h
  exact ((raw.fits_iff bytes).1 hfits).2

theorem address_of_decode {insn : Instruction}
    (h : session.decode bytes address = (.ok insn, next)) : insn.address = address := by
  obtain ⟨raw, -, rfl⟩ := exists_raw_of_decode h
  rfl

/-! ## Sessions with an engine -/

/-- The session of an engine. -/
def ofEngine (mode : MachineMode) (engine : Engine) : Session Unit :=
  ofDecoder (.ofEngine mode engine)

/-- The answer of an engine's session is that of the engine, guarded. -/
theorem decode_ofEngine {mode : MachineMode} {engine : Engine} (h : bytes ≠ []) :
    (ofEngine mode engine).decode bytes address =
      (match ByteDecoder.askEngine mode engine bytes with
        | none => .error ⟨address⟩
        | some raw =>
            if raw.fits bytes then .ok (Instruction.ofRaw raw address) else .error ⟨address⟩,
        ofEngine mode engine) := by
  cases bytes with
  | nil => exact absurd rfl h
  | cons b bs => rfl

/-! ## Decoders that answer by the bytes alone -/

/-- The answer that a session accepts is placed at the address. -/
theorem decode_of_answersWith {answer : List UInt8 → Option RawInstruction}
    (h : session.decoder.AnswersWith answer) (bytes : List UInt8) (address : Address) :
    (session.decode bytes address).1 =
      match (answer bytes).filter fun raw => raw.fits bytes with
      | some raw => .ok (Instruction.ofRaw raw address)
      | none => .error ⟨address⟩ := by
  cases bytes with
  | nil =>
      -- no raw instruction fits into no bytes
      have hfits : ∀ raw : RawInstruction, raw.fits [] = false := by
        intro raw
        rw [← Bool.not_eq_true, RawInstruction.fits_iff, List.length_nil]
        omega
      cases hans : answer [] with
      | none => rfl
      | some raw => rw [Option.filter_some, hfits]; rfl
  | cons b bs =>
      have hans := h (b :: bs) session.state
      rw [decode]
      rcases hcall : session.decoder.answer (b :: bs) session.state with ⟨found, state⟩
      rw [hcall] at hans
      change found = answer (b :: bs) at hans
      rw [← hans]
      cases found with
      | none => rfl
      | some raw => cases hfits : raw.fits (b :: bs) <;> simp [hfits, Option.filter]

/-- A call changes the state of a session and nothing else. -/
theorem decoder_decode (session : Session σ) (bytes : List UInt8) (address : Address) :
    (session.decode bytes address).2.decoder = session.decoder := by
  cases bytes with
  | nil => rfl
  | cons b bs => rfl

theorem decoder_of_decode {result : Except DecodeFailure Instruction}
    (hdec : session.decode bytes address = (result, next)) : next.decoder = session.decoder := by
  have hdecoder := session.decoder_decode bytes address
  rwa [hdec] at hdecoder

theorem answersWith_of_decode {answer : List UInt8 → Option RawInstruction}
    (h : session.decoder.AnswersWith answer) {result : Except DecodeFailure Instruction}
    (hdec : session.decode bytes address = (result, next)) : next.decoder.AnswersWith answer := by
  rwa [decoder_of_decode hdec]

/-- An instruction comes from a raw instruction that every session with the same answers places,
at whatever address it is asked. -/
theorem exists_answer_of_decode {answer : List UInt8 → Option RawInstruction}
    (h : session.decoder.AnswersWith answer) {insn : Instruction}
    (hdec : session.decode bytes address = (.ok insn, next)) :
    ∃ raw, answer bytes = some raw ∧ ∀ (τ : Type) (other : Session τ) (address' : Address),
      other.decoder.AnswersWith answer →
      (other.decode bytes address').1 = .ok (Instruction.ofRaw raw address') := by
  have hfirst := decode_of_answersWith h bytes address
  rw [hdec] at hfirst
  cases haccepted : (answer bytes).filter fun raw => raw.fits bytes with
  | none => rw [haccepted] at hfirst; cases hfirst
  | some raw =>
      refine ⟨raw, (Option.filter_eq_some_iff.1 haccepted).1, fun τ other address' hother => ?_⟩
      rw [decode_of_answersWith hother, haccepted]

/-- What fails in one session fails in every session with the same answers, at every address. -/
theorem decode_error_of_decode {answer : List UInt8 → Option RawInstruction}
    (h : session.decoder.AnswersWith answer) {failure : DecodeFailure}
    (hdec : session.decode bytes address = (.error failure, next)) {τ : Type} (other : Session τ)
    (address' : Address) (hother : other.decoder.AnswersWith answer) :
    (other.decode bytes address').1 = .error ⟨address'⟩ := by
  have hfirst := decode_of_answersWith h bytes address
  rw [hdec] at hfirst
  cases haccepted : (answer bytes).filter fun raw => raw.fits bytes with
  | none => rw [decode_of_answersWith hother, haccepted]
  | some raw => rw [haccepted] at hfirst; cases hfirst

/-! ## Recorded calls -/

/-- The session with a decoder that records its calls. -/
def recorded (session : Session σ) (calls : List (List UInt8)) : Session (σ × List (List UInt8)) :=
  ⟨session.decoder.recording, session.state, calls⟩

/-- Bytes that are not empty reach the decoder exactly once, and recording changes nothing else. -/
theorem decode_recorded (calls : List (List UInt8)) (h : bytes ≠ []) :
    (session.recorded calls).decode bytes address =
      ((session.decode bytes address).1,
        (session.decode bytes address).2.recorded (bytes :: calls)) := by
  cases bytes with
  | nil => exact absurd rfl h
  | cons b bs => rfl

end Session

end X86Listing
