import X86Listing.Proofs.Raw.Operands
import X86Listing.Proofs.Sweep.Outcome

/-!
# Sweeps that see no further than a window

An engine is shown at most `maxInstructionSize` bytes.  If it never claims more than it was shown,
a session's answer at an offset depends on those bytes alone (`Session.windowed_ofEngine`), and it
does not matter how far behind the offset the sweep could have shown.  So a sweep up to an offset
is the beginning of every longer sweep: `SweepRun.split`.
-/

namespace X86Listing

/-! ## Windowed sessions -/

/-- The engine never reports more bytes than the window it was shown. -/
def Engine.Bounded (engine : Engine) : Prop :=
  ∀ window record, window.length ≤ maxInstructionSize → engine window = some record →
    record.size.toNat ≤ window.length

/-- An answer that is played back without force is bounded. -/
theorem Engine.bounded_replay (record : EngineRecord) : Engine.Bounded (record.replay false) := by
  intro window found _ hfound
  rw [EngineRecord.replay] at hfound
  split at hfound
  · rename_i hle
    cases hfound
    simpa using hle
  · cases hfound

/-- An engine that knows two instructions by their first bytes: `nop`, and `mov eax, 0x06069090`. -/
def Engine.nopMove : Engine := fun window =>
  if window.head? = some 0x90 then
    EngineRecord.replay ⟨510, 1, [], [], [], 0, 0, 0, 0, []⟩ false window
  else if window.head? = some 0xb8 then
    EngineRecord.replay ⟨460, 5, [], [], [], 0, 1, 4, 0,
      [⟨.register 19, 4, 2⟩, ⟨.immediate 0x06069090, 4, 0⟩]⟩ false window
  else none

theorem Engine.bounded_nopMove : Engine.nopMove.Bounded := by
  intro window record hwindow hrecord
  rw [nopMove] at hrecord
  split at hrecord
  · exact bounded_replay _ window record hwindow hrecord
  · split at hrecord
    · exact bounded_replay _ window record hwindow hrecord
    · cases hrecord

/-- Wherever a sweep stops, it shows a full window of the image at every offset that it tries. -/
theorem take_shownAt {image : List UInt8} {stop offset : Nat} (hlt : offset < stop) :
    (shownAt image stop offset).take maxInstructionSize =
      (image.drop offset).take maxInstructionSize := by
  rw [shownAt, Session.windowEnd, List.drop_take, List.take_take]
  by_cases hend : offset + maxInstructionSize ≤ image.length
  · rw [show min maxInstructionSize (min (stop + maxInstructionSize) image.length - offset) =
      maxInstructionSize by omega]
  · rw [List.take_of_length_le (by rw [List.length_drop]; omega),
      List.take_of_length_le (by rw [List.length_drop]; omega)]

namespace Session

/-- The session's answers depend on the first `maxInstructionSize` bytes alone. -/
def Windowed (session : Session Unit) : Prop :=
  ∀ bytes address,
    session.decode bytes address = session.decode (bytes.take maxInstructionSize) address

/-- A session without state stays the same. -/
theorem eq_of_decode {session next : Session Unit} {bytes : List UInt8} {address : Address}
    {result : Except DecodeFailure Instruction}
    (h : session.decode bytes address = (result, next)) : next = session := by
  rcases decode_cases session bytes address with ⟨raw, state, -, -, hdec⟩ | ⟨state, hdec⟩
  · rw [hdec] at h
    cases h
    rfl
  · rw [hdec] at h
    cases h
    rfl

/-- A raw instruction that an engine's decoder finds is no longer than the window. -/
theorem length_le_of_askEngine {mode : MachineMode} {engine : Engine} (hengine : engine.Bounded)
    {bytes : List UInt8} {raw : RawInstruction}
    (h : ByteDecoder.askEngine mode engine bytes = some raw) :
    raw.length.toNat ≤ (bytes.take maxInstructionSize).length := by
  obtain ⟨record, hrecord, hraw⟩ := Option.bind_eq_some_iff.1 h
  have hwindow : (bytes.take maxInstructionSize).length ≤ maxInstructionSize := by
    rw [List.length_take]
    exact Nat.min_le_left _ _
  have hsize := hengine _ record hwindow hrecord
  have hlength : raw.length.toNat ≤ record.size.toNat := by
    obtain ⟨-, rfl⟩ := RawInstruction.ofRecord?_eq_some_iff.1 hraw
    change record.size.toUInt8.toNat ≤ record.size.toNat
    rw [UInt16.toNat_toUInt8]
    exact Nat.mod_le _ _
  omega

/-- **An engine that claims no more than it was shown is windowed.** -/
theorem windowed_ofEngine {mode : MachineMode} {engine : Engine} (hengine : engine.Bounded) :
    (ofEngine mode engine).Windowed := by
  intro bytes address
  cases bytes with
  | nil => rfl
  | cons b bs =>
      have hask : ByteDecoder.askEngine mode engine ((b :: bs).take maxInstructionSize) =
          ByteDecoder.askEngine mode engine (b :: bs) := by
        rw [ByteDecoder.askEngine, List.take_take, Nat.min_self, ByteDecoder.askEngine]
      rw [decode_ofEngine (List.cons_ne_nil b bs), decode_ofEngine (by simp [maxInstructionSize]),
        hask]
      cases hraw : ByteDecoder.askEngine mode engine (b :: bs) with
      | none => rfl
      | some raw =>
          have hlength := length_le_of_askEngine hengine hraw
          have hfits : raw.fits ((b :: bs).take maxInstructionSize) = raw.fits (b :: bs) := by
            rw [Bool.eq_iff_iff, RawInstruction.fits_iff, RawInstruction.fits_iff]
            rw [List.length_take] at hlength ⊢
            omega
          simp only [hfits]

/-- At an offset that a sweep tries, a windowed session sees all that it can of the image. -/
theorem Windowed.decode_shownAt {session : Session Unit} (h : session.Windowed)
    {image : List UInt8} {stop offset : Nat} (hlt : offset < stop) (address : Address) :
    session.decode (shownAt image stop offset) address =
      session.decode (image.drop offset) address := by
  rw [h (shownAt image stop offset), take_shownAt hlt, ← h (image.drop offset)]

end Session

/-! ## Cutting a run -/

namespace SweepRun

variable {image : List UInt8} {base : Address} {stop offset final : Nat}
  {session last : Session Unit} {steps : List SweepStep}

/-- **A run can be cut.**  With a windowed session, the run up to an earlier end comes first, and
the rest is a run from where that one ends. -/
theorem split (h : SweepRun image base stop offset session steps final last)
    (hwindowed : session.Windowed) {cut : Nat} (hcut : cut ≤ stop) :
    ∃ first rest middle, steps = first ++ rest ∧
      SweepRun image base cut offset session first middle session ∧
      SweepRun image base stop middle session rest final last := by
  induction h with
  | done hstop => exact ⟨[], [], _, rfl, .done (by omega), .done hstop⟩
  | @decoded position _ _ _ _ _ _ hlt hdec hrest ih =>
      by_cases hbefore : position < cut
      · obtain rfl := Session.eq_of_decode hdec
        obtain ⟨first, rest, middle, rfl, hfirst, hlast⟩ := ih hwindowed
        rw [hwindowed.decode_shownAt hlt, ← hwindowed.decode_shownAt hbefore] at hdec
        exact ⟨_, rest, middle, rfl, .decoded hbefore hdec hfirst, hlast⟩
      · exact ⟨[], _, _, rfl, .done (Nat.le_of_not_lt hbefore), .decoded hlt hdec hrest⟩
  | @skipped position _ _ _ _ _ _ hlt hdec hrest ih =>
      by_cases hbefore : position < cut
      · obtain rfl := Session.eq_of_decode hdec
        obtain ⟨first, rest, middle, rfl, hfirst, hlast⟩ := ih hwindowed
        rw [hwindowed.decode_shownAt hlt, ← hwindowed.decode_shownAt hbefore] at hdec
        exact ⟨_, rest, middle, rfl, .skipped hbefore hdec hfirst, hlast⟩
      · exact ⟨[], _, _, rfl, .done (Nat.le_of_not_lt hbefore), .skipped hlt hdec hrest⟩

end SweepRun

end X86Listing
