import X86Listing.Proofs.Sweep.Partition

/-!
# The sweep loop, turn by turn

A run of the loop (`SweepRun`) tells what happens if the loop ends.  Here the loop is taken one turn
at a time, and nothing is taken for granted: a turn cuts the bytes that it shows out of the image,
which goes wrong if they are no range of it (`slice?`), and nothing says beforehand that the turns
come to an end.  That it never goes wrong and that the turns do end is proved of every state that
the loop gets to, whatever the decoder answers:

* `LoopState.turn_cases` — before the end there is always a turn, and it goes forward by what the
  session lets pass.
* `Turns.length_le` — so there are no more turns than bytes in the range.
* `Turns.position_le` — no turn leaves the window.
* `SweepRun.turns` — the turns are those of the sweep.
* `Session.sweepRange_terminates` — all of this together.
-/

namespace X86Listing

variable {σ : Type}

/-! ## Turns -/

/-- The bytes of an image from `low` up to `high`, if they are a range of it. -/
def slice? (image : List UInt8) (low high : Nat) : Option (List UInt8) :=
  if low ≤ high ∧ high ≤ image.length then some ((image.take high).drop low) else none

/-- What the sweep loop keeps between two turns. -/
structure LoopState (σ : Type) where
  position : Nat
  session : Session σ

/-- What the loop does in a state. -/
inductive Turn (σ : Type)
  /-- The loop has ended. -/
  | done
  /-- The bytes to show are no range of the image. -/
  | outOfRange
  /-- A decode call, and the state behind it. -/
  | step (step : SweepStep) (next : LoopState σ)

/-- One turn of the loop up to `stop`: show the bytes up to the end of the window, and go behind the
instruction or forward by one byte. -/
def LoopState.turn (image : List UInt8) (base : Address) (stop : Nat) (state : LoopState σ) :
    Turn σ :=
  if state.position < stop then
    match slice? image state.position (Session.windowEnd image stop) with
    | none => .outOfRange
    | some shown =>
        match state.session.decode shown (base + UInt64.ofNat state.position) with
        | (.ok insn, session) =>
            .step (.decoded state.position insn) ⟨state.position + insn.size.toNat, session⟩
        | (.error _, session) => .step (.skipped state.position) ⟨state.position + 1, session⟩
  else .done

/-- The loop gets from one state to another in turns that take these steps. -/
inductive Turns (image : List UInt8) (base : Address) (stop : Nat) :
    LoopState σ → List SweepStep → LoopState σ → Prop
  | none {state : LoopState σ} : Turns image base stop state [] state
  | more {state next last : LoopState σ} {step : SweepStep} {steps : List SweepStep}
      (hturn : state.turn image base stop = .step step next)
      (rest : Turns image base stop next steps last) :
      Turns image base stop state (step :: steps) last

variable {image : List UInt8} {base : Address} {stop : Nat}

/-! ## One turn -/

/-- Before the end of the range, the bytes up to the end of the window are a range of the image. -/
theorem slice?_windowEnd (hstop : stop ≤ image.length) {position : Nat} (hlt : position < stop) :
    slice? image position (Session.windowEnd image stop) = some (shownAt image stop position) := by
  have hend := stop_le_windowEnd hstop
  exact if_pos ⟨by omega, windowEnd_le image stop⟩

namespace LoopState

theorem turn_of_le {state : LoopState σ} (hle : stop ≤ state.position) :
    state.turn image base stop = .done :=
  if_neg (Nat.not_lt.2 hle)

section

variable {position : Nat} {session next : Session σ} (hstop : stop ≤ image.length)
  (hlt : position < stop)

include hstop hlt

theorem turn_of_ok {insn : Instruction}
    (hdec : session.decode (shownAt image stop position) (base + UInt64.ofNat position) =
      (.ok insn, next)) :
    (LoopState.mk position session).turn image base stop =
      .step (.decoded position insn) ⟨position + insn.size.toNat, next⟩ := by
  rw [turn, if_pos hlt, slice?_windowEnd hstop hlt]
  simp only [hdec]

theorem turn_of_error {failure : DecodeFailure}
    (hdec : session.decode (shownAt image stop position) (base + UInt64.ofNat position) =
      (.error failure, next)) :
    (LoopState.mk position session).turn image base stop =
      .step (.skipped position) ⟨position + 1, next⟩ := by
  rw [turn, if_pos hlt, slice?_windowEnd hstop hlt]
  simp only [hdec]

end

/-- **What the loop can do.**  Behind the range it has ended.  Before that it always makes a turn,
which tries the position and goes forward by the size of its step: at least one byte, and not out of
the window. -/
theorem turn_cases (base : Address) (hstop : stop ≤ image.length) (state : LoopState σ) :
    (stop ≤ state.position ∧ state.turn image base stop = .done) ∨
    ∃ step next, state.turn image base stop = .step step next ∧ state.position < stop ∧
      step.offset = state.position ∧ 1 ≤ step.size ∧
      next.position = state.position + step.size ∧
      next.position ≤ Session.windowEnd image stop := by
  obtain ⟨position, session⟩ := state
  by_cases hlt : position < stop
  · have hend := stop_le_windowEnd hstop
    refine .inr ?_
    rcases hdec : session.decode (shownAt image stop position)
      (base + UInt64.ofNat position) with ⟨result, next⟩
    cases result with
    | ok insn =>
        -- the session has checked the size against the bytes that were shown
        have hsize := Session.size_le_of_decode hdec
        rw [length_shownAt] at hsize
        refine ⟨_, _, turn_of_ok hstop hlt hdec, hlt, rfl, Session.size_pos_of_decode hdec, rfl, ?_⟩
        change position + insn.size.toNat ≤ _
        omega
    | error failure =>
        refine ⟨_, _, turn_of_error hstop hlt hdec, hlt, rfl, Nat.le_refl 1, rfl, ?_⟩
        change position + 1 ≤ _
        omega
  · have hle := Nat.le_of_not_lt hlt
    exact .inl ⟨hle, turn_of_le hle⟩

theorem turn_ne_outOfRange (hstop : stop ≤ image.length) (state : LoopState σ) :
    state.turn image base stop ≠ .outOfRange := by
  intro hturn
  rcases turn_cases base hstop state with ⟨-, h⟩ | ⟨_, _, h, -⟩
  all_goals
    rw [hturn] at h
    cases h

theorem turn_eq_step (hstop : stop ≤ image.length) {state next : LoopState σ} {step : SweepStep}
    (h : state.turn image base stop = .step step next) :
    state.position < stop ∧ step.offset = state.position ∧ 1 ≤ step.size ∧
      next.position = state.position + step.size ∧
      next.position ≤ Session.windowEnd image stop := by
  rcases turn_cases base hstop state with ⟨-, hdone⟩ | ⟨_, _, hturn, hbounds⟩
  · rw [hdone] at h
    cases h
  · rw [hturn] at h
    cases h
    exact hbounds

end LoopState

/-! ## All turns -/

namespace Turns

variable {state last : LoopState σ} {steps : List SweepStep}

/-- There are no more turns than bytes left in the range. -/
theorem length_le (h : Turns image base stop state steps last) (hstop : stop ≤ image.length) :
    steps.length ≤ stop - state.position := by
  induction h with
  | none => exact Nat.zero_le _
  | more hturn _ ih =>
      obtain ⟨hlt, -, hpos, hnext, -⟩ := LoopState.turn_eq_step hstop hturn
      rw [List.length_cons]
      omega

/-- Every turn goes forward. -/
theorem add_length_le (h : Turns image base stop state steps last) (hstop : stop ≤ image.length) :
    state.position + steps.length ≤ last.position := by
  induction h with
  | none => exact Nat.le_refl _
  | more hturn _ ih =>
      obtain ⟨-, -, hpos, hnext, -⟩ := LoopState.turn_eq_step hstop hturn
      rw [List.length_cons]
      omega

/-- No turn leaves the window. -/
theorem position_le (h : Turns image base stop state steps last) (hstop : stop ≤ image.length)
    (hstate : state.position ≤ Session.windowEnd image stop) :
    last.position ≤ Session.windowEnd image stop := by
  induction h with
  | none => exact hstate
  | more hturn _ ih => exact ih (LoopState.turn_eq_step hstop hturn).2.2.2.2

end Turns

/-- A run of the loop is made in turns. -/
theorem SweepRun.turns {offset final : Nat} {session last : Session σ} {steps : List SweepStep}
    (h : SweepRun image base stop offset session steps final last) (hstop : stop ≤ image.length) :
    Turns image base stop ⟨offset, session⟩ steps ⟨final, last⟩ := by
  induction h with
  | done => exact .none
  | decoded hlt hdec _ ih => exact .more (LoopState.turn_of_ok hstop hlt hdec) ih
  | skipped hlt hdec _ ih => exact .more (LoopState.turn_of_error hstop hlt hdec) ih

/-! ## The sweep of a range -/

/-- **The sweep of a range ends, and stays in the image**, whatever its decoder answers at each
call.

* However far the loop has come, it has made no more turns than it went forward, and no more than
  the range has bytes; it is not out of the window; the bytes to show are a range of the image; and
  before the end of the range there are some, and the turn that shows them goes forward.
* It does come to an end, at the end of the range or behind it, but not out of the window, and with
  the steps of the sweep.
* The decoder is called at increasing offsets of the range, no more often than the range has bytes,
  and each time it is shown the bytes from the offset to the end of the window. -/
theorem Session.sweepRange_terminates (session : Session σ) (image : List UInt8) (base : Address)
    (start stop : Nat) (hstart : start ≤ stop) (hstop : stop ≤ image.length) :
    let bound := windowEnd image stop
    let swept := session.sweepRange image base start stop
    (∀ steps state, Turns image base stop ⟨start, session⟩ steps state →
      start + steps.length ≤ state.position ∧ steps.length ≤ stop - start ∧
      state.position ≤ bound ∧ state.turn image base stop ≠ .outOfRange ∧
      (state.position < stop → ∃ shown step next,
        slice? image state.position bound = some shown ∧ shown ≠ [] ∧
        state.turn image base stop = .step step next ∧ state.position < next.position)) ∧
    (∃ final, Turns image base stop ⟨start, session⟩ swept.1 ⟨final, swept.2⟩ ∧
      (LoopState.mk final swept.2).turn image base stop = .done ∧
      stop ≤ final ∧ final ≤ bound) ∧
    ∃ tried : List Nat, tried.length ≤ stop - start ∧ tried.Pairwise (· < ·) ∧
      (∀ offset ∈ tried, start ≤ offset ∧ offset < stop ∧ offset < bound ∧
        bound ≤ image.length) ∧
      ((session.recorded []).sweepRange image base start stop).1 = swept.1 ∧
      ((session.recorded []).sweepRange image base start stop).2.state.2.reverse.map some =
        tried.map fun offset => slice? image offset bound := by
  intro bound swept
  have hbound : stop ≤ bound := stop_le_windowEnd hstop
  obtain ⟨final, hrun⟩ := session.sweepRange_run image base start stop
  have hturns := hrun.turns hstop
  refine ⟨?_, ⟨final, hturns, ?_⟩, ?_⟩
  · intro steps state hreached
    refine ⟨hreached.add_length_le hstop, hreached.length_le hstop,
      hreached.position_le hstop (Nat.le_trans hstart hbound),
      LoopState.turn_ne_outOfRange hstop state, fun hlt => ?_⟩
    rcases LoopState.turn_cases base hstop state with
      ⟨hle, -⟩ | ⟨step, next, hturn, -, -, hpos, hnext, -⟩
    · omega
    · exact ⟨_, step, next, slice?_windowEnd hstop hlt, shownAt_ne_nil hstop hlt, hturn, by omega⟩
  · have hend := hrun.stop_le_final
    exact ⟨LoopState.turn_of_le hend, hend, hrun.final_le hstop (Nat.le_trans hstart hbound)⟩
  · -- the recording decoder takes the same steps, and the calls are read off them
    obtain ⟨final', hrecorded⟩ := (session.recorded []).sweepRange_run image base start stop
    obtain ⟨hsteps, -, hlast⟩ := hrecorded.deterministic (hrun.recorded hstop [])
    have hlt := hrun.offset_lt_of_mem
    refine ⟨swept.1.map SweepStep.offset, ?_, hrun.tiles.pairwise_offset, ?_, hsteps, ?_⟩
    · rw [List.length_map]
      exact hturns.length_le hstop
    · intro offset hmem
      obtain ⟨step, hstep, rfl⟩ := List.mem_map.1 hmem
      have hlt := hlt step hstep
      exact ⟨(hrun.tiles.bounds_of_mem step hstep).1, hlt, by omega, windowEnd_le image stop⟩
    · rw [hlast, recorded, List.append_nil, List.reverse_reverse, List.map_map, List.map_map]
      refine List.map_congr_left fun step hstep => ?_
      exact (slice?_windowEnd hstop (hlt step hstep)).symm

/-- A range of five bytes, and a decoder that answers with no bytes, with too many, with nothing,
with one byte and with nine: each byte of the range costs a call, and the last instruction runs out
of the range. -/
theorem Session.sweepRange_terminates_scripted :
    let session := scripted [some 0, some 200, none, some 1, some 9]
    let image : List UInt8 := List.replicate 20 0x90
    let swept := session.sweepRange image 0 3 8
    3 ≤ 8 ∧ 8 ≤ image.length ∧ windowEnd image 8 = 20 ∧
      swept.1.map SweepStep.offset = [3, 4, 5, 6, 7] ∧
      swept.1.map SweepStep.size = [1, 1, 1, 1, 9] ∧
      (∀ steps state, Turns image 0 8 ⟨3, session⟩ steps state →
        steps.length ≤ 5 ∧ state.position ≤ 20) ∧
      (∃ final, Turns image 0 8 ⟨3, session⟩ swept.1 ⟨final, swept.2⟩ ∧ 8 ≤ final ∧ final ≤ 20) ∧
      ((session.recorded []).sweepRange image 0 3 8).2.state.2.length ≤ 5 := by
  intro session image swept
  have hstop : 8 ≤ image.length := by decide
  obtain ⟨hreached, ⟨final, hturns, -, hlow, hhigh⟩, tried, hcount, -, -, -, hcalls⟩ :=
    session.sweepRange_terminates image 0 3 8 (by decide) hstop
  refine ⟨by decide, hstop, by decide, by decide, by decide, ?_, ⟨final, hturns, hlow, hhigh⟩, ?_⟩
  · intro steps state hsteps
    obtain ⟨-, hlength, hposition, -⟩ := hreached steps state hsteps
    exact ⟨hlength, hposition⟩
  · have hlength := congrArg List.length hcalls
    rw [List.length_map, List.length_map, List.length_reverse] at hlength
    exact hlength ▸ hcount

end X86Listing
