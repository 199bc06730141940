import X86Listing.Proofs.Sweep.Merged

/-!
# Where sweeps meet again

A sweep keeps no memory of how it came to an offset: from there on it does what every sweep does
that starts there (`SweepRun.resume`).  So two sweeps with different histories that try the same
offset agree from there, up to the nearer of their ends (`SweepRun.stepsIn_eq`).

For the sweep in chunks this means that what it finds differently from the linear sweep is confined
to the front of a chunk: once both try the same offset of the chunk, they agree up to its end
(`parallelSweep_rejoins`).
-/

namespace X86Listing

/-- A session without state is its decoder. -/
theorem Session.eq_of_decoder_eq {session other : Session Unit}
    (h : other.decoder = session.decoder) : other = session := by
  cases session
  cases other
  cases h
  rfl

namespace SweepRun

/-! ## One run -/

section

variable {σ : Type} {image : List UInt8} {base : Address} {stop offset final : Nat}
  {session last : Session σ} {steps : List SweepStep}

theorem le_of_mem_tried (h : SweepRun image base stop offset session steps final last)
    {position : Nat} (hmem : position ∈ triedOffsets steps) : offset ≤ position := by
  obtain ⟨step, hstep, rfl⟩ := List.mem_map.1 hmem
  exact (h.tiles.bounds_of_mem step hstep).1

/-- **A run can be resumed** at every offset that it tried: the steps from there on are a run of the
same decoder, in the state in which it got there. -/
theorem resume (h : SweepRun image base stop offset session steps final last) {position : Nat}
    (hmem : position ∈ triedOffsets steps) :
    ∃ before after middle, steps = before ++ after ∧ (∀ step ∈ before, step.offset < position) ∧
      middle.decoder = session.decoder ∧
      SweepRun image base stop position middle after final last := by
  induction h with
  | done => exact absurd hmem List.not_mem_nil
  | @decoded found _ _ _ _ insn _ hlt hdec hrest ih =>
      rcases List.mem_cons.1 hmem with rfl | hmem
      · exact ⟨[], _, _, rfl, List.forall_mem_nil _, rfl, .decoded hlt hdec hrest⟩
      · have hpos := Session.size_pos_of_decode hdec
        have hle := hrest.le_of_mem_tried hmem
        obtain ⟨before, after, middle, rfl, hbefore, hmiddle, hafter⟩ := ih hmem
        refine ⟨.decoded found insn :: before, after, middle, rfl, ?_,
          hmiddle.trans (Session.decoder_of_decode hdec), hafter⟩
        refine List.forall_mem_cons.2 ⟨?_, hbefore⟩
        rw [SweepStep.offset]
        omega
  | @skipped found _ _ _ _ _ _ hlt hdec hrest ih =>
      rcases List.mem_cons.1 hmem with rfl | hmem
      · exact ⟨[], _, _, rfl, List.forall_mem_nil _, rfl, .skipped hlt hdec hrest⟩
      · have hle := hrest.le_of_mem_tried hmem
        obtain ⟨before, after, middle, rfl, hbefore, hmiddle, hafter⟩ := ih hmem
        refine ⟨.skipped found :: before, after, middle, rfl, ?_,
          hmiddle.trans (Session.decoder_of_decode hdec), hafter⟩
        exact List.forall_mem_cons.2 ⟨hle, hbefore⟩

end

/-! ## Runs without state -/

variable {image : List UInt8} {base : Address} {stop offset final : Nat}
  {session last : Session Unit} {steps : List SweepStep}

/-- What starts in a range from an offset that was tried is what starts there in the resumed
run. -/
theorem stepsIn_resume (h : SweepRun image base stop offset session steps final last)
    {position : Nat} (hmem : position ∈ triedOffsets steps) :
    ∃ after, SweepRun image base stop position session after final last ∧
      ∀ high, stepsIn position high steps = stepsIn position high after := by
  obtain ⟨before, after, middle, rfl, hbefore, hmiddle, hafter⟩ := h.resume hmem
  rw [Session.eq_of_decoder_eq hmiddle] at hafter
  refine ⟨after, hafter, fun high => ?_⟩
  rw [stepsIn_append, stepsIn_eq_nil fun step hstep => .inl (hbefore step hstep), List.nil_append]

/-- **Runs that meet agree from there**, up to the nearer end: they do the same at the same
offsets. -/
theorem stepsIn_eq (h : SweepRun image base stop offset session steps final last)
    (hwindowed : session.Windowed) {stop' offset' final' : Nat} {steps' : List SweepStep}
    {last' : Session Unit}
    (h' : SweepRun image base stop' offset' session steps' final' last') (hstop : stop' ≤ stop)
    {position : Nat} (hmem : position ∈ triedOffsets steps)
    (hmem' : position ∈ triedOffsets steps') :
    stepsIn position stop' steps = stepsIn position stop' steps' := by
  obtain ⟨after, hafter, hsteps⟩ := h.stepsIn_resume hmem
  obtain ⟨after', hafter', hsteps'⟩ := h'.stepsIn_resume hmem'
  obtain ⟨first, rest, middle, rfl, hfirst, hrest⟩ := hafter.split hwindowed hstop
  obtain ⟨rfl, -, -⟩ := hfirst.deterministic hafter'
  have hbehind : ∀ step ∈ rest, step.offset < position ∨ stop' ≤ step.offset := by
    intro step hstep
    exact .inr (Nat.le_trans hfirst.stop_le_final (hrest.tiles.bounds_of_mem step hstep).1)
  rw [hsteps, hsteps', stepsIn_append, stepsIn_eq_nil hbehind, List.append_nil]

end SweepRun

/-! ## The linear sweep and a chunk -/

/-- **Divergence is confined inside a chunk.**  If the linear sweep and the sweep of a chunk try the
same offset, then from there up to the end of the chunk the sweep in chunks finds the same
instructions as the linear sweep, in the same order, and skips the same offsets.  The engine never
reports more bytes than the window it is shown; an image is no longer than its offsets, which are
words, can count. -/
theorem parallelSweep_rejoins (mode : MachineMode) (engine : Engine) (hengine : engine.Bounded)
    (image : List UInt8) (base : Address) (hsize : image.length ≤ UInt64.size)
    (index position : Nat)
    (hlinear : position ∈
      triedOffsets ((Session.ofEngine mode engine).linearSteps image base).1)
    (hchunk : position ∈
      triedOffsets (chunkSteps (Session.ofEngine mode engine) image base index)) :
    ∃ chunks sweep,
      allChunkSteps (fun _ => Session.create mode (.ok engine)) image base = .ok chunks ∧
      chunks[index]? = some (chunkSteps (Session.ofEngine mode engine) image base index) ∧
      parallelSweep (fun _ => Session.create mode (.ok engine)) image base = .ok sweep ∧
      sweep.startingIn base position (chunkStop image index) =
        ((Session.ofEngine mode engine).linearSweep image base).startingIn base position
          (chunkStop image index) ∧
      (skippedOffsets chunks.flatten).filter
          (fun offset => position ≤ offset ∧ offset < chunkStop image index) =
        (skippedOffsets ((Session.ofEngine mode engine).linearSteps image base).1).filter
          (fun offset => position ≤ offset ∧ offset < chunkStop image index) := by
  have hwindowed : (Session.ofEngine mode engine).Windowed := Session.windowed_ofEngine hengine
  obtain ⟨step, hstep, rfl⟩ := List.mem_map.1 hchunk
  obtain ⟨hlow, hhigh⟩ := chunkSteps_bounds (Session.ofEngine mode engine) image base index step
    hstep
  have hindex := lt_chunkCount_of_bounds image hlow hhigh
  have hrun := (Session.ofEngine mode engine).linearSteps_run image base
  obtain ⟨final, last, hchunkRun, -, -⟩ := chunkSteps_run (Session.ofEngine mode engine) image base
    hindex
  have hsteps := hrun.stepsIn_eq hwindowed hchunkRun (chunkStop_le image index) hlinear hchunk
  have hlocated := located_chunkedSteps (Session.ofEngine mode engine) image base hsize
  refine ⟨_, _, allChunkSteps_eq (Session.ofEngine mode engine) image base, ?_,
    parallelSweep_eq_ofSteps (Session.ofEngine mode engine) image base hsize, ?_, ?_⟩
  · rw [chunkedSteps, List.getElem?_map, List.getElem?_range hindex, Option.map_some]
  · rw [startingIn_ofSteps hlocated, Session.linearSweep,
      startingIn_ofSteps fun _ _ hmem => hrun.imageOffset_of_mem hsize hmem, hsteps,
      stepsIn_chunkedSteps _ image base hindex hlow (Nat.le_refl _)]
  · rw [filter_skippedOffsets, filter_skippedOffsets, hsteps,
      stepsIn_chunkedSteps _ image base hindex hlow (Nat.le_refl _)]

/-- An image of moves of five bytes, the last of which runs over the first edge, and a `nop`.  The
second chunk starts inside that move, at offset 4096, where the linear sweep does not try.  From
offset 4100 on the sweeps agree. -/
theorem parallelSweep_rejoins_move :
    let session := Session.ofEngine .long64 Engine.nopMove
    let image : List UInt8 := (List.replicate 820 [0xb8, 0x90, 0x90, 0x06, 0x06]).flatten ++ [0x90]
    let base : Address := 0xfffffffffffff000
    Engine.nopMove.Bounded ∧ image.length ≤ UInt64.size ∧
      (triedOffsets (session.linearSteps image base).1).drop 819 = [4095, 4100] ∧
      triedOffsets (chunkSteps session image base 1) = [4096, 4097, 4098, 4099, 4100] ∧
      ∃ sweep, parallelSweep (fun _ => Session.create .long64 (.ok Engine.nopMove)) image base =
          .ok sweep ∧
        sweep.startingIn base 4100 (chunkStop image 1) =
          (session.linearSweep image base).startingIn base 4100 (chunkStop image 1) := by
  intro session image base
  have hsize : image.length ≤ UInt64.size := by decide +kernel
  have hlinear : (triedOffsets (session.linearSteps image base).1).drop 819 = [4095, 4100] := by
    decide +kernel
  have hchunk : triedOffsets (chunkSteps session image base 1) =
      [4096, 4097, 4098, 4099, 4100] := by
    decide +kernel
  have hmem : 4100 ∈ triedOffsets (session.linearSteps image base).1 :=
    List.mem_of_mem_drop (by rw [hlinear]; decide)
  obtain ⟨_, sweep, -, -, hsweep, hfound, -⟩ := parallelSweep_rejoins .long64 Engine.nopMove
    Engine.bounded_nopMove image base hsize 1 4100 hmem (by rw [hchunk]; decide)
  exact ⟨Engine.bounded_nopMove, hsize, hlinear, hchunk, sweep, hsweep, hfound⟩

end X86Listing
