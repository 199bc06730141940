import X86Listing.Proofs.Sweep.Resumption
import X86Listing.Proofs.Sweep.Translation

/-!
# Sweeps that start again

What is left of a linear sweep at an offset that it tried is the linear sweep of what is left of the
image, placed where it stands: `linearSweep_resumes`.  This takes a decoder that answers by the
bytes alone, but it may be in any state when the second sweep starts.  So a large image may be swept
in parts, if each part starts where the one before it ended; and two sweeps that start at different
offsets and meet go on alike.

* `SweepRun.advance` — a sweep of the back of an image is a sweep of the image.
* `SweepRun.steps_eq` — runs from the same offset take the same steps, whatever the states.
* `stepsFrom_resume` — the steps of a sweep from an offset that it visits.
-/

namespace X86Listing

/-! ## Steps seen from further back -/

/-- The step as it is seen from `count` bytes further back. -/
def SweepStep.advance (count : Nat) : SweepStep → SweepStep
  | decoded offset insn => decoded (count + offset) insn
  | skipped offset => skipped (count + offset)

namespace SweepStep

theorem instruction?_advance (count : Nat) (step : SweepStep) :
    (step.advance count).instruction? = step.instruction? := by
  cases step <;> rfl

theorem isSkip_advance (count : Nat) (step : SweepStep) :
    (step.advance count).isSkip = step.isSkip := by
  cases step <;> rfl

end SweepStep

/-- The outcome does not say where the image started. -/
theorem ofSteps_map_advance (count : Nat) (steps : List SweepStep) :
    Sweep.ofSteps (steps.map (SweepStep.advance count)) = Sweep.ofSteps steps := by
  simp only [Sweep.ofSteps, List.filterMap_map, List.countP_map, Function.comp_def,
    SweepStep.instruction?_advance, SweepStep.isSkip_advance]

/-! ## Runs -/

namespace SweepRun

variable {σ τ : Type} {image : List UInt8} {base : Address} {stop offset final final' : Nat}
  {session last : Session σ} {other last' : Session τ} {steps steps' : List SweepStep}

/-- **A sweep of the back of an image is a sweep of the image**, from where the back starts. -/
theorem advance {start : Nat}
    (h : SweepRun (image.drop start) (base + UInt64.ofNat start) (image.drop start).length offset
      session steps final last) :
    SweepRun image base image.length (start + offset) session
      (steps.map (SweepStep.advance start)) (start + final) last := by
  have hshown : ∀ offset, shownAt (image.drop start) (image.drop start).length offset =
      shownAt image image.length (start + offset) := by
    intro offset
    rw [shownAt_length, shownAt_length, List.drop_drop]
  have haddress : ∀ offset, base + UInt64.ofNat start + UInt64.ofNat offset =
      base + UInt64.ofNat (start + offset) := by
    intro offset
    rw [UInt64.ofNat_add, UInt64.add_assoc]
  induction h with
  | done hstop =>
      rw [List.length_drop] at hstop
      exact .done (by omega)
  | decoded hlt hdec _ ih =>
      rw [List.length_drop] at hlt
      rw [hshown, haddress] at hdec
      rw [← Nat.add_assoc] at ih
      exact .decoded (by omega) hdec ih
  | skipped hlt hdec _ ih =>
      rw [List.length_drop] at hlt
      rw [hshown, haddress] at hdec
      rw [← Nat.add_assoc] at ih
      exact .skipped (by omega) hdec ih

/-- **Runs from the same offset take the same steps** if their decoders give the same answers. -/
theorem steps_eq {answer : List UInt8 → Option RawInstruction}
    (h : SweepRun image base stop offset session steps final last)
    (h' : SweepRun image base stop offset other steps' final' last')
    (hanswer : session.decoder.AnswersWith answer) (hanswer' : other.decoder.AnswersWith answer) :
    steps = steps' := by
  obtain ⟨raws, hruns, -⟩ := h.exists_rawSteps hanswer
  obtain ⟨_, hself⟩ := hruns σ session base hanswer
  obtain ⟨_, hother⟩ := hruns τ other base hanswer'
  rw [(h.deterministic hself).1, (h'.deterministic hother).1]

end SweepRun

/-! ## Sweeps that start at an offset -/

namespace Session

variable {σ : Type}

/-- The steps of the linear sweep of what is left of the image at `start`, at their offsets in the
image. -/
def stepsFrom (session : Session σ) (image : List UInt8) (base : Address) (start : Nat) :
    List SweepStep :=
  (session.linearSteps (image.drop start) (base + UInt64.ofNat start)).1.map
    (SweepStep.advance start)

/-- The linear sweep of what is left of the image at `start` comes to the offset: it tries it, or it
ends there. -/
def Visits (session : Session σ) (image : List UInt8) (base : Address) (start position : Nat) :
    Prop :=
  position ∈ triedOffsets (session.stepsFrom image base start) ∨ position = image.length

/-- These steps are a run over the image. -/
theorem stepsFrom_run (session : Session σ) (image : List UInt8) (base : Address) (start : Nat) :
    ∃ final last, SweepRun image base image.length start session
      (session.stepsFrom image base start) final last :=
  ⟨_, _, (session.linearSteps_run (image.drop start) (base + UInt64.ofNat start)).advance⟩

theorem stepsFrom_zero (session : Session σ) (image : List UInt8) (base : Address) :
    session.stepsFrom image base 0 = (session.linearSteps image base).1 := by
  obtain ⟨final, last, hrun⟩ := session.stepsFrom_run image base 0
  exact (hrun.deterministic (session.linearSteps_run image base)).1

theorem ofSteps_stepsFrom (session : Session σ) (image : List UInt8) (base : Address)
    (start : Nat) : Sweep.ofSteps (session.stepsFrom image base start) =
      session.linearSweep (image.drop start) (base + UInt64.ofNat start) :=
  ofSteps_map_advance start _

theorem located_stepsFrom (session : Session σ) {image : List UInt8} (base : Address)
    (hsize : image.length ≤ UInt64.size) (start : Nat) :
    Located base (session.stepsFrom image base start) := by
  obtain ⟨final, last, hrun⟩ := session.stepsFrom_run image base start
  exact fun _ _ hmem => hrun.imageOffset_of_mem hsize hmem

/-- The sweep from an offset tries offsets from there on, up to the end of the image. -/
theorem bounds_of_mem_stepsFrom (session : Session σ) (image : List UInt8) (base : Address)
    (start : Nat) : ∀ step ∈ session.stepsFrom image base start,
      start ≤ step.offset ∧ step.offset < image.length := by
  obtain ⟨final, last, hrun⟩ := session.stepsFrom_run image base start
  intro step hmem
  exact ⟨(hrun.tiles.bounds_of_mem step hmem).1, hrun.offset_lt_of_mem step hmem⟩

end Session

section

variable {σ : Type} {decoder : ByteDecoder σ} {answer : List UInt8 → Option RawInstruction}
  {image : List UInt8} {base : Address}

/-- **From an offset that it visits, a sweep does what the sweep from there does**, in whatever
state the other one starts. -/
theorem stepsFrom_resume (hanswer : decoder.AnswersWith answer) {state : σ} {start position : Nat}
    (hvisit : (⟨decoder, state⟩ : Session σ).Visits image base start position) (state' : σ) :
    ∃ before, (∀ step ∈ before, step.offset < position) ∧
      (⟨decoder, state⟩ : Session σ).stepsFrom image base start =
        before ++ (⟨decoder, state'⟩ : Session σ).stepsFrom image base position := by
  obtain ⟨_, _, hrun⟩ := (⟨decoder, state⟩ : Session σ).stepsFrom_run image base start
  obtain ⟨_, _, hrest⟩ := (⟨decoder, state'⟩ : Session σ).stepsFrom_run image base position
  rcases hvisit with htried | rfl
  · obtain ⟨before, after, middle, hsteps, hbefore, hmiddle, hafter⟩ := hrun.resume htried
    have hanswer' : middle.decoder.AnswersWith answer := by rwa [hmiddle]
    exact ⟨before, hbefore, by rw [hsteps, hafter.steps_eq hrest hanswer' hanswer]⟩
  · -- nothing is left at the end of the image
    obtain ⟨hnil, -, -⟩ := hrest.deterministic (.done (Nat.le_refl _))
    exact ⟨_, hrun.offset_lt_of_mem, by rw [hnil, List.append_nil]⟩

/-- What a sweep does before an offset that it visits, and from there on. -/
theorem stepsIn_stepsFrom (hanswer : decoder.AnswersWith answer) {state : σ} {start position : Nat}
    (hvisit : (⟨decoder, state⟩ : Session σ).Visits image base start position) (state' : σ) :
    let steps := (⟨decoder, state⟩ : Session σ).stepsFrom image base start
    let rest := (⟨decoder, state'⟩ : Session σ).stepsFrom image base position
    steps = stepsIn 0 position steps ++ rest ∧ stepsIn position image.length steps = rest := by
  intro steps rest
  obtain ⟨before, hbefore, hsteps⟩ := stepsFrom_resume hanswer hvisit state'
  have hrest := (⟨decoder, state'⟩ : Session σ).bounds_of_mem_stepsFrom image base position
  have hfront : stepsIn 0 position steps = before := by
    rw [show steps = before ++ rest from hsteps, stepsIn_append,
      stepsIn_eq_nil fun step hmem => .inr (hrest step hmem).1, List.append_nil, stepsIn,
      List.filter_eq_self]
    intro step hmem
    exact decide_eq_true ⟨Nat.zero_le _, hbefore step hmem⟩
  have hback : stepsIn position image.length steps = rest := by
    rw [show steps = before ++ rest from hsteps, stepsIn_append,
      stepsIn_eq_nil fun step hmem => .inl (hbefore step hmem), List.nil_append, stepsIn,
      List.filter_eq_self]
    intro step hmem
    exact decide_eq_true (hrest step hmem)
  exact ⟨by rw [hfront]; exact hsteps, hback⟩

end

/-! ## The linear sweep -/

theorem Sweep.ofSteps_append (first rest : List SweepStep) :
    ofSteps (first ++ rest) = ⟨(ofSteps first).instructions ++ (ofSteps rest).instructions,
      (ofSteps first).skipped + (ofSteps rest).skipped⟩ := by
  simp only [ofSteps, List.filterMap_append, List.countP_append]

/-- **A linear sweep can be resumed at any offset that it visited**, with a decoder that answers by
the bytes alone, in whatever state.  Its instructions are those that start before the offset, and
then those of the sweep of the rest of the image, placed where it stands; and the skipped bytes add
up likewise.  So two sweeps that start at different offsets and visit one offset find the same
instructions from there on, and skip the same offsets.  An image is no longer than its offsets,
which are words, can count. -/
theorem linearSweep_resumes {σ : Type} (decoder : ByteDecoder σ)
    (answer : List UInt8 → Option RawInstruction) (hanswer : decoder.AnswersWith answer)
    (image : List UInt8) (base : Address) (hsize : image.length ≤ UInt64.size) :
    (∀ (state state' : σ) (position : Nat),
      let session : Session σ := ⟨decoder, state⟩
      let steps := (session.linearSteps image base).1
      let sweep := session.linearSweep image base
      let rest := (⟨decoder, state'⟩ : Session σ).linearSweep (image.drop position)
        (base + UInt64.ofNat position)
      position ∈ triedOffsets steps ∨ position = image.length →
        sweep.instructions = sweep.startingIn base 0 position ++ rest.instructions ∧
        sweep.skipped = ((skippedOffsets steps).filter (· < position)).length + rest.skipped) ∧
    ∀ (state state' : σ) (start start' position : Nat),
      let session : Session σ := ⟨decoder, state⟩
      let session' : Session σ := ⟨decoder, state'⟩
      session.Visits image base start position → session'.Visits image base start' position →
        (session.linearSweep (image.drop start) (base + UInt64.ofNat start)).startingIn base
            position image.length =
          (session'.linearSweep (image.drop start') (base + UInt64.ofNat start')).startingIn base
            position image.length ∧
        (skippedOffsets (session.stepsFrom image base start)).filter
            (fun offset => position ≤ offset ∧ offset < image.length) =
          (skippedOffsets (session'.stepsFrom image base start')).filter
            (fun offset => position ≤ offset ∧ offset < image.length) := by
  constructor
  · intro state state' position session steps sweep rest hvisit
    rw [show steps = session.stepsFrom image base 0 from (session.stepsFrom_zero image base).symm]
      at hvisit ⊢
    have hlocated := session.located_stepsFrom base hsize 0
    obtain ⟨hsplit, -⟩ := stepsIn_stepsFrom hanswer hvisit state'
    have hsweep : sweep = .ofSteps (session.stepsFrom image base 0) := by
      rw [session.stepsFrom_zero]
      rfl
    have hoffsets : (skippedOffsets (session.stepsFrom image base 0)).filter (· < position) =
        skippedOffsets (stepsIn 0 position (session.stepsFrom image base 0)) := by
      rw [← filter_skippedOffsets]
      simp only [Nat.zero_le, true_and]
    have hrest : rest = .ofSteps ((⟨decoder, state'⟩ : Session σ).stepsFrom image base position) :=
      (Session.ofSteps_stepsFrom _ image base position).symm
    rw [hoffsets, length_skippedOffsets, hsweep, hrest, startingIn_ofSteps hlocated]
    constructor
    · conv_lhs => rw [hsplit, Sweep.ofSteps_append]
    · conv_lhs => rw [hsplit, Sweep.ofSteps_append]
  · intro state state' start start' position session session' hvisit hvisit'
    obtain ⟨-, hback⟩ := stepsIn_stepsFrom hanswer hvisit state
    obtain ⟨-, hback'⟩ := stepsIn_stepsFrom hanswer hvisit' state
    have hsteps := hback.trans hback'.symm
    rw [← session.ofSteps_stepsFrom, ← session'.ofSteps_stepsFrom,
      startingIn_ofSteps (session.located_stepsFrom base hsize start),
      startingIn_ofSteps (session'.located_stepsFrom base hsize start'), filter_skippedOffsets,
      filter_skippedOffsets, hsteps]
    exact ⟨rfl, rfl⟩

/-- A move, a `nop` and a byte that is no instruction, at a base from which the second byte of the
move is the last one of the address space, with a decoder that also keeps a record of its calls.
The sweep from the first byte and the one from inside the move meet at offset 5. -/
theorem linearSweep_resumes_behind_move :
    let decoder := (ByteDecoder.ofEngine .long64 Engine.nopMove).recording
    let image : List UInt8 := [0xb8, 0x90, 0x90, 0x06, 0x06, 0x90, 0x0f]
    let base : Address := 0xfffffffffffffffe
    let session : Session (Unit × List (List UInt8)) := ⟨decoder, (), []⟩
    let session' : Session (Unit × List (List UInt8)) := ⟨decoder, (), [image]⟩
    decoder.AnswersWith (ByteDecoder.askEngine .long64 Engine.nopMove) ∧
      image.length ≤ UInt64.size ∧
      triedOffsets (session.linearSteps image base).1 = [0, 5, 6] ∧
      triedOffsets (session'.stepsFrom image base 1) = [1, 2, 3, 4, 5, 6] ∧
      (session.linearSweep image base).instructions =
        (session.linearSweep image base).startingIn base 0 5 ++
          (session'.linearSweep (image.drop 5) (base + UInt64.ofNat 5)).instructions ∧
      (session.linearSweep (image.drop 0) (base + UInt64.ofNat 0)).startingIn base 5 7 =
        (session'.linearSweep (image.drop 1) (base + UInt64.ofNat 1)).startingIn base 5 7 := by
  intro decoder image base session session'
  have hanswer : decoder.AnswersWith (ByteDecoder.askEngine .long64 Engine.nopMove) :=
    fun _ _ => rfl
  have hsize : image.length ≤ UInt64.size := by decide
  have htried : triedOffsets (session.linearSteps image base).1 = [0, 5, 6] := by decide
  have hinside : triedOffsets (session'.stepsFrom image base 1) = [1, 2, 3, 4, 5, 6] := by decide
  obtain ⟨hresume, hmeet⟩ := linearSweep_resumes decoder _ hanswer image base hsize
  refine ⟨hanswer, hsize, htried, hinside, ?_, ?_⟩
  · exact (hresume ((), []) ((), [image]) 5 (.inl (by rw [htried]; decide))).1
  · refine (hmeet ((), []) ((), [image]) 0 1 5 (.inl ?_) (.inl ?_)).1
    · rw [Session.stepsFrom_zero, htried]
      decide
    · rw [hinside]
      decide

end X86Listing
