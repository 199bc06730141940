import X86Listing.Proofs.Instruction.Placement
import X86Listing.Proofs.Sweep.Window
import X86Listing.Proofs.Sweep.Chunks

/-!
# Sweeps of an image that is placed elsewhere

A decoder is shown bytes and no address.  So what a sweep does can be said before the image is
placed anywhere, as a list of `RawStep`s, and placing the image at a base only places each raw
instruction at its address.  Two sweeps of one image at different bases come from the same raw
steps (`exists_rawSteps`), also where addresses wrap in one of them and not in the other.  The
sweep in chunks sorts by what is left of an address when the base is taken off, which is the
offset, so the order is the same too (`merge_placed`).

`sweep_translated` says what this means for the instructions: they differ by the distance of the
bases, in their addresses and in the operands that count from the end of the instruction.
-/

namespace X86Listing

/-! ## Steps before the image is placed -/

/-- What a sweep did at an offset of an image that is not placed yet. -/
inductive RawStep
  /-- The decoder's answer was accepted. -/
  | decoded (offset : Nat) (raw : RawInstruction)
  /-- Nothing decoded, and the byte was skipped. -/
  | skipped (offset : Nat)

/-- The instruction of a raw instruction at an offset, once the image is placed at `base`. -/
def placeAt (base : Address) (found : Nat × RawInstruction) : Instruction :=
  Instruction.ofRaw found.2 (base + UInt64.ofNat found.1)

namespace RawStep

/-- The step of a sweep of the image at `base`. -/
def place (base : Address) : RawStep → SweepStep
  | decoded offset raw => .decoded offset (placeAt base (offset, raw))
  | skipped offset => .skipped offset

/-- The raw instruction that was found, and its offset. -/
def found? : RawStep → Option (Nat × RawInstruction)
  | decoded offset raw => some (offset, raw)
  | skipped _ => none

theorem instruction?_place (base : Address) (step : RawStep) :
    (step.place base).instruction? = step.found?.map (placeAt base) := by
  cases step <;> rfl

theorem isSkip_place (base : Address) (step : RawStep) :
    (step.place base).isSkip = step.found?.isNone := by
  cases step <;> rfl

end RawStep

theorem RawStep.mem_of_mem_found {steps : List RawStep} {found : Nat × RawInstruction}
    (h : found ∈ steps.filterMap RawStep.found?) : .decoded found.1 found.2 ∈ steps := by
  obtain ⟨step, hmem, hstep⟩ := List.mem_filterMap.1 h
  cases step with
  | decoded offset raw =>
      cases hstep
      exact hmem
  | skipped offset => cases hstep

/-- What was found is placed, and the number of skipped bytes stays. -/
theorem ofSteps_map_place (base : Address) (steps : List RawStep) :
    Sweep.ofSteps (steps.map (RawStep.place base)) =
      ⟨(steps.filterMap RawStep.found?).map (placeAt base),
        steps.countP fun step => step.found?.isNone⟩ := by
  simp only [Sweep.ofSteps, List.filterMap_map, List.map_filterMap, List.countP_map,
    Function.comp_def, RawStep.instruction?_place, RawStep.isSkip_place]

/-! ## One sweep, placed anywhere -/

section

variable {σ : Type} {image : List UInt8} {base : Address} {stop offset final : Nat}
  {session last : Session σ} {steps : List SweepStep} {answer : List UInt8 → Option RawInstruction}

/-- Behind a run there are raw steps that make a run of any session with the same answers, at any
base. -/
theorem SweepRun.exists_rawSteps (h : SweepRun image base stop offset session steps final last)
    (hanswer : session.decoder.AnswersWith answer) :
    ∃ raws : List RawStep,
      (∀ (τ : Type) (other : Session τ) (base' : Address), other.decoder.AnswersWith answer →
        ∃ last', SweepRun image base' stop offset other (raws.map (RawStep.place base')) final
          last') ∧
      ∀ found raw, .decoded found raw ∈ raws →
        found < stop ∧ answer (shownAt image stop found) = some raw := by
  induction h with
  | done hstop =>
      refine ⟨[], fun _ other _ _ => ⟨other, .done hstop⟩, ?_⟩
      intro found raw hmem
      exact absurd hmem List.not_mem_nil
  | @decoded position _ session next _ insn _ hlt hdec _ ih =>
      obtain ⟨raw, hraw, hplaced⟩ := Session.exists_answer_of_decode hanswer hdec
      have hinsn : insn = placeAt base (position, raw) := by
        have hself := hplaced σ session (base + UInt64.ofNat position) hanswer
        rw [hdec] at hself
        exact Except.ok.inj hself
      obtain ⟨raws, hruns, hfound⟩ := ih (Session.answersWith_of_decode hanswer hdec)
      refine ⟨.decoded position raw :: raws, fun τ other base' hother => ?_, ?_⟩
      · rcases hcall : other.decode (shownAt image stop position)
          (base' + UInt64.ofNat position) with ⟨result, next'⟩
        have hresult := hplaced τ other (base' + UInt64.ofNat position) hother
        rw [hcall] at hresult
        change result = .ok (placeAt base' (position, raw)) at hresult
        subst hresult
        obtain ⟨last', hrun⟩ := hruns τ next' base' (Session.answersWith_of_decode hother hcall)
        rw [hinsn] at hrun
        exact ⟨last', .decoded hlt hcall hrun⟩
      · intro found raw' hmem
        rcases List.mem_cons.1 hmem with heq | hmem
        · cases heq
          exact ⟨hlt, hraw⟩
        · exact hfound found raw' hmem
  | @skipped position _ session next _ failure _ hlt hdec _ ih =>
      obtain ⟨raws, hruns, hfound⟩ := ih (Session.answersWith_of_decode hanswer hdec)
      refine ⟨.skipped position :: raws, fun τ other base' hother => ?_, ?_⟩
      · rcases hcall : other.decode (shownAt image stop position)
          (base' + UInt64.ofNat position) with ⟨result, next'⟩
        have hresult := Session.decode_error_of_decode hanswer hdec other
          (base' + UInt64.ofNat position) hother
        rw [hcall] at hresult
        change result = .error _ at hresult
        subst hresult
        obtain ⟨last', hrun⟩ := hruns τ next' base' (Session.answersWith_of_decode hother hcall)
        exact ⟨last', .skipped hlt hcall hrun⟩
      · intro found raw hmem
        rcases List.mem_cons.1 hmem with heq | hmem
        · cases heq
        · exact hfound found raw hmem

end

/-- **What a sweep of a range does can be said before the image is placed**: the same raw steps,
placed at the base, are the steps of every session with the same answers at every base. -/
theorem exists_rawSteps (answer : List UInt8 → Option RawInstruction) (image : List UInt8)
    (start stop : Nat) :
    ∃ raws : List RawStep,
      (∀ (σ : Type) (session : Session σ) (base : Address), session.decoder.AnswersWith answer →
        (session.sweepRange image base start stop).1 = raws.map (RawStep.place base)) ∧
      ∀ found raw, .decoded found raw ∈ raws →
        found < stop ∧ answer (shownAt image stop found) = some raw := by
  have hself : (ByteDecoder.ofFunction .long64 answer).AnswersWith answer := fun _ _ => rfl
  obtain ⟨final, hrun⟩ :=
    (Session.ofDecoder (.ofFunction .long64 answer)).sweepRange_run image 0 start stop
  obtain ⟨raws, hruns, hfound⟩ := hrun.exists_rawSteps hself
  refine ⟨raws, fun σ session base hanswer => ?_, hfound⟩
  obtain ⟨last, hplaced⟩ := hruns σ session base hanswer
  obtain ⟨_, hsweep⟩ := session.sweepRange_run image base start stop
  exact (hsweep.deterministic hplaced).1

/-- An engine's answer at an offset that a sweep tries does not depend on where the sweep stops. -/
theorem ByteDecoder.askEngine_shownAt {mode : MachineMode} {engine : Engine} {image : List UInt8}
    {stop offset : Nat} (hlt : offset < stop) :
    askEngine mode engine (shownAt image stop offset) =
      askEngine mode engine (image.drop offset) := by
  rw [askEngine, take_shownAt hlt, askEngine]

/-! ## Sorting -/

theorem offsetFrom_placeAt (base : Address) (found : Nat × RawInstruction) :
    (placeAt base found).offsetFrom base = UInt64.ofNat found.1 := by
  change base + UInt64.ofNat found.1 - base = UInt64.ofNat found.1
  rw [UInt64.add_comm, UInt64.add_sub_cancel]

/-- Chunks are put together in an order that does not depend on where the image is placed. -/
theorem merge_placed (base : Address) (chunks : List (List RawStep)) :
    Sweep.merge base ((chunks.map (List.map (RawStep.place base))).map Sweep.ofSteps) =
      ⟨((chunks.flatten.filterMap RawStep.found?).mergeSort
          fun a b => UInt64.ofNat a.1 ≤ UInt64.ofNat b.1).map (placeAt base),
        chunks.flatten.countP fun step => step.found?.isNone⟩ := by
  rw [Sweep.merge_map_ofSteps, ← List.map_flatten, ofSteps_map_place]
  congr 1
  refine (List.map_mergeSort ?_).symm
  intro a _ b _
  rw [offsetFrom_placeAt, offsetFrom_placeAt]

/-! ## Two places -/

/-- The sweep `moved` of the image at `base'` is the sweep `sweep` of it at `base`, translated: it
skips as many bytes, and each of its instructions is the one of the other sweep, shifted by the
distance of the bases.  The raw instruction of both is the decoder's answer at their offset. -/
structure Sweep.Translated (answer : List UInt8 → Option RawInstruction) (image : List UInt8)
    (base base' : Address) (sweep moved : Sweep) : Prop where
  skipped : moved.skipped = sweep.skipped
  instructions : List.Forall₂ (fun insn insn' => ∃ offset raw, offset < image.length ∧
      answer (image.drop offset) = some raw ∧
      insn = Instruction.ofRaw raw (base + UInt64.ofNat offset) ∧
      Instruction.Shifted raw (base' - base) insn insn')
    sweep.instructions moved.instructions

/-- An instruction that is placed at another base is shifted by the distance of the bases. -/
theorem shifted_placeAt (base base' : Address) (found : Nat × RawInstruction) :
    Instruction.Shifted found.2 (base' - base) (placeAt base found) (placeAt base' found) := by
  have haddress : base' + UInt64.ofNat found.1 = base + UInt64.ofNat found.1 + (base' - base) := by
    grind
  rw [placeAt, placeAt, haddress]
  exact Instruction.shifted_ofRaw found.2 _ _

/-- Two sweeps of what was found at the same offsets are translated. -/
theorem Sweep.translated_of_found {answer : List UInt8 → Option RawInstruction}
    {image : List UInt8} {found : List (Nat × RawInstruction)}
    (hfound : ∀ f ∈ found, f.1 < image.length ∧ answer (image.drop f.1) = some f.2)
    (base base' : Address) (skipped : Nat) :
    Translated answer image base base' ⟨found.map (placeAt base), skipped⟩
      ⟨found.map (placeAt base'), skipped⟩ where
  skipped := rfl
  instructions := by
    rw [List.forall₂_map_left_iff, List.forall₂_map_right_iff, List.forall₂_same]
    intro f hmem
    obtain ⟨hlt, hanswer⟩ := hfound f hmem
    exact ⟨f.1, f.2, hlt, hanswer, rfl, shifted_placeAt base base' f⟩

/-- The linear sweep of an image at two bases, with a decoder that answers by the bytes alone. -/
theorem linearSweep_placed {σ : Type} {decoder : ByteDecoder σ}
    {answer : List UInt8 → Option RawInstruction} (hanswer : decoder.AnswersWith answer)
    (state state' : σ) (image : List UInt8) (base base' : Address) :
    Sweep.Translated answer image base base'
      ((⟨decoder, state⟩ : Session σ).linearSweep image base)
      ((⟨decoder, state'⟩ : Session σ).linearSweep image base') := by
  obtain ⟨raws, hsteps, hraws⟩ := exists_rawSteps answer image 0 image.length
  have hfound : ∀ found ∈ raws.filterMap RawStep.found?,
      found.1 < image.length ∧ answer (image.drop found.1) = some found.2 := by
    intro found hmem
    have hraw := hraws found.1 found.2 (RawStep.mem_of_mem_found hmem)
    rwa [shownAt_length] at hraw
  rw [Session.linearSweep, Session.linearSweep, Session.linearSteps, Session.linearSteps,
    hsteps σ ⟨decoder, state⟩ base hanswer, hsteps σ ⟨decoder, state'⟩ base' hanswer,
    ofSteps_map_place, ofSteps_map_place]
  exact Sweep.translated_of_found hfound base base' _

/-- The chunks of an image do what can be said before the image is placed. -/
theorem exists_rawChunks (mode : MachineMode) (engine : Engine) (image : List UInt8) :
    ∃ chunks : List (List RawStep),
      (∀ base, chunkedSteps (Session.ofEngine mode engine) image base =
        chunks.map (List.map (RawStep.place base))) ∧
      ∀ found raw, .decoded found raw ∈ chunks.flatten →
        found < image.length ∧ ByteDecoder.askEngine mode engine (image.drop found) = some raw := by
  have hengine : (Session.ofEngine mode engine).decoder.AnswersWith
      (ByteDecoder.askEngine mode engine) := fun _ _ => rfl
  choose raws hsteps hraws using fun index => exists_rawSteps (ByteDecoder.askEngine mode engine)
    image (chunkStart index) (chunkStop image index)
  refine ⟨(List.range (chunkCount image.length)).map raws, fun base => ?_, ?_⟩
  · rw [chunkedSteps, List.map_map]
    exact List.map_congr_left fun index _ => hsteps index Unit _ base hengine
  · intro found raw hmem
    obtain ⟨steps, hsteps, hstep⟩ := List.mem_flatten.1 hmem
    obtain ⟨index, -, rfl⟩ := List.mem_map.1 hsteps
    obtain ⟨hlt, hraw⟩ := hraws index found raw hstep
    have hstop := chunkStop_le image index
    rw [ByteDecoder.askEngine_shownAt hlt] at hraw
    exact ⟨by omega, hraw⟩

/-- The sweep in chunks of an image at two bases. -/
theorem parallelSweep_placed (mode : MachineMode) (engine : Engine) (image : List UInt8)
    (base base' : Address) :
    ∃ sweep moved,
      parallelSweep (fun _ => Session.create mode (.ok engine)) image base = .ok sweep ∧
      parallelSweep (fun _ => Session.create mode (.ok engine)) image base' = .ok moved ∧
      Sweep.Translated (ByteDecoder.askEngine mode engine) image base base' sweep moved := by
  obtain ⟨chunks, hchunks, hraws⟩ := exists_rawChunks mode engine image
  refine ⟨_, _, parallelSweep_eq (Session.ofEngine mode engine) image base,
    parallelSweep_eq (Session.ofEngine mode engine) image base', ?_⟩
  rw [hchunks, hchunks, merge_placed, merge_placed]
  refine Sweep.translated_of_found ?_ base base' _
  intro found hmem
  exact hraws found.1 found.2 (RawStep.mem_of_mem_found (List.mem_mergeSort.1 hmem))

/-- **A sweep does not depend on where the image is placed, up to translation.**  This holds for
the linear sweep with every decoder that answers by the bytes alone, whatever states it starts
from, and for the sweep in chunks with every engine that opens. -/
theorem sweep_translated {σ : Type} (decoder : ByteDecoder σ) (state state' : σ)
    (answer : List UInt8 → Option RawInstruction) (hanswer : decoder.AnswersWith answer)
    (mode : MachineMode) (engine : Engine) (image : List UInt8) (base base' : Address) :
    Sweep.Translated answer image base base'
      ((⟨decoder, state⟩ : Session σ).linearSweep image base)
      ((⟨decoder, state'⟩ : Session σ).linearSweep image base') ∧
    ∃ sweep moved,
      parallelSweep (fun _ => Session.create mode (.ok engine)) image base = .ok sweep ∧
      parallelSweep (fun _ => Session.create mode (.ok engine)) image base' = .ok moved ∧
      Sweep.Translated (ByteDecoder.askEngine mode engine) image base base' sweep moved :=
  ⟨linearSweep_placed hanswer state state' image base base',
    parallelSweep_placed mode engine image base base'⟩

/-- A jump to itself, with a decoder that also keeps a record of its calls, at an ordinary base and
at the last address, from which the image wraps: only the target and the address move. -/
theorem sweep_translated_jump :
    let engine : Engine := EngineRecord.replay
      ⟨172, 2, [7, 1], [], [], 0, 1, 1, 0, [⟨.immediate 0, 8, 0⟩]⟩ false
    let decoder := (ByteDecoder.ofEngine .long64 engine).recording
    let image : List UInt8 := [0xeb, 0xfe, 0x0f]
    let sweep := Session.linearSweep ⟨decoder, (), []⟩ image 0x1000
    let moved := Session.linearSweep ⟨decoder, (), [image]⟩ image 0xffffffffffffffff
    decoder.AnswersWith (ByteDecoder.askEngine .long64 engine) ∧
      Sweep.Translated (ByteDecoder.askEngine .long64 engine) image 0x1000 0xffffffffffffffff sweep
        moved ∧
      sweep.instructions.map (fun insn => insn.operands.map Operand.immediate?) =
        [[some 0x1000]] ∧
      moved.instructions.map (fun insn => insn.operands.map Operand.immediate?) =
        [[some (-1)]] ∧
      moved.skipped = 1 := by
  intro engine decoder image sweep moved
  have hanswer : decoder.AnswersWith (ByteDecoder.askEngine .long64 engine) := fun _ _ => rfl
  refine ⟨hanswer, ?_, by decide, by decide, by decide⟩
  exact (sweep_translated decoder ((), []) ((), [image]) _ hanswer .long64 engine image 0x1000
    0xffffffffffffffff).1

end X86Listing
