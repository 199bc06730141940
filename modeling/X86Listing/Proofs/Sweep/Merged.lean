import X86Listing.Proofs.Sweep.Chunks

/-!
# The chunks in a row

A chunk's sweep tries offsets of its own chunk only, in increasing order.  So the steps of all
chunks in a row are in increasing order too, sorting the instructions by offset changes nothing
(`parallelSweep_eq_ofSteps`), and what the whole sweep did inside one chunk is what that chunk's
sweep did (`stepsIn_chunkedSteps`).

The same questions are asked of steps and of an outcome: which offsets were tried
(`triedOffsets`), which were skipped (`skippedOffsets`), and what starts in a range of offsets
(`stepsIn` and `Sweep.startingIn`).
-/

namespace X86Listing

/-! ## Offsets of steps -/

/-- The offsets at which a sweep tried to decode. -/
def triedOffsets (steps : List SweepStep) : List Nat :=
  steps.map SweepStep.offset

/-- The offsets at which nothing decoded. -/
def skippedOffsets (steps : List SweepStep) : List Nat :=
  (steps.filter SweepStep.isSkip).map SweepStep.offset

/-- The steps at the offsets from `low` up to `high`. -/
def stepsIn (low high : Nat) (steps : List SweepStep) : List SweepStep :=
  steps.filter fun step => low ≤ step.offset ∧ step.offset < high

/-- The instructions that start at the offsets from `low` up to `high`. -/
def Sweep.startingIn (sweep : Sweep) (base : Address) (low high : Nat) : List Instruction :=
  sweep.instructions.filter fun insn => low ≤ insn.imageOffset base ∧ insn.imageOffset base < high

theorem stepsIn_append (low high : Nat) (first rest : List SweepStep) :
    stepsIn low high (first ++ rest) = stepsIn low high first ++ stepsIn low high rest :=
  List.filter_append ..

/-- Nothing starts in the range if every step is before it or behind it. -/
theorem stepsIn_eq_nil {low high : Nat} {steps : List SweepStep}
    (h : ∀ step ∈ steps, step.offset < low ∨ high ≤ step.offset) : stepsIn low high steps = [] := by
  refine List.filter_eq_nil_iff.2 fun step hmem => ?_
  rw [decide_eq_true_eq]
  have hout := h step hmem
  omega

theorem mem_skippedOffsets {steps : List SweepStep} {offset : Nat} :
    offset ∈ skippedOffsets steps ↔ .skipped offset ∈ steps := by
  rw [skippedOffsets, List.mem_map]
  constructor
  · rintro ⟨step, hmem, rfl⟩
    obtain ⟨hmem, hskip⟩ := List.mem_filter.1 hmem
    cases step with
    | decoded => cases hskip
    | skipped found => exact hmem
  · intro hmem
    exact ⟨_, List.mem_filter.2 ⟨hmem, rfl⟩, rfl⟩

theorem length_skippedOffsets (steps : List SweepStep) :
    (skippedOffsets steps).length = (Sweep.ofSteps steps).skipped := by
  rw [skippedOffsets, List.length_map, ← List.countP_eq_length_filter, Sweep.ofSteps]

theorem filter_skippedOffsets (steps : List SweepStep) (low high : Nat) :
    (skippedOffsets steps).filter (fun offset => low ≤ offset ∧ offset < high) =
      skippedOffsets (stepsIn low high steps) := by
  rw [skippedOffsets, skippedOffsets, stepsIn, List.filter_map, List.filter_filter,
    List.filter_filter]
  congr 2
  funext step
  exact Bool.and_comm _ _

/-! ## Steps that stand where their instructions say -/

/-- The instructions of the steps have the addresses of the offsets at which they were found. -/
def Located (base : Address) (steps : List SweepStep) : Prop :=
  ∀ found insn, .decoded found insn ∈ steps → insn.imageOffset base = found

theorem startingIn_ofSteps {base : Address} {steps : List SweepStep} (h : Located base steps)
    (low high : Nat) :
    (Sweep.ofSteps steps).startingIn base low high =
      (Sweep.ofSteps (stepsIn low high steps)).instructions := by
  rw [Sweep.startingIn, Sweep.ofSteps, Sweep.ofSteps, stepsIn]
  simp only [List.filter_filterMap, List.filterMap_filter]
  refine List.filterMap_congr fun step hmem => ?_
  cases step with
  | skipped offset => simp [SweepStep.instruction?]
  | decoded found insn =>
      simp only [SweepStep.instruction?, Option.filter_some, h found insn hmem, SweepStep.offset]
      rfl

/-- Steps at increasing offsets find instructions at increasing offsets. -/
theorem Located.pairwise_instructions {base : Address} {steps : List SweepStep}
    (h : Located base steps) (hincreasing : (triedOffsets steps).Pairwise (· < ·)) :
    (Sweep.ofSteps steps).instructions.Pairwise fun a b =>
      a.imageOffset base < b.imageOffset base := by
  refine List.pairwise_filterMap.2 ((List.pairwise_map.1 hincreasing).imp_of_mem ?_)
  intro x y hx hy hxy a ha b hb
  cases x with
  | skipped => cases ha
  | decoded offsetA insnA =>
      cases y with
      | skipped => cases hb
      | decoded offsetB insnB =>
          cases ha
          cases hb
          rwa [h _ _ hx, h _ _ hy]

/-! ## All chunks -/

section

variable {σ : Type} (session : Session σ) (image : List UInt8) (base : Address)

/-- A chunk's sweep tries offsets of its own chunk. -/
theorem chunkSteps_bounds (index : Nat) : ∀ step ∈ chunkSteps session image base index,
    chunkStart index ≤ step.offset ∧ step.offset < chunkStop image index := by
  obtain ⟨final, hrun⟩ :=
    session.sweepRange_run image base (chunkStart index) (chunkStop image index)
  intro step hmem
  exact ⟨(hrun.tiles.bounds_of_mem step hmem).1, hrun.offset_lt_of_mem step hmem⟩

/-- A chunk's sweep tries increasing offsets. -/
theorem pairwise_chunkSteps (index : Nat) :
    (chunkSteps session image base index).Pairwise fun a b => a.offset < b.offset := by
  obtain ⟨final, hrun⟩ :=
    session.sweepRange_run image base (chunkStart index) (chunkStop image index)
  exact List.pairwise_map.1 hrun.tiles.pairwise_offset

/-- An offset in a chunk makes it one of the image's chunks. -/
theorem lt_chunkCount_of_bounds {index offset : Nat} (hlow : chunkStart index ≤ offset)
    (hhigh : offset < chunkStop image index) : index < chunkCount image.length := by
  simp only [chunkCount, chunkStop, chunkStart, chunkSize] at hlow hhigh ⊢
  omega

/-- No offset lies in two chunks. -/
theorem eq_of_chunk_bounds {index other offset : Nat} (hlow : chunkStart index ≤ offset)
    (hhigh : offset < chunkStop image index) (hlow' : chunkStart other ≤ offset)
    (hhigh' : offset < chunkStop image other) : index = other := by
  simp only [chunkStop, chunkStart, chunkSize] at hlow hhigh hlow' hhigh'
  omega

/-- An instruction of a chunk has the address of the offset at which it was found. -/
theorem located_chunkSteps (hsize : image.length ≤ UInt64.size) (index : Nat) :
    Located base (chunkSteps session image base index) := by
  intro found insn hmem
  obtain ⟨final, hrun⟩ :=
    session.sweepRange_run image base (chunkStart index) (chunkStop image index)
  exact hrun.imageOffset_of_mem (Nat.le_trans (chunkStop_le image index) hsize) hmem

end

/-- The steps of all chunks, in the order of the chunks, each of which has a session of its own. -/
def chunkedStepsIn {σ : Type} (sessions : Nat → Session σ) (image : List UInt8) (base : Address) :
    List (List SweepStep) :=
  (List.range (chunkCount image.length)).map fun index =>
    chunkSteps (sessions index) image base index

section

variable {σ : Type} (sessions : Nat → Session σ) (image : List UInt8) (base : Address)

/-- The steps of all chunks are those of the single ones. -/
theorem mem_flatten_chunkedStepsIn {step : SweepStep} :
    step ∈ (chunkedStepsIn sessions image base).flatten ↔
      ∃ index < chunkCount image.length, step ∈ chunkSteps (sessions index) image base index := by
  simp [chunkedStepsIn]

theorem located_chunkedStepsIn (hsize : image.length ≤ UInt64.size) :
    Located base (chunkedStepsIn sessions image base).flatten := by
  intro found insn hmem
  obtain ⟨index, -, hmem⟩ := (mem_flatten_chunkedStepsIn sessions image base).1 hmem
  exact located_chunkSteps (sessions index) image base hsize index found insn hmem

/-- **The chunks try increasing offsets**, one chunk after the other. -/
theorem pairwise_chunkedStepsIn :
    (triedOffsets (chunkedStepsIn sessions image base).flatten).Pairwise (· < ·) := by
  rw [triedOffsets, List.pairwise_map, List.pairwise_flatten]
  constructor
  · intro steps hsteps
    obtain ⟨index, -, rfl⟩ := List.mem_map.1 hsteps
    exact pairwise_chunkSteps (sessions index) image base index
  · refine List.pairwise_map.2 (List.pairwise_lt_range.imp ?_)
    intro index other hlt a ha b hb
    have hstop := (chunkSteps_bounds (sessions index) image base index a ha).2
    have hstart := (chunkSteps_bounds (sessions other) image base other b hb).1
    simp only [chunkStop, chunkStart, chunkSize] at hstop hstart
    omega

end

/-! ## One session for all chunks -/

section

variable {σ : Type} (session : Session σ) (image : List UInt8) (base : Address)

theorem mem_flatten_chunkedSteps {step : SweepStep} :
    step ∈ (chunkedSteps session image base).flatten ↔
      ∃ index < chunkCount image.length, step ∈ chunkSteps session image base index :=
  mem_flatten_chunkedStepsIn (fun _ => session) image base

theorem located_chunkedSteps (hsize : image.length ≤ UInt64.size) :
    Located base (chunkedSteps session image base).flatten :=
  located_chunkedStepsIn (fun _ => session) image base hsize

theorem pairwise_chunkedSteps :
    (triedOffsets (chunkedSteps session image base).flatten).Pairwise (· < ·) :=
  pairwise_chunkedStepsIn (fun _ => session) image base

/-- **Sorting changes nothing**: the sweep in chunks is the outcome of the chunks' steps in a
row. -/
theorem parallelSweep_eq_ofSteps (hsize : image.length ≤ UInt64.size) :
    parallelSweep (fun _ => .ok session) image base =
      .ok (.ofSteps (chunkedSteps session image base).flatten) := by
  rw [parallelSweep_eq, Sweep.merge_eq_of_pairwise]
  have hlocated := located_chunkedSteps session image base hsize
  exact (hlocated.pairwise_instructions (pairwise_chunkedSteps session image base)).imp Nat.le_of_lt

/-- **What all chunks did inside one chunk is what that chunk did.** -/
theorem stepsIn_chunkedSteps {index low high : Nat} (hindex : index < chunkCount image.length)
    (hlow : chunkStart index ≤ low) (hhigh : high ≤ chunkStop image index) :
    stepsIn low high (chunkedSteps session image base).flatten =
      stepsIn low high (chunkSteps session image base index) := by
  have hall := List.pairwise_map.1 (pairwise_chunkedSteps session image base)
  have hone := pairwise_chunkSteps session image base index
  -- lists that increase are equal if they have the same members
  have hirrefl : Std.Irrefl fun a b : SweepStep => a.offset < b.offset :=
    ⟨fun a => Nat.lt_irrefl a.offset⟩
  have hantisymm : Std.Antisymm fun a b : SweepStep => a.offset < b.offset :=
    ⟨fun a b hab hba => absurd hab (Nat.lt_asymm hba)⟩
  refine (hall.filter _).eq_of_mem_iff (hone.filter _) fun step => ?_
  rw [stepsIn, List.mem_filter, List.mem_filter, decide_eq_true_eq]
  refine and_congr_left fun hrange => ?_
  constructor
  · intro hmem
    obtain ⟨other, -, hmem⟩ := (mem_flatten_chunkedSteps session image base).1 hmem
    obtain ⟨hstart, hstop⟩ := chunkSteps_bounds session image base other step hmem
    have hsame := eq_of_chunk_bounds image hstart hstop (Nat.le_trans hlow hrange.1)
      (Nat.lt_of_lt_of_le hrange.2 hhigh)
    rwa [hsame] at hmem
  · intro hmem
    exact (mem_flatten_chunkedSteps session image base).2 ⟨index, hindex, hmem⟩

end

end X86Listing
