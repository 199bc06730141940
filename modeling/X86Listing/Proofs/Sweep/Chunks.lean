import X86Listing.Proofs.Sweep.Window

/-!
# The chunks of an image

Each chunk is swept by a run of its own, from its start to its end or past it.  The chunks cut the
image without gaps, so the bytes that the chunks' steps go through are at least as many as the image
has (`sum_chunkWidth`), and exactly as many only if no chunk runs past its end.

* `chunkSteps_run` — the sweep of a chunk as a run.
* `parallelSweep_eq` — with one session for all chunks, the sweep in chunks is the chunks' steps
  in a row, sorted.
-/

namespace X86Listing

/-! ## Where chunks lie -/

/-- The number of bytes of a chunk. -/
def chunkWidth (image : List UInt8) (index : Nat) : Nat :=
  chunkStop image index - chunkStart index

theorem chunkStart_lt {image : List UInt8} {index : Nat} (h : index < chunkCount image.length) :
    chunkStart index < image.length := by
  rw [chunkCount, chunkSize] at h
  rw [chunkStart, chunkSize]
  omega

theorem chunkStop_le (image : List UInt8) (index : Nat) : chunkStop image index ≤ image.length := by
  rw [chunkStop]
  exact Nat.min_le_right _ _

theorem chunkStart_le_chunkStop {image : List UInt8} {index : Nat}
    (h : index < chunkCount image.length) : chunkStart index ≤ chunkStop image index := by
  have hlt := chunkStart_lt h
  rw [chunkStop]
  omega

/-- A chunk that does not reach the end of the image ends where the next one starts. -/
theorem chunkStop_eq_min (image : List UInt8) (index : Nat) :
    chunkStop image index = min (chunkStart (index + 1)) image.length := by
  rw [chunkStop, chunkStart, chunkStart, Nat.succ_mul]

/-- The first chunks together have all the bytes up to the next chunk's start. -/
theorem sum_chunkWidth_range (image : List UInt8) (count : Nat) :
    ∑ index ∈ Finset.range count, chunkWidth image index = min (chunkStart count) image.length := by
  induction count with
  | zero => simp [chunkStart]
  | succ count ih =>
      rw [Finset.sum_range_succ, ih, chunkWidth, chunkStop_eq_min]
      simp only [chunkStart, chunkSize]
      omega

/-- **The chunks have all the bytes of the image.** -/
theorem sum_chunkWidth (image : List UInt8) :
    ∑ index ∈ Finset.range (chunkCount image.length), chunkWidth image index = image.length := by
  rw [sum_chunkWidth_range, chunkStart, chunkCount, chunkSize]
  omega

/-! ## Sweeping a chunk -/

section

variable {σ : Type} (session : Session σ) (image : List UInt8) (base : Address)

/-- The sweep of a chunk is a run from its start, and it ends at the chunk's end or behind it, but
inside the image. -/
theorem chunkSteps_run {index : Nat} (h : index < chunkCount image.length) :
    ∃ final last, SweepRun image base (chunkStop image index) (chunkStart index) session
      (chunkSteps session image base index) final last ∧
      chunkStop image index ≤ final ∧ final ≤ image.length := by
  obtain ⟨final, hrun⟩ :=
    session.sweepRange_run image base (chunkStart index) (chunkStop image index)
  have hstop := chunkStop_le image index
  have hstart := chunkStart_le_chunkStop h
  have hwindow : chunkStop image index ≤ Session.windowEnd image (chunkStop image index) ∧
      Session.windowEnd image (chunkStop image index) ≤ image.length := by
    rw [Session.windowEnd]
    omega
  have hfinal := hrun.final_le hstop (by omega)
  exact ⟨final, _, hrun, hrun.stop_le_final, by omega⟩

/-- A chunk's steps go through all of its bytes. -/
theorem chunkWidth_le_sum {index : Nat} (h : index < chunkCount image.length) :
    chunkWidth image index ≤ ((chunkSteps session image base index).map SweepStep.size).sum := by
  obtain ⟨final, _, hrun, hstop, -⟩ := chunkSteps_run session image base h
  have hsum := hrun.tiles.sum_size
  rw [chunkWidth]
  omega

end

/-! ## Putting chunks together -/

namespace Sweep

theorem instructions_map_ofSteps (chunks : List (List SweepStep)) :
    (chunks.map ofSteps).flatMap Sweep.instructions = (ofSteps chunks.flatten).instructions := by
  induction chunks with
  | nil => rfl
  | cons steps chunks ih =>
      rw [List.map_cons, List.flatMap_cons, ih, List.flatten_cons]
      exact List.filterMap_append.symm

theorem skipped_map_ofSteps (chunks : List (List SweepStep)) :
    (chunks.map ofSteps).foldr (fun part total => part.skipped + total) 0 =
      (ofSteps chunks.flatten).skipped := by
  induction chunks with
  | nil => rfl
  | cons steps chunks ih =>
      rw [List.map_cons, List.foldr_cons, ih, List.flatten_cons]
      exact List.countP_append.symm

/-- The chunks' sweeps put together are the outcome of all steps in a row, in the order of the
offsets. -/
theorem merge_map_ofSteps (base : Address) (chunks : List (List SweepStep)) :
    merge base (chunks.map ofSteps) =
      ⟨(ofSteps chunks.flatten).instructions.mergeSort fun a b =>
        a.offsetFrom base ≤ b.offsetFrom base, (ofSteps chunks.flatten).skipped⟩ := by
  rw [merge, instructions_map_ofSteps, skipped_map_ofSteps]

/-- Sorting leaves instructions alone that are in the order of their offsets. -/
theorem merge_eq_of_pairwise {base : Address} {chunks : List (List SweepStep)}
    (h : (ofSteps chunks.flatten).instructions.Pairwise fun a b =>
      a.imageOffset base ≤ b.imageOffset base) :
    merge base (chunks.map ofSteps) = ofSteps chunks.flatten := by
  rw [merge_map_ofSteps, List.mergeSort_of_pairwise]
  refine h.imp ?_
  intro a b hab
  exact decide_eq_true (UInt64.le_iff_toNat_le.2 hab)

end Sweep

/-- The steps of all chunks, in the order of the chunks. -/
def chunkedSteps {σ : Type} (session : Session σ) (image : List UInt8) (base : Address) :
    List (List SweepStep) :=
  (List.range (chunkCount image.length)).map (chunkSteps session image base)

/-- The steps of all chunks go through as many bytes as the chunks' steps do together. -/
theorem sum_size_flatten_chunkedSteps {σ : Type} (session : Session σ) (image : List UInt8)
    (base : Address) :
    ((chunkedSteps session image base).flatten.map SweepStep.size).sum =
      ∑ index ∈ Finset.range (chunkCount image.length),
        ((chunkSteps session image base index).map SweepStep.size).sum := by
  rw [chunkedSteps, List.map_flatten, List.sum_flatten, List.map_map, List.map_map]
  rfl

/-- With one and the same session for all chunks, no chunk's error can come in between. -/
theorem allChunkSteps_eq {σ : Type} (session : Session σ) (image : List UInt8) (base : Address) :
    allChunkSteps (fun _ => .ok session) image base = .ok (chunkedSteps session image base) :=
  List.mapM_pure

theorem parallelSweep_eq {σ : Type} (session : Session σ) (image : List UInt8) (base : Address) :
    parallelSweep (fun _ => .ok session) image base =
      .ok (.merge base ((chunkedSteps session image base).map Sweep.ofSteps)) := by
  rw [parallelSweep, allChunkSteps_eq]
  rfl

end X86Listing
