import X86Listing.Proofs.Sweep.Chunks
import X86Listing.Proofs.Sweep.Partition

/-!
# When the two sweeps agree

The sweep in chunks treats every chunk edge as the start of an instruction, the linear sweep does
not.  They find the same exactly when no instruction of the linear sweep runs over an edge:
`parallelSweep_eq_linearSweep_iff`.

If none does, the linear run can be cut at the edges, and its pieces are the runs of the chunks
(`SweepRun.eq_chunks_append`).  If the outcomes are the same, their sizes add up to the same
number; the chunks then go through no byte twice, so no chunk runs past its end.
-/

namespace X86Listing

/-- A chunk edge inside the image lies in the span of the instruction, behind its first byte. -/
def Instruction.CrossesEdge (insn : Instruction) (image : List UInt8) (base : Address) : Prop :=
  ∃ edge, chunkSize ∣ edge ∧ 0 < edge ∧ edge < image.length ∧
    insn.imageOffset base < edge ∧ edge < insn.imageOffset base + insn.size.toNat

section

variable {session : Session Unit} {image : List UInt8} {base : Address}

/-! ## Cutting at the edges -/

/-- A run that ends behind `stop` has an instruction there that started before it. -/
theorem SweepRun.exists_overrun {stop offset final : Nat} {last : Session Unit}
    {steps : List SweepStep} (h : SweepRun image base stop offset session steps final last)
    (hoffset : offset ≤ stop) (hfinal : stop < final) :
    ∃ found insn, .decoded found insn ∈ steps ∧ found < stop ∧
      stop < found + insn.size.toNat := by
  obtain ⟨step, hmem, hcovers⟩ := h.tiles.exists_covers hoffset hfinal
  have hlt := h.offset_lt_of_mem step hmem
  obtain ⟨-, hend⟩ := hcovers
  cases step with
  | decoded found insn => exact ⟨found, insn, hmem, hlt, hend⟩
  | skipped found =>
      change found < stop at hlt
      change stop < found + 1 at hend
      omega

/-- If no instruction crosses an edge, the linear sweep does what the first chunks do and then
goes on at the next chunk's start. -/
theorem SweepRun.eq_chunks_append (hwindowed : session.Windowed)
    (hsize : image.length ≤ UInt64.size)
    (hcross : ∀ insn ∈ (session.linearSweep image base).instructions,
      ¬ insn.CrossesEdge image base) (count : Nat) (hcount : count ≤ chunkCount image.length) :
    ∃ rest last, (session.linearSteps image base).1 =
        ((List.range count).map (chunkSteps session image base)).flatten ++ rest ∧
      SweepRun image base image.length (min (chunkStart count) image.length) session rest
        image.length last := by
  induction count with
  | zero =>
      refine ⟨(session.linearSteps image base).1, (session.linearSteps image base).2, rfl, ?_⟩
      rw [chunkStart, Nat.zero_mul, Nat.zero_min]
      exact session.linearSteps_run image base
  | succ count ih =>
      obtain ⟨rest, last, hsteps, hrest⟩ := ih (by omega)
      have hstart : chunkStart count < image.length := chunkStart_lt hcount
      have hle : chunkStart count ≤ chunkStop image count := chunkStart_le_chunkStop hcount
      have hstop := chunkStop_le image count
      rw [Nat.min_eq_left (Nat.le_of_lt hstart)] at hrest
      obtain ⟨first, more, middle, rfl, hfirst, hmore⟩ := hrest.split hwindowed hstop
      obtain ⟨final, _, hchunk, -, -⟩ := chunkSteps_run session image base hcount
      obtain ⟨rfl, rfl, -⟩ := hfirst.deterministic hchunk
      refine ⟨more, last, ?_, ?_⟩
      · rw [hsteps, List.range_succ, List.map_append, List.flatten_append, List.append_assoc]
        simp only [List.map_cons, List.map_nil, List.flatten_cons, List.flatten_nil,
          List.append_nil]
      · rw [← chunkStop_eq_min]
        have hlow := hfirst.stop_le_final
        have hhigh := hmore.tiles.sum_size
        rcases Nat.eq_or_lt_of_le hlow with heq | hover
        · rwa [heq]
        · -- the last instruction of the chunk crosses its end, which is an edge
          obtain ⟨found, insn, hmem, hbefore, hbehind⟩ := hfirst.exists_overrun hle hover
          have hlinear : .decoded found insn ∈ (session.linearSteps image base).1 := by
            rw [hsteps]
            exact List.mem_append_right _ (List.mem_append_left _ hmem)
          have hoffset := (session.linearSteps_run image base).imageOffset_of_mem hsize hlinear
          refine absurd ?_ (hcross insn (Sweep.mem_instructions_ofSteps.2 ⟨found, hlinear⟩))
          refine ⟨chunkStop image count, ?_, by omega, by omega, by omega, by omega⟩
          rw [chunkStop_eq_min, Nat.min_eq_left (by rw [chunkStop_eq_min] at hover; omega)]
          exact ⟨count + 1, Nat.mul_comm _ _⟩

/-- If no instruction crosses an edge, the linear sweep does what the chunks do one after the
other. -/
theorem flatten_chunkedSteps (hwindowed : session.Windowed) (hsize : image.length ≤ UInt64.size)
    (hcross : ∀ insn ∈ (session.linearSweep image base).instructions,
      ¬ insn.CrossesEdge image base) :
    (chunkedSteps session image base).flatten = (session.linearSteps image base).1 := by
  obtain ⟨rest, last, hsteps, hrest⟩ :=
    SweepRun.eq_chunks_append hwindowed hsize hcross _ (Nat.le_refl _)
  have hend : min (chunkStart (chunkCount image.length)) image.length = image.length := by
    rw [chunkStart, chunkCount, chunkSize]
    omega
  rw [hend] at hrest
  obtain ⟨rfl, -, -⟩ := hrest.deterministic (.done (Nat.le_refl _))
  rw [hsteps, List.append_nil]
  rfl

/-! ## Counting bytes -/

/-- If the chunks' steps go through as many bytes as the image has, no chunk runs past its end. -/
theorem sum_size_chunkSteps (h : ((chunkedSteps session image base).flatten.map
      SweepStep.size).sum = image.length) {index : Nat} (hindex : index < chunkCount image.length) :
    ((chunkSteps session image base index).map SweepStep.size).sum = chunkWidth image index := by
  have hle : ∀ index ∈ Finset.range (chunkCount image.length), chunkWidth image index ≤
      ((chunkSteps session image base index).map SweepStep.size).sum :=
    fun index hmem => chunkWidth_le_sum session image base (Finset.mem_range.1 hmem)
  rw [sum_size_flatten_chunkedSteps] at h
  have heq := (Finset.sum_eq_sum_iff_of_le hle).1 ((sum_chunkWidth image).trans h.symm)
  exact (heq index (Finset.mem_range.2 hindex)).symm

/-- An instruction of a chunk that does not run past its end crosses no edge. -/
theorem not_crossesEdge_of_mem (hsize : image.length ≤ UInt64.size) {index : Nat}
    (hindex : index < chunkCount image.length)
    (hsum : ((chunkSteps session image base index).map SweepStep.size).sum = chunkWidth image index)
    {found : Nat} {insn : Instruction}
    (hmem : .decoded found insn ∈ chunkSteps session image base index) :
    ¬ insn.CrossesEdge image base := by
  obtain ⟨final, _, hrun, -, -⟩ := chunkSteps_run session image base hindex
  have hstop := chunkStop_le image index
  have htotal := hrun.tiles.sum_size
  obtain ⟨hlow, hhigh⟩ := hrun.tiles.bounds_of_mem _ hmem
  have hle := chunkStart_le_chunkStop hindex
  rintro ⟨edge, ⟨factor, rfl⟩, -, -, hbefore, hbehind⟩
  rw [hrun.imageOffset_of_mem (by omega) hmem] at hbefore hbehind
  change chunkStart index ≤ found at hlow
  change found + insn.size.toNat ≤ final at hhigh
  rw [hsum, chunkWidth, chunkStop, chunkStart, chunkSize] at htotal
  rw [chunkStop, chunkStart, chunkSize] at hle
  rw [chunkStart, chunkSize] at hlow
  rw [chunkSize] at hbefore hbehind
  omega

end

/-! ## The two sweeps -/

/-- **The sweep in chunks finds what the linear sweep finds exactly when no instruction of the
linear sweep crosses a chunk edge.**  The engine never reports more bytes than the window it is
shown; an image is no longer than its offsets, which are words, can count. -/
theorem parallelSweep_eq_linearSweep_iff (mode : MachineMode) (engine : Engine)
    (hengine : engine.Bounded) (image : List UInt8) (base : Address)
    (hsize : image.length ≤ UInt64.size) :
    parallelSweep (fun _ => Session.create mode (.ok engine)) image base =
        .ok ((Session.ofEngine mode engine).linearSweep image base) ↔
      ¬ ∃ insn ∈ ((Session.ofEngine mode engine).linearSweep image base).instructions,
        insn.CrossesEdge image base := by
  have hwindowed : (Session.ofEngine mode engine).Windowed := Session.windowed_ofEngine hengine
  have hrun := (Session.ofEngine mode engine).linearSteps_run image base
  rw [show (fun _ => Session.create mode (.ok engine)) =
    (fun _ : Nat => Except.ok (Session.ofEngine mode engine)) from rfl, parallelSweep_eq]
  constructor
  · intro heq
    have hmerge := Except.ok.inj heq
    rw [Sweep.merge_map_ofSteps] at hmerge
    have hinstructions := congrArg Sweep.instructions hmerge
    have hskipped := congrArg Sweep.skipped hmerge
    change List.mergeSort _ _ = _ at hinstructions
    have hperm := List.mergeSort_perm (Sweep.ofSteps (chunkedSteps (Session.ofEngine mode engine)
      image base).flatten).instructions fun a b => a.offsetFrom base ≤ b.offsetFrom base
    rw [hinstructions] at hperm
    have htotal : ((chunkedSteps (Session.ofEngine mode engine) image base).flatten.map
        SweepStep.size).sum = image.length := by
      rw [← Sweep.sum_size_ofSteps, ← (hperm.map _).sum_nat, ← (hrun.partition hsize).total]
      exact congrArg _ hskipped
    rintro ⟨insn, hin, hcross⟩
    obtain ⟨found, hmem⟩ := Sweep.mem_instructions_ofSteps.1 (hperm.mem_iff.1 hin)
    obtain ⟨steps, hsteps, hmem⟩ := List.mem_flatten.1 hmem
    obtain ⟨index, hindex, rfl⟩ := List.mem_map.1 hsteps
    have hindex := List.mem_range.1 hindex
    exact not_crossesEdge_of_mem hsize hindex (sum_size_chunkSteps htotal hindex) hmem hcross
  · intro hnone
    have hsteps := flatten_chunkedSteps hwindowed hsize
      fun insn hin hcross => hnone ⟨insn, hin, hcross⟩
    have hsorted := hrun.pairwise_instructions hsize
    rw [← hsteps] at hsorted
    rw [Sweep.merge_eq_of_pairwise (hsorted.imp fun hab => by omega), hsteps]
    rfl

/-! ## An engine with one instruction -/

/-- An engine that finds the same instruction everywhere, of `size` bytes, if they are all there. -/
def Engine.uniform (size : UInt16) : Engine :=
  EngineRecord.replay ⟨1, size, [], [], [], 0, 0, 0, 0, []⟩ false

theorem Engine.bounded_uniform (size : UInt16) : (Engine.uniform size).Bounded :=
  Engine.bounded_replay _

/-- Instructions of 15 bytes from the front of an image cross its first edge at offset 4095, so an
image of 4110 bytes that wraps around the end of the address space is swept differently in
chunks. -/
theorem parallelSweep_ne_linearSweep_uniform :
    let engine := Engine.uniform 15
    let image := List.replicate 4110 (0x90 : UInt8)
    engine.Bounded ∧ image.length ≤ UInt64.size ∧
      (∃ insn ∈ ((Session.ofEngine .long64 engine).linearSweep image
          0xfffffffffffffff0).instructions,
        insn.imageOffset 0xfffffffffffffff0 < 4096 ∧
          4096 < insn.imageOffset 0xfffffffffffffff0 + insn.size.toNat) ∧
      parallelSweep (fun _ => Session.create .long64 (.ok engine)) image 0xfffffffffffffff0 ≠
        .ok ((Session.ofEngine .long64 engine).linearSweep image 0xfffffffffffffff0) := by
  intro engine image
  have hlength : image.length = 4110 := List.length_replicate
  have hsize : image.length ≤ UInt64.size := by
    rw [hlength]
    decide
  have hcross : ∃ insn ∈ ((Session.ofEngine .long64 engine).linearSweep image
      0xfffffffffffffff0).instructions, insn.imageOffset 0xfffffffffffffff0 < 4096 ∧
        4096 < insn.imageOffset 0xfffffffffffffff0 + insn.size.toNat := by decide +kernel
  refine ⟨Engine.bounded_uniform 15, hsize, hcross, fun heq => ?_⟩
  obtain ⟨insn, hin, hbefore, hbehind⟩ := hcross
  refine (parallelSweep_eq_linearSweep_iff .long64 engine (Engine.bounded_uniform 15) image _
    hsize).1 heq ⟨insn, hin, 4096, Nat.dvd_refl _, by omega, by omega, hbefore, hbehind⟩

end X86Listing
