import X86Listing.Proofs.Sweep.Merged
import X86Listing.Proofs.Sweep.Partition

/-!
# Where chunks overlap

The sweep of a chunk may run past the chunk's end, into bytes that the next chunk sweeps again.  The
windows of an engine bound how far: an instruction that starts inside the chunk ends at most 14
bytes behind it, and never behind the image.  So the chunks' sweeps cover the image, they overlap
only right behind an edge, and there only two of them do.

The argument counts.  The steps of a chunk cover each offset from the chunk's start to where its
sweep ended once (`Tiles.countP_covers`), so an offset is covered by as many steps as there are
chunks whose sweep went over it (`coveringChunks`).  Those are the offset's own chunk and, just
behind an edge, the one before it (`eq_or_near_of_mem_coveringChunks`).

`parallelSweep_covers` says what this means for the instructions and the skipped offsets.
-/

namespace X86Listing

/-! ## Counting steps -/

instance (step : SweepStep) (offset : Nat) : Decidable (step.Covers offset) :=
  inferInstanceAs (Decidable (_ ∧ _))

/-- Steps that follow one another cover each offset between their ends once, and no other. -/
theorem Tiles.countP_covers {start stop : Nat} {steps : List SweepStep}
    (h : Tiles start steps stop) (offset : Nat) :
    steps.countP (fun step => step.Covers offset) =
      if start ≤ offset ∧ offset < stop then 1 else 0 := by
  induction steps generalizing start with
  | nil =>
      have hend : start = stop := h
      rw [List.countP_nil, if_neg (by omega)]
  | cons step steps ih =>
      obtain ⟨hoffset, hsize, hrest⟩ := h
      have hsum := hrest.sum_size
      rw [List.countP_cons, ih hrest]
      simp only [SweepStep.Covers, hoffset, decide_eq_true_eq]
      split <;> split <;> split <;> omega

/-- The steps that cover an offset are the instructions that span it, and the skip at it. -/
theorem Located.countP_covers {base : Address} {steps : List SweepStep} (h : Located base steps)
    (offset : Nat) :
    steps.countP (fun step => step.Covers offset) =
      (Sweep.ofSteps steps).instructions.countP (fun insn => insn.Spans base offset) +
        (skippedOffsets steps).count offset := by
  induction steps with
  | nil => rfl
  | cons step steps ih =>
      have hrest : Located base steps :=
        fun found insn hmem => h found insn (List.mem_cons_of_mem _ hmem)
      rw [List.countP_cons, ih hrest]
      cases step with
      | decoded found insn =>
          have hspans : insn.Spans base offset ↔ (SweepStep.decoded found insn).Covers offset := by
            rw [Instruction.Spans, h found insn List.mem_cons_self]
            rfl
          rw [Sweep.ofSteps_decoded, List.countP_cons]
          simp only [hspans]
          have hskips : skippedOffsets (.decoded found insn :: steps) = skippedOffsets steps := rfl
          rw [hskips]
          omega
      | skipped found =>
          have hcovers : (SweepStep.skipped found).Covers offset ↔ found = offset := by
            change found ≤ offset ∧ offset < found + 1 ↔ found = offset
            omega
          have hskips : skippedOffsets (.skipped found :: steps) =
            found :: skippedOffsets steps := rfl
          rw [Sweep.ofSteps_skipped, hskips, List.count_cons]
          simp only [hcovers, decide_eq_true_eq, beq_iff_eq]
          omega

/-! ## How far a run goes past its end -/

/-- An instruction of a windowed session is no longer than a window. -/
theorem Session.Windowed.size_le {session next : Session Unit} (h : session.Windowed)
    {bytes : List UInt8} {address : Address} {insn : Instruction}
    (hdec : session.decode bytes address = (.ok insn, next)) :
    insn.size.toNat ≤ maxInstructionSize := by
  rw [h bytes address] at hdec
  have hsize := size_le_of_decode hdec
  rw [List.length_take] at hsize
  omega

/-- A run ends less than a window behind its end. -/
theorem SweepRun.final_lt {image : List UInt8} {base : Address} {stop offset final : Nat}
    {session last : Session Unit} {steps : List SweepStep}
    (h : SweepRun image base stop offset session steps final last) (hwindowed : session.Windowed)
    (hoffset : offset < stop + maxInstructionSize) : final < stop + maxInstructionSize := by
  induction h with
  | done => exact hoffset
  | decoded hlt hdec _ ih =>
      have hsize := hwindowed.size_le hdec
      obtain rfl := Session.eq_of_decode hdec
      exact ih hwindowed (by omega)
  | skipped hlt hdec _ ih =>
      obtain rfl := Session.eq_of_decode hdec
      exact ih hwindowed (by rw [maxInstructionSize]; omega)

/-- The number of bytes by which the last of the instructions runs past `stop`; 0 if it does not,
or if there is none. -/
def overhang (base : Address) (stop : Nat) (instructions : List Instruction) : Nat :=
  instructions.getLast?.elim 0 fun insn => insn.imageOffset base + insn.size.toNat - stop

/-- A run goes past its end by what its last instruction does. -/
theorem SweepRun.final_sub_stop {σ : Type} {image : List UInt8} {base : Address}
    {stop offset final : Nat} {session last : Session σ} {steps : List SweepStep}
    (h : SweepRun image base stop offset session steps final last) (hstop : stop ≤ UInt64.size)
    (hoffset : offset ≤ stop) :
    final - stop = overhang base stop (Sweep.ofSteps steps).instructions := by
  induction h with
  | done hdone =>
      rw [show overhang base stop (Sweep.ofSteps []).instructions = 0 from rfl]
      omega
  | @decoded found _ _ _ _ insn steps hlt hdec hrest ih =>
      have hfound : insn.imageOffset base = found :=
        Instruction.imageOffset_eq (Session.address_of_decode hdec) (by omega)
      rw [Sweep.ofSteps_decoded, overhang, List.getLast?_cons]
      by_cases hinside : found + insn.size.toNat ≤ stop
      · rw [ih hinside, overhang]
        cases (Sweep.ofSteps steps).instructions.getLast? with
        | none =>
            change 0 = insn.imageOffset base + insn.size.toNat - stop
            omega
        | some other => rfl
      · cases hrest with
        | done =>
            change found + insn.size.toNat - stop = insn.imageOffset base + insn.size.toNat - stop
            rw [hfound]
        | decoded hlt' => omega
        | skipped hlt' => omega
  | skipped hlt _ _ ih =>
      rw [Sweep.ofSteps_skipped]
      exact ih hlt

/-- The number of bytes by which the last instruction that starts in a chunk runs past the chunk's
end. -/
def Sweep.overrun (sweep : Sweep) (image : List UInt8) (base : Address) (index : Nat) : Nat :=
  overhang base (chunkStop image index)
    (sweep.startingIn base (chunkStart index) (chunkStop image index))

/-! ## Where the sweep of a chunk ends -/

/-- The offset at which the sweep of a chunk ended. -/
def chunkFinal {σ : Type} (session : Session σ) (image : List UInt8) (base : Address)
    (index : Nat) : Nat :=
  chunkStart index + ((chunkSteps session image base index).map SweepStep.size).sum

section

variable {σ : Type} (session : Session σ) (image : List UInt8) (base : Address) {index : Nat}

/-- The sweep of a chunk is a run to `chunkFinal`, which lies at the chunk's end or behind it, but
inside the image. -/
theorem chunkSteps_run_chunkFinal (hindex : index < chunkCount image.length) :
    (∃ last, SweepRun image base (chunkStop image index) (chunkStart index) session
      (chunkSteps session image base index) (chunkFinal session image base index) last) ∧
      chunkStop image index ≤ chunkFinal session image base index ∧
      chunkFinal session image base index ≤ image.length := by
  obtain ⟨final, last, hrun, hstop, hend⟩ := chunkSteps_run session image base hindex
  obtain rfl : chunkFinal session image base index = final := hrun.tiles.sum_size
  exact ⟨⟨last, hrun⟩, hstop, hend⟩

/-- What the last instruction of a chunk has behind the chunk's end is how far the chunk's sweep
went past it. -/
theorem overrun_chunkedSteps (hsize : image.length ≤ UInt64.size)
    (hindex : index < chunkCount image.length) :
    (Sweep.ofSteps (chunkedSteps session image base).flatten).overrun image base index =
      chunkFinal session image base index - chunkStop image index := by
  obtain ⟨⟨last, hrun⟩, -, -⟩ := chunkSteps_run_chunkFinal session image base hindex
  have hown : stepsIn (chunkStart index) (chunkStop image index)
      (chunkSteps session image base index) = chunkSteps session image base index :=
    List.filter_eq_self.2 fun step hmem =>
      decide_eq_true (chunkSteps_bounds session image base index step hmem)
  rw [Sweep.overrun, startingIn_ofSteps (located_chunkedSteps session image base hsize),
    stepsIn_chunkedSteps session image base hindex (Nat.le_refl _) (Nat.le_refl _), hown]
  refine (hrun.final_sub_stop ?_ (chunkStart_le_chunkStop hindex)).symm
  exact Nat.le_trans (chunkStop_le image index) hsize

/-- The chunks' steps go through the image once, and again through what they have behind their
ends. -/
theorem sum_size_chunkedSteps :
    ((chunkedSteps session image base).flatten.map SweepStep.size).sum =
      image.length + ∑ index ∈ Finset.range (chunkCount image.length),
        (chunkFinal session image base index - chunkStop image index) := by
  rw [sum_size_flatten_chunkedSteps]
  have hchunk : ∀ index ∈ Finset.range (chunkCount image.length),
      ((chunkSteps session image base index).map SweepStep.size).sum =
        chunkWidth image index +
          (chunkFinal session image base index - chunkStop image index) := by
    intro index hmem
    have hindex := Finset.mem_range.1 hmem
    have hstart := chunkStart_le_chunkStop hindex
    obtain ⟨-, hstop, -⟩ := chunkSteps_run_chunkFinal session image base hindex
    rw [chunkFinal] at hstop ⊢
    rw [chunkWidth]
    omega
  rw [Finset.sum_congr rfl hchunk, Finset.sum_add_distrib, sum_chunkWidth]

/-- The last chunk does not run past its end, so only the others count. -/
theorem sum_chunkFinal_sub_chunkStop :
    ∑ index ∈ Finset.range (chunkCount image.length),
        (chunkFinal session image base index - chunkStop image index) =
      ∑ index ∈ Finset.range (chunkCount image.length - 1),
        (chunkFinal session image base index - chunkStop image index) := by
  cases hcount : chunkCount image.length with
  | zero => rfl
  | succ count =>
      have hindex : count < chunkCount image.length := by omega
      obtain ⟨-, -, hend⟩ := chunkSteps_run_chunkFinal session image base hindex
      have hlast : chunkStop image count = image.length := by
        rw [chunkStop, chunkStart, chunkSize]
        rw [chunkCount, chunkSize] at hcount
        omega
      rw [Finset.sum_range_succ, Nat.add_sub_cancel, hlast, Nat.sub_eq_zero_of_le hend,
        Nat.add_zero]

end

/-! ## Which chunks an offset belongs to -/

/-- The chunks whose sweeps went over the offset. -/
def coveringChunks {σ : Type} (session : Session σ) (image : List UInt8) (base : Address)
    (offset : Nat) : Finset Nat :=
  (Finset.range (chunkCount image.length)).filter fun index =>
    chunkStart index ≤ offset ∧ offset < chunkFinal session image base index

/-- The offset is one of the 14 from a chunk edge inside the image on. -/
def NearEdge (image : List UInt8) (offset : Nat) : Prop :=
  ∃ edge, chunkSize ∣ edge ∧ 0 < edge ∧ edge < image.length ∧ edge ≤ offset ∧ offset < edge + 14

/-- **Every chunk that went over an offset covers it once.** -/
theorem countP_covers_chunkedSteps {σ : Type} (session : Session σ) (image : List UInt8)
    (base : Address) (offset : Nat) :
    (chunkedSteps session image base).flatten.countP (fun step => step.Covers offset) =
      (coveringChunks session image base offset).card := by
  rw [List.countP_flatten, chunkedSteps, List.map_map, coveringChunks, Finset.card_filter]
  change ∑ index ∈ Finset.range (chunkCount image.length),
    (chunkSteps session image base index).countP (fun step => step.Covers offset) = _
  refine Finset.sum_congr rfl fun index hmem => ?_
  obtain ⟨⟨_, hrun⟩, -, -⟩ :=
    chunkSteps_run_chunkFinal session image base (Finset.mem_range.1 hmem)
  exact hrun.tiles.countP_covers offset

theorem mem_coveringChunks_self {σ : Type} (session : Session σ) (image : List UInt8)
    (base : Address) {offset : Nat} (hoffset : offset < image.length) :
    offset / chunkSize ∈ coveringChunks session image base offset := by
  have hlow : chunkStart (offset / chunkSize) ≤ offset := Nat.div_mul_le_self offset chunkSize
  have hhigh : offset < chunkStop image (offset / chunkSize) := by
    rw [chunkStop, chunkStart, chunkSize]
    omega
  have hindex := lt_chunkCount_of_bounds image hlow hhigh
  obtain ⟨-, hstop, -⟩ := chunkSteps_run_chunkFinal session image base hindex
  exact Finset.mem_filter.2 ⟨Finset.mem_range.2 hindex, hlow, by omega⟩

section

variable {session : Session Unit} (image : List UInt8) (base : Address) {offset : Nat}

theorem chunkFinal_lt (hwindowed : session.Windowed) {index : Nat}
    (hindex : index < chunkCount image.length) :
    chunkFinal session image base index < chunkStop image index + maxInstructionSize := by
  obtain ⟨⟨_, hrun⟩, -, -⟩ := chunkSteps_run_chunkFinal session image base hindex
  have hstart := chunkStart_le_chunkStop hindex
  exact hrun.final_lt hwindowed (by rw [maxInstructionSize]; omega)

/-- The chunks that went over an offset are its own and, near an edge, the one before. -/
theorem eq_or_near_of_mem_coveringChunks (hwindowed : session.Windowed) {index : Nat}
    (hmem : index ∈ coveringChunks session image base offset) :
    index = offset / chunkSize ∨ index + 1 = offset / chunkSize ∧ NearEdge image offset := by
  obtain ⟨hrange, hlow, hhigh⟩ := Finset.mem_filter.1 hmem
  have hindex := Finset.mem_range.1 hrange
  have hfinal := chunkFinal_lt image base hwindowed hindex
  obtain ⟨-, -, hend⟩ := chunkSteps_run_chunkFinal session image base hindex
  rw [chunkStop_eq_min, maxInstructionSize] at hfinal
  by_cases hinside : offset < chunkStart (index + 1)
  · left
    rw [chunkStart, chunkSize] at hlow hinside
    rw [chunkSize]
    omega
  · right
    refine ⟨?_, chunkStart (index + 1), ⟨index + 1, Nat.mul_comm _ _⟩, ?_, by omega, by omega,
      by omega⟩
    · rw [chunkStart, chunkSize] at hfinal hinside
      rw [chunkSize]
      omega
    · rw [chunkStart, chunkSize]
      omega

theorem card_coveringChunks_le_two (hwindowed : session.Windowed) :
    (coveringChunks session image base offset).card ≤ 2 := by
  have hsub : coveringChunks session image base offset ⊆
      {offset / chunkSize, offset / chunkSize - 1} := by
    intro index hmem
    rw [Finset.mem_insert, Finset.mem_singleton]
    rcases eq_or_near_of_mem_coveringChunks image base hwindowed hmem with heq | ⟨hnext, -⟩
    · exact .inl heq
    · exact .inr (by omega)
  exact Nat.le_trans (Finset.card_le_card hsub) Finset.card_le_two

/-- Two chunks go over an offset near an edge only. -/
theorem nearEdge_of_one_lt_card (hwindowed : session.Windowed)
    (hcard : 1 < (coveringChunks session image base offset).card) : NearEdge image offset := by
  obtain ⟨first, hfirst, second, hsecond, hne⟩ := Finset.one_lt_card.1 hcard
  rcases eq_or_near_of_mem_coveringChunks image base hwindowed hfirst with heq | ⟨-, hnear⟩
  · rcases eq_or_near_of_mem_coveringChunks image base hwindowed hsecond with heq' | ⟨-, hnear⟩
    · exact absurd (heq.trans heq'.symm) hne
    · exact hnear
  · exact hnear

end

/-! ## What was tried -/

/-- A run that does not end at once tries its first position. -/
theorem SweepRun.mem_triedOffsets {σ : Type} {image : List UInt8} {base : Address}
    {stop offset final : Nat} {session last : Session σ} {steps : List SweepStep}
    (h : SweepRun image base stop offset session steps final last) (hlt : offset < stop) :
    offset ∈ triedOffsets steps := by
  cases h with
  | done hstop => omega
  | decoded => exact List.mem_cons_self
  | skipped => exact List.mem_cons_self

/-- Nothing decodes in the rest of the image where a run skips. -/
theorem SweepRun.exists_failure_of_mem {image : List UInt8} {base : Address}
    {stop offset final : Nat} {session last : Session Unit} {steps : List SweepStep}
    (h : SweepRun image base stop offset session steps final last) (hwindowed : session.Windowed)
    {position : Nat} (hmem : .skipped position ∈ steps) :
    ∃ failure, session.decode (image.drop position) (base + UInt64.ofNat position) =
      (.error failure, session) := by
  induction h with
  | done => exact absurd hmem List.not_mem_nil
  | decoded _ hdec _ ih =>
      obtain rfl := Session.eq_of_decode hdec
      rcases List.mem_cons.1 hmem with heq | hmem
      · cases heq
      · exact ih hwindowed hmem
  | @skipped _ _ _ _ _ failure _ hlt hdec _ ih =>
      obtain rfl := Session.eq_of_decode hdec
      rcases List.mem_cons.1 hmem with heq | hmem
      · cases heq
        exact ⟨failure, by rw [← hwindowed.decode_shownAt hlt]; exact hdec⟩
      · exact ih hwindowed hmem

/-- Every chunk start was tried. -/
theorem chunkStart_mem_triedOffsets {σ : Type} (session : Session σ) (image : List UInt8)
    (base : Address) {index : Nat} (hlt : chunkStart index < image.length) :
    chunkStart index ∈ triedOffsets (chunkedSteps session image base).flatten := by
  have hstop : chunkStart index < chunkStop image index := by
    rw [chunkStop, chunkSize]
    omega
  have hindex := lt_chunkCount_of_bounds image (Nat.le_refl _) hstop
  obtain ⟨⟨_, hrun⟩, -, -⟩ := chunkSteps_run_chunkFinal session image base hindex
  obtain ⟨step, hmem, hoffset⟩ := List.mem_map.1 (hrun.mem_triedOffsets hstop)
  refine List.mem_map.2 ⟨step, ?_, hoffset⟩
  exact (mem_flatten_chunkedSteps session image base).2 ⟨index, hindex, hmem⟩

/-! ## The sweep in chunks -/

namespace Sweep

/-- What an outcome does to the bytes of an image that is swept in chunks, given the offsets at
which nothing decoded: no byte is lost, and bytes are found twice only behind chunk edges. -/
structure CoversChunks (sweep : Sweep) (image : List UInt8) (base : Address)
    (skips : List Nat) : Prop where
  /-- The skipped offsets are counted, each of them once. -/
  counted : skips.Nodup ∧ skips.length = sweep.skipped
  /-- Every offset lies in an instruction, or it was skipped. -/
  covered : ∀ offset < image.length,
    (∃ insn ∈ sweep.instructions, insn.Spans base offset) ∨ offset ∈ skips
  /-- No two instructions start at the same offset. -/
  distinct : (sweep.starts base).Nodup
  /-- Every instruction ends inside the image. -/
  inside : ∀ insn ∈ sweep.instructions, insn.imageOffset base + insn.size.toNat ≤ image.length
  /-- No offset lies in more than two instructions. -/
  atMostTwice : ∀ offset, sweep.instructions.countP (fun insn => insn.Spans base offset) ≤ 2
  /-- An offset in two instructions lies behind an edge. -/
  nearEdge : ∀ offset, sweep.instructions.countP (fun insn => insn.Spans base offset) = 2 →
    NearEdge image offset
  /-- An offset that was skipped although it lies in an instruction lies behind an edge. -/
  nearEdge_skipped : ∀ offset ∈ skips, ∀ insn ∈ sweep.instructions, insn.Spans base offset →
    NearEdge image offset
  /-- Sizes and skips add up to the bytes of the image and those found again. -/
  total : (sweep.instructions.map fun insn => insn.size.toNat).sum + sweep.skipped =
    image.length +
      ∑ index ∈ Finset.range (chunkCount image.length - 1), sweep.overrun image base index
  /-- No chunk runs past its end by more than 14 bytes. -/
  overrun_le : ∀ index < chunkCount image.length - 1, sweep.overrun image base index ≤ 14

end Sweep

section

variable {session : Session Unit} {image : List UInt8} {base : Address}

variable (session base) in
/-- The instructions and skips at an offset, counted together, are the chunks that went over it. -/
theorem countP_spans_add_count (hsize : image.length ≤ UInt64.size) (offset : Nat) :
    (Sweep.ofSteps (chunkedSteps session image base).flatten).instructions.countP
        (fun insn => insn.Spans base offset) +
      (skippedOffsets (chunkedSteps session image base).flatten).count offset =
        (coveringChunks session image base offset).card := by
  rw [← (located_chunkedSteps session image base hsize).countP_covers, countP_covers_chunkedSteps]

/-- **Coverage**, for the steps of all chunks. -/
theorem coversChunks_ofSteps (hwindowed : session.Windowed)
    (hsize : image.length ≤ UInt64.size) :
    (Sweep.ofSteps (chunkedSteps session image base).flatten).CoversChunks image base
      (skippedOffsets (chunkedSteps session image base).flatten) where
  counted := by
    refine ⟨?_, length_skippedOffsets _⟩
    have hincreasing := pairwise_chunkedSteps session image base
    exact (hincreasing.sublist (List.filter_sublist.map _)).imp Nat.ne_of_lt
  covered := by
    intro offset hoffset
    have hcard := countP_spans_add_count session base hsize offset
    have hpos := Finset.card_pos.2 ⟨_, mem_coveringChunks_self session image base hoffset⟩
    by_cases hskip : offset ∈ skippedOffsets (chunkedSteps session image base).flatten
    · exact .inr hskip
    · rw [← hcard, List.count_eq_zero.2 hskip, Nat.add_zero] at hpos
      obtain ⟨insn, hin, hspans⟩ := List.countP_pos_iff.1 hpos
      exact .inl ⟨insn, hin, of_decide_eq_true hspans⟩
  distinct := by
    have hlocated := located_chunkedSteps session image base hsize
    refine List.pairwise_map.2 ?_
    refine (hlocated.pairwise_instructions (pairwise_chunkedSteps session image base)).imp ?_
    exact Nat.ne_of_lt
  inside := by
    intro insn hin
    obtain ⟨found, hmem⟩ := Sweep.mem_instructions_ofSteps.1 hin
    rw [located_chunkedSteps session image base hsize found insn hmem]
    obtain ⟨index, hindex, hmem⟩ := (mem_flatten_chunkedSteps session image base).1 hmem
    obtain ⟨⟨_, hrun⟩, -, hend⟩ := chunkSteps_run_chunkFinal session image base hindex
    exact Nat.le_trans (hrun.tiles.bounds_of_mem _ hmem).2 hend
  atMostTwice := by
    intro offset
    have hcard := countP_spans_add_count session base hsize offset
    have htwo : (coveringChunks session image base offset).card ≤ 2 :=
      card_coveringChunks_le_two image base hwindowed
    omega
  nearEdge := by
    intro offset htwo
    have hcard := countP_spans_add_count session base hsize offset
    exact nearEdge_of_one_lt_card image base hwindowed (by omega)
  nearEdge_skipped := by
    intro offset hskip insn hin hspans
    have hcard := countP_spans_add_count session base hsize offset
    have hcount := List.count_pos_iff.2 hskip
    have hcountP : 0 < (Sweep.ofSteps (chunkedSteps session image base).flatten).instructions.countP
        fun insn => insn.Spans base offset :=
      List.countP_pos_iff.2 ⟨insn, hin, decide_eq_true hspans⟩
    exact nearEdge_of_one_lt_card image base hwindowed (by omega)
  total := by
    rw [Sweep.sum_size_ofSteps, sum_size_chunkedSteps, sum_chunkFinal_sub_chunkStop]
    congr 1
    refine Finset.sum_congr rfl fun index hmem => ?_
    have hindex := Finset.mem_range.1 hmem
    exact (overrun_chunkedSteps session image base hsize (by omega)).symm
  overrun_le := by
    intro index hindex
    have hchunk : index < chunkCount image.length := by omega
    have hfinal := chunkFinal_lt image base hwindowed hchunk
    rw [maxInstructionSize] at hfinal
    rw [overrun_chunkedSteps session image base hsize hchunk]
    omega

end

/-- **The sweep in chunks loses no byte, and finds bytes twice only behind chunk edges.**  Every
chunk start was tried; nothing decodes at a skipped offset; and together the instructions and the
skipped offsets cover the image as `Sweep.CoversChunks` says.  The engine never reports more bytes
than the window it is shown; an image is no longer than its offsets, which are words, can count. -/
theorem parallelSweep_covers (mode : MachineMode) (engine : Engine) (hengine : engine.Bounded)
    (image : List UInt8) (base : Address) (hsize : image.length ≤ UInt64.size) :
    ∃ chunks sweep,
      allChunkSteps (fun _ => Session.create mode (.ok engine)) image base = .ok chunks ∧
      parallelSweep (fun _ => Session.create mode (.ok engine)) image base = .ok sweep ∧
      (∀ k, chunkSize * k < image.length → chunkSize * k ∈ triedOffsets chunks.flatten) ∧
      (∀ offset ∈ skippedOffsets chunks.flatten, offset < image.length ∧
        ∃ failure, (Session.ofEngine mode engine).decode (image.drop offset)
          (base + UInt64.ofNat offset) = (.error failure, Session.ofEngine mode engine)) ∧
      sweep.CoversChunks image base (skippedOffsets chunks.flatten) := by
  have hwindowed : (Session.ofEngine mode engine).Windowed := Session.windowed_ofEngine hengine
  refine ⟨_, _, allChunkSteps_eq (Session.ofEngine mode engine) image base,
    parallelSweep_eq_ofSteps (Session.ofEngine mode engine) image base hsize, ?_, ?_,
    coversChunks_ofSteps hwindowed hsize⟩
  · intro k hlt
    rw [Nat.mul_comm] at hlt ⊢
    exact chunkStart_mem_triedOffsets _ image base hlt
  · intro offset hskip
    obtain ⟨index, hindex, hmem⟩ :=
      (mem_flatten_chunkedSteps _ image base).1 (mem_skippedOffsets.1 hskip)
    obtain ⟨-, hstop⟩ := chunkSteps_bounds _ image base index _ hmem
    obtain ⟨⟨_, hrun⟩, -, -⟩ := chunkSteps_run_chunkFinal _ image base hindex
    exact ⟨Nat.lt_of_lt_of_le hstop (chunkStop_le image index),
      hrun.exists_failure_of_mem hwindowed hmem⟩

/-- In an image of moves of five bytes, the last of which runs over the first edge, and a `nop`, the
second chunk finds two `nop`s in the move and skips two of its bytes. -/
theorem parallelSweep_covers_move :
    let session := Session.ofEngine .long64 Engine.nopMove
    let image : List UInt8 := (List.replicate 820 [0xb8, 0x90, 0x90, 0x06, 0x06]).flatten ++ [0x90]
    let base : Address := 0xfffffffffffff000
    Engine.nopMove.Bounded ∧ image.length ≤ UInt64.size ∧
      chunkFinal session image base 0 = 4100 ∧
      skippedOffsets (chunkSteps session image base 1) = [4098, 4099] ∧
      ∃ sweep skips,
        parallelSweep (fun _ => Session.create .long64 (.ok Engine.nopMove)) image base =
          .ok sweep ∧ sweep.CoversChunks image base skips := by
  intro session image base
  have hsize : image.length ≤ UInt64.size := by decide +kernel
  obtain ⟨chunks, sweep, -, hsweep, -, -, hcovers⟩ :=
    parallelSweep_covers .long64 Engine.nopMove Engine.bounded_nopMove image base hsize
  exact ⟨Engine.bounded_nopMove, hsize, by decide +kernel, by decide +kernel, sweep,
    skippedOffsets chunks.flatten, hsweep, hcovers⟩

end X86Listing
