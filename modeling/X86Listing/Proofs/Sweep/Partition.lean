import X86Listing.Proofs.Sweep.Outcome

/-!
# The linear sweep partitions the image

Whatever the decoder answers, the instructions of a linear sweep and the bytes that it skips are a
partition of the image: `linearSweep_partition`.  The instructions come in the order of their
offsets, none of them empty and none reaching into the next or out of the image; what they leave
over is what was skipped, and the skipped bytes are those at which decoding failed, each with its
line in the log.  The decoder is called once for every instruction and once for every skipped
byte.
-/

namespace X86Listing

variable {σ : Type}

/-! ## Gaps -/

namespace Sweep

/-- The offsets at which the instructions start. -/
def starts (sweep : Sweep) (base : Address) : List Nat :=
  sweep.instructions.map fun insn => insn.imageOffset base

/-- The offsets of an image of `size` bytes that lie in no instruction's span, in increasing
order. -/
def gaps (sweep : Sweep) (base : Address) (size : Nat) : List Nat :=
  (List.range size).filter fun offset => ∀ insn ∈ sweep.instructions, ¬ insn.Spans base offset

/-- **The instructions partition an image** of `size` bytes, together with single bytes. -/
structure Partition (sweep : Sweep) (base : Address) (size : Nat) : Prop where
  /-- Instructions start at increasing offsets. -/
  increasing : (sweep.starts base).Pairwise (· < ·)
  /-- No instruction is empty. -/
  nonempty : ∀ insn ∈ sweep.instructions, 1 ≤ insn.size.toNat
  /-- No offset lies in the spans of two instructions. -/
  disjoint : sweep.instructions.Pairwise fun a b =>
    ∀ offset, ¬ (a.Spans base offset ∧ b.Spans base offset)
  /-- Every span lies in the image. -/
  inside : ∀ insn ∈ sweep.instructions, insn.imageOffset base + insn.size.toNat ≤ size
  /-- The sizes and the skipped bytes add up to the image. -/
  total : (sweep.instructions.map fun insn => insn.size.toNat).sum + sweep.skipped = size

end Sweep

/-! ## A run from end to end -/

namespace SweepRun

variable {image : List UInt8} {base : Address} {stop offset final : Nat}
  {session last : Session σ} {steps : List SweepStep}

/-- The step of an instruction covers what the instruction spans. -/
theorem spans_iff_covers (h : SweepRun image base stop offset session steps final last)
    (hstop : stop ≤ UInt64.size) {found : Nat} {insn : Instruction}
    (hmem : .decoded found insn ∈ steps) (position : Nat) :
    insn.Spans base position ↔ (SweepStep.decoded found insn).Covers position := by
  rw [Instruction.Spans, SweepStep.Covers, h.imageOffset_of_mem hstop hmem]
  rfl

/-- A swept offset that no instruction spans is one that was skipped. -/
theorem forall_not_spans_iff (h : SweepRun image base stop offset session steps final last)
    (hstop : stop ≤ UInt64.size) {position : Nat} (hlow : offset ≤ position)
    (hhigh : position < final) :
    (∀ insn ∈ (Sweep.ofSteps steps).instructions, ¬ insn.Spans base position) ↔
      .skipped position ∈ steps := by
  constructor
  · intro hgap
    obtain ⟨step, hmem, hcovers⟩ := h.tiles.exists_covers hlow hhigh
    cases step with
    | decoded found insn =>
        have hin := Sweep.mem_instructions_ofSteps.2 ⟨found, hmem⟩
        exact absurd ((h.spans_iff_covers hstop hmem position).2 hcovers) (hgap insn hin)
    | skipped found =>
        obtain ⟨hle, hlt⟩ : found ≤ position ∧ position < found + 1 := hcovers
        rwa [show position = found by omega]
  · intro hskip insn hin hspans
    obtain ⟨found, hmem⟩ := Sweep.mem_instructions_ofSteps.1 hin
    have hcovers := (h.spans_iff_covers hstop hmem position).1 hspans
    have heq := h.tiles.eq_of_covers hmem hskip hcovers ⟨Nat.le_refl _, Nat.lt_succ_self _⟩
    cases heq

/-- The instructions of a run start where its decoded steps were tried. -/
theorem starts_eq (h : SweepRun image base stop offset session steps final last)
    (hstop : stop ≤ UInt64.size) :
    (Sweep.ofSteps steps).starts base =
      (steps.filter fun step => !step.isSkip).map SweepStep.offset := by
  induction h with
  | done => rfl
  | @decoded found _ _ _ _ insn _ hlt hdec hrest ih =>
      have hfound : insn.imageOffset base = found :=
        Instruction.imageOffset_eq (Session.address_of_decode hdec) (by omega)
      rw [Sweep.ofSteps_decoded, Sweep.starts, List.map_cons, hfound]
      exact congrArg (found :: ·) ih
  | skipped _ _ _ ih => exact ih

/-- The gaps of a run over a whole image are the offsets that it skipped, in the same order. -/
theorem gaps_eq (h : SweepRun image base stop 0 session steps stop last)
    (hstop : stop ≤ UInt64.size) :
    (Sweep.ofSteps steps).gaps base stop =
      (steps.filter SweepStep.isSkip).map SweepStep.offset := by
  have hgaps : ((Sweep.ofSteps steps).gaps base stop).Pairwise (· < ·) :=
    List.pairwise_lt_range.filter _
  have hskips : ((steps.filter SweepStep.isSkip).map SweepStep.offset).Pairwise (· < ·) :=
    h.tiles.pairwise_offset.sublist (List.filter_sublist.map _)
  refine hgaps.eq_of_mem_iff hskips ?_
  intro position
  rw [Sweep.gaps, List.mem_filter, List.mem_range, decide_eq_true_eq, List.mem_map]
  constructor
  · rintro ⟨hlt, hgap⟩
    have hskip := (h.forall_not_spans_iff hstop (Nat.zero_le _) hlt).1 hgap
    exact ⟨_, List.mem_filter.2 ⟨hskip, rfl⟩, rfl⟩
  · rintro ⟨step, hmem, rfl⟩
    obtain ⟨hmem, hskip⟩ := List.mem_filter.1 hmem
    have hlt := h.offset_lt_of_mem step hmem
    cases step with
    | decoded => cases hskip
    | skipped found => exact ⟨hlt, (h.forall_not_spans_iff hstop (Nat.zero_le _) hlt).2 hmem⟩

/-- **Partition**, for a run over a whole image. -/
theorem partition (h : SweepRun image base stop 0 session steps stop last)
    (hstop : stop ≤ UInt64.size) : (Sweep.ofSteps steps).Partition base stop where
  increasing := by
    rw [h.starts_eq hstop]
    exact h.tiles.pairwise_offset.sublist (List.filter_sublist.map _)
  nonempty := by
    intro insn hin
    obtain ⟨found, hmem⟩ := Sweep.mem_instructions_ofSteps.1 hin
    exact h.tiles.size_pos_of_mem _ hmem
  disjoint := by
    refine (h.pairwise_instructions hstop).imp ?_
    rintro a b hab position ⟨⟨-, ha⟩, ⟨hb, -⟩⟩
    omega
  inside := by
    intro insn hin
    obtain ⟨found, hmem⟩ := Sweep.mem_instructions_ofSteps.1 hin
    rw [h.imageOffset_of_mem hstop hmem]
    exact (h.tiles.bounds_of_mem _ hmem).2
  total := by
    rw [Sweep.sum_size_ofSteps]
    simpa using h.tiles.sum_size

/-! ## Calls -/

/-- A run of a recording decoder takes the same steps, and every step leaves one call behind. -/
theorem recorded (h : SweepRun image base stop offset session steps final last)
    (hstop : stop ≤ image.length) (calls : List (List UInt8)) :
    SweepRun image base stop offset (session.recorded calls) steps final
      (last.recorded
        ((steps.map fun step => shownAt image stop step.offset).reverse ++ calls)) := by
  induction h generalizing calls with
  | done hdone => exact .done hdone
  | decoded hlt hdec _ ih =>
      have hrec := Session.decode_recorded calls (shownAt_ne_nil hstop hlt) |>.trans (by rw [hdec])
      rw [List.map_cons, List.reverse_cons, List.append_assoc, List.singleton_append]
      exact .decoded hlt hrec (ih _)
  | skipped hlt hdec _ ih =>
      have hrec := Session.decode_recorded calls (shownAt_ne_nil hstop hlt) |>.trans (by rw [hdec])
      rw [List.map_cons, List.reverse_cons, List.append_assoc, List.singleton_append]
      exact .skipped hlt hrec (ih _)

end SweepRun

/-- What a run skips is what the log tells, line by line. -/
theorem filterMap_logLine (base : Address) (steps : List SweepStep) :
    steps.filterMap (SweepStep.logLine? base) =
      ((steps.filter SweepStep.isSkip).map SweepStep.offset).map fun offset =>
        ⟨.trace, "Nothing decodes at " ++ Text.markedString (base + UInt64.ofNat offset).toNat ++
          ", skipping a byte"⟩ := by
  induction steps with
  | nil => rfl
  | cons step steps ih =>
      cases step with
      | decoded offset insn => exact ih
      | skipped offset => exact congrArg (_ :: ·) ih

/-! ## The linear sweep -/

/-- **The linear sweep partitions the image**, whatever its decoder answers.  The instructions are
a partition together with the skipped bytes.  The offsets that lie in no span are those at which a
decode call of the loop failed, and the log has one line for each of them, in order, before its
summary.  The decoder is called exactly once at the start of each instruction and once at each
skipped offset, from front to back, and is shown the image from there on.  An image is no longer
than its offsets, which are words, can count. -/
theorem linearSweep_partition (session : Session σ) (image : List UInt8) (base : Address)
    (elapsed : String) (hsize : image.length ≤ UInt64.size) :
    let steps := (session.linearSteps image base).1
    let sweep := session.linearSweep image base
    let gaps := sweep.gaps base image.length
    sweep.Partition base image.length ∧
    (SweepRun image base image.length 0 session steps image.length
        (session.linearSteps image base).2 ∧
      (steps.filter SweepStep.isSkip).map SweepStep.offset = gaps) ∧
    (∃ summary : LogLine, summary.level = .debug ∧
      linearLog image base steps elapsed =
        (gaps.map fun offset => ⟨.trace, "Nothing decodes at " ++
          Text.markedString (base + UInt64.ofNat offset).toNat ++ ", skipping a byte"⟩) ++
        [summary]) ∧
    ∃ tried : List Nat, tried.Pairwise (· < ·) ∧ tried.Perm (sweep.starts base ++ gaps) ∧
      tried.length = sweep.instructions.length + sweep.skipped ∧
      (session.recorded []).linearSweep image base = sweep ∧
      ((session.recorded []).linearSteps image base).2.state.2 =
        (tried.map fun offset => image.drop offset).reverse := by
  intro steps sweep gaps
  have hrun := session.linearSteps_run image base
  have hgaps : gaps = (steps.filter SweepStep.isSkip).map SweepStep.offset := hrun.gaps_eq hsize
  refine ⟨hrun.partition hsize, ⟨hrun, hgaps.symm⟩, ?_, ?_⟩
  · have hlog : linearLog image base steps elapsed =
        steps.filterMap (SweepStep.logLine? base) ++ [_] := rfl
    rw [filterMap_logLine, ← hgaps] at hlog
    exact ⟨_, rfl, hlog⟩
  · have hrec := hrun.recorded (Nat.le_refl _) []
    obtain ⟨hsteps, -, hlast⟩ :=
      ((session.recorded []).linearSteps_run image base).deterministic hrec
    have hshown : ∀ position, shownAt image image.length position = image.drop position := by
      intro position
      rw [shownAt, windowEnd_length, List.take_length]
    refine ⟨steps.map SweepStep.offset, hrun.tiles.pairwise_offset, ?_, ?_, ?_, ?_⟩
    · rw [hgaps, show sweep.starts base = _ from hrun.starts_eq hsize, ← List.map_append]
      refine List.Perm.map _ ?_
      have hperm := List.filter_append_perm SweepStep.isSkip steps
      exact (List.perm_append_comm.trans hperm).symm
    · rw [List.length_map]
      exact (Sweep.length_ofSteps steps).symm
    · rw [Session.linearSweep, hsteps]
      rfl
    · rw [hlast, List.append_nil, List.map_map]
      simp only [Session.recorded, hshown, Function.comp_def]
      rfl

/-- A session whose decoder gives the answers of a script one after the other, whatever it is
shown: instructions of the given lengths, or nothing. -/
def Session.scripted (lengths : List (Option UInt8)) : Session (List (Option UInt8)) where
  decoder := {
    mode := .long64
    answer := fun _ script =>
      (script.headD none |>.map fun length => ⟨length, .invalid, [], .untouched⟩, script.tail) }
  state := lengths

/-- Six bytes that wrap around the end of the address space, and a decoder that answers with two
bytes, none, too many, nothing at all and one: the last byte is decoded, the three before it are
skipped. -/
theorem linearSweep_partition_scripted :
    let session := Session.scripted [some 2, some 0, some 9, none, some 1]
    let image : List UInt8 := [0xeb, 0xfe, 0x0f, 0x0f, 0x0f, 0x90]
    let sweep := session.linearSweep image 0xfffffffffffffffe
    image.length ≤ UInt64.size ∧ sweep.starts 0xfffffffffffffffe = [0, 5] ∧
      sweep.instructions.map Instruction.address = [0xfffffffffffffffe, 3] ∧
      sweep.gaps 0xfffffffffffffffe 6 = [2, 3, 4] ∧ sweep.skipped = 3 ∧
      sweep.Partition 0xfffffffffffffffe 6 :=
  ⟨by decide, by decide, by decide, by decide, by decide,
    (linearSweep_partition _ _ _ "" (by decide)).1⟩

end X86Listing
