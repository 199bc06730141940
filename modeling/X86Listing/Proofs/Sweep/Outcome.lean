import X86Listing.Proofs.Sweep.Tiling
import X86Listing.Sweep.Chunked

/-!
# The outcome of a sweep

An outcome is a list of instructions and a number.  It does not say where in the image an
instruction was found, but the address does: less the image's base, and modulo `2 ^ 64`, it is the
offset (`SweepRun.imageOffset_of_mem`), also where addresses wrap.  So the outcome of a run tells
all of its steps' spans.
-/

namespace X86Listing

/-! ## Offsets of instructions -/

namespace Instruction

/-- The offset of the instruction in an image that starts at `base`, as a number. -/
def imageOffset (insn : Instruction) (base : Address) : Nat :=
  (insn.offsetFrom base).toNat

/-- The offset lies in the span of the instruction, in an image that starts at `base`. -/
def Spans (insn : Instruction) (base : Address) (offset : Nat) : Prop :=
  insn.imageOffset base ≤ offset ∧ offset < insn.imageOffset base + insn.size.toNat

instance (insn : Instruction) (base : Address) (offset : Nat) :
    Decidable (insn.Spans base offset) :=
  inferInstanceAs (Decidable (_ ∧ _))

/-- The address gives the offset back, also where it wraps. -/
theorem imageOffset_eq {insn : Instruction} {base : Address} {offset : Nat}
    (haddress : insn.address = base + UInt64.ofNat offset) (hoffset : offset < UInt64.size) :
    insn.imageOffset base = offset := by
  rw [imageOffset, offsetFrom, haddress, UInt64.add_comm, UInt64.add_sub_cancel,
    UInt64.toNat_ofNat_of_lt' hoffset]

end Instruction

variable {σ : Type} {image : List UInt8} {base : Address} {stop offset final : Nat}
  {session last : Session σ} {steps : List SweepStep}

namespace SweepRun

/-- **Instructions are found where their addresses say.** -/
theorem imageOffset_of_mem (h : SweepRun image base stop offset session steps final last)
    (hstop : stop ≤ UInt64.size) {found : Nat} {insn : Instruction}
    (hmem : .decoded found insn ∈ steps) : insn.imageOffset base = found := by
  have hfound : found < stop := h.offset_lt_of_mem _ hmem
  exact Instruction.imageOffset_eq (h.address_of_mem hmem) (by omega)

end SweepRun

/-! ## Reading the outcome off the steps -/

namespace Sweep

theorem mem_instructions_ofSteps {steps : List SweepStep} {insn : Instruction} :
    insn ∈ (ofSteps steps).instructions ↔ ∃ offset, .decoded offset insn ∈ steps := by
  rw [ofSteps, List.mem_filterMap]
  constructor
  · rintro ⟨step, hmem, hstep⟩
    cases step with
    | decoded offset found =>
        cases hstep
        exact ⟨offset, hmem⟩
    | skipped offset => cases hstep
  · rintro ⟨offset, hmem⟩
    exact ⟨_, hmem, rfl⟩

theorem ofSteps_decoded (offset : Nat) (insn : Instruction) (steps : List SweepStep) :
    ofSteps (.decoded offset insn :: steps) =
      ⟨insn :: (ofSteps steps).instructions, (ofSteps steps).skipped⟩ :=
  rfl

theorem ofSteps_skipped (offset : Nat) (steps : List SweepStep) :
    ofSteps (.skipped offset :: steps) =
      ⟨(ofSteps steps).instructions, (ofSteps steps).skipped + 1⟩ := by
  simp [ofSteps, List.filterMap_cons, SweepStep.instruction?, List.countP_cons, SweepStep.isSkip]

/-- The sizes of the instructions and the skipped bytes add up to the sizes of the steps. -/
theorem sum_size_ofSteps (steps : List SweepStep) :
    ((ofSteps steps).instructions.map fun insn => insn.size.toNat).sum + (ofSteps steps).skipped =
      (steps.map SweepStep.size).sum := by
  induction steps with
  | nil => rfl
  | cons step steps ih =>
      cases step with
      | decoded offset insn =>
          rw [ofSteps_decoded, List.map_cons, List.map_cons, List.sum_cons, List.sum_cons,
            SweepStep.size, ← ih, Nat.add_assoc]
      | skipped offset =>
          rw [ofSteps_skipped, List.map_cons, List.sum_cons, SweepStep.size, ← ih,
            Nat.add_comm 1, Nat.add_assoc]

/-- Every step is an instruction or a skipped byte. -/
theorem length_ofSteps (steps : List SweepStep) :
    (ofSteps steps).instructions.length + (ofSteps steps).skipped = steps.length := by
  induction steps with
  | nil => rfl
  | cons step steps ih =>
      cases step with
      | decoded offset insn =>
          rw [ofSteps_decoded, List.length_cons, List.length_cons, ← ih, Nat.add_right_comm]
      | skipped offset =>
          rw [ofSteps_skipped, List.length_cons, ← ih, Nat.add_assoc]

end Sweep

namespace SweepRun

/-- Instructions come in the order of their offsets, each behind the one before it. -/
theorem pairwise_instructions (h : SweepRun image base stop offset session steps final last)
    (hstop : stop ≤ UInt64.size) :
    (Sweep.ofSteps steps).instructions.Pairwise fun a b =>
      a.imageOffset base + a.size.toNat ≤ b.imageOffset base := by
  refine List.pairwise_filterMap.2 (h.tiles.pairwise.imp_of_mem ?_)
  intro x y hx hy hxy a ha b hb
  cases x with
  | skipped => cases ha
  | decoded offsetA insnA =>
      cases y with
      | skipped => cases hb
      | decoded offsetB insnB =>
          cases ha
          cases hb
          rw [h.imageOffset_of_mem hstop hx, h.imageOffset_of_mem hstop hy]
          exact hxy

end SweepRun

end X86Listing
