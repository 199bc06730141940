import Mathlib
import X86Listing.Proofs.Sweep.Run

/-!
# The steps of a sweep tile the image

Every step of a sweep goes forward by at least one byte, and the next step starts where it ends.
So the spans of the steps cut the bytes that were swept into pieces: none is lost and none belongs
to two steps.

* `SweepRun.tiles` — the steps of a run tile what lies between its two positions.
* `Tiles.sum_size` — their sizes add up.
* `Tiles.pairwise` — their spans come one after the other.
* `Tiles.exists_covers` and `Tiles.eq_of_covers` — every offset lies in exactly one span.
-/

namespace X86Listing

/-- The offset lies in the span of the step. -/
def SweepStep.Covers (step : SweepStep) (offset : Nat) : Prop :=
  step.offset ≤ offset ∧ offset < step.offset + step.size

/-- The steps go forward from `start` to `stop`, each from where the one before it ended. -/
def Tiles : (start : Nat) → List SweepStep → (stop : Nat) → Prop
  | start, [], stop => start = stop
  | start, step :: steps, stop =>
      step.offset = start ∧ 1 ≤ step.size ∧ Tiles (start + step.size) steps stop

namespace Tiles

variable {start stop : Nat} {steps : List SweepStep}

/-- Nothing is lost: the sizes of the steps add up. -/
theorem sum_size (h : Tiles start steps stop) :
    start + (steps.map SweepStep.size).sum = stop := by
  induction steps generalizing start with
  | nil => exact h
  | cons step steps ih =>
      rw [List.map_cons, List.sum_cons, ← Nat.add_assoc]
      exact ih h.2.2

/-- Every span lies between the two ends. -/
theorem bounds_of_mem (h : Tiles start steps stop) :
    ∀ step ∈ steps, start ≤ step.offset ∧ step.offset + step.size ≤ stop := by
  induction steps generalizing start with
  | nil => intro step hmem; exact absurd hmem List.not_mem_nil
  | cons first steps ih =>
      obtain ⟨hoffset, hsize, hrest⟩ := h
      have hsum := sum_size hrest
      intro step hmem
      rcases List.mem_cons.1 hmem with rfl | hmem
      · exact ⟨by omega, by omega⟩
      · obtain ⟨hlow, hhigh⟩ := ih hrest step hmem
        exact ⟨by omega, hhigh⟩

/-- The spans come one after the other. -/
theorem pairwise (h : Tiles start steps stop) :
    steps.Pairwise fun a b => a.offset + a.size ≤ b.offset := by
  induction steps generalizing start with
  | nil => exact List.Pairwise.nil
  | cons first steps ih =>
      obtain ⟨hoffset, -, hrest⟩ := h
      refine List.pairwise_cons.2 ⟨?_, ih hrest⟩
      intro step hmem
      rw [hoffset]
      exact (bounds_of_mem hrest step hmem).1

/-- Every step goes forward. -/
theorem size_pos_of_mem (h : Tiles start steps stop) : ∀ step ∈ steps, 1 ≤ step.size := by
  induction steps generalizing start with
  | nil => intro step hmem; exact absurd hmem List.not_mem_nil
  | cons first steps ih =>
      intro step hmem
      rcases List.mem_cons.1 hmem with rfl | hmem
      · exact h.2.1
      · exact ih h.2.2 step hmem

/-- The positions that are tried increase. -/
theorem pairwise_offset (h : Tiles start steps stop) :
    (steps.map SweepStep.offset).Pairwise (· < ·) := by
  rw [List.pairwise_map]
  refine h.pairwise.imp_of_mem ?_
  intro a b ha _ hab
  have := h.size_pos_of_mem a ha
  omega

/-- Every offset between the two ends lies in a span. -/
theorem exists_covers (h : Tiles start steps stop) {offset : Nat} (hlow : start ≤ offset)
    (hhigh : offset < stop) : ∃ step ∈ steps, step.Covers offset := by
  induction steps generalizing start with
  | nil =>
      have hend : start = stop := h
      omega
  | cons first steps ih =>
      obtain ⟨hoffset, -, hrest⟩ := h
      by_cases hin : offset < start + first.size
      · exact ⟨first, List.mem_cons_self, by rw [hoffset]; exact hlow, by rw [hoffset]; exact hin⟩
      · obtain ⟨step, hmem, hcovers⟩ := ih hrest (by omega)
        exact ⟨step, List.mem_cons_of_mem _ hmem, hcovers⟩

/-- No offset lies in two spans. -/
theorem eq_of_covers (h : Tiles start steps stop) {a b : SweepStep} (ha : a ∈ steps)
    (hb : b ∈ steps) {offset : Nat} (hca : a.Covers offset) (hcb : b.Covers offset) : a = b := by
  induction steps generalizing start with
  | nil => exact absurd ha List.not_mem_nil
  | cons first steps ih =>
      obtain ⟨hoffset, -, hrest⟩ := h
      obtain ⟨hla, hha⟩ := hca
      obtain ⟨hlb, hhb⟩ := hcb
      rcases List.mem_cons.1 ha with rfl | ha'
      · rcases List.mem_cons.1 hb with rfl | hb'
        · rfl
        · have := (bounds_of_mem hrest b hb').1
          omega
      · rcases List.mem_cons.1 hb with rfl | hb'
        · have := (bounds_of_mem hrest a ha').1
          omega
        · exact ih hrest ha' hb'

end Tiles

/-! ## Runs tile -/

namespace SweepRun

variable {σ : Type} {image : List UInt8} {base : Address} {stop offset final : Nat}
  {session last : Session σ} {steps : List SweepStep}

/-- **The steps of a run tile the bytes between its first and its last position.** -/
theorem tiles (h : SweepRun image base stop offset session steps final last) :
    Tiles offset steps final := by
  induction h with
  | done => exact rfl
  | decoded _ hdec _ ih => exact ⟨rfl, Session.size_pos_of_decode hdec, ih⟩
  | skipped _ _ _ ih => exact ⟨rfl, Nat.le_refl 1, ih⟩

/-- Every position that is tried lies before `stop`. -/
theorem offset_lt_of_mem (h : SweepRun image base stop offset session steps final last) :
    ∀ step ∈ steps, step.offset < stop := by
  induction h with
  | done => intro step hmem; exact absurd hmem List.not_mem_nil
  | decoded hlt _ _ ih =>
      intro step hmem
      rcases List.mem_cons.1 hmem with rfl | hmem
      · exact hlt
      · exact ih step hmem
  | skipped hlt _ _ ih =>
      intro step hmem
      rcases List.mem_cons.1 hmem with rfl | hmem
      · exact hlt
      · exact ih step hmem

/-- An instruction stands at the address of the position where it was found. -/
theorem address_of_mem (h : SweepRun image base stop offset session steps final last) {found : Nat}
    {insn : Instruction} (hmem : .decoded found insn ∈ steps) :
    insn.address = base + UInt64.ofNat found := by
  induction h with
  | done => exact absurd hmem List.not_mem_nil
  | decoded _ hdec _ ih =>
      rcases List.mem_cons.1 hmem with heq | hmem
      · cases heq
        exact Session.address_of_decode hdec
      · exact ih hmem
  | skipped _ _ _ ih =>
      rcases List.mem_cons.1 hmem with heq | hmem
      · cases heq
      · exact ih hmem

end SweepRun

end X86Listing
