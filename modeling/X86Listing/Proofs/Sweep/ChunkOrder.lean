import X86Listing.Proofs.Sweep.Merged
import X86Listing.Proofs.Traversal

/-!
# The order in which chunks are put together

Chunks are swept at the same time, so they may come in any order.  The key by which their
instructions are sorted, the address less the base, is the offset in the image, also where addresses
wrap; no two instructions of any chunks have the same one.  So every order of the chunks gives the
same listing, which is the chunks' listings in a row (`Sweep.merge_of_perm`).

A chunk whose session cannot be opened leaves no listing at all: the first such chunk's error is the
result, whatever the others found.

* `Sweep.eq_of_sorted` — there is one way only to sort instructions with distinct offsets.
* `parallelSweep_of_opened`, `parallelSweep_of_first_error` — the two results.
* `parallelSweep_merges` — both together.
-/

namespace X86Listing

/-! ## Sorting by distinct offsets -/

namespace Sweep

/-- Instructions at increasing offsets are the only way to sort them by offset. -/
theorem eq_of_sorted {base : Address} {sorted listing : List Instruction}
    (hperm : sorted.Perm listing)
    (hsorted : sorted.Pairwise fun a b => a.imageOffset base ≤ b.imageOffset base)
    (hlisting : listing.Pairwise fun a b => a.imageOffset base < b.imageOffset base) :
    sorted = listing := by
  have hdistinct : (listing.map fun insn => insn.imageOffset base).Nodup :=
    List.pairwise_map.2 (hlisting.imp fun hab => Nat.ne_of_lt hab)
  refine hperm.eq_of_pairwise ?_ hsorted (hlisting.imp fun hab => Nat.le_of_lt hab)
  intro a b ha hb hab hba
  exact List.inj_on_of_nodup_map hdistinct (hperm.mem_iff.1 ha) hb (Nat.le_antisymm hab hba)

theorem skipped_merge (base : Address) (parts : List Sweep) :
    (merge base parts).skipped = (parts.map Sweep.skipped).sum := by
  induction parts with
  | nil => rfl
  | cons part parts ih =>
      rw [List.map_cons, List.sum_cons, ← ih]
      rfl

/-- **Every order of the parts gives the same listing**, if their instructions in a row are at
increasing offsets. -/
theorem merge_of_perm {base : Address} {order parts : List Sweep} (hperm : order.Perm parts)
    (hincreasing : (parts.flatMap Sweep.instructions).Pairwise fun a b =>
      a.imageOffset base < b.imageOffset base) :
    merge base order = ⟨parts.flatMap Sweep.instructions, (parts.map Sweep.skipped).sum⟩ := by
  have hskipped : (merge base order).skipped = (parts.map Sweep.skipped).sum := by
    rw [skipped_merge]
    exact (hperm.map _).sum_nat
  have hinstructions : (merge base order).instructions = parts.flatMap Sweep.instructions := by
    refine eq_of_sorted ?_ ?_ hincreasing
    · exact (List.mergeSort_perm _ _).trans (hperm.flatMap_right _)
    · refine (List.pairwise_mergeSort ?_ ?_ _).imp fun {a b} hab => ?_
      · intro a b c hab hbc
        rw [decide_eq_true_eq] at hab hbc ⊢
        exact UInt64.le_trans hab hbc
      · intro a b
        rw [Bool.or_eq_true, decide_eq_true_eq, decide_eq_true_eq]
        exact UInt64.le_total _ _
      · rw [decide_eq_true_eq] at hab
        exact UInt64.le_iff_toNat_le.1 hab
  rw [← hinstructions, ← hskipped]

end Sweep

/-! ## The chunks of an image -/

section

variable {σ : Type} (sessions : Nat → Session σ) (image : List UInt8) (base : Address)

/-- The chunks' sweeps, in the order of the chunks, each of which has a session of its own. -/
def chunkSweeps : List Sweep :=
  (chunkedStepsIn sessions image base).map Sweep.ofSteps

/-- The chunks' listings in a row are at increasing offsets. -/
theorem pairwise_chunkSweeps (hsize : image.length ≤ UInt64.size) :
    ((chunkSweeps sessions image base).flatMap Sweep.instructions).Pairwise fun a b =>
      a.imageOffset base < b.imageOffset base := by
  rw [chunkSweeps, Sweep.instructions_map_ofSteps]
  exact (located_chunkedStepsIn sessions image base hsize).pairwise_instructions
    (pairwise_chunkedStepsIn sessions image base)

end

section

variable {σ : Type} {opened : Nat → Except EngineError (Session σ)} {image : List UInt8}
  (base : Address)

/-- If every chunk's session opens, all chunks are swept. -/
theorem allChunkSteps_of_opened {sessions : Nat → Session σ}
    (h : ∀ index < chunkCount image.length, opened index = .ok (sessions index)) :
    allChunkSteps opened image base = .ok (chunkedStepsIn sessions image base) := by
  rw [allChunkSteps, chunkedStepsIn, mapM_eq_ok_iff, List.forall₂_map_right_iff, List.forall₂_same]
  intro index hmem
  rw [h index (List.mem_range.1 hmem)]
  rfl

/-- If every chunk's session opens, the sweep in chunks puts the chunks' sweeps together. -/
theorem parallelSweep_of_opened {sessions : Nat → Session σ}
    (h : ∀ index < chunkCount image.length, opened index = .ok (sessions index)) :
    parallelSweep opened image base = .ok (.merge base (chunkSweeps sessions image base)) := by
  rw [parallelSweep, allChunkSteps_of_opened base h]
  rfl

/-- If some chunk's session does not open, the first such chunk's error is the result. -/
theorem parallelSweep_of_first_error {first : Nat} (hfirst : first < chunkCount image.length)
    {error : EngineError} (herror : opened first = .error error)
    (hbefore : ∀ index < first, ∃ session, opened index = .ok session) :
    parallelSweep opened image base = .error error := by
  obtain ⟨more, hcount⟩ := Nat.exists_eq_add_of_lt hfirst
  have hsplit : List.range (chunkCount image.length) =
      List.range first ++ first :: List.range' (first + 1) more := by
    rw [hcount, Nat.add_assoc, List.range_add, List.range_eq_range' (n := more + 1),
      List.map_add_range', Nat.add_zero, List.range'_succ]
  rw [parallelSweep, allChunkSteps, hsplit, mapM_eq_error_of_first]
  · rfl
  · intro index hmem
    obtain ⟨session, hsession⟩ := hbefore index (List.mem_range.1 hmem)
    exact ⟨_, by rw [hsession]; rfl⟩
  · rw [herror]
    rfl

/-- Of the chunks whose sessions do not open there is a first one. -/
theorem exists_first_error {failing : Nat} {error : EngineError}
    (h : opened failing = .error error) :
    ∃ first error', first ≤ failing ∧ opened first = .error error' ∧
      ∀ index < first, ∃ session, opened index = .ok session := by
  induction failing using Nat.strongRecOn generalizing error with
  | ind failing ih =>
      by_cases hbefore : ∀ index < failing, ∃ session, opened index = .ok session
      · exact ⟨failing, error, Nat.le_refl _, h, hbefore⟩
      · push Not at hbefore
        obtain ⟨index, hlt, hindex⟩ := hbefore
        cases hopened : opened index with
        | ok session => exact absurd hopened (hindex session)
        | error error' =>
            obtain ⟨first, found, hle, hfirst, hall⟩ := ih index hlt hopened
            exact ⟨first, found, by omega, hfirst, hall⟩

end

/-- **Chunks may be put together in any order, and never in part.**  If every chunk's session opens,
then the keys by which instructions are sorted are the offsets at which the chunks found them, and
no two are the same; so every order of the chunks gives the listing of the chunks in a row, at
increasing offsets, and this is what the sweep in chunks returns.  If some chunk's session does not
open, the error of the first such chunk is returned instead.  An image is no longer than its
offsets, which are words, can count. -/
theorem parallelSweep_merges {σ : Type} (opened : Nat → Except EngineError (Session σ))
    (image : List UInt8) (base : Address) (hsize : image.length ≤ UInt64.size) :
    (∀ sessions : Nat → Session σ,
      (∀ index < chunkCount image.length, opened index = .ok (sessions index)) →
      let parts := chunkSweeps sessions image base
      let listing := parts.flatMap Sweep.instructions
      (∀ index < chunkCount image.length, ∀ offset insn,
        .decoded offset insn ∈ chunkSteps (sessions index) image base index →
          insn.imageOffset base = offset) ∧
      (listing.map fun insn => insn.offsetFrom base).Nodup ∧
      (listing.Pairwise fun a b => a.imageOffset base < b.imageOffset base) ∧
      (∀ order : List Sweep, order.Perm parts →
        Sweep.merge base order = ⟨listing, (parts.map Sweep.skipped).sum⟩) ∧
      parallelSweep opened image base = .ok ⟨listing, (parts.map Sweep.skipped).sum⟩) ∧
    ∀ failing < chunkCount image.length, ∀ error, opened failing = .error error →
      ∃ first error', first ≤ failing ∧ opened first = .error error' ∧
        (∀ index < first, ∃ session, opened index = .ok session) ∧
        parallelSweep opened image base = .error error' := by
  constructor
  · intro sessions hopened parts listing
    have hincreasing := pairwise_chunkSweeps sessions image base hsize
    refine ⟨fun index _ => located_chunkSteps (sessions index) image base hsize index, ?_,
      hincreasing, fun order hperm => Sweep.merge_of_perm hperm hincreasing, ?_⟩
    · refine List.pairwise_map.2 (hincreasing.imp fun {a b} hab heq => ?_)
      rw [Instruction.imageOffset, Instruction.imageOffset, heq] at hab
      exact Nat.lt_irrefl _ hab
    · rw [parallelSweep_of_opened base hopened,
        Sweep.merge_of_perm (List.Perm.refl _) hincreasing]
  · intro failing hfailing error herror
    obtain ⟨first, found, hle, hfirst, hbefore⟩ := exists_first_error herror
    exact ⟨first, found, hle, hfirst, hbefore,
      parallelSweep_of_first_error base (by omega) hfirst hbefore⟩

/-- An image of moves of five bytes, the last of which runs over the first edge, and a `nop`, at a
base from which the first chunk wraps around the end of the address space.  The second chunk's
listing, which has the larger offsets and the smaller addresses, may come first; and if the second
chunk's session does not open, nothing of the first chunk is returned. -/
theorem parallelSweep_merges_reversed :
    let session := Session.ofEngine .long64 Engine.nopMove
    let image : List UInt8 := (List.replicate 820 [0xb8, 0x90, 0x90, 0x06, 0x06]).flatten ++ [0x90]
    let base : Address := 0xfffffffffffff800
    let parts := chunkSweeps (fun _ => session) image base
    image.length ≤ UInt64.size ∧
      parts.map (fun part => part.instructions.map Instruction.address |>.take 2) =
        [[0xfffffffffffff800, 0xfffffffffffff805], [0x800, 0x801]] ∧
      parallelSweep (fun _ => .ok session) image base = .ok (Sweep.merge base parts.reverse) ∧
      parallelSweep (fun index => if index = 1 then .error ⟨9⟩ else .ok session) image base =
        .error ⟨9⟩ := by
  intro session image base parts
  have hsize : image.length ≤ UInt64.size := by decide +kernel
  have hchunks : 1 < chunkCount image.length := by decide +kernel
  refine ⟨hsize, by decide +kernel, ?_, ?_⟩
  · obtain ⟨-, -, -, hmerge, hparallel⟩ :=
      (parallelSweep_merges (fun _ => .ok session) image base hsize).1 (fun _ => session)
        fun _ _ => rfl
    rw [hparallel, hmerge parts.reverse (List.reverse_perm parts)]
  · obtain ⟨first, error, hle, hfirst, -, hparallel⟩ :=
      (parallelSweep_merges (fun index => if index = 1 then .error ⟨9⟩ else .ok session) image base
        hsize).2 1 hchunks ⟨9⟩ rfl
    have herror : error = ⟨9⟩ := by
      split at hfirst
      · cases hfirst
        rfl
      · cases hfirst
    rw [hparallel, herror]

end X86Listing
