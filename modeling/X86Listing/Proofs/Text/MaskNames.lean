import X86Listing.Proofs.Text.Numeral
import X86Listing.Proofs.Text.Split
import X86Listing.Text.MaskNames

/-!
# Masks read back

The text of a mask holds every bit of it: a bit with a name is among the named pieces, and the
numeral at the end holds the others.  Reading puts the pieces together again, so it returns the
mask (`read?_write`), provided that the names can be told from each other, from the separator and
from a numeral (`Legible`).
-/

namespace X86Listing.Text.BitNames

/-- Whether a character may stand in a piece: it is neither the separator nor a blank. -/
def isWordChar (c : Char) : Bool :=
  c ≠ '|' && !isBlank c

theorem isWordChar_iff {c : Char} : isWordChar c = true ↔ c ≠ '|' ∧ isBlank c = false := by
  simp [isWordChar]

/-- Names that can be read back: equal names mean the same bit, and a name is a word that neither
holds the separator nor starts like a numeral. -/
structure Legible (names : BitNames) : Prop where
  bit_eq : ∀ f ∈ names, ∀ g ∈ names, f.1.toList = g.1.toList → f.2 = g.2
  word : ∀ f ∈ names, f.1.toList ≠ [] ∧ f.1.toList.head? ≠ some '0' ∧
    f.1.toList.all isWordChar = true

/-! ## Bits -/

/-- Subtracting a set bit clears that bit and leaves the others. -/
theorem testBit_sub_shiftLeft {n bit : Nat} (h : n.testBit bit = true) (i : Nat) :
    (n - 1 <<< bit).testBit i = (n.testBit i && decide (bit ≠ i)) := by
  have hlt : n % 2 ^ bit < 2 ^ bit := Nat.mod_lt n (Nat.two_pow_pos bit)
  -- above `bit` the number is odd, for the bit is set
  have hodd : n / 2 ^ bit % 2 = 1 := by
    simpa [Nat.testBit_eq_decide_div_mod_eq] using h
  have hn : n = 2 ^ bit * (2 * (n / 2 ^ bit / 2) + 1) + n % 2 ^ bit := by
    have hq : 2 * (n / 2 ^ bit / 2) + 1 = n / 2 ^ bit := by omega
    rw [hq, Nat.div_add_mod]
  have hsub : n - 1 <<< bit = 2 ^ bit * (2 * (n / 2 ^ bit / 2)) + n % 2 ^ bit := by
    rw [Nat.shiftLeft_eq, Nat.one_mul]
    rw [Nat.mul_add, Nat.mul_one] at hn
    omega
  generalize n / 2 ^ bit / 2 = q at hn hsub
  generalize n % 2 ^ bit = r at hn hsub hlt
  rw [hsub, hn, Nat.testBit_two_pow_mul_add _ hlt, Nat.testBit_two_pow_mul_add _ hlt]
  by_cases hi : i < bit
  · simp [hi]
    omega
  · rw [if_neg hi, if_neg hi]
    obtain ⟨k, rfl⟩ : ∃ k, i = bit + k := ⟨i - bit, by omega⟩
    cases k with
    | zero => simp
    | succ k =>
        have hk : bit + (k + 1) - bit = k + 1 := by omega
        rw [hk, Nat.testBit_succ, Nat.testBit_succ, show (2 * q + 1) / 2 = 2 * q / 2 by omega]
        simp

/-- The unnamed bits of a mask are those that no name stands for. -/
theorem testBit_unnamed (names : BitNames) (mask i : Nat) :
    (names.unnamed mask).testBit i = (mask.testBit i && names.all fun f => decide (f.2 ≠ i)) := by
  unfold unnamed
  induction names generalizing mask with
  | nil => simp
  | cons f names ih =>
      rw [List.foldl_cons, ih, List.all_cons]
      show ((if mask.testBit f.2 = true then mask - 1 <<< f.2 else mask).testBit i && _) = _
      by_cases h : mask.testBit f.2 = true
      · rw [if_pos h, testBit_sub_shiftLeft h, Bool.and_assoc]
      · rw [if_neg h]
        by_cases hi : f.2 = i
        · subst hi
          simp [h]
        · simp [hi]

/-- The bits of a list of named bits, on top of those of `mask`. -/
def gather (mask : Nat) (found : BitNames) : Nat :=
  found.foldl (fun mask f => mask ||| 1 <<< f.2) mask

theorem testBit_gather (mask : Nat) (found : BitNames) (i : Nat) :
    (gather mask found).testBit i = (mask.testBit i || found.any fun f => decide (f.2 = i)) := by
  unfold gather
  induction found generalizing mask with
  | nil => simp
  | cons f found ih =>
      rw [List.foldl_cons, ih, List.any_cons, Nat.testBit_or, Nat.one_shiftLeft,
        Nat.testBit_two_pow, Bool.or_assoc]

/-- The named and the unnamed bits of a mask are all its bits. -/
theorem gather_or_unnamed (names : BitNames) (mask : Nat) :
    gather 0 (names.filter fun f => mask.testBit f.2) ||| names.unnamed mask = mask := by
  apply Nat.eq_of_testBit_eq
  intro i
  rw [Nat.testBit_or, testBit_gather, testBit_unnamed, Nat.zero_testBit, Bool.false_or,
    Bool.eq_iff_iff]
  simp only [Bool.or_eq_true, List.any_eq_true, List.mem_filter, decide_eq_true_eq,
    Bool.and_eq_true, List.all_eq_true, ne_eq]
  constructor
  · rintro (⟨f, ⟨_, hf⟩, rfl⟩ | ⟨hi, _⟩)
    · exact hf
    · exact hi
  · intro hi
    by_cases h : ∃ f ∈ names, f.2 = i
    · obtain ⟨f, hf, rfl⟩ := h
      exact .inl ⟨f, ⟨hf, hi⟩, rfl⟩
    · exact .inr ⟨hi, fun f hf hfi => h ⟨f, hf, hfi⟩⟩

/-! ## Pieces -/

/-- A numeral behind its mark is read as a number, whatever the names are. -/
theorem readPiece?_marked (names : BitNames) {bound n : Nat} (h : n < bound) :
    names.readPiece? bound (marked n) = some n := by
  show (ofHexadecimal? (hexadecimal n)).filter (· < bound) = some n
  rw [ofHexadecimal?_hexadecimal]
  simp [h]

/-- A name is read as its bit. -/
theorem Legible.readPiece?_name {names : BitNames} (legible : names.Legible) (bound : Nat)
    {f : String × Nat} (hf : f ∈ names) :
    names.readPiece? bound f.1.toList = some (1 <<< f.2) := by
  obtain ⟨_, hzero, _⟩ := legible.word f hf
  unfold readPiece?
  split
  · rename_i h
    rw [h] at hzero
    exact absurd rfl hzero
  · cases hfind : names.find? fun g => g.1.toList = f.1.toList with
    | none =>
        have hnone := List.find?_eq_none.mp hfind f hf
        simp at hnone
    | some g =>
        have hname : g.1.toList = f.1.toList := by
          simpa using List.find?_some hfind
        have hbit := legible.bit_eq g (List.mem_of_find?_eq_some hfind) f hf hname
        rw [← hbit]
        rfl

/-- Read one piece on top of a mask. -/
def readOnto (names : BitNames) (bound mask : Nat) (piece : List Char) : Option Nat :=
  (names.readPiece? bound piece).map (mask ||| ·)

/-- Reading names one after another gathers their bits. -/
theorem Legible.foldlM_names {names : BitNames} (legible : names.Legible) (bound : Nat)
    {found : BitNames} (h : ∀ f ∈ found, f ∈ names) (mask : Nat) :
    (found.map fun f => f.1.toList).foldlM (names.readOnto bound) mask =
      some (gather mask found) := by
  induction found generalizing mask with
  | nil => rfl
  | cons f found ih =>
      rw [List.map_cons, List.foldlM_cons, readOnto,
        legible.readPiece?_name bound (h f List.mem_cons_self)]
      exact ih (fun g hg => h g (List.mem_cons_of_mem _ hg)) (mask ||| 1 <<< f.2)

/-- The pieces of a mask are words: none of their characters is the separator or a blank. -/
theorem Legible.mem_pieces {names : BitNames} (legible : names.Legible) {mask : Nat}
    {piece : List Char} (h : piece ∈ names.pieces mask) :
    piece ≠ [] ∧ ∀ c ∈ piece, c ≠ '|' ∧ isBlank c = false := by
  have hnamed : ∀ piece ∈ (names.filter fun f => mask.testBit f.2).map fun f => f.1.toList,
      piece ≠ [] ∧ ∀ c ∈ piece, c ≠ '|' ∧ isBlank c = false := by
    intro piece hpiece
    obtain ⟨f, hf, rfl⟩ := List.mem_map.mp hpiece
    obtain ⟨hnil, _, hword⟩ := legible.word f (List.mem_filter.mp hf).1
    exact ⟨hnil, fun c hc => isWordChar_iff.mp (List.all_eq_true.mp hword c hc)⟩
  unfold pieces at h
  dsimp only at h
  split at h
  · exact hnamed piece h
  · rcases List.mem_append.mp h with h | h
    · exact hnamed piece h
    · rw [List.mem_singleton.mp h]
      refine ⟨by simp [marked], ?_⟩
      intro c hc
      rcases List.mem_cons.mp hc with rfl | hc
      · decide
      · rcases List.mem_cons.mp hc with rfl | hc
        · decide
        · exact ⟨ne_of_mem_hexadecimal hc (by decide), isBlank_of_mem_hexadecimal hc⟩

/-- Reading the pieces of a mask one after another gives the mask. -/
theorem Legible.foldlM_pieces {names : BitNames} (legible : names.Legible) {bound mask : Nat}
    (h : mask < bound) : (names.pieces mask).foldlM (names.readOnto bound) 0 = some mask := by
  have hfound : ∀ f ∈ names.filter fun f => mask.testBit f.2, f ∈ names :=
    fun f hf => (List.mem_filter.mp hf).1
  have hgather := legible.foldlM_names bound hfound 0
  have hwhole := gather_or_unnamed names mask
  unfold pieces
  dsimp only
  split
  · rename_i hzero
    rw [hzero, Nat.or_zero] at hwhole
    rw [hwhole] at hgather
    exact hgather
  · have hrest : names.unnamed mask < bound := by
      -- clearing bits makes no number larger
      refine Nat.lt_of_le_of_lt ?_ h
      apply Nat.le_of_testBit
      intro i hi
      rw [testBit_unnamed, Bool.and_eq_true] at hi
      exact hi.1
    rw [List.foldlM_append]
    refine (congrArg (· >>= _) hgather).trans ?_
    rw [Option.bind_eq_bind, Option.bind_some, List.foldlM_cons, readOnto,
      readPiece?_marked names hrest]
    exact congrArg some hwhole

/-! ## The whole text -/

/-- The text of a mask is read as the mask. -/
theorem Legible.read?_write {names : BitNames} (legible : names.Legible) {bound mask : Nat}
    (h : mask < bound) : names.read? bound (names.write mask) = some mask := by
  have hpieces := legible.foldlM_pieces h
  unfold read? write
  cases hcut : names.pieces mask with
  | nil =>
      rw [hcut] at hpieces
      exact hpieces
  | cons piece rest =>
      have hword : ∀ p ∈ piece :: rest, p ≠ [] ∧ ∀ c ∈ p, c ≠ '|' ∧ isBlank c = false := by
        intro p hp
        exact legible.mem_pieces (hcut ▸ hp)
      have htrim : trim ([' ', '|', ' '].intercalate (piece :: rest)) ≠ [] := by
        obtain ⟨hnil, hplain⟩ := hword piece List.mem_cons_self
        obtain ⟨c, hc⟩ := List.exists_mem_of_ne_nil piece hnil
        refine trim_ne_nil (c := c) ?_ (hplain c hc).2
        cases rest <;> simp [List.intercalate_cons_cons, hc]
      rw [if_neg (by simpa using htrim), ← hpieces, hcut]
      show (splitOn '|' _).foldlM (fun mask p => names.readOnto bound mask (trim p)) 0 = _
      rw [← List.foldlM_map, map_trim_splitOn (by decide) (by simp) fun p hp => (hword p hp).2]

end X86Listing.Text.BitNames
