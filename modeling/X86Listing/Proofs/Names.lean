import Mathlib.Data.List.Nodup
import X86Listing.Instruction
import X86Listing.Proofs.Text.MaskNames

/-!
# Names read back

Every named thing of a listing is found again by its name: registers and mnemonics, because no name
is twice in a catalog, visibilities, and the masks whose text joins names.

The catalogs are long, so that comparing all pairs of names takes too long.  Instead every name gets
a number, its residue, and one pass finds that no residue comes twice (`fresh`).
-/

namespace X86Listing

namespace Text

/-! ## Lists without repetition -/

/-- The bytes of a text as the digits of one number, modulo `modulus`. -/
def residue (modulus : Nat) (text : String) : Nat :=
  text.toByteArray.data.toList.foldl (fun value byte => (value * 256 + byte.toNat) % modulus) 0

/-- Whether no number comes twice, and none is a set bit of `seen`. -/
def fresh : (seen : Nat) → List Nat → Bool
  | _, [] => true
  | seen, n :: rest => !seen.testBit n && fresh (seen ||| 1 <<< n) rest

theorem nodup_of_fresh {seen : Nat} {numbers : List Nat} (h : fresh seen numbers = true) :
    numbers.Nodup ∧ ∀ n ∈ numbers, seen.testBit n = false := by
  induction numbers generalizing seen with
  | nil => exact ⟨List.nodup_nil, by simp⟩
  | cons n numbers ih =>
      simp only [fresh, Bool.and_eq_true, Bool.not_eq_true'] at h
      obtain ⟨hn, hrest⟩ := h
      obtain ⟨hnodup, hseen⟩ := ih hrest
      have hbits : ∀ k ∈ numbers, seen.testBit k = false ∧ n ≠ k := by
        intro k hk
        have hk := hseen k hk
        rw [Nat.testBit_or, Bool.or_eq_false_iff, Nat.one_shiftLeft, Nat.testBit_two_pow,
          decide_eq_false_iff_not] at hk
        exact hk
      refine ⟨List.nodup_cons.mpr ⟨fun hmem => (hbits n hmem).2 rfl, hnodup⟩, ?_⟩
      intro k hk
      rcases List.mem_cons.mp hk with rfl | hk
      · exact hn
      · exact (hbits k hk).1

/-- Texts with different residues are different. -/
theorem nodup_of_residue (modulus : Nat) {texts : List String}
    (h : fresh 0 (texts.map (residue modulus)) = true) : texts.Nodup :=
  List.Nodup.of_map _ (nodup_of_fresh h).1

/-- In a list without repetition a text is found first where it stands. -/
theorem idxOf?_getElem {texts : List String} (h : texts.Nodup) {i : Nat} (hi : i < texts.length) :
    texts.idxOf? texts[i] = some i := by
  rw [List.idxOf?_eq_some_iff]
  refine ⟨hi, rfl, ?_⟩
  intro j hj heq
  have hij := (List.Nodup.getElem_inj_iff h).mp heq
  omega

/-- Looking up the text of an index in a catalog gives the index. -/
theorem lookup_get {α : Type} {catalog : List String} {size : Nat} (hnodup : catalog.Nodup)
    (hlength : catalog.length = size) (make : Fin size → α) (i : Fin size) :
    ((catalog.idxOf? (catalog.get (i.cast hlength.symm))).bind fun k =>
      if h : k < size then some (make ⟨k, h⟩) else none) = some (make i) := by
  subst hlength
  rw [List.get_eq_getElem, idxOf?_getElem hnodup, Option.bind_some]
  exact dif_pos i.isLt

end Text

/-! ## Registers and mnemonics -/

theorem Register.catalog_nodup : Register.catalog.Nodup :=
  -- the least modulus above 246 that leaves all residues different
  Text.nodup_of_residue 2286 (by decide +kernel)

/-- A register is found by its name. -/
@[simp] theorem Register.ofName?_name (reg : Register) : Register.ofName? reg.name = some reg :=
  Text.lookup_get Register.catalog_nodup Register.catalog_length Register.mk reg.index

theorem Mnemonic.catalog_nodup : Mnemonic.catalog.Nodup :=
  Text.nodup_of_residue 119570 (by decide +kernel)

/-- A mnemonic is found by its name. -/
@[simp] theorem Mnemonic.ofName?_name (mnemonic : Mnemonic) :
    Mnemonic.ofName? mnemonic.name = some mnemonic :=
  Text.lookup_get Mnemonic.catalog_nodup Mnemonic.catalog_length Mnemonic.mk mnemonic.index

/-! ## Visibilities and masks -/

/-- A visibility is found by its name. -/
@[simp] theorem Visibility.ofName?_name (visibility : Visibility) :
    Visibility.ofName? visibility.name = some visibility := by
  cases visibility <;> decide

theorem Access.legible_bitNames : Access.bitNames.Legible where
  bit_eq := by decide
  word := by decide

/-- The text of an access holds all its bits, named or not. -/
@[simp] theorem Access.ofText?_text (access : Access) :
    Access.ofText? access.text = some access := by
  unfold Access.ofText? Access.text
  rw [String.toList_ofList, Access.legible_bitNames.read?_write access.bits.toNat_lt_size]
  simp

theorem FlagMask.legible_bitNames : FlagMask.bitNames.Legible where
  bit_eq := by decide +kernel
  word := by decide +kernel

/-- The text of a flag mask holds all its bits, named or not. -/
@[simp] theorem FlagMask.ofText?_text (mask : FlagMask) :
    FlagMask.ofText? mask.text = some mask := by
  unfold FlagMask.ofText? FlagMask.text
  rw [String.toList_ofList, FlagMask.legible_bitNames.read?_write mask.bits.toNat_lt_size]
  simp

example : (FlagMask.mk 0x80000041).text = "CF | ZF | 0x80000000" := by decide +kernel

end X86Listing
