import Mathlib.Data.List.TakeWhile
import X86Listing.Text.Blank
import X86Listing.Text.Lines

/-!
# Pieces and lines of a text that was put together

Texts are put together from pieces that do not contain the separator.  Splitting such a text gives
the pieces back: `lines_flatMap` for lines that all end in a line feed, and `map_trim_splitOn` for
pieces joined by a separator with a blank on either side.
-/

namespace X86Listing.Text

/-! ## Splitting -/

/-- A text without the separator is one piece. -/
theorem splitOn_of_not_mem {sep : Char} {text : List Char} (h : sep ∉ text) :
    splitOn sep text = [text] := by
  induction text with
  | nil => rfl
  | cons c text ih =>
      rw [List.mem_cons, not_or] at h
      rw [splitOn_cons, ih h.2]
      unfold splitStep
      rw [if_neg (Ne.symm h.1)]

theorem splitOn_append_cons_of_not_mem {sep : Char} {piece : List Char} (h : sep ∉ piece)
    (rest : List Char) : splitOn sep (piece ++ sep :: rest) = piece :: splitOn sep rest := by
  rw [splitOn_append_cons, splitOn_of_not_mem h]
  rfl

/-! ## Lines -/

/-- The lines of a text in which a line feed follows every line. -/
theorem splitOn_flatMap {α : Type} {line : α → List Char} (h : ∀ a, '\n' ∉ line a)
    (items : List α) :
    splitOn '\n' (items.flatMap fun a => line a ++ ['\n']) = items.map line ++ [[]] := by
  induction items with
  | nil => rfl
  | cons a items ih =>
      rw [List.flatMap_cons, List.append_assoc, List.singleton_append,
        splitOn_append_cons_of_not_mem (h a), ih]
      rfl

theorem dropCarriageReturn_of_ne {line : List Char} (h : line.getLast? ≠ some '\r') :
    dropCarriageReturn line = line := by
  unfold dropCarriageReturn
  rw [if_neg h]

/-- Lines that end in no carriage return are read back as they are. -/
theorem lines_flatMap {α : Type} {line : α → List Char} (h : ∀ a, '\n' ∉ line a)
    (hlast : ∀ a, (line a).getLast? ≠ some '\r') (items : List α) :
    lines (items.flatMap fun a => line a ++ ['\n']) = items.map line := by
  unfold lines
  rw [splitOn_flatMap h]
  simp only [List.dropLast_concat, List.getLastD_concat, List.isEmpty_nil, if_true,
    List.append_nil, List.map_map]
  apply List.map_congr_left
  intro a _
  exact dropCarriageReturn_of_ne (hlast a)

/-! ## Trimming -/

/-- A blank in front does not matter. -/
theorem trim_cons_of_isBlank {c : Char} (h : isBlank c = true) (text : List Char) :
    trim (c :: text) = trim text := by
  unfold trim
  rw [List.dropWhile_cons_of_pos h]

/-- A text without blanks at its ends stays as it is, whatever blanks are put behind it. -/
theorem trim_append {text blanks : List Char} (h : ∀ c ∈ text, isBlank c = false)
    (hblanks : ∀ c ∈ blanks, isBlank c = true) : trim (text ++ blanks) = text := by
  unfold trim
  cases text with
  | nil =>
      rw [List.nil_append, List.dropWhile_eq_nil_iff.mpr hblanks]
      rfl
  | cons c text =>
      have hc : isBlank c = false := h c List.mem_cons_self
      rw [List.cons_append, List.dropWhile_cons_of_neg (by simp [hc]), ← List.cons_append,
        List.reverse_append, List.dropWhile_append_of_pos (by simpa using hblanks)]
      have hkeep : (c :: text).reverse.dropWhile isBlank = (c :: text).reverse := by
        cases hrev : (c :: text).reverse with
        | nil => rfl
        | cons d rest =>
            have hd : d ∈ c :: text := by
              rw [← List.mem_reverse, hrev]
              exact List.mem_cons_self
            rw [List.dropWhile_cons_of_neg (by simp [h d hd])]
      rw [hkeep, List.reverse_reverse]

theorem trim_of_forall {text : List Char} (h : ∀ c ∈ text, isBlank c = false) :
    trim text = text := by
  have htrim : trim (text ++ []) = text := trim_append h (by simp)
  rwa [List.append_nil] at htrim

/-- Trimming leaves something of a text that is not all blank. -/
theorem trim_ne_nil {text : List Char} {c : Char} (hc : c ∈ text) (h : isBlank c = false) :
    trim text ≠ [] := by
  intro hnil
  unfold trim at hnil
  rw [List.reverse_eq_nil_iff, List.dropWhile_eq_nil_iff] at hnil
  rw [← List.takeWhile_append_dropWhile (p := isBlank) (l := text)] at hc
  rcases List.mem_append.mp hc with hc | hc
  · have hblank := List.mem_takeWhile_imp hc
    rw [h] at hblank
    exact absurd hblank (by decide)
  · have hblank := hnil c (List.mem_reverse.mpr hc)
    rw [h] at hblank
    exact absurd hblank (by decide)

/-! ## Trimmed pieces -/

theorem map_trim_splitOn_cons {sep c : Char} (hc : isBlank c = true) (hsep : c ≠ sep)
    (text : List Char) : (splitOn sep (c :: text)).map trim = (splitOn sep text).map trim := by
  rw [splitOn_cons]
  unfold splitStep
  rw [if_neg hsep]
  cases h : splitOn sep text with
  | nil => exact absurd h (splitOn_ne_nil sep text)
  | cons piece rest => simp [trim_cons_of_isBlank hc]

/-- Pieces joined by a separator with a space on either side come back by splitting and trimming. -/
theorem map_trim_splitOn {sep : Char} (hsep : sep ≠ ' ') {pieces : List (List Char)}
    (hnil : pieces ≠ []) (h : ∀ piece ∈ pieces, ∀ c ∈ piece, c ≠ sep ∧ isBlank c = false) :
    (splitOn sep ([' ', sep, ' '].intercalate pieces)).map trim = pieces := by
  induction pieces with
  | nil => exact absurd rfl hnil
  | cons piece pieces ih =>
      have hpiece : ∀ c ∈ piece, c ≠ sep ∧ isBlank c = false := h piece List.mem_cons_self
      have hplain : ∀ c ∈ piece, isBlank c = false := fun c hc => (hpiece c hc).2
      have hmem : sep ∉ piece := fun hs => (hpiece sep hs).1 rfl
      cases pieces with
      | nil =>
          rw [List.intercalate_singleton, splitOn_of_not_mem hmem]
          simp [trim_of_forall hplain]
      | cons next rest =>
          have hspace : isBlank ' ' = true := by decide
          have hpadded : sep ∉ piece ++ [' '] := by simp [hmem, hsep]
          have htext : [' ', sep, ' '].intercalate (piece :: next :: rest) =
              (piece ++ [' ']) ++ sep :: ' ' :: [' ', sep, ' '].intercalate (next :: rest) := by
            simp [List.intercalate_cons_cons]
          rw [htext, splitOn_append_cons_of_not_mem hpadded, List.map_cons,
            trim_append hplain (by simp [hspace]), map_trim_splitOn_cons hspace (Ne.symm hsep),
            ih (by simp) fun p hp => h p (List.mem_cons_of_mem _ hp)]

end X86Listing.Text
