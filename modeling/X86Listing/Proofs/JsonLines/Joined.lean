import Mathlib.Data.List.Forall2
import X86Listing.Proofs.Instruction.Blanks
import X86Listing.Proofs.JsonLines
import X86Listing.Proofs.Traversal

/-!
# Texts joined by a line feed

The lines of two texts with a line feed between them are the lines of the first text, each of them
ended, and those of the second.  So reading goes through the first text and then through the second,
and the first fault ends it.  The line feed adds nothing to the first text, but a carriage return at
its end becomes part of a line end: an instruction does not change by that, and a fault may.

* `Text.lines_append_newline`, `JsonLines.read_append_newline` — the lines and the result, one text
  after the other.
* `JsonLines.read_newline_eq_ok_iff`, `JsonLines.read_newline` — a line feed at the end.
* `JsonLines.read_of_isBlank` — texts of blanks.
* `JsonLines.read_joined` — all together.
-/

namespace X86Listing

/-! ## Lines -/

namespace Text

theorem lines_newline (text : List Char) :
    lines (text ++ ['\n']) = (splitOn '\n' text).map dropCarriageReturn := by
  unfold lines
  rw [splitOn_append_cons]
  simp [splitOn_nil]

/-- The lines of two texts with a line feed between them. -/
theorem lines_append_newline (a b : List Char) :
    lines (a ++ '\n' :: b) = lines (a ++ ['\n']) ++ lines b := by
  have hb : splitOn '\n' b ≠ [] := splitOn_ne_nil '\n' b
  rw [lines_newline]
  unfold lines
  dsimp only
  rw [splitOn_append_cons, List.dropLast_append_of_ne_nil hb, List.map_append, List.append_assoc,
    List.getLastD_eq_getLast?, List.getLast?_append_of_ne_nil _ hb, ← List.getLastD_eq_getLast?]

/-- A text without line feeds is one line, unless it is empty. -/
theorem lines_of_not_mem {text : List Char} (h : '\n' ∉ text) :
    lines text = if text.isEmpty then [] else [text] := by
  unfold lines
  rw [splitOn_of_not_mem h]
  rfl

/-- The last line of a text begins at its start or behind a line feed. -/
theorem exists_last_line (text : List Char) :
    ∃ last, '\n' ∉ last ∧ (text = last ∨ ∃ front, text = front ++ '\n' :: last) := by
  induction text with
  | nil => exact ⟨[], List.not_mem_nil, .inl rfl⟩
  | cons c text ih =>
      obtain ⟨last, hlast, rfl | ⟨front, rfl⟩⟩ := ih
      · by_cases hc : c = '\n'
        · exact ⟨text, hlast, .inr ⟨[], by rw [hc]; rfl⟩⟩
        · exact ⟨c :: text, by simp [Ne.symm hc, hlast], .inl rfl⟩
      · exact ⟨last, hlast, .inr ⟨c :: front, rfl⟩⟩

theorem mem_of_mem_splitOn {sep c : Char} {text piece : List Char} (h : piece ∈ splitOn sep text)
    (hc : c ∈ piece) : c ∈ text := by
  induction text generalizing piece with
  | nil =>
      rw [splitOn_nil, List.mem_singleton] at h
      rwa [h] at hc
  | cons d text ih =>
      rw [splitOn_cons] at h
      unfold splitStep at h
      split at h
      · rcases List.mem_cons.1 h with rfl | h
        · exact absurd hc List.not_mem_nil
        · exact List.mem_cons_of_mem d (ih h hc)
      · cases hpieces : splitOn sep text with
        | nil => exact absurd hpieces (splitOn_ne_nil sep text)
        | cons first rest =>
            rw [hpieces] at h ih
            rcases List.mem_cons.1 h with rfl | h
            · rcases List.mem_cons.1 hc with rfl | hc
              · exact List.mem_cons_self
              · exact List.mem_cons_of_mem d (ih List.mem_cons_self hc)
            · exact List.mem_cons_of_mem d (ih (List.mem_cons_of_mem first h) hc)

theorem mem_of_mem_lines {c : Char} {text line : List Char} (h : line ∈ lines text)
    (hc : c ∈ line) : c ∈ text := by
  unfold lines at h
  dsimp only at h
  rcases List.mem_append.1 h with h | h
  · obtain ⟨piece, hpiece, rfl⟩ := List.mem_map.1 h
    have hcpiece : c ∈ piece := by
      unfold dropCarriageReturn at hc
      split at hc
      · exact List.dropLast_subset piece hc
      · exact hc
    exact mem_of_mem_splitOn (List.dropLast_subset _ hpiece) hcpiece
  · split at h
    · exact absurd h List.not_mem_nil
    · rw [List.mem_singleton] at h
      rcases List.mem_cons.1 (h ▸ List.getLastD_mem_cons) with rfl | hpiece
      · exact absurd hc List.not_mem_nil
      · exact mem_of_mem_splitOn hpiece hc

/-- A line with a carriage return at its end, or another one. -/
theorem dropCarriageReturn_cases (line : List Char) :
    line = dropCarriageReturn line ++ ['\r'] ∨
      line.getLast? ≠ some '\r' ∧ dropCarriageReturn line = line := by
  unfold dropCarriageReturn
  split
  · rename_i h
    exact .inl (List.dropLast_append_getLast? '\r' h).symm
  · rename_i h
    exact .inr ⟨h, rfl⟩

/-- A carriage return is blank, so a line is blank with it or without it. -/
theorem all_isBlank_dropCarriageReturn (line : List Char) :
    (dropCarriageReturn line).all isBlank = line.all isBlank := by
  have hcr : isBlank '\r' = true := by decide
  rcases dropCarriageReturn_cases line with h | ⟨-, h⟩
  · conv => rhs; rw [h]
    simp [hcr]
  · rw [h]

end Text

namespace JsonLines

variable {key : NameKey}

/-! ## Results -/

theorem fullLines_append_newline (a b : List Char) :
    fullLines (a ++ '\n' :: b) = fullLines (a ++ ['\n']) ++ fullLines b := by
  unfold fullLines
  rw [Text.lines_append_newline, List.filter_append]

/-- Reading goes through the first text and then through the second. -/
theorem read_append_newline (a b : List Char) :
    read key (a ++ '\n' :: b) = do
      let x ← read key (a ++ ['\n'])
      let y ← read key b
      return x ++ y := by
  unfold read
  rw [fullLines_append_newline, List.mapM_append]

/-- The result for a single line. -/
def readLine (key : NameKey) (line : List Char) : Except ReadFault (List Instruction) :=
  if line.all Text.isBlank then .ok [] else do return [← Instruction.ofJsonText key line]

theorem mapM_filter_singleton (line : List Char) :
    ([line].filter fun line => !line.all Text.isBlank).mapM (Instruction.ofJsonText key) =
      readLine key line := by
  unfold readLine
  by_cases hblank : line.all Text.isBlank = true
  · rw [if_pos hblank, List.filter_cons_of_neg (by simp [hblank])]
    rfl
  · rw [if_neg hblank, List.filter_cons_of_pos (by simpa using hblank), List.filter_nil,
      List.mapM_cons]
    cases Instruction.ofJsonText key line <;> rfl

theorem read_line {line : List Char} (h : '\n' ∉ line) : read key line = readLine key line := by
  unfold read fullLines
  rw [Text.lines_of_not_mem h, ← mapM_filter_singleton]
  split
  · rename_i hempty
    rw [List.isEmpty_iff.1 hempty]
    rfl
  · rfl

theorem read_line_newline {line : List Char} (h : '\n' ∉ line) :
    read key (line ++ ['\n']) = readLine key (Text.dropCarriageReturn line) := by
  unfold read fullLines
  rw [Text.lines_newline, Text.splitOn_of_not_mem h, List.map_singleton, mapM_filter_singleton]

/-- A carriage return at its end does not change the instruction of a line. -/
theorem readLine_dropCarriageReturn_eq_ok_iff {line : List Char} {listing : List Instruction} :
    readLine key (Text.dropCarriageReturn line) = .ok listing ↔
      readLine key line = .ok listing := by
  have hgap : ∀ c ∈ ['\r'], Scan.isGap c = true := List.forall_mem_singleton.2 (by decide)
  have hinsn : ∀ insn, Instruction.ofJsonText key (Text.dropCarriageReturn line) = .ok insn ↔
      Instruction.ofJsonText key line = .ok insn := by
    intro insn
    rcases Text.dropCarriageReturn_cases line with h | ⟨-, h⟩
    · conv => rhs; rw [h]
      exact (Instruction.ofJsonText_append hgap).symm
    · rw [h]
  unfold readLine
  rw [Text.all_isBlank_dropCarriageReturn]
  split
  · exact Iff.rfl
  · simp only [bind_eq_ok_iff, hinsn]

/-- A text of blanks is read as nothing. -/
theorem read_of_isBlank {blanks : List Char} (h : ∀ c ∈ blanks, Text.isBlank c = true) :
    read key blanks = .ok [] := by
  have hlines : fullLines blanks = [] := by
    unfold fullLines
    rw [List.filter_eq_nil_iff]
    intro line hline
    have hblank : line.all Text.isBlank = true :=
      List.all_eq_true.2 fun c hc => h c (Text.mem_of_mem_lines hline hc)
    simp [hblank]
  unfold read
  rw [hlines, List.mapM_nil]
  rfl

/-- Blanks on lines of their own in front of a text change nothing. -/
theorem read_isBlank_append_newline {blanks : List Char}
    (h : ∀ c ∈ blanks, Text.isBlank c = true) (text : List Char) :
    read key (blanks ++ '\n' :: text) = read key text := by
  have hline : ∀ c ∈ blanks ++ ['\n'], Text.isBlank c = true := by
    intro c hc
    rcases List.mem_append.1 hc with hc | hc
    · exact h c hc
    · rw [List.mem_singleton.1 hc]
      decide
  rw [read_append_newline, read_of_isBlank hline]
  cases read key text <;> rfl

/-! ## A line feed at the end -/

/-- A line feed at the end changes no listing. -/
theorem read_newline_eq_ok_iff {text : List Char} {listing : List Instruction} :
    read key (text ++ ['\n']) = .ok listing ↔ read key text = .ok listing := by
  obtain ⟨line, hline, rfl | ⟨front, rfl⟩⟩ := Text.exists_last_line text
  · rw [read_line_newline hline, read_line hline, readLine_dropCarriageReturn_eq_ok_iff]
  · rw [List.append_assoc, List.cons_append, read_append_newline, read_append_newline front line,
      read_line_newline hline, read_line hline]
    simp only [bind_eq_ok_iff, readLine_dropCarriageReturn_eq_ok_iff]

/-- A line feed at the end changes nothing unless it is put behind a carriage return. -/
theorem read_newline {text : List Char} (h : text.getLast? ≠ some '\r') :
    read key (text ++ ['\n']) = read key text := by
  obtain ⟨line, hline, rfl | ⟨front, rfl⟩⟩ := Text.exists_last_line text
  · rw [read_line_newline hline, read_line hline, Text.dropCarriageReturn_of_ne h]
  · have hlast : line.getLast? ≠ some '\r' := by
      intro hcr
      apply h
      rw [List.getLast?_append, List.getLast?_cons, hcr]
      rfl
    rw [List.append_assoc, List.cons_append, read_append_newline, read_append_newline front line,
      read_line_newline hline, read_line hline, Text.dropCarriageReturn_of_ne hlast]

/-! ## Two texts -/

/-- The fault of the first line that is neither blank nor an instruction ends the reading. -/
theorem read_of_first {text line : List Char} {before after : List (List Char)} {fault : ReadFault}
    (hlines : Text.lines text = before ++ line :: after)
    (hbefore : ∀ other ∈ before,
      other.all Text.isBlank = true ∨ ∃ insn, Instruction.ofJsonText key other = .ok insn)
    (hfull : line.all Text.isBlank = false)
    (hline : Instruction.ofJsonText key line = .error fault) :
    read key text = .error fault := by
  unfold read fullLines
  rw [hlines, List.filter_append, List.filter_cons_of_pos (by simp [hfull])]
  refine mapM_eq_error_of_first ?_ hline
  intro other hother
  obtain ⟨hother, hblank⟩ := List.mem_filter.1 hother
  rcases hbefore other hother with hall | hinsn
  · rw [hall] at hblank
    exact absurd hblank (by decide)
  · exact hinsn

/-- **Reading goes line by line and stops at the first fault.**  Two texts with a line feed between
them are read as the listings of both.  If the first text is at fault, so is the whole, and in the
same way unless the line feed makes a carriage return at its end part of a line end; if only the
second one is, the whole has its fault.  Blanks between two line feeds change nothing.  The first
line that is neither blank nor an instruction says what the fault is, and with such a line there is
no listing.  All this holds in whichever way the keys of names are read, though the faults of lines
depend on it. -/
theorem read_joined (key : NameKey) (a b : List Char) :
    (∀ x y, read key a = .ok x → read key b = .ok y → read key (a ++ '\n' :: b) = .ok (x ++ y)) ∧
      (∀ fault, read key a = .error fault → ∃ fault', read key (a ++ '\n' :: b) = .error fault' ∧
        (a.getLast? ≠ some '\r' → fault' = fault)) ∧
      (∀ x fault, read key a = .ok x → read key b = .error fault →
        read key (a ++ '\n' :: b) = .error fault) ∧
      (∀ blanks, (∀ c ∈ blanks, Text.isBlank c = true) →
        read key (a ++ '\n' :: (blanks ++ '\n' :: b)) = read key (a ++ '\n' :: b)) ∧
      (∀ before line after fault, Text.lines a = before ++ line :: after →
        (∀ other ∈ before,
          other.all Text.isBlank = true ∨ ∃ insn, Instruction.ofJsonText key other = .ok insn) →
        line.all Text.isBlank = false → Instruction.ofJsonText key line = .error fault →
        read key a = .error fault) ∧
      ∀ line ∈ Text.lines a, line.all Text.isBlank = false →
        (∀ insn, Instruction.ofJsonText key line ≠ .ok insn) →
        ∀ listing, read key a ≠ .ok listing := by
  refine ⟨?_, ?_, ?_, ?_, fun _ _ _ _ => read_of_first, ?_⟩
  · intro x y hx hy
    rw [read_append_newline, read_newline_eq_ok_iff.2 hx, hy]
    rfl
  · intro fault hfault
    cases hread : read key (a ++ ['\n']) with
    | ok x =>
        rw [read_newline_eq_ok_iff, hfault] at hread
        cases hread
    | error fault' =>
        refine ⟨fault', ?_, ?_⟩
        · rw [read_append_newline, hread]
          rfl
        · intro hlast
          rw [read_newline hlast, hfault] at hread
          cases hread
          rfl
  · intro x fault hx hfault
    rw [read_append_newline, read_newline_eq_ok_iff.2 hx, hfault]
    rfl
  · intro blanks hblanks
    rw [read_append_newline, read_isBlank_append_newline hblanks, ← read_append_newline]
  · intro line hline hfull hfault listing h
    have hmem : line ∈ fullLines a := List.mem_filter.2 ⟨hline, by simp [hfull]⟩
    obtain ⟨insn, hinsn⟩ := exists_ok_of_mapM h line hmem
    exact hfault insn hinsn

/-- A line with a carriage return in front of its end, one that is blank and one without an end. -/
theorem read_joined_extreme :
    read .fieldName (line extreme ++ ['\r']) = .ok [extreme] ∧
      read .fieldName (line extreme) = .ok [extreme] ∧
      read .fieldName (line extreme ++ '\r' :: '\n' :: line extreme) = .ok [extreme, extreme] ∧
      read .fieldName (line extreme ++ '\r' :: '\n' :: '\u00a0' :: '\n' :: line extreme) =
        .ok [extreme, extreme] := by
  have hplain : read .fieldName (line extreme) = .ok [extreme] := by
    rw [← read_newline_eq_ok_iff, ← write_singleton]
    exact read_write .fieldName [extreme]
  have hend : read .fieldName (line extreme ++ ['\r']) = .ok [extreme] := by
    have hmem : '\n' ∉ line extreme ++ ['\r'] := by simp [newline_not_mem_line]
    have hdrop : Text.dropCarriageReturn (line extreme ++ ['\r']) = line extreme := by
      simp [Text.dropCarriageReturn]
    rw [read_line hmem, ← readLine_dropCarriageReturn_eq_ok_iff, hdrop,
      ← read_line (newline_not_mem_line extreme)]
    exact hplain
  obtain ⟨hok, -, -, hblank, -⟩ := read_joined .fieldName (line extreme ++ ['\r']) (line extreme)
  have hboth := hok [extreme] [extreme] hend hplain
  have hblanks := (hblank ['\u00a0'] (List.forall_mem_singleton.2 (by decide))).trans hboth
  rw [List.append_assoc] at hboth hblanks
  exact ⟨hend, hplain, hboth, hblanks⟩

/-- The fault of a string that is not closed changes with the end of its line. -/
example : read .fieldName ['"', '\r'] = .error .malformed ∧
    read .fieldName ['"', '\r', '\n'] = .error .truncated := by
  decide

end JsonLines

end X86Listing
