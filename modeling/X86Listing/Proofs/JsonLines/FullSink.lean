import Mathlib.Data.List.DropRight
import X86Listing.Proofs.JsonLines

/-!
# Listings cut short by a full sink

A sink may take a number of characters in all, in whatever pieces, and then fail.  It ends up with
exactly the front of the listing's text, as much as it has room for.  What is left to offer then
says what failed: a character of an instruction's object, or the line feed behind it.  The lines
that are complete are read back as the instructions that they were written for.  The text is ASCII,
so a limit in characters is a limit in bytes.

* `JsonLines.utf8Size_eq_one_of_mem_write` — each character of a listing is a byte.
* `JsonLines.offerAll_of_fillsAt` — how much is taken of a listing, and what fails.
* `JsonLines.exists_cut`, `JsonLines.failureAt_cut` — where a cut through the text of a listing
  lies, and what fails there.
* `JsonLines.read_completeLines_take` — what is read back.
* `JsonLines.writeTo_of_fillsAt` — all together.
-/

namespace X86Listing

/-! ## Complete lines -/

/-- The text up to its last line feed. -/
def Text.completeLines (text : List Char) : List Char :=
  text.rdropWhile (· ≠ '\n')

/-- A line that has no end is not complete. -/
theorem Text.completeLines_append {text tail : List Char} (h : '\n' ∉ tail) :
    completeLines (text ++ tail) = completeLines text := by
  have htail : ∀ c ∈ tail.reverse, decide (c ≠ '\n') = true := by
    intro c hc
    rw [decide_eq_true_eq]
    rintro rfl
    exact h (List.mem_reverse.1 hc)
  unfold completeLines List.rdropWhile
  rw [List.reverse_append, List.dropWhile_append_of_pos htail]

namespace JsonLines

theorem write_append (first rest : List Instruction) :
    write (first ++ rest) = write first ++ write rest :=
  List.flatMap_append ..

/-- Each character of a listing is one byte. -/
theorem utf8Size_eq_one_of_mem_write {listing : List Instruction} {c : Char}
    (h : c ∈ write listing) : c.utf8Size = 1 := by
  obtain ⟨insn, _, hc⟩ := List.mem_flatMap.1 h
  rcases List.mem_append.1 hc with hc | hc
  · exact insn.isPrintable_compact.utf8Size_eq_one hc
  · rw [List.mem_singleton.1 hc]
    decide

/-- Every line of a listing is complete. -/
theorem completeLines_write (listing : List Instruction) :
    Text.completeLines (write listing) = write listing := by
  cases listing using List.reverseRecOn with
  | nil => rfl
  | append_singleton listing insn =>
      rw [write_append, write_singleton, ← List.append_assoc]
      exact List.rdropWhile_concat_neg _ _ _ (by decide)

/-! ## Writing -/

theorem ne_newline_of_getElem? {insn : Instruction} {position : Nat} {c : Char}
    (h : (line insn)[position]? = some c) : c ≠ '\n' := by
  rintro rfl
  exact newline_not_mem_line insn (List.mem_of_getElem? h)

variable {sink : Sink} {limit taken : Nat}

/-- What fails when a sink with so much room is offered the text of a listing and asked to pass it
on: the next character is that of an object or the line feed behind it, or there is none. -/
def failureAt (sink : Sink) (text : List Char) (room : Nat) : Option Failure :=
  match text[room]? with
  | none => sink.flushCause.map Failure.output
  | some c => some (if c = '\n' then .output sink.fullCause else .value sink.fullCause)

/-- There is no room for the first line, or none for its end, or the rest of the text decides. -/
theorem failureAt_line (sink : Sink) (insn : Instruction) (text : List Char) (room : Nat) :
    failureAt sink (line insn ++ '\n' :: text) room =
      if (line insn).length ≤ room then
        if 1 ≤ room - (line insn).length then
          failureAt sink text (room - (line insn).length - 1)
        else some (.output sink.fullCause)
      else some (.value sink.fullCause) := by
  unfold failureAt
  by_cases hline : (line insn).length ≤ room
  · rw [if_pos hline, List.getElem?_append_right hline]
    cases room - (line insn).length with
    | zero => rfl
    | succ more =>
        rw [if_pos (Nat.le_add_left 1 more), Nat.add_sub_cancel, List.getElem?_cons_succ]
  · have hlt : room < (line insn).length := by omega
    have hc := List.getElem?_eq_getElem hlt
    rw [if_neg hline, List.getElem?_append_left hlt, hc]
    exact congrArg some (if_neg (ne_newline_of_getElem? hc))

theorem offerPart_of_fillsAt (h : sink.FillsAt limit) (wrap : String → Failure)
    (htaken : taken ≤ limit) (text : List Char) :
    offerPart sink wrap taken text =
      (text.take (limit - taken),
        if text.length ≤ limit - taken then none else some (wrap sink.fullCause)) := by
  unfold offerPart
  rw [h.offer htaken]
  refine Prod.ext rfl ?_
  exact apply_ite (Option.map wrap) ..

/-- What a sink that fills up takes of a listing, and what fails. -/
theorem offerAll_of_fillsAt (h : sink.FillsAt limit) (htaken : taken ≤ limit)
    (listing : List Instruction) :
    offerAll sink taken listing =
      ((write listing).take (limit - taken), failureAt sink (write listing) (limit - taken)) := by
  induction listing generalizing taken with
  | nil =>
      show _ = (([] : List Char).take (limit - taken), _)
      rw [List.take_nil]
      rfl
  | cons insn listing ih =>
      have hsplit : '\n' :: write listing = ['\n'] ++ write listing := rfl
      unfold offerAll
      rw [offerPart_of_fillsAt h _ htaken, write_cons, failureAt_line, hsplit]
      refine Sink.andThen_take fun hline => ?_
      rw [offerPart_of_fillsAt h _ (by omega), Nat.sub_add_eq]
      refine Sink.andThen_take fun hend => ?_
      rw [List.length_singleton] at hend ⊢
      rw [ih (by omega), Nat.sub_add_eq, Nat.sub_add_eq]

/-- A sink that fills up gets the front of the text, and the next character tells what fails. -/
theorem writeTo_eq_of_fillsAt (h : sink.FillsAt limit) (listing : List Instruction) :
    writeTo sink listing = ((write listing).take limit, failureAt sink (write listing) limit) :=
  offerAll_of_fillsAt h (Nat.zero_le limit) listing

/-! ## Where the text is cut -/

/-- A cut through the text of a listing lies behind complete lines and inside one line, or between
that line and its end. -/
theorem exists_cut {listing : List Instruction} (h : limit < (write listing).length) :
    ∃ completed insn rest position, listing = completed ++ insn :: rest ∧
      limit = (write completed).length + position ∧ position ≤ (line insn).length := by
  induction listing generalizing limit with
  | nil => exact absurd h (Nat.not_lt_zero _)
  | cons insn listing ih =>
      rw [write_cons, List.length_append, List.length_cons] at h
      by_cases hline : limit ≤ (line insn).length
      · exact ⟨[], insn, listing, limit, rfl, (Nat.zero_add _).symm, hline⟩
      · obtain ⟨completed, next, rest, position, rfl, hlimit, hposition⟩ :=
          @ih (limit - ((line insn).length + 1)) (by omega)
        refine ⟨insn :: completed, next, rest, position, rfl, ?_, hposition⟩
        rw [write_cons, List.length_append, List.length_cons]
        omega

section

variable {completed rest : List Instruction} {insn : Instruction} {position : Nat}

theorem getElem?_write_cut :
    (write (completed ++ insn :: rest))[(write completed).length + position]? =
      (line insn ++ '\n' :: write rest)[position]? := by
  rw [write_append, write_cons, List.getElem?_append_right (Nat.le_add_right _ _),
    Nat.add_sub_cancel_left]

theorem take_write_cut (h : position ≤ (line insn).length) :
    (write (completed ++ insn :: rest)).take ((write completed).length + position) =
      write completed ++ (line insn).take position := by
  rw [write_append, write_cons, List.take_length_add_append, List.take_append_of_le_length h]

/-- Only the lines before the cut are complete. -/
theorem completeLines_cut :
    Text.completeLines (write completed ++ (line insn).take position) = write completed := by
  rw [Text.completeLines_append, completeLines_write]
  exact fun hmem => newline_not_mem_line insn (List.mem_of_mem_take hmem)

/-- At a cut inside a line the value fails, and between a line and its end output does. -/
theorem failureAt_cut (h : position ≤ (line insn).length) :
    let text := write (completed ++ insn :: rest)
    let limit := (write completed).length + position
    position < (line insn).length ∧
        failureAt sink text limit = some (.value sink.fullCause) ∨
      position = (line insn).length ∧ text[limit]? = some '\n' ∧
        failureAt sink text limit = some (.output sink.fullCause) := by
  intro text limit
  rw [failureAt, getElem?_write_cut]
  rcases Nat.lt_or_eq_of_le h with hlt | rfl
  · have hc := List.getElem?_eq_getElem hlt
    rw [List.getElem?_append_left hlt, hc]
    exact .inl ⟨hlt, congrArg some (if_neg (ne_newline_of_getElem? hc))⟩
  · rw [List.getElem?_append_right (Nat.le_refl _), Nat.sub_self]
    exact .inr ⟨rfl, rfl, rfl⟩

end

/-- A front of a listing's text is read as the instructions whose lines are complete in it. -/
theorem read_completeLines_take (key : NameKey) (limit : Nat) (listing : List Instruction) :
    ∃ completed rest, listing = completed ++ rest ∧ (write completed).length ≤ limit ∧
      (∀ insn more, rest = insn :: more → limit < (write (completed ++ [insn])).length) ∧
      read key (Text.completeLines ((write listing).take limit)) = .ok completed := by
  rcases Nat.lt_or_ge limit (write listing).length with hcut | hroom
  · obtain ⟨completed, insn, rest, position, rfl, rfl, hposition⟩ := exists_cut hcut
    refine ⟨completed, insn :: rest, rfl, Nat.le_add_right _ _, ?_, ?_⟩
    · intro next more hrest
      cases hrest
      rw [write_append, write_singleton, List.length_append, List.length_append,
        List.length_singleton]
      omega
    · rw [take_write_cut hposition, completeLines_cut]
      exact read_write key completed
  · refine ⟨listing, [], (List.append_nil _).symm, hroom, ?_, ?_⟩
    · exact fun _ _ hrest => absurd hrest.symm (List.cons_ne_nil _ _)
    · rw [List.take_of_length_le hroom, completeLines_write]
      exact read_write key listing

/-- **A full sink leaves a readable front of the listing and the right failure.**  The sink takes
the text that a sink without a limit takes, a byte for each character, up to its own limit.  If it
has room for all of it, only passing it on can fail.  If not, writing the value fails, in the
category `io`, where the next character belongs to an object, and output fails where it is the line
feed behind one.  The text that was taken, up to its last line feed, is read as the instructions
whose lines are complete.  All this does not depend on how the text of a line is cut into pieces. -/
theorem writeTo_of_fillsAt (h : sink.FillsAt limit) (key : NameKey) (listing : List Instruction) :
    let text := (writeTo .unlimited listing).1
    let taken := (writeTo sink listing).1
    let failure := (writeTo sink listing).2
    text = write listing ∧ (∀ c ∈ text, c.utf8Size = 1) ∧ taken = text.take limit ∧
      (text.length ≤ limit → failure = sink.flushCause.map Failure.output) ∧
      (limit < text.length → ∃ completed insn rest position,
        listing = completed ++ insn :: rest ∧ limit = (write completed).length + position ∧
        (position < (line insn).length ∧ failure = some (.value sink.fullCause) ∨
          position = (line insn).length ∧ text[limit]? = some '\n' ∧
            failure = some (.output sink.fullCause))) ∧
      (∃ completed rest, listing = completed ++ rest ∧
        (write completed).length ≤ limit ∧
        (∀ insn more, rest = insn :: more → limit < (write (completed ++ [insn])).length) ∧
        read key (Text.completeLines taken) = .ok completed) ∧
      ∀ before ≤ limit, ∀ pieces : List (List Char),
        sink.offerPieces before pieces = sink.offer before pieces.flatten := by
  intro text taken failure
  have htext : text = write listing := by
    show (writeTo .unlimited listing).1 = write listing
    rw [writeTo_of_neverFails Sink.neverFails_unlimited]
  have hwrite := writeTo_eq_of_fillsAt h listing
  have htaken : taken = (write listing).take limit := congrArg Prod.fst hwrite
  have hfailure : failure = failureAt sink (write listing) limit := congrArg Prod.snd hwrite
  rw [htext, htaken, hfailure]
  refine ⟨rfl, fun c hc => utf8Size_eq_one_of_mem_write hc, rfl, ?_, ?_,
    read_completeLines_take key limit listing,
    fun before hbefore pieces => h.offerPieces hbefore pieces⟩
  · intro hroom
    rw [failureAt, List.getElem?_eq_none hroom]
  · intro hcut
    obtain ⟨completed, insn, rest, position, rfl, rfl, hposition⟩ := exists_cut hcut
    exact ⟨completed, insn, rest, position, rfl, rfl, failureAt_cut hposition⟩

/-- A sink that takes three characters at a time and is full behind the second opening brace. -/
theorem writeTo_of_fillsAt_torn :
    let limit := (line extreme).length + 2
    let sink := Sink.limited (some limit) (some 3) "disk full" none
    let taken := (writeTo sink [extreme, extreme]).1
    sink.FillsAt limit ∧ taken = line extreme ++ ['\n', '\x7b'] ∧
      (writeTo sink [extreme, extreme]).2 = some (.value "disk full") ∧
      read .fieldName (Text.completeLines taken) = .ok [extreme] := by
  intro limit sink taken
  have hsink : sink.FillsAt limit := Sink.fillsAt_limited limit (by decide) "disk full" none
  obtain ⟨fields, hfields⟩ := exists_line_eq extreme
  have hline : 2 ≤ (line extreme).length := by
    rw [hfields, List.length_cons, List.length_append, List.length_singleton]
    omega
  have hfirst : (write [extreme]).length = (line extreme).length + 1 := by
    rw [write_singleton, List.length_append, List.length_singleton]
  have hboth : (write [extreme, extreme]).length = 2 * ((line extreme).length + 1) := by
    rw [write_cons, List.length_append, List.length_cons, hfirst]
    omega
  obtain ⟨htext, -, htaken, -, hcut, ⟨completed, rest, hlisting, hroom, hnext, hread⟩, -⟩ :=
    writeTo_of_fillsAt hsink .fieldName [extreme, extreme]
  rw [htext] at hcut htaken
  have hlimit : limit = (write [extreme]).length + 1 := by omega
  refine ⟨hsink, ?_, ?_, ?_⟩
  · have hfront := @take_write_cut [extreme] [] extreme 1 (by omega)
    rw [← hlimit, write_singleton, hfields, List.append_assoc] at hfront
    rw [hfields]
    exact htaken.trans hfront
  · obtain ⟨_, _, _, _, -, -, ⟨-, hfailure⟩ | ⟨-, hend, -⟩⟩ := hcut (by omega)
    · exact hfailure
    · have hnext := @getElem?_write_cut [extreme] [] extreme 1
      rw [← hlimit, List.getElem?_append_left hline] at hnext
      exact absurd rfl (ne_newline_of_getElem? (hnext.symm.trans hend))
  · match completed with
    | [] =>
        have hlt := hnext extreme [extreme] hlisting.symm
        rw [List.nil_append, hfirst] at hlt
        omega
    | [first] =>
        obtain rfl : extreme = first := (List.cons.inj hlisting).1
        exact hread
    | first :: second :: more =>
        obtain ⟨rfl, rfl, rfl, -⟩ :
            extreme = first ∧ extreme = second ∧ more = [] ∧ rest = [] := by
          simpa using hlisting
        rw [hboth] at hroom
        omega

end JsonLines

end X86Listing
