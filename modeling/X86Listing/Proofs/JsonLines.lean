import X86Listing.JsonLines
import X86Listing.Proofs.Instruction.RoundTrip
import X86Listing.Proofs.Json.Line
import X86Listing.Proofs.Sink
import X86Listing.Proofs.Text.Split

/-!
# Listings read back from JSON Lines

What a sink gets of a listing is a front of its text.  A sink that never fails gets the whole text,
however little it takes at a time.  Each instruction has a line of its own, and so the listing is
read back.

* `JsonLines.writeTo_prefix` — any sink gets a front of the text.
* `JsonLines.writeTo_of_neverFails` — a sink that never fails gets all of it.
* `JsonLines.read_writeTo` — the text has one line for each instruction and is read as the listing.
-/

namespace X86Listing

namespace JsonLines

/-! ## Writing -/

theorem write_cons (insn : Instruction) (listing : List Instruction) :
    write (insn :: listing) = line insn ++ '\n' :: write listing := by
  unfold write
  rw [List.flatMap_cons, List.append_assoc, List.singleton_append]

theorem write_singleton (insn : Instruction) : write [insn] = line insn ++ ['\n'] :=
  List.append_nil _

section

variable {sink : Sink}

theorem isFront_offerPart (sink : Sink) (wrap : String → Failure) (taken : Nat)
    (text : List Char) : Sink.IsFront (offerPart sink wrap taken text) text where
  front := (sink.isFront_offer taken text).front
  whole h := (sink.isFront_offer taken text).whole (Option.map_eq_none_iff.1 h)

theorem isFront_offerAll (sink : Sink) (taken : Nat) (listing : List Instruction) :
    Sink.IsFront (offerAll sink taken listing) (write listing) := by
  induction listing generalizing taken with
  | nil => exact ⟨List.nil_prefix, fun _ => rfl⟩
  | cons insn listing ih =>
      rw [write_cons, ← List.singleton_append]
      exact (isFront_offerPart sink .value taken (line insn)).andThen fun ofLine =>
        (isFront_offerPart sink .output (taken + ofLine) ['\n']).andThen fun ofEnd =>
        ih (taken + ofLine + ofEnd)

/-- Whatever a sink does, what it gets is a front of the listing's text. -/
theorem writeTo_prefix (sink : Sink) (listing : List Instruction) :
    (writeTo sink listing).1 <+: write listing :=
  (isFront_offerAll sink 0 listing).front

theorem offerPart_of_neverFails (h : sink.NeverFails) (wrap : String → Failure) (taken : Nat)
    (text : List Char) : offerPart sink wrap taken text = (text, none) := by
  unfold offerPart
  rw [h.offer]
  rfl

theorem offerAll_of_neverFails (h : sink.NeverFails) (taken : Nat) (listing : List Instruction) :
    offerAll sink taken listing = (write listing, none) := by
  induction listing generalizing taken with
  | nil =>
      unfold offerAll
      rw [h.passes]
      rfl
  | cons insn listing ih =>
      unfold offerAll
      rw [offerPart_of_neverFails h, Sink.andThen_none, offerPart_of_neverFails h,
        Sink.andThen_none, ih, write_cons, List.singleton_append]

/-- A sink that never fails gets the whole text of a listing. -/
theorem writeTo_of_neverFails (h : sink.NeverFails) (listing : List Instruction) :
    writeTo sink listing = (write listing, none) :=
  offerAll_of_neverFails h 0 listing

end

/-! ## Lines -/

theorem newline_not_mem_line (insn : Instruction) : '\n' ∉ line insn :=
  insn.isPrintable_compact.newline_not_mem

/-- A line is in braces. -/
theorem exists_line_eq (insn : Instruction) :
    ∃ fields, line insn = '\x7b' :: (fields ++ ['\x7d']) :=
  ⟨_, by rw [line, Instruction.toJson, Json.compact]⟩

/-- The brace that opens a line is not blank. -/
theorem exists_mem_line (insn : Instruction) : ∃ c ∈ line insn, Text.isBlank c = false := by
  obtain ⟨fields, hline⟩ := exists_line_eq insn
  refine ⟨'\x7b', ?_, by decide⟩
  rw [hline]
  exact List.mem_cons_self

/-- The lines of the text of a listing are those of its instructions. -/
theorem lines_write (listing : List Instruction) :
    Text.lines (write listing) = listing.map line := by
  refine Text.lines_flatMap newline_not_mem_line ?_ listing
  intro insn
  obtain ⟨fields, hline⟩ := exists_line_eq insn
  rw [hline, ← List.cons_append, List.getLast?_concat]
  decide

theorem fullLines_write (listing : List Instruction) :
    fullLines (write listing) = listing.map line := by
  unfold fullLines
  rw [lines_write, List.filter_eq_self]
  intro text htext
  obtain ⟨insn, _, rfl⟩ := List.mem_map.mp htext
  obtain ⟨c, hc, hblank⟩ := exists_mem_line insn
  rw [Bool.not_eq_true', List.all_eq_false]
  exact ⟨c, hc, by simp [hblank]⟩

/-! ## Reading -/

/-- The text of a listing is read as the listing. -/
theorem read_write (key : NameKey) (listing : List Instruction) :
    read key (write listing) = .ok listing := by
  unfold read
  rw [fullLines_write]
  induction listing with
  | nil => rfl
  | cons insn listing ih =>
      have hinsn : Instruction.ofJsonText key (line insn) = .ok insn :=
        Instruction.ofJsonText_toJson key insn
      rw [List.map_cons, List.mapM_cons, hinsn, ih]
      rfl

/-- Writing to a sink that never fails succeeds; the text has one line for each instruction, ended
by a line feed, without another one and not blank, and it is read as the listing, in whichever way
the keys of names are read. -/
theorem read_writeTo {sink : Sink} (h : sink.NeverFails) (key : NameKey)
    (listing : List Instruction) :
    writeTo sink listing = ((listing.map line).flatMap (· ++ ['\n']), none) ∧
      (∀ insn ∈ listing, '\n' ∉ line insn ∧ ∃ c ∈ line insn, Text.isBlank c = false) ∧
      Text.lines (writeTo sink listing).1 = listing.map line ∧
      read key (writeTo sink listing).1 = .ok listing := by
  have hwrite := writeTo_of_neverFails h listing
  refine ⟨?_, ?_, ?_, ?_⟩
  · rw [hwrite, List.flatMap_map]
    rfl
  · intro insn _
    exact ⟨newline_not_mem_line insn, exists_mem_line insn⟩
  · rw [hwrite]
    exact lines_write listing
  · rw [hwrite]
    exact read_write key listing

/-- An instruction with an operand of each kind, numbers at the ends of their ranges and bits that
have no name. -/
def extreme : Instruction where
  address := 0xffffffffffffffff
  size := 255
  mnemonic := Mnemonic.ofNumber 1523
  operands := [
    ⟨.absent, .invalid, ⟨0⟩⟩,
    ⟨.register Register.rip, .hidden, ⟨3⟩⟩,
    ⟨.immediate Int64.minValue, .explicit, ⟨0xff⟩⟩,
    ⟨.memory ⟨0xffff, .none, Register.eip, Register.ofNumber 245, 255, Int64.maxValue⟩,
      .implicit, ⟨0x80⟩⟩]
  flagsRead := ⟨0xffffffff⟩
  flagsWrite := ⟨0x80000002⟩

/-- The extreme instruction survives a sink that takes one character at a time. -/
theorem read_writeTo_singly :
    (Sink.limited none (some 1) "disk full" none).NeverFails ∧
      writeTo (Sink.limited none (some 1) "disk full" none) [extreme, extreme] =
        (line extreme ++ '\n' :: (line extreme ++ ['\n']), none) ∧
      read .fieldName
          (writeTo (Sink.limited none (some 1) "disk full" none) [extreme, extreme]).1 =
        .ok [extreme, extreme] := by
  have hchunk : some 1 ≠ some 0 := by decide
  have hsink := Sink.neverFails_limited hchunk "disk full"
  obtain ⟨hwrite, _, _, hread⟩ := read_writeTo hsink .fieldName [extreme, extreme]
  refine ⟨hsink, ?_, hread⟩
  rw [hwrite]
  simp

end JsonLines

end X86Listing
