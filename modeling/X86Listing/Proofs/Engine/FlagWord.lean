import X86Listing.Instruction.OfRaw
import X86Listing.Proofs.Flag
import X86Listing.Proofs.Raw.Operands

/-!
# What a listing shows of a flag word

A layout says for each flag where its bits are.  Here the two words are written out the other way
round, bit by bit: each bit means one effect on one flag, or nothing.  That the layouts and the
words agree is a finite check (`FlagLayout.describes_integer`, `FlagLayout.describes_fpu`), and it
says that no two effects share a bit.

From the word to the listing's masks it is then two steps: the action of a flag depends on the
flag's own bits alone (`FlagBits.action_congr`), and says when the flag is read and written
(`FlagBits.reads_action`, `FlagBits.writes_action`).  `Instruction.masks_ofRecord` puts them
together.
-/

namespace X86Listing

/-! ## Words bit by bit -/

/-- What a bit of a flag word says of a flag. -/
inductive FlagEffect
  | test
  | modify
  | reset
  | set
  | undefined
  deriving DecidableEq, Repr

namespace FlagEffect

/-- All effects. -/
def all : List FlagEffect := [test, modify, reset, set, undefined]

theorem mem_all (effect : FlagEffect) : effect ∈ all := by cases effect <;> decide

/-- Bits in a row that mean the effect on one flag after the other. -/
def onEach (effect : FlagEffect) (flags : List CpuFlag) : List (Option (FlagEffect × CpuFlag)) :=
  flags.map fun flag => some (effect, flag)

end FlagEffect

/-- The bit of an effect on the flag. -/
def FlagBits.ofEffect (bits : FlagBits) : FlagEffect → Option Nat
  | .test => bits.test
  | .modify => bits.modify
  | .reset => bits.reset
  | .set => bits.set
  | .undefined => bits.undefined

namespace FlagLayout

/-- What the bits of an integer flag word mean, from bit 0 up.  Later effects were put where there
was room, so they do not stand together. -/
def integerWord : List (Option (FlagEffect × CpuFlag)) :=
  FlagEffect.modify.onEach [.auxiliaryCarry, .carry, .sign, .zero, .parity, .overflow, .trap,
    .interrupt, .direction, .nestedTask, .resume] ++
  List.replicate 10 none ++
  FlagEffect.reset.onEach [.overflow, .carry, .direction, .interrupt, .sign, .auxiliaryCarry,
    .trap, .nestedTask, .parity] ++
  FlagEffect.set.onEach [.carry, .direction, .interrupt] ++
  FlagEffect.test.onEach [.overflow, .sign, .zero, .parity, .carry, .nestedTask, .direction] ++
  FlagEffect.undefined.onEach [.overflow, .sign, .zero, .parity, .auxiliaryCarry, .carry] ++
  FlagEffect.reset.onEach [.resume] ++
  FlagEffect.test.onEach [.resume, .interrupt, .trap, .auxiliaryCarry] ++
  FlagEffect.reset.onEach [.zero] ++
  FlagEffect.set.onEach [.overflow, .sign, .zero, .auxiliaryCarry, .parity] ++
  [none] ++
  FlagEffect.reset.onEach [.alignmentCheck]

/-- What the bits of an x87 flag word mean, from bit 0 up. -/
def fpuWord : List (Option (FlagEffect × CpuFlag)) :=
  [FlagEffect.modify, .reset, .set, .undefined, .test].flatMap fun effect =>
    effect.onEach [.c0, .c1, .c2, .c3]

/-- The layout has the bits of the word, each for the flag and the effect that the word gives. -/
def Describes (layout : FlagLayout) (word : List (Option (FlagEffect × CpuFlag))) : Prop :=
  ∀ flag effect bit,
    (layout flag).ofEffect effect = some bit ↔ word[bit]?.join = some (effect, flag)

/-- A layout and a word agree if each bit of the one is found in the other. -/
theorem describes_of_forall {layout : FlagLayout} {word : List (Option (FlagEffect × CpuFlag))}
    (hlayout : ∀ flag ∈ CpuFlag.all, ∀ effect ∈ FlagEffect.all,
      ((layout flag).ofEffect effect).all fun bit => word[bit]?.join = some (effect, flag))
    (hword : ∀ bit ∈ List.range word.length,
      word[bit]?.join.all fun entry => (layout entry.2).ofEffect entry.1 = some bit) :
    layout.Describes word := by
  intro flag effect bit
  constructor
  · intro hbit
    have hall := hlayout flag flag.mem_all effect effect.mem_all
    rw [hbit] at hall
    exact of_decide_eq_true hall
  · intro hentry
    have hlt : bit < word.length :=
      (List.getElem?_eq_some_iff.1 (Option.join_eq_some_iff.1 hentry)).1
    have hall := hword bit (List.mem_range.2 hlt)
    rw [hentry] at hall
    exact of_decide_eq_true hall

theorem describes_integer : integer.Describes integerWord :=
  describes_of_forall (by decide) (by decide)

theorem describes_fpu : fpu.Describes fpuWord :=
  describes_of_forall (by decide) (by decide)

end FlagLayout

/-! ## From bits to actions -/

namespace FlagBits

/-- A flag is read if it is tested. -/
theorem reads_action (bits : FlagBits) (word : UInt64) :
    (bits.action word).reads = isSet word bits.test := by
  rw [action]
  cases isSet word bits.test <;> cases isSet word bits.modify <;> simp only
  · split
    · rfl
    · split
      · rfl
      · split <;> rfl
  all_goals rfl

/-- A flag is written if it is modified, and by a lesser effect if it is not tested. -/
theorem writes_action (bits : FlagBits) (word : UInt64) :
    (bits.action word).writes = (isSet word bits.modify || !isSet word bits.test &&
      (isSet word bits.reset || isSet word bits.set || isSet word bits.undefined)) := by
  rw [action]
  cases isSet word bits.test <;> cases isSet word bits.modify <;> simp only
  · cases isSet word bits.reset <;> cases isSet word bits.set <;>
      cases isSet word bits.undefined <;> rfl
  all_goals rfl

/-- The action of a flag depends on the flag's own bits. -/
theorem action_congr {bits : FlagBits} {word word' : UInt64}
    (h : ∀ effect bit, bits.ofEffect effect = some bit →
      word'.toNat.testBit bit = word.toNat.testBit bit) :
    bits.action word' = bits.action word := by
  have hset : ∀ effect, isSet word' (bits.ofEffect effect) = isSet word (bits.ofEffect effect) := by
    intro effect
    cases hbit : bits.ofEffect effect with
    | none => rfl
    | some bit => exact h effect bit hbit
  have htest := hset .test
  have hmodify := hset .modify
  have hreset := hset .reset
  have hsets := hset .set
  have hundefined := hset .undefined
  simp only [ofEffect] at htest hmodify hreset hsets hundefined
  simp only [action, htest, hmodify, hreset, hsets, hundefined]

end FlagBits

/-! ## Records -/

namespace EngineRecord

variable (record : EngineRecord)

/-- The flags that the record's flag word is about: the x87 condition flags for an x87 instruction,
twelve integer flags for any other. -/
def wordFlags : List CpuFlag :=
  if 169 ∈ record.groups then [.c0, .c1, .c2, .c3]
  else [.carry, .parity, .auxiliaryCarry, .zero, .sign, .trap, .interrupt, .direction, .overflow,
    .nestedTask, .resume, .alignmentCheck]

/-- The effect and the flag that a bit of the record's flag word means, if any. -/
def bitMeaning? (bit : Nat) : Option (FlagEffect × CpuFlag) :=
  (if 169 ∈ record.groups then FlagLayout.fpuWord else FlagLayout.integerWord)[bit]?.join

/-- The record's flag word has a bit set that means the effect on the flag. -/
def Reports (effect : FlagEffect) (flag : CpuFlag) : Prop :=
  ∃ bit < 64, record.bitMeaning? bit = some (effect, flag) ∧
    record.flagWord.toNat.testBit bit = true

instance (effect : FlagEffect) (flag : CpuFlag) : Decidable (record.Reports effect flag) :=
  inferInstanceAs (Decidable (∃ bit < 64, _))

theorem flagLayout_eq :
    record.flagLayout = if 169 ∈ record.groups then .fpu else .integer := by
  simp [flagLayout, fpuGroup]

/-- The layout that lowering uses has the bits of the record's flag word. -/
theorem ofEffect_flagLayout_iff (flag : CpuFlag) (effect : FlagEffect) (bit : Nat) :
    (record.flagLayout flag).ofEffect effect = some bit ↔
      record.bitMeaning? bit = some (effect, flag) := by
  rw [flagLayout_eq, bitMeaning?]
  split
  · exact FlagLayout.describes_fpu flag effect bit
  · exact FlagLayout.describes_integer flag effect bit

/-- Beyond its 64 bits a word means nothing. -/
theorem lt_of_bitMeaning? {bit : Nat} {entry : FlagEffect × CpuFlag}
    (h : record.bitMeaning? bit = some entry) : bit < 64 := by
  have hlt := (List.getElem?_eq_some_iff.1 (Option.join_eq_some_iff.1 h)).1
  refine Nat.lt_of_lt_of_le hlt ?_
  split <;> decide

theorem isSet_iff_reports (effect : FlagEffect) (flag : CpuFlag) :
    FlagBits.isSet record.flagWord ((record.flagLayout flag).ofEffect effect) = true ↔
      record.Reports effect flag := by
  constructor
  · intro hset
    obtain ⟨bit, hbit, hword⟩ := (Option.any_eq_true _ _).1 hset
    have hmeans := (record.ofEffect_flagLayout_iff flag effect bit).1 hbit
    exact ⟨bit, record.lt_of_bitMeaning? hmeans, hmeans, hword⟩
  · rintro ⟨bit, -, hmeans, hword⟩
    rw [(record.ofEffect_flagLayout_iff flag effect bit).2 hmeans]
    exact hword

/-- The layout leaves out the flags that the word is not about. -/
theorem flagLayout_of_not_mem {flag : CpuFlag} (h : flag ∉ record.wordFlags) :
    record.flagLayout flag = .absent := by
  rw [flagLayout_eq]
  rw [wordFlags] at h
  split at h
  · rw [if_pos ‹_›]
    cases flag <;> simp at h <;> rfl
  · rw [if_neg ‹_›]
    cases flag <;> simp at h <;> rfl

/-- A flag is read if the word reports a test of it. -/
theorem reads_ofWord_iff (flag : CpuFlag) :
    (FlagTable.ofWord record.flagLayout record.flagWord flag).reads = true ↔
      record.Reports .test flag := by
  rw [FlagTable.ofWord, FlagBits.reads_action]
  exact record.isSet_iff_reports .test flag

/-- A flag is written if the word reports a modification, or no test and a lesser effect. -/
theorem writes_ofWord_iff (flag : CpuFlag) :
    (FlagTable.ofWord record.flagLayout record.flagWord flag).writes = true ↔
      record.Reports .modify flag ∨ ¬ record.Reports .test flag ∧
        (record.Reports .reset flag ∨ record.Reports .set flag ∨
          record.Reports .undefined flag) := by
  rw [FlagTable.ofWord, FlagBits.writes_action]
  simp only [← record.isSet_iff_reports, FlagBits.ofEffect, Bool.or_eq_true, Bool.and_eq_true,
    Bool.not_eq_true', Bool.not_eq_true, or_assoc]

/-- A flag that is read or written is one that the word is about. -/
theorem mem_wordFlags {flag : CpuFlag}
    (h : (FlagTable.ofWord record.flagLayout record.flagWord flag).reads = true ∨
      (FlagTable.ofWord record.flagLayout record.flagWord flag).writes = true) :
    flag ∈ record.wordFlags := by
  refine Decidable.byContradiction fun hmem => ?_
  rw [FlagTable.ofWord, record.flagLayout_of_not_mem hmem] at h
  rcases h with h | h <;> cases h

/-- The action of a flag depends on the bits that mean an effect on it. -/
theorem ofWord_congr {word : UInt64} {flag : CpuFlag}
    (h : ∀ bit effect, record.bitMeaning? bit = some (effect, flag) →
      word.toNat.testBit bit = record.flagWord.toNat.testBit bit) :
    FlagTable.ofWord record.flagLayout word flag =
      FlagTable.ofWord record.flagLayout record.flagWord flag := by
  refine FlagBits.action_congr fun effect bit hbit => ?_
  exact h bit effect ((record.ofEffect_flagLayout_iff flag effect bit).1 hbit)

end EngineRecord

/-! ## From the engine to the masks -/

/-- A lowered record has the actions of its flag word. -/
theorem RawInstruction.flags_of_ofRecord {mode : MachineMode} {window : List UInt8}
    {record : EngineRecord} {raw : RawInstruction} (h : ofRecord? mode window record = some raw) :
    raw.flags = .ofWord record.flagLayout record.flagWord := by
  obtain ⟨-, rfl⟩ := ofRecord?_eq_some_iff.1 h
  rfl

/-- Another flag word gives another table, and changes nothing else. -/
theorem RawInstruction.ofRecord?_flagWord {mode : MachineMode} {window : List UInt8}
    {record : EngineRecord} {raw : RawInstruction} (h : ofRecord? mode window record = some raw)
    (word : UInt64) :
    ofRecord? mode window { record with flagWord := word } =
      some { raw with flags := .ofWord record.flagLayout word } := by
  obtain ⟨hnumber, rfl⟩ := ofRecord?_eq_some_iff.1 h
  exact ofRecord?_eq_some_iff.2 ⟨hnumber, rfl⟩

namespace Instruction

variable {mode : MachineMode} {window : List UInt8} {record : EngineRecord} {raw : RawInstruction}

theorem contains_flagsRead_ofRecord (h : RawInstruction.ofRecord? mode window record = some raw)
    (address : Address) (flag : CpuFlag) :
    (ofRaw raw address).flagsRead.contains flag =
      (FlagTable.ofWord record.flagLayout record.flagWord flag).reads := by
  rw [← RawInstruction.flags_of_ofRecord h]
  exact FlagMasks.contains_read_ofTable raw.flags flag

theorem contains_flagsWrite_ofRecord (h : RawInstruction.ofRecord? mode window record = some raw)
    (address : Address) (flag : CpuFlag) :
    (ofRaw raw address).flagsWrite.contains flag =
      (FlagTable.ofWord record.flagLayout record.flagWord flag).writes := by
  rw [← RawInstruction.flags_of_ofRecord h]
  exact FlagMasks.contains_write_ofTable raw.flags flag

/-- Every bit of the masks is that of a flag that the word is about. -/
theorem exists_wordFlag_of_testBit (h : RawInstruction.ofRecord? mode window record = some raw)
    (address : Address) {bit : Nat}
    (hbit : (ofRaw raw address).flagsRead.bits.toNat.testBit bit = true ∨
      (ofRaw raw address).flagsWrite.bits.toNat.testBit bit = true) :
    ∃ flag ∈ record.wordFlags, flag.bit = bit := by
  have hflags := RawInstruction.flags_of_ofRecord h
  rcases hbit with hbit | hbit
  · obtain ⟨flag, hreads, hflag⟩ := FlagMasks.exists_of_testBit_read raw.flags hbit
    rw [hflags] at hreads
    exact ⟨flag, record.mem_wordFlags (.inl hreads), hflag⟩
  · obtain ⟨flag, hwrites, hflag⟩ := FlagMasks.exists_of_testBit_write raw.flags hbit
    rw [hflags] at hwrites
    exact ⟨flag, record.mem_wordFlags (.inr hwrites), hflag⟩

end Instruction

/-- **A listing shows exactly what the flag word says.**  For every record that is lowered, and
every flag:

* the flag is read if and only if the word reports a test of it, and written if and only if the
  word reports a modification, or no test and at least one of the lesser effects;
* a bit of either mask is that of a flag that the word is about, so that only such flags are in the
  masks;
* bits of the word that mean nothing do not matter, and the bits of one flag do not matter to
  another. -/
theorem Instruction.masks_ofRecord (mode : MachineMode) (window : List UInt8)
    (record : EngineRecord) (raw : RawInstruction) (address : Address)
    (hraw : RawInstruction.ofRecord? mode window record = some raw) :
    let insn := Instruction.ofRaw raw address
    (∀ flag, (insn.flagsRead.contains flag = true ↔ record.Reports .test flag) ∧
      (insn.flagsWrite.contains flag = true ↔ record.Reports .modify flag ∨
        ¬ record.Reports .test flag ∧ (record.Reports .reset flag ∨ record.Reports .set flag ∨
          record.Reports .undefined flag))) ∧
    (∀ bit, insn.flagsRead.bits.toNat.testBit bit = true ∨
        insn.flagsWrite.bits.toNat.testBit bit = true →
      ∃ flag ∈ record.wordFlags, flag.bit = bit) ∧
    (∀ flag, insn.flagsRead.contains flag = true ∨ insn.flagsWrite.contains flag = true →
      flag ∈ record.wordFlags) ∧
    (∀ word : UInt64, (∀ bit, record.bitMeaning? bit ≠ none →
        word.toNat.testBit bit = record.flagWord.toNat.testBit bit) →
      RawInstruction.ofRecord? mode window { record with flagWord := word } = some raw) ∧
    ∀ (word : UInt64) (flag : CpuFlag),
      (∀ bit, (∀ effect, record.bitMeaning? bit ≠ some (effect, flag)) →
        word.toNat.testBit bit = record.flagWord.toNat.testBit bit) →
      ∃ raw', RawInstruction.ofRecord? mode window { record with flagWord := word } = some raw' ∧
        ∀ other, other ≠ flag →
          (Instruction.ofRaw raw' address).flagsRead.contains other =
            insn.flagsRead.contains other ∧
          (Instruction.ofRaw raw' address).flagsWrite.contains other =
            insn.flagsWrite.contains other := by
  intro insn
  have hread := Instruction.contains_flagsRead_ofRecord hraw address
  have hwrite := Instruction.contains_flagsWrite_ofRecord hraw address
  refine ⟨fun flag => ⟨?_, ?_⟩, fun bit => Instruction.exists_wordFlag_of_testBit hraw address,
    ?_, ?_, ?_⟩
  · rw [hread]
    exact record.reads_ofWord_iff flag
  · rw [hwrite]
    exact record.writes_ofWord_iff flag
  · intro flag hflag
    rw [hread, hwrite] at hflag
    exact record.mem_wordFlags hflag
  · intro word hsame
    have htable : FlagTable.ofWord record.flagLayout word = raw.flags := by
      funext flag
      rw [RawInstruction.flags_of_ofRecord hraw]
      refine record.ofWord_congr fun bit effect hmeans => hsame bit ?_
      rw [hmeans]
      exact Option.some_ne_none _
    rw [RawInstruction.ofRecord?_flagWord hraw, htable]
  · intro word flag hsame
    have hraw' := RawInstruction.ofRecord?_flagWord hraw word
    refine ⟨_, hraw', fun other hother => ?_⟩
    have haction : FlagTable.ofWord record.flagLayout word other =
        FlagTable.ofWord record.flagLayout record.flagWord other := by
      refine record.ofWord_congr fun bit effect hmeans => hsame bit fun effect' hmeans' => ?_
      -- a bit means one effect on one flag
      rw [hmeans] at hmeans'
      cases hmeans'
      exact hother rfl
    rw [hread, hwrite, ← haction]
    exact ⟨Instruction.contains_flagsRead_ofRecord hraw' address other,
      Instruction.contains_flagsWrite_ofRecord hraw' address other⟩

/-- An integer instruction that tests the zero flag and resets it, and modifies the carry flag: the
reset is lost behind the test.  Bits 11 and 13 of the word mean nothing. -/
theorem Instruction.masks_ofRecord_tested :
    let record : EngineRecord := ⟨1, 2, [3], [], [], 0x0008000800000802, 0, 0, 0, []⟩
    ∃ raw, RawInstruction.ofRecord? .long64 [] record = some raw ∧
      (Instruction.ofRaw raw 0).flagsRead.contains .zero = true ∧
      (Instruction.ofRaw raw 0).flagsWrite.contains .zero = false ∧
      (Instruction.ofRaw raw 0).flagsWrite.contains .carry = true ∧
      RawInstruction.ofRecord? .long64 [] { record with flagWord := 0x0008000800002002 } =
        some raw := by
  intro record
  refine ⟨_, rfl, ?_⟩
  obtain ⟨hmasks, -, -, hsame, -⟩ := Instruction.masks_ofRecord .long64 [] record _ 0 rfl
  refine ⟨(hmasks .zero).1.2 (by decide +kernel), ?_, (hmasks .carry).2.2 (by decide +kernel),
    hsame _ ?_⟩
  · rw [Bool.eq_false_iff, Ne, (hmasks .zero).2]
    decide +kernel
  · have hsame : ∀ bit < 64, record.bitMeaning? bit ≠ none →
        (0x0008000800002002 : UInt64).toNat.testBit bit = record.flagWord.toNat.testBit bit := by
      decide +kernel
    intro bit hmeans
    obtain ⟨_, hentry⟩ := Option.ne_none_iff_exists'.1 hmeans
    exact hsame bit (record.lt_of_bitMeaning? hentry) hmeans

end X86Listing
