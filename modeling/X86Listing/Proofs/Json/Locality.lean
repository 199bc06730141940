import Mathlib.Data.List.Basic
import X86Listing.Proofs.Json.Scan
import X86Listing.Proofs.Traversal

/-!
# How far a reader looks

A reader decides by the characters that it takes and by the one behind them.  What follows that one
may be anything, so more text at the end changes nothing: such a reader is local.  A reader whose
last character is one of its own, like the quote at the end of a string, does not even look behind
it: such a reader is closed.  Both notions are kept by `>>=`, and so all readers without a loop are
local for the reason that their parts are.

* `IsLocal`, `IsClosed` — the two notions, with `IsLocal.bind` and `IsLocal.bind_closed`.
* `isLocal_ofText`, `isClosed_quoted` — numerals and quoted text.
* `isLocal_scalar`, `isLocal_wantScalar` — scalars.
-/

namespace X86Listing.Scan

variable {α β : Type} {text rest more : List Char}

/-! ## What is read -/

theorem reads_pure_iff {value found : α} :
    Reads (pure value) text found rest ↔ value = found ∧ text = rest := by
  show Except.ok (value, text) = Except.ok (found, rest) ↔ _
  rw [Except.ok.injEq, Prod.mk.injEq]

theorem not_reads_fault {reason : ReadFault} {value : α} :
    ¬ Reads (fault reason) text value rest := by
  intro h
  cases h

theorem reads_bind_iff {scan : Scan α} {next : α → Scan β} {result : β} :
    Reads (scan >>= next) text result rest ↔
      ∃ value middle, Reads scan text value middle ∧ Reads (next value) middle result rest := by
  show (scan text >>= fun found => next found.1 found.2) = .ok (result, rest) ↔ _
  rw [bind_eq_ok_iff, Prod.exists]
  rfl

theorem reads_peek_iff {c : Char} :
    Reads peek text c rest ↔ text.dropWhile isGap = rest ∧ rest.head? = some c := by
  have hpeek : Reads peek? text (text.dropWhile isGap).head? (text.dropWhile isGap) := rfl
  cases hdrop : text.dropWhile isGap with
  | nil =>
      rw [hdrop] at hpeek
      refine iff_of_false ?_ (by rintro ⟨rfl, hc⟩; cases hc)
      intro h
      obtain ⟨found, middle, hfound, hnext⟩ := reads_bind_iff.1 h
      cases hpeek.symm.trans hfound
      exact not_reads_fault hnext
  | cons d tail =>
      rw [hdrop] at hpeek
      have hread : Reads peek text d (d :: tail) := hpeek.bind (reads_pure d (d :: tail))
      constructor
      · intro h
        cases hread.symm.trans h
        exact ⟨rfl, rfl⟩
      · rintro ⟨rfl, hc⟩
        cases hc
        exact hread

/-- The character that is seen is no blank. -/
theorem isGap_of_reads_peek {c : Char} (h : Reads peek text c rest) : isGap c = false := by
  obtain ⟨hdrop, hc⟩ := reads_peek_iff.1 h
  rw [← hdrop] at hc
  have hhead := List.head?_dropWhile_not isGap text
  rw [hc] at hhead
  simpa using hhead

theorem reads_advance_iff : Reads advance text () rest ↔ text.tail = rest := by
  show Except.ok ((), text.tail) = Except.ok ((), rest) ↔ _
  rw [Except.ok.injEq, Prod.mk.injEq, eq_self_iff_true, true_and]

theorem reads_expect_iff {c : Char} :
    Reads (expect c) text () rest ↔ text.dropWhile isGap = c :: rest := by
  constructor
  · intro h
    obtain ⟨d, middle, hpeek, hnext⟩ := reads_bind_iff.1 h
    obtain ⟨hdrop, hd⟩ := reads_peek_iff.1 hpeek
    by_cases hc : d = c
    · rw [if_pos hc, reads_advance_iff] at hnext
      rw [hdrop, ← hnext, ← hc]
      exact List.eq_cons_of_mem_head? hd
    · rw [if_neg hc] at hnext
      exact absurd hnext not_reads_fault
  · intro h
    have hpeek : Reads peek text c (c :: rest) := reads_peek_iff.2 ⟨h, rfl⟩
    refine hpeek.bind ?_
    rw [if_pos rfl]
    exact reads_advance c rest

/-! ## Local readers -/

/-- A reader that leaves an end of the text, and that reads the same if more text follows that
end. -/
structure IsLocal (scan : Scan α) : Prop where
  suffix : ∀ {text value rest}, Reads scan text value rest → rest <:+ text
  extend : ∀ {text value rest more}, rest ≠ [] →
    (Reads scan (text ++ more) value (rest ++ more) ↔ Reads scan text value rest)

/-- A reader that ends with a character of its own, which is no blank, and that reads the same
whatever follows that character. -/
structure IsClosed (scan : Scan α) : Prop where
  closes : ∀ {text value rest}, Reads scan text value rest →
    ∃ front c, text = front ++ c :: rest ∧ isGap c = false
  extend : ∀ {text value rest more},
    Reads scan (text ++ more) value (rest ++ more) ↔ Reads scan text value rest

theorem IsClosed.isLocal {scan : Scan α} (h : IsClosed scan) : IsLocal scan where
  suffix := by
    intro text value rest hread
    obtain ⟨front, c, rfl, -⟩ := h.closes hread
    exact (List.suffix_cons c rest).trans (List.suffix_append front (c :: rest))
  extend := fun _ => h.extend

theorem IsLocal.bind {scan : Scan α} {next : α → Scan β} (hscan : IsLocal scan)
    (hnext : ∀ value, IsLocal (next value)) : IsLocal (scan >>= next) where
  suffix := by
    intro text result rest h
    obtain ⟨value, middle, hvalue, hresult⟩ := reads_bind_iff.1 h
    exact ((hnext value).suffix hresult).trans (hscan.suffix hvalue)
  extend := by
    intro text result rest more hrest
    constructor
    · intro h
      obtain ⟨value, middle, hvalue, hresult⟩ := reads_bind_iff.1 h
      obtain ⟨front, hfront⟩ := (hnext value).suffix hresult
      obtain rfl : middle = (front ++ rest) ++ more := by rw [← hfront, List.append_assoc]
      have hmiddle : front ++ rest ≠ [] := by simp [hrest]
      exact ((hscan.extend hmiddle).1 hvalue).bind (((hnext value).extend hrest).1 hresult)
    · intro h
      obtain ⟨value, middle, hvalue, hresult⟩ := reads_bind_iff.1 h
      have hmiddle : middle ≠ [] := by
        rintro rfl
        exact hrest (List.suffix_nil.1 ((hnext value).suffix hresult))
      exact ((hscan.extend hmiddle).2 hvalue).bind (((hnext value).extend hrest).2 hresult)

/-- What is closed at its end is closed, whatever is read in front of it. -/
theorem IsLocal.bind_closed {scan : Scan α} {next : α → Scan β} (hscan : IsLocal scan)
    (hnext : ∀ value, IsClosed (next value)) : IsClosed (scan >>= next) where
  closes := by
    intro text result rest h
    obtain ⟨value, middle, hvalue, hresult⟩ := reads_bind_iff.1 h
    obtain ⟨front, rfl⟩ := hscan.suffix hvalue
    obtain ⟨inner, c, rfl, hc⟩ := (hnext value).closes hresult
    exact ⟨front ++ inner, c, (List.append_assoc ..).symm, hc⟩
  extend := by
    intro text result rest more
    constructor
    · intro h
      obtain ⟨value, middle, hvalue, hresult⟩ := reads_bind_iff.1 h
      obtain ⟨front, c, hfront, -⟩ := (hnext value).closes hresult
      obtain rfl : middle = (front ++ c :: rest) ++ more := by rw [hfront]; simp
      have hmiddle : front ++ c :: rest ≠ [] := by simp
      exact ((hscan.extend hmiddle).1 hvalue).bind ((hnext value).extend.1 hresult)
    · intro h
      obtain ⟨value, middle, hvalue, hresult⟩ := reads_bind_iff.1 h
      have hmiddle : middle ≠ [] := by
        rintro rfl
        obtain ⟨front, c, hfront, -⟩ := (hnext value).closes hresult
        simp at hfront
      exact ((hscan.extend hmiddle).2 hvalue).bind ((hnext value).extend.2 hresult)

/-- What reads the same as a closed reader is closed. -/
theorem IsClosed.congr {scan other : Scan α} (h : IsClosed other)
    (hsame : ∀ {text value rest}, Reads scan text value rest ↔ Reads other text value rest) :
    IsClosed scan where
  closes := fun hread => h.closes (hsame.1 hread)
  extend := by
    intro text value rest more
    rw [hsame, hsame]
    exact h.extend

theorem isLocal_pure (value : α) : IsLocal (pure value) where
  suffix := by
    intro text found rest h
    obtain ⟨-, rfl⟩ := reads_pure_iff.1 h
    exact List.suffix_refl text
  extend := by
    intro text found rest more _
    rw [reads_pure_iff, reads_pure_iff, List.append_left_inj]

theorem isClosed_fault (reason : ReadFault) : IsClosed (fault reason : Scan α) where
  closes := fun h => absurd h not_reads_fault
  extend := iff_of_false not_reads_fault not_reads_fault

theorem isLocal_fault (reason : ReadFault) : IsLocal (fault reason : Scan α) :=
  (isClosed_fault reason).isLocal

theorem IsLocal.map {scan : Scan α} (h : IsLocal scan) (f : α → β) :
    IsLocal (do return f (← scan)) :=
  h.bind fun value => isLocal_pure (f value)

theorem IsLocal.ite {p : Prop} [Decidable p] {scan other : Scan α} (hscan : IsLocal scan)
    (hother : IsLocal other) : IsLocal (if p then scan else other) := by
  split
  · exact hscan
  · exact hother

theorem IsClosed.ite {p : Prop} [Decidable p] {scan other : Scan α} (hscan : IsClosed scan)
    (hother : IsClosed other) : IsClosed (if p then scan else other) := by
  split
  · exact hscan
  · exact hother

/-! ## Characters -/

/-- What is left of a text by dropping characters, if anything is left. -/
theorem dropWhile_append_eq_iff {p : Char → Bool} (h : rest ≠ []) :
    (text ++ more).dropWhile p = rest ++ more ↔ text.dropWhile p = rest := by
  rw [List.dropWhile_append]
  cases hdrop : text.dropWhile p with
  | nil =>
      have hlt : (more.dropWhile p).length < (rest ++ more).length := by
        have hle := (List.dropWhile_suffix p (l := more)).length_le
        have hpos := List.length_pos_iff.2 h
        rw [List.length_append]
        omega
      exact iff_of_false (fun heq => absurd (congrArg List.length heq) (by simpa using hlt.ne))
        (Ne.symm h)
  | cons c tail =>
      rw [List.isEmpty_cons, if_neg (by decide), List.append_left_inj]

theorem isLocal_peek : IsLocal peek where
  suffix := by
    intro text c rest h
    rw [← (reads_peek_iff.1 h).1]
    exact List.dropWhile_suffix isGap
  extend := by
    intro text c rest more hrest
    rw [reads_peek_iff, reads_peek_iff, dropWhile_append_eq_iff hrest,
      List.head?_append_of_ne_nil _ hrest]

theorem isLocal_advance : IsLocal advance where
  suffix := by
    intro text _ rest h
    rw [← reads_advance_iff.1 h]
    exact List.tail_suffix text
  extend := by
    intro text _ rest more hrest
    rw [reads_advance_iff, reads_advance_iff]
    cases text with
    | nil =>
        have hlt : more.tail.length < (rest ++ more).length := by
          have hpos := List.length_pos_iff.2 hrest
          rw [List.length_tail, List.length_append]
          omega
        exact iff_of_false (fun heq => hlt.ne (congrArg List.length heq)) (Ne.symm hrest)
    | cons c tail => exact List.append_left_inj more

theorem isClosed_expect (c : Char) : IsClosed (expect c) where
  closes := by
    intro text _ rest h
    have hdrop := reads_expect_iff.1 h
    have hgap : isGap c = false :=
      isGap_of_reads_peek (reads_peek_iff.2 ⟨hdrop, rfl⟩)
    refine ⟨text.takeWhile isGap, c, ?_, hgap⟩
    rw [← hdrop, List.takeWhile_append_dropWhile]
  extend := by
    intro text _ rest more
    rw [reads_expect_iff, reads_expect_iff, ← List.cons_append,
      dropWhile_append_eq_iff (List.cons_ne_nil c rest)]

theorem isLocal_expect (c : Char) : IsLocal (expect c) :=
  (isClosed_expect c).isLocal

/-- What is closed stays so when what it reads is looked at without reading on. -/
theorem IsClosed.bind_still {scan : Scan α} {next : α → Scan β} (h : IsClosed scan)
    (hnext : ∀ {value text result rest}, Reads (next value) text result rest ↔
      Reads (next value) [] result [] ∧ text = rest) : IsClosed (scan >>= next) where
  closes := by
    intro text result rest hread
    obtain ⟨value, middle, hvalue, hresult⟩ := reads_bind_iff.1 hread
    obtain ⟨-, rfl⟩ := hnext.1 hresult
    exact h.closes hvalue
  extend := by
    intro text result rest more
    constructor
    · intro hread
      obtain ⟨value, middle, hvalue, hresult⟩ := reads_bind_iff.1 hread
      obtain ⟨hstill, rfl⟩ := hnext.1 hresult
      exact (h.extend.1 hvalue).bind (hnext.2 ⟨hstill, rfl⟩)
    · intro hread
      obtain ⟨value, middle, hvalue, hresult⟩ := reads_bind_iff.1 hread
      obtain ⟨hstill, rfl⟩ := hnext.1 hresult
      exact (h.extend.2 hvalue).bind (hnext.2 ⟨hstill, rfl⟩)

theorem IsClosed.map {scan : Scan α} (h : IsClosed scan) (f : α → β) :
    IsClosed (do return f (← scan)) :=
  h.bind_still (by simp [reads_pure_iff])

/-- A reader that may end with the character that it sees. -/
theorem isClosed_peek_bind {close : Char} {value : α} {next : Char → Scan α}
    (hnext : ∀ c, IsClosed (next c)) :
    IsClosed (do
      let c ← peek
      if c = close then do
        advance
        return value
      else next c) := by
  have hexpect := isLocal_peek.bind_closed fun c =>
    IsClosed.ite (p := c = close) ((isClosed_expect close).map fun _ => value) (hnext c)
  refine hexpect.congr fun {text found rest} => ?_
  rw [reads_bind_iff, reads_bind_iff]
  refine exists_congr fun c => exists_congr fun middle => and_congr_right fun hpeek => ?_
  by_cases hc : c = close
  · subst hc
    -- the character that has been seen is taken in either way
    have htaken : ∀ tail, Reads advance middle () tail ↔ Reads (expect c) middle () tail := by
      intro tail
      have hgap := isGap_of_reads_peek hpeek
      have hmiddle := List.eq_cons_of_mem_head? (reads_peek_iff.1 hpeek).2
      rw [reads_advance_iff, reads_expect_iff, hmiddle, List.dropWhile_cons_of_neg (by simp [hgap]),
        List.tail_cons, List.cons_inj_right]
    rw [if_pos rfl, if_pos rfl, reads_bind_iff, reads_bind_iff]
    simp only [htaken]
  · rw [if_neg hc, if_neg hc]

/-- A reader that decides by the first character is local if, whatever that character is, it reads
like a local reader. -/
theorem isLocal_of_head {scan : Scan α}
    (hnil : ∀ value rest, Reads scan [] value rest → rest = [])
    (hcons : ∀ c, ∃ next : Scan α, IsLocal next ∧ ∀ text, scan (c :: text) = next (c :: text)) :
    IsLocal scan where
  suffix := by
    intro text value rest h
    cases text with
    | nil =>
        obtain rfl := hnil value rest h
        exact List.suffix_refl []
    | cons c text =>
        obtain ⟨next, hnext, hsame⟩ := hcons c
        exact hnext.suffix ((hsame text).symm.trans h)
  extend := by
    intro text value rest more hrest
    cases text with
    | nil =>
        -- nothing is left of the empty text, and no more than all of any other one
        refine iff_of_false ?_ fun h => hrest (hnil value rest h)
        intro h
        cases more with
        | nil => exact hrest (by simpa using hnil value _ h)
        | cons c more =>
            obtain ⟨next, hnext, hsame⟩ := hcons c
            have hle := (hnext.suffix ((hsame more).symm.trans h)).length_le
            have hpos := List.length_pos_iff.2 hrest
            rw [List.length_append] at hle
            omega
    | cons c text =>
        obtain ⟨next, hnext, hsame⟩ := hcons c
        have hextend : Reads next ((c :: text) ++ more) value (rest ++ more) ↔
            Reads next (c :: text) value rest := hnext.extend hrest
        unfold Reads at hextend ⊢
        rw [List.cons_append] at hextend ⊢
        rw [hsame text, hsame (text ++ more)]
        exact hextend

theorem isLocal_letters (word : List Char) : IsLocal (letters word) := by
  induction word with
  | nil => exact isLocal_pure ()
  | cons l word ih =>
      refine isLocal_of_head (by rintro _ _ ⟨⟩) fun c => ?_
      exact ⟨_, (isLocal_advance.bind fun _ => ih).ite (isLocal_fault _), fun _ => rfl⟩

/-! ## Numerals -/

section Numerals

open JsonNumeral (digits wholePart fractionPart exponentSign exponentPart isDigit)

variable (short : ReadFault)

theorem reads_digits_iff {found : List Char} :
    Reads (digits short) text found rest ↔
      found ≠ [] ∧ text.takeWhile isDigit = found ∧ text.dropWhile isDigit = rest := by
  show (if (text.takeWhile isDigit).isEmpty then _ else _) = Except.ok (found, rest) ↔ _
  by_cases hempty : (text.takeWhile isDigit).isEmpty
  · rw [if_pos hempty]
    refine iff_of_false (by intro h; cases h) ?_
    rintro ⟨hfound, rfl, -⟩
    exact hfound (List.isEmpty_iff.1 hempty)
  · rw [if_neg hempty, Except.ok.injEq, Prod.mk.injEq]
    refine ⟨?_, And.right⟩
    rintro ⟨rfl, rfl⟩
    exact ⟨fun h => hempty (List.isEmpty_iff.2 h), rfl, rfl⟩

theorem isLocal_digits : IsLocal (digits short) where
  suffix := by
    intro text found rest h
    obtain ⟨-, -, rfl⟩ := (reads_digits_iff short).1 h
    exact List.dropWhile_suffix isDigit
  extend := by
    intro text found rest more hrest
    rw [reads_digits_iff, reads_digits_iff, dropWhile_append_eq_iff hrest]
    refine and_congr_right fun _ => and_congr_left fun hdrop => ?_
    -- the digits end in the text, for something is left of it
    have hlength : (text.takeWhile isDigit).length ≠ text.length := by
      have happend : (text.takeWhile isDigit ++ text.dropWhile isDigit).length = text.length := by
        rw [List.takeWhile_append_dropWhile]
      have hpos := List.length_pos_iff.2 hrest
      rw [List.length_append, hdrop] at happend
      omega
    rw [List.takeWhile_append, if_neg hlength]

theorem isLocal_wholePart : IsLocal (wholePart short) := by
  have hbind : wholePart short = ((digits short : Scan (List Char)) >>= fun found =>
      if found.length > 1 ∧ found.head? = some '0' then fault .malformed else pure found) := by
    funext text
    show (digits short text >>= _) = (digits short text >>= _)
    congr 1
    funext found
    show (if _ then _ else _) = (if _ then _ else _ : Scan (List Char)) found.2
    split <;> rfl
  rw [hbind]
  exact (isLocal_digits short).bind fun found => (isLocal_fault _).ite (isLocal_pure found)

theorem isLocal_fractionPart : IsLocal (fractionPart short) := by
  refine isLocal_of_head (by rintro _ _ ⟨⟩; rfl) fun c => ?_
  by_cases hpoint : c = '.'
  · subst hpoint
    exact ⟨_, isLocal_advance.bind fun _ => (isLocal_digits short).map some, fun _ => rfl⟩
  · refine ⟨_, isLocal_pure none, fun text => ?_⟩
    unfold fractionPart
    split
    · rename_i heq
      exact absurd (List.cons.inj heq).1 hpoint
    · rfl

theorem isLocal_exponentSign : IsLocal (fun text => .ok (exponentSign text) : Scan Bool) := by
  refine isLocal_of_head (by rintro _ _ ⟨⟩; rfl) fun c => ?_
  by_cases hplus : c = '+'
  · subst hplus
    exact ⟨_, isLocal_advance.map fun _ => false, fun _ => rfl⟩
  · by_cases hminus : c = '-'
    · subst hminus
      exact ⟨_, isLocal_advance.map fun _ => true, fun _ => rfl⟩
    · refine ⟨_, isLocal_pure false, fun text => ?_⟩
      unfold exponentSign
      split
      · rename_i heq
        exact absurd (List.cons.inj heq).1 hplus
      · rename_i heq
        exact absurd (List.cons.inj heq).1 hminus
      · rfl

theorem isLocal_exponentPart : IsLocal (exponentPart short) := by
  refine isLocal_of_head (by rintro _ _ ⟨⟩; rfl) fun mark => ?_
  by_cases hmark : mark = 'e' ∨ mark = 'E'
  · refine ⟨_, isLocal_advance.bind fun _ => isLocal_exponentSign.bind fun negative =>
      (isLocal_digits short).map fun found => some (negative, found), fun text => ?_⟩
    show (if mark = 'e' ∨ mark = 'E' then _ else _) = _
    rw [if_pos hmark]
    rfl
  · refine ⟨_, isLocal_pure none, fun text => ?_⟩
    show (if mark = 'e' ∨ mark = 'E' then _ else _) = _
    rw [if_neg hmark]
    rfl

/-- The minus sign in front of a numeral, if there is one. -/
theorem isLocal_minus : IsLocal (fun text => .ok (match text with
    | '-' :: rest => (true, rest)
    | _ => (false, text)) : Scan Bool) := by
  refine isLocal_of_head (by rintro _ _ ⟨⟩; rfl) fun c => ?_
  by_cases hminus : c = '-'
  · subst hminus
    exact ⟨_, isLocal_advance.map fun _ => true, fun _ => rfl⟩
  · refine ⟨_, isLocal_pure false, fun text => ?_⟩
    split
    · rename_i heq
      exact absurd (List.cons.inj heq).1 hminus
    · rfl

/-- The numeral at the front of a text ends where another character follows. -/
theorem isLocal_ofText : IsLocal (JsonNumeral.ofText short) :=
  isLocal_minus.bind fun negative =>
    (isLocal_wholePart short).bind fun whole =>
    (isLocal_fractionPart short).bind fun fraction =>
    (isLocal_exponentPart short).map (JsonNumeral.mk negative whole fraction)

theorem isLocal_numeral : IsLocal numeral := by
  have hbind : numeral = ((JsonNumeral.ofText .truncated : Scan JsonNumeral) >>= fun found =>
      if found.fits then pure found.toJson else fault .malformed) := by
    funext text
    show (JsonNumeral.ofText .truncated text >>= _) = (JsonNumeral.ofText .truncated text >>= _)
    congr 1
    funext found
    show (if _ then _ else _) = (if _ then _ else _ : Scan Json) found.2
    split <;> rfl
  rw [hbind]
  exact (isLocal_ofText _).bind fun found => (isLocal_pure _).ite (isLocal_fault _)

end Numerals

/-! ## Quoted text -/

section Quoted

open Quoted (State scan)

variable (paired : Bool) (state : State) (found : List Char)

/-- Each character of quoted text ends it, changes the state or is at fault, whatever follows. -/
theorem quoted_cases (c : Char) :
    (c = '"' ∧ ∀ text, scan paired state found (c :: text) = .ok (found.reverse, text)) ∨
      (∃ state' found', ∀ text,
        scan paired state found (c :: text) = scan paired state' found' text) ∨
      ∀ text, ∃ reason, scan paired state found (c :: text) = .error reason := by
  cases state with
  | plain =>
      by_cases hquote : c = '"'
      · exact .inl ⟨hquote, fun text => if_pos hquote⟩
      · refine .inr ?_
        by_cases hslash : c = '\\'
        · exact .inl ⟨.escape, found, fun text => (if_neg hquote).trans (if_pos hslash)⟩
        · by_cases hcontrol : c.toNat < 0x20
          · exact .inr fun text => ⟨.malformed,
              (if_neg hquote).trans ((if_neg hslash).trans (if_pos hcontrol))⟩
          · exact .inl ⟨.plain, c :: found, fun text =>
              (if_neg hquote).trans ((if_neg hslash).trans (if_neg hcontrol))⟩
  | escape =>
      refine .inr ?_
      by_cases hu : c = 'u'
      · exact .inl ⟨.unit none 0 0, found, fun text => if_pos hu⟩
      · cases hescape : Quoted.simpleEscape? c with
        | none => exact .inr fun text => ⟨.malformed, by simp only [scan, if_neg hu, hescape]⟩
        | some escaped =>
            exact .inl ⟨.plain, escaped :: found, fun text => by
              simp only [scan, if_neg hu, hescape]⟩
  | unit lead count value =>
      refine .inr ?_
      cases hdigit : Text.hexDigit? c with
      | none =>
          refine .inr fun text => ?_
          simp only [scan, hdigit]
          exact ⟨_, rfl⟩
      | some digit =>
          by_cases hcount : count < 3
          · exact .inl ⟨.unit lead (count + 1) (value * 16 + digit), found, fun text => by
              simp only [scan, hdigit, if_pos hcount]⟩
          · rcases hafter : Quoted.afterUnit paired lead (value * 16 + digit) with
              reason | escaped | lead'
            · exact .inr fun text => ⟨reason, by simp only [scan, hdigit, if_neg hcount, hafter]⟩
            · exact .inl ⟨.plain, escaped :: found, fun text => by
                simp only [scan, hdigit, if_neg hcount, hafter]⟩
            · exact .inl ⟨.partner lead', found, fun text => by
                simp only [scan, hdigit, if_neg hcount, hafter]⟩
  | partner lead =>
      refine .inr ?_
      by_cases hslash : c = '\\'
      · exact .inl ⟨.partnerLetter lead, found, fun text => if_pos hslash⟩
      · exact .inr fun text => ⟨.malformed, if_neg hslash⟩
  | partnerLetter lead =>
      refine .inr ?_
      by_cases hu : c = 'u'
      · exact .inl ⟨.unit (some lead) 0 0, found, fun text => if_pos hu⟩
      · exact .inr fun text => ⟨.malformed, if_neg hu⟩

/-- Something of quoted text is taken up to its last quote. -/
theorem closes_quoted {value : List Char} (h : Reads (scan paired state found) text value rest) :
    ∃ front c, text = front ++ c :: rest ∧ isGap c = false := by
  induction text generalizing state found with
  | nil => cases h
  | cons c text ih =>
      rcases quoted_cases paired state found c with ⟨rfl, hend⟩ | ⟨state', found', hnext⟩ | hfault
      · cases (hend text).symm.trans h
        exact ⟨[], '"', rfl, by decide⟩
      · obtain ⟨front, d, rfl, hd⟩ := ih state' found' ((hnext text).symm.trans h)
        exact ⟨c :: front, d, rfl, hd⟩
      · obtain ⟨reason, hreason⟩ := hfault text
        cases hreason.symm.trans h

/-- Quoted text ends with a quote, and nothing behind that quote matters. -/
theorem isClosed_quoted : IsClosed (scan paired state found) where
  closes := closes_quoted paired state found
  extend := by
    intro text value rest more
    induction text generalizing state found with
    | nil =>
        refine iff_of_false ?_ (by rintro ⟨⟩)
        intro h
        obtain ⟨front, c, hmore, -⟩ := closes_quoted paired state found h
        have hlength := congrArg List.length hmore
        simp only [List.nil_append, List.length_append, List.length_cons] at hlength
        omega
    | cons c text ih =>
        unfold Reads at ih ⊢
        rw [List.cons_append]
        rcases quoted_cases paired state found c with ⟨-, hend⟩ | ⟨state', found', hnext⟩ | hfault
        · rw [hend, hend]
          simp only [Except.ok.injEq, Prod.mk.injEq, List.append_left_inj]
        · rw [hnext, hnext]
          exact ih state' found'
        · obtain ⟨reason, hreason⟩ := hfault text
          obtain ⟨reason', hreason'⟩ := hfault (text ++ more)
          rw [hreason, hreason']
          exact iff_of_false (by rintro ⟨⟩) (by rintro ⟨⟩)

end Quoted

/-! ## Scalars -/

theorem isClosed_quotedRest : IsClosed quotedRest :=
  (isClosed_quoted true .plain []).map String.ofList

theorem isLocal_scalar : IsLocal scalar := by
  refine isLocal_peek.bind fun c => ?_
  have hquoted := isLocal_advance.bind fun _ => (isClosed_quotedRest.map Json.string).isLocal
  have hletters := fun (word : List Char) (value : Json) =>
    (isLocal_letters word).map fun _ => value
  exact hquoted.ite <| isLocal_numeral.ite <| (hletters _ _).ite <| (hletters _ _).ite <|
    (hletters _ _).ite <| isLocal_fault _

theorem isLocal_wantScalar : IsLocal wantScalar :=
  isLocal_peek.bind fun _ => (isLocal_fault _).ite isLocal_scalar

theorem isLocal_misfit : IsLocal (misfit : Scan α) :=
  isLocal_wantScalar.bind fun _ => isLocal_fault _

theorem isLocal_integer (low high : Int) : IsLocal (integer low high) := by
  refine isLocal_wantScalar.bind fun found => ?_
  cases found with
  | int value => exact (isLocal_pure value).ite (isLocal_fault _)
  | _ => exact isLocal_fault _

theorem isLocal_text : IsLocal Scan.text := by
  refine isLocal_wantScalar.bind fun found => ?_
  cases found with
  | string value => exact isLocal_pure value
  | _ => exact isLocal_fault _

end X86Listing.Scan
