import X86Listing.Json.Scan
import X86Listing.Proofs.Json.Numeral
import X86Listing.Proofs.Json.Quoted

/-!
# Written JSON read from left to right

`Reads scan text value rest` says that a reader takes `value` from the front of `text` and leaves
`rest`.  Readers are put together with `>>=`, and so are these facts (`Reads.bind`): the reader of a
compound value follows its written form token by token.

* `reads_peek`, `reads_expect` — single characters.
* `reads_value_quoted`, `reads_value_int` — scalars, where any value may stand.
* `reads_text`, `reads_integer` — scalars of one kind, where that kind is wanted.
-/

namespace X86Listing.Scan

/-! ## Readers in sequence -/

/-- The reader takes a value from the front of the text and leaves the rest. -/
def Reads {α : Type} (scan : Scan α) (text : List Char) (value : α) (rest : List Char) : Prop :=
  scan text = .ok (value, rest)

variable {α β : Type} {input middle rest : List Char} {c : Char}

theorem reads_pure (value : α) (input : List Char) : Reads (pure value) input value input := rfl

theorem Reads.bind {scan : Scan α} {next : α → Scan β} {value : α} {result : β}
    (hscan : Reads scan input value middle) (hnext : Reads (next value) middle result rest) :
    Reads (scan >>= next) input result rest := by
  show (scan input >>= fun found => next found.1 found.2) = _
  rw [hscan]
  exact hnext

/-- What is read may be passed through a function. -/
theorem Reads.map {scan : Scan α} {value : α} (hscan : Reads scan input value rest) (f : α → β) :
    Reads (do return f (← scan)) input (f value) rest :=
  hscan.bind (reads_pure (f value) rest)

/-! ## Characters -/

theorem reads_peek (h : isGap c = false) : Reads peek (c :: rest) c (c :: rest) := by
  have hdrop : (c :: rest).dropWhile isGap = c :: rest := List.dropWhile_cons_of_neg (by simp [h])
  have hpeek : Reads peek? (c :: rest) (some c) (c :: rest) := by
    show Except.ok (((c :: rest).dropWhile isGap).head?, (c :: rest).dropWhile isGap) = _
    rw [hdrop]
    rfl
  exact hpeek.bind (reads_pure c (c :: rest))

theorem reads_advance (c : Char) (rest : List Char) : Reads advance (c :: rest) () rest := rfl

theorem reads_expect (h : isGap c = false) : Reads (expect c) (c :: rest) () rest := by
  refine (reads_peek h).bind ?_
  rw [if_pos rfl]
  exact reads_advance c rest

/-- A reader that looks at the first character and goes on from there. -/
theorem Reads.peek_bind {next : Char → Scan β} {result : β} (h : isGap c = false)
    (hnext : Reads (next c) (c :: input) result rest) :
    Reads (peek >>= next) (c :: input) result rest :=
  (reads_peek h).bind hnext

/-- A reader that takes the first character and goes on. -/
theorem Reads.advance_bind {next : Scan β} {result : β} (hnext : Reads next input result rest) :
    Reads (do advance; next) (c :: input) result rest :=
  (reads_advance c input).bind hnext

/-! ## Scalars -/

/-- The rest of quoted text. -/
theorem reads_quotedRest (value : String) (rest : List Char) :
    Reads quotedRest (value.toList.flatMap Json.escapeChar ++ '"' :: rest) value rest := by
  show (Quoted.ofText true _ >>= fun found => Except.ok (String.ofList found.1, found.2)) = _
  rw [Quoted.ofText_quote]
  show Except.ok (String.ofList value.toList, rest) = _
  rw [String.ofList_toList]

theorem quote_append (value : String) (rest : List Char) :
    Json.quote value ++ rest = '"' :: (value.toList.flatMap Json.escapeChar ++ '"' :: rest) := by
  simp [Json.quote]

theorem reads_fieldName (name : String) (rest : List Char) :
    Reads fieldName (Json.quote name ++ rest) name rest := by
  rw [quote_append]
  refine Reads.peek_bind (by decide) ?_
  rw [if_pos rfl]
  exact (reads_quotedRest name rest).advance_bind

theorem reads_quoted (value : String) (rest : List Char) :
    Reads scalar (Json.quote value ++ rest) (.string value) rest := by
  rw [quote_append]
  refine Reads.peek_bind (by decide) ?_
  rw [if_pos rfl]
  exact ((reads_quotedRest value rest).map Json.string).advance_bind

theorem reads_numeral {value : Int} (h : JsonNumeral.HasWord value)
    (hrest : JsonNumeral.EndsNumeral rest) :
    Reads numeral (Text.signedDecimal value ++ rest) (.int value) rest := by
  show (JsonNumeral.ofText .truncated _ >>= fun found => if found.1.fits then
    Except.ok (found.1.toJson, found.2) else Except.error .malformed) = _
  rw [JsonNumeral.ofText_signedDecimal .truncated value hrest]
  show (if _ then _ else _) = _
  rw [if_pos (JsonNumeral.fits_ofInt h), JsonNumeral.toJson_ofInt h]

/-- A character that may start a scalar: it is no blank and opens neither an array nor an object. -/
structure StartsScalar (c : Char) : Prop where
  gap : isGap c = false
  array : c ≠ '['
  object : c ≠ '\x7b'

theorem startsScalar_quote : StartsScalar '"' :=
  ⟨by decide, by decide, by decide⟩

/-- The numeral of an integer starts with a minus sign or a digit. -/
theorem exists_signedDecimal_append (value : Int) (rest : List Char) :
    ∃ c tail, Text.signedDecimal value ++ rest = c :: tail ∧
      (c = '-' ∨ JsonNumeral.isDigit c = true) := by
  unfold Text.signedDecimal
  split
  · exact ⟨'-', _, rfl, .inl rfl⟩
  · cases hdigits : Text.decimal value.natAbs with
    | nil => exact absurd hdigits (Text.decimal_ne_nil _)
    | cons c digits =>
        refine ⟨c, digits ++ rest, rfl, .inr ?_⟩
        exact JsonNumeral.isDigit_of_mem_decimal (n := value.natAbs) (by simp [hdigits])

theorem ne_of_numeral {c d : Char} (h : c = '-' ∨ JsonNumeral.isDigit c = true)
    (hd : d ≠ '-' ∧ JsonNumeral.isDigit d = false) : c ≠ d := by
  rintro rfl
  rcases h with h | h
  · exact hd.1 h
  · rw [hd.2] at h
    exact absurd h (by decide)

theorem startsScalar_of_numeral {c : Char} (h : c = '-' ∨ JsonNumeral.isDigit c = true) :
    StartsScalar c where
  gap := by
    unfold isGap
    rw [decide_eq_false_iff_not]
    rintro (hc | hc | hc | hc)
    · exact ne_of_numeral h (by decide) hc
    · exact ne_of_numeral h (by decide) hc
    · exact ne_of_numeral h (by decide) hc
    · exact ne_of_numeral h (by decide) hc
  array := ne_of_numeral h (by decide)
  object := ne_of_numeral h (by decide)

/-- An integer with 64 bits is read as a scalar, whose first character says that it is one. -/
theorem reads_int {value : Int} (h : JsonNumeral.HasWord value)
    (hrest : JsonNumeral.EndsNumeral rest) :
    ∃ c tail, Text.signedDecimal value ++ rest = c :: tail ∧ StartsScalar c ∧
      Reads scalar (c :: tail) (.int value) rest := by
  have hnumeral := reads_numeral h hrest
  obtain ⟨c, tail, htext, hc⟩ := exists_signedDecimal_append value rest
  have hstarts := startsScalar_of_numeral hc
  have hquote : c ≠ '"' := ne_of_numeral hc (by decide)
  rw [htext] at hnumeral
  refine ⟨c, tail, htext, hstarts, ?_⟩
  refine Reads.peek_bind hstarts.gap ?_
  rw [if_neg hquote, if_pos hc]
  exact hnumeral

/-- A scalar is read where a scalar is wanted. -/
theorem Reads.wantScalar {value : Json} (hscalar : Reads scalar (c :: input) value rest)
    (h : StartsScalar c) : Reads wantScalar (c :: input) value rest := by
  refine Reads.peek_bind h.gap ?_
  rw [if_neg (by simp [h.array, h.object])]
  exact hscalar

/-- A scalar is read where any value may stand. -/
theorem Reads.value {value : Json} (hscalar : Reads scalar (c :: input) value rest)
    (h : StartsScalar c) (nesting : Nat) :
    Reads (Scan.value nesting) (c :: input) value rest := by
  cases nesting with
  | zero => exact hscalar
  | succ nesting =>
      refine Reads.peek_bind h.gap ?_
      rw [if_neg h.array, if_neg h.object]
      exact hscalar

theorem reads_value_quoted (nesting : Nat) (content : String) (rest : List Char) :
    Reads (value nesting) (Json.quote content ++ rest) (.string content) rest :=
  (reads_quoted content rest).value startsScalar_quote nesting

theorem reads_value_int (nesting : Nat) {number : Int} (h : JsonNumeral.HasWord number)
    (hrest : JsonNumeral.EndsNumeral rest) :
    Reads (value nesting) (Text.signedDecimal number ++ rest) (.int number) rest := by
  obtain ⟨c, tail, htext, hstarts, hscalar⟩ := reads_int h hrest
  rw [htext]
  exact hscalar.value hstarts nesting

theorem reads_text (value : String) (rest : List Char) :
    Reads text (Json.quote value ++ rest) value rest :=
  ((reads_quoted value rest).wantScalar startsScalar_quote).bind (reads_pure value rest)

theorem reads_integer {low high number : Int} (hlow : low ≤ number) (hhigh : number ≤ high)
    (h : JsonNumeral.HasWord number) (hrest : JsonNumeral.EndsNumeral rest) :
    Reads (integer low high) (Text.signedDecimal number ++ rest) number rest := by
  obtain ⟨c, tail, htext, hstarts, hscalar⟩ := reads_int h hrest
  rw [htext]
  refine (hscalar.wantScalar hstarts).bind ?_
  show Reads (if low ≤ number ∧ number ≤ high then _ else _) rest number rest
  rw [if_pos ⟨hlow, hhigh⟩]
  exact reads_pure number rest

end X86Listing.Scan
