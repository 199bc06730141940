import X86Listing.Sink

/-!
# What sinks take

A sink takes texts from the front.  So what it has taken in the end is a front of all that it was
offered, and all of it unless something failed, whatever the sink does.  How long that front is
depends on the sink.

* `Sink.isFront_offer`, `Sink.IsFront.andThen` — one text, and two of them one after the other.
* `Sink.NeverFails.offer` — a sink that never fails takes everything.
* `Sink.FillsAt.offer` — a sink with room for a number of characters takes as many.
* `Sink.FillsAt.offerPieces` — it takes the same of a text that is cut into pieces.
-/

namespace X86Listing.Sink

variable {ε : Type} {sink : Sink} {a b text : List Char}

theorem andThen_none (front : List Char) (next : Nat → List Char × Option ε) :
    andThen (front, none) next = (front ++ (next front.length).1, (next front.length).2) := rfl

theorem andThen_some (front : List Char) (cause : ε) (next : Nat → List Char × Option ε) :
    andThen (front, some cause) next = (front, some cause) := rfl

section Rounds

variable {rounds count : Nat} {c : Char} {rest : List Char}

/-- A round in which the sink takes something. -/
theorem offerLoop_cons {taken : Nat} (hcount : 0 < count)
    (haccept : sink.accept taken (c :: rest) = some count) :
    sink.offerLoop (rounds + 1) taken (c :: rest) =
      andThen ((c :: rest).take count, none) fun more =>
        sink.offerLoop rounds (taken + more) ((c :: rest).drop count) := by
  obtain ⟨count, rfl⟩ : ∃ k, count = k + 1 := ⟨count - 1, by omega⟩
  rw [offerLoop, haccept]
  rfl

/-- Such a round leaves fewer characters. -/
theorem length_drop_le (hcount : 0 < count) (hrounds : (c :: rest).length ≤ rounds + 1) :
    ((c :: rest).drop count).length ≤ rounds := by
  rw [List.length_drop]
  omega

end Rounds

/-! ## Fronts -/

/-- What is taken of a text is a front of it, and all of it unless something failed. -/
structure IsFront (result : List Char × Option ε) (text : List Char) : Prop where
  front : result.1 <+: text
  whole : result.2 = none → result.1 = text

theorem isFront_none (text : List Char) : IsFront ((text, none) : _ × Option ε) text where
  front := List.prefix_rfl
  whole _ := rfl

theorem isFront_some (cause : ε) (text : List Char) : IsFront ([], some cause) text where
  front := List.nil_prefix
  whole h := absurd h (Option.some_ne_none cause)

/-- The second text is offered only behind the whole first one. -/
theorem IsFront.andThen {first : List Char × Option ε} {next : Nat → List Char × Option ε}
    (hfirst : IsFront first a) (hnext : ∀ more, IsFront (next more) b) :
    IsFront (Sink.andThen first next) (a ++ b) := by
  obtain ⟨front, cause⟩ := first
  cases cause with
  | some cause =>
      refine ⟨hfirst.front.trans (List.prefix_append a b), ?_⟩
      exact fun h => absurd h (Option.some_ne_none cause)
  | none =>
      obtain rfl : front = a := hfirst.whole rfl
      have hmore := hnext front.length
      refine ⟨(List.prefix_append_right_inj front).2 hmore.front, ?_⟩
      exact fun h => congrArg (front ++ ·) (hmore.whole h)

theorem isFront_offerLoop {rounds : Nat} (hrounds : text.length ≤ rounds) (taken : Nat) :
    IsFront (sink.offerLoop rounds taken text) text := by
  induction rounds generalizing taken text with
  | zero =>
      obtain rfl : text = [] := List.length_eq_zero_iff.1 (Nat.le_zero.1 hrounds)
      exact isFront_none []
  | succ rounds ih =>
      cases text with
      | nil => exact isFront_none []
      | cons c rest =>
          rcases haccept : sink.accept taken (c :: rest) with _ | _ | count
          · rw [offerLoop, haccept]
            exact isFront_some _ _
          · rw [offerLoop, haccept]
            exact isFront_some _ _
          · have hcount := Nat.succ_pos count
            have hwhole := (isFront_none ((c :: rest).take (count + 1))).andThen
              fun more => ih (length_drop_le hcount hrounds) (taken + more)
            rw [List.take_append_drop] at hwhole
            rwa [offerLoop_cons hcount haccept]

/-- Whatever a sink does, it takes a front of a text. -/
theorem isFront_offer (sink : Sink) (taken : Nat) (text : List Char) :
    IsFront (sink.offer taken text) text :=
  isFront_offerLoop (Nat.le_refl _) taken

/-! ## Sinks that never fail -/

/-- A sink that never fails: it always takes something of what it is offered, and it passes
everything on in the end. -/
structure NeverFails (sink : Sink) : Prop where
  takes : ∀ taken offered, offered ≠ [] →
    ∃ count, 0 < count ∧ sink.accept taken offered = some count
  passes : sink.flushCause = none

theorem neverFails_unlimited : unlimited.NeverFails where
  takes := fun _ offered hoffered => ⟨offered.length, List.length_pos_iff.2 hoffered, rfl⟩
  passes := rfl

/-- How much a limited sink takes at once of what it has room for. -/
theorem exists_count {chunk : Option Nat} (h : chunk ≠ some 0) {offered room : Nat}
    (hoffered : 0 < offered) (hroom : 0 < room) :
    ∃ count, 0 < count ∧ count ≤ room ∧ min (min offered room) (chunk.getD offered) = count := by
  refine ⟨_, ?_, by omega, rfl⟩
  cases chunk with
  | none =>
      rw [Option.getD_none]
      omega
  | some count =>
      have hcount : count ≠ 0 := fun hzero => h (by rw [hzero])
      rw [Option.getD_some]
      omega

/-- A sink without a limit never fails, however short the pieces are that it takes. -/
theorem neverFails_limited {chunk : Option Nat} (h : chunk ≠ some 0) (fullCause : String) :
    (limited none chunk fullCause none).NeverFails where
  takes := by
    intro taken offered hoffered
    have hpos := List.length_pos_iff.2 hoffered
    obtain ⟨count, hcount, -, heq⟩ := exists_count h hpos hpos
    refine ⟨count, hcount, ?_⟩
    show (if offered.length = 0 then none else some _) = _
    rw [if_neg (by omega)]
    exact congrArg some heq
  passes := rfl

/-- Each round takes at least one character, so as many rounds as characters take all of them. -/
theorem NeverFails.offerLoop (h : sink.NeverFails) (rounds taken : Nat) (text : List Char) :
    (sink.offerLoop rounds taken text).2 = none := by
  induction rounds generalizing taken text with
  | zero => rfl
  | succ rounds ih =>
      cases text with
      | nil => rfl
      | cons c rest =>
          obtain ⟨count, hcount, haccept⟩ := h.takes taken (c :: rest) (List.cons_ne_nil c rest)
          rw [offerLoop_cons hcount haccept]
          exact ih _ _

theorem NeverFails.offer (h : sink.NeverFails) (taken : Nat) (text : List Char) :
    sink.offer taken text = (text, none) := by
  have hnone : (sink.offer taken text).2 = none := h.offerLoop _ _ _
  exact Prod.ext ((sink.isFront_offer taken text).whole hnone) hnone

/-! ## Sinks that fill up -/

/-- A sink with room for `limit` characters: as long as there is room it takes some of what it is
offered, and then it fails. -/
structure FillsAt (sink : Sink) (limit : Nat) : Prop where
  takes : ∀ taken offered, taken < limit → offered ≠ [] →
    ∃ count, 0 < count ∧ count ≤ limit - taken ∧ sink.accept taken offered = some count
  refuses : ∀ taken offered, limit ≤ taken → offered ≠ [] → sink.accept taken offered = none

/-- A limited sink fills up at its limit, however short the pieces are that it takes. -/
theorem fillsAt_limited (limit : Nat) {chunk : Option Nat} (h : chunk ≠ some 0)
    (fullCause : String) (flushCause : Option String) :
    (limited (some limit) chunk fullCause flushCause).FillsAt limit where
  takes := by
    intro taken offered htaken hoffered
    have hroom : 0 < limit - taken := by omega
    obtain ⟨count, hcount, hle, heq⟩ := exists_count h (List.length_pos_iff.2 hoffered) hroom
    refine ⟨count, hcount, hle, ?_⟩
    show (if limit - taken = 0 then none else some _) = _
    rw [if_neg (by omega)]
    exact congrArg some heq
  refuses := by
    intro taken offered htaken _
    show (if limit - taken = 0 then none else some _) = _
    rw [if_pos (by omega)]

section Room

variable {room : Nat} {cause : ε}

/-- The front of two texts that there is room for: the second is only offered if there is room for
the first. -/
theorem andThen_take {failure : Option ε}
    {next : Nat → List Char × Option ε}
    (hnext : a.length ≤ room → next a.length = (b.take (room - a.length), failure)) :
    andThen (a.take room, if a.length ≤ room then none else some cause) next =
      ((a ++ b).take room, if a.length ≤ room then failure else some cause) := by
  by_cases hroom : a.length ≤ room
  · rw [if_pos hroom, if_pos hroom, List.take_of_length_le hroom, andThen_none, hnext hroom,
      List.take_append, List.take_of_length_le hroom]
  · rw [if_neg hroom, if_neg hroom, andThen_some, List.take_append_of_le_length (by omega)]

/-- If both fail in the same way, they are taken like one text. -/
theorem andThen_take_append {next : Nat → List Char × Option ε}
    (hnext : a.length ≤ room → next a.length =
      (b.take (room - a.length), if b.length ≤ room - a.length then none else some cause)) :
    andThen (a.take room, if a.length ≤ room then none else some cause) next =
      ((a ++ b).take room, if (a ++ b).length ≤ room then none else some cause) := by
  rw [andThen_take hnext, List.length_append]
  by_cases hroom : a.length ≤ room
  · have hfits : b.length ≤ room - a.length ↔ a.length + b.length ≤ room := by omega
    simp only [if_pos hroom, hfits]
  · rw [if_neg hroom, if_neg (by omega)]

end Room

variable {limit taken : Nat}

/-- Each round takes at least one character as long as there is room. -/
theorem FillsAt.offerLoop (h : sink.FillsAt limit) {rounds : Nat} (hrounds : text.length ≤ rounds)
    (htaken : taken ≤ limit) :
    sink.offerLoop rounds taken text =
      (text.take (limit - taken),
        if text.length ≤ limit - taken then none else some sink.fullCause) := by
  induction rounds generalizing taken text with
  | zero =>
      obtain rfl : text = [] := List.length_eq_zero_iff.1 (Nat.le_zero.1 hrounds)
      rw [List.take_nil, List.length_nil, if_pos (Nat.zero_le _)]
      rfl
  | succ rounds ih =>
      cases text with
      | nil =>
          rw [List.take_nil, List.length_nil, if_pos (Nat.zero_le _)]
          rfl
      | cons c rest =>
          by_cases hroom : taken < limit
          · obtain ⟨count, hcount, hle, haccept⟩ :=
              h.takes taken (c :: rest) hroom (List.cons_ne_nil c rest)
            have hfront : ((c :: rest).take count).length ≤ limit - taken := by
              rw [List.length_take]
              omega
            have hfirst : (((c :: rest).take count, none) : List Char × Option String) =
                (((c :: rest).take count).take (limit - taken),
                  if ((c :: rest).take count).length ≤ limit - taken then none
                  else some sink.fullCause) := by
              rw [List.take_of_length_le hfront, if_pos hfront]
            conv => rhs; rw [← List.take_append_drop count (c :: rest)]
            rw [offerLoop_cons hcount haccept, hfirst]
            refine andThen_take_append fun _ => ?_
            rw [ih (length_drop_le hcount hrounds) (by omega), Nat.sub_add_eq]
          · have hfull : limit - taken = 0 := by omega
            have hrefuse := h.refuses taken (c :: rest) (by omega) (List.cons_ne_nil c rest)
            rw [Sink.offerLoop, hrefuse, hfull, List.take_zero, if_neg (by simp)]

/-- A sink that fills up takes as much of a text as it has room for. -/
theorem FillsAt.offer (h : sink.FillsAt limit) (htaken : taken ≤ limit) (text : List Char) :
    sink.offer taken text =
      (text.take (limit - taken),
        if text.length ≤ limit - taken then none else some sink.fullCause) :=
  h.offerLoop (Nat.le_refl _) htaken

/-- Offer pieces of a text one after the other, up to the first that fails. -/
def offerPieces (sink : Sink) :
    (taken : Nat) → (pieces : List (List Char)) → List Char × Option String
  | _, [] => ([], none)
  | taken, piece :: pieces =>
      andThen (sink.offer taken piece) fun more => offerPieces sink (taken + more) pieces

/-- It makes no difference to a sink that fills up in which pieces a text is offered. -/
theorem FillsAt.offerPieces (h : sink.FillsAt limit) (htaken : taken ≤ limit)
    (pieces : List (List Char)) :
    sink.offerPieces taken pieces = sink.offer taken pieces.flatten := by
  induction pieces generalizing taken with
  | nil => rfl
  | cons piece pieces ih =>
      rw [Sink.offerPieces, h.offer htaken, h.offer htaken, List.flatten_cons]
      refine andThen_take_append fun hroom => ?_
      rw [ih (by omega), h.offer (by omega), Nat.sub_add_eq]

end X86Listing.Sink
