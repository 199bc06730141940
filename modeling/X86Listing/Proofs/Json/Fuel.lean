import X86Listing.Proofs.Json.Locality

/-!
# Loops over a text

The readers of arrays, objects and skipped values are loops, and their fuel comes from the length of
the text.  Each round takes a character sooner or later, so that fuel is enough: with any other
amount a loop reads the same or fails (`Within`).  A longer text gives more fuel and nothing else,
and so these readers are local as well.

* `FuelBound` — how much fuel is enough, and what follows from that.
* `fuelBound_items`, `fuelBound_fields`, `fuelBound_skip` — a round for each character of an array
  or an object, and two rounds for each one of a value that is skipped.
* `isClosed_items`, `isClosed_fields` — arrays and objects end with their bracket.
* `isLocal_value`, `isLocal_skip` — values that are kept and values that are not.
-/

namespace X86Listing.Scan

variable {α β : Type} {text rest : List Char} {n : Nat}

/-! ## Readers that agree on short texts -/

/-- What the first reader reads of a text of at most `n` characters, the second one reads too. -/
def Within (n : Nat) (scan other : Scan α) : Prop :=
  ∀ ⦃text value rest⦄, text.length ≤ n → Reads scan text value rest → Reads other text value rest

theorem Within.refl (n : Nat) (scan : Scan α) : Within n scan scan :=
  fun _ _ _ _ h => h

theorem within_fault (n : Nat) (reason : ReadFault) (scan : Scan α) :
    Within n (fault reason) scan :=
  fun _ _ _ _ h => absurd h not_reads_fault

theorem Within.ite {p : Prop} [Decidable p] {scan other scan' other' : Scan α}
    (h : Within n scan other) (h' : Within n scan' other') :
    Within n (if p then scan else scan') (if p then other else other') := by
  split
  · exact h
  · exact h'

theorem IsLocal.bind_within {scan : Scan α} {next next' : α → Scan β} (hscan : IsLocal scan)
    (h : ∀ value, Within n (next value) (next' value)) :
    Within n (scan >>= next) (scan >>= next') := by
  intro text result rest hlength hread
  obtain ⟨value, middle, hvalue, hresult⟩ := reads_bind_iff.1 hread
  exact hvalue.bind (h value ((hscan.suffix hvalue).length_le.trans hlength) hresult)

/-- A closed reader takes a character. -/
theorem IsClosed.bind_within {scan : Scan α} {next next' : α → Scan β} (hscan : IsClosed scan)
    (h : ∀ value, Within n (next value) (next' value)) :
    Within (n + 1) (scan >>= next) (scan >>= next') := by
  intro text result rest hlength hread
  obtain ⟨value, middle, hvalue, hresult⟩ := reads_bind_iff.1 hread
  obtain ⟨front, c, rfl, -⟩ := hscan.closes hvalue
  have hmiddle : middle.length ≤ n := by
    rw [List.length_append, List.length_cons] at hlength
    omega
  exact hvalue.bind (h value hmiddle hresult)

/-- Taking a character leaves a shorter text. -/
theorem advance_within {next next' : Scan α} (h : Within n next next') :
    Within (n + 1) (do advance; next) (do advance; next') := by
  intro text result rest hlength hread
  obtain ⟨_, middle, hvalue, hresult⟩ := reads_bind_iff.1 hread
  have hmiddle : middle.length ≤ n := by
    rw [← reads_advance_iff.1 hvalue, List.length_tail]
    omega
  exact hvalue.bind (h hmiddle hresult)

/-- There is nothing to see in the empty text. -/
theorem peek_within_zero {next : Char → Scan α} (scan : Scan α) :
    Within 0 (peek >>= next) scan := by
  intro text result rest hlength hread
  obtain ⟨c, middle, hpeek, -⟩ := reads_bind_iff.1 hread
  obtain rfl := List.length_eq_zero_iff.1 (Nat.le_zero.1 hlength)
  cases hpeek

theorem peek_within {next next' : Char → Scan α}
    (h : ∀ c m, n = m + 1 → Within n (next c) (next' c)) :
    Within n (peek >>= next) (peek >>= next') := by
  cases n with
  | zero => exact peek_within_zero _
  | succ n => exact isLocal_peek.bind_within fun c => h c n rfl

/-! ## Fuel by the length of the text -/

/-- A loop that is given the fuel that the text needs. -/
def fueled (loop : Nat → Scan α) (bound : Nat → Nat) : Scan α := do
  loop (bound (← get).length)

/-- With fuel by this bound the loop reads what it reads with any fuel. -/
structure FuelBound (loop : Nat → Scan α) (bound : Nat → Nat) : Prop where
  mono : Monotone bound
  within : ∀ {n fuel more}, bound n ≤ more → Within n (loop fuel) (loop more)

namespace FuelBound

variable {loop : Nat → Scan α} {bound : Nat → Nat} (h : FuelBound loop bound)
include h

theorem reads_iff {value : α} {fuel : Nat} (hfuel : bound text.length ≤ fuel) :
    Reads (fueled loop bound) text value rest ↔ Reads (loop fuel) text value rest :=
  ⟨fun hread => h.within hfuel (Nat.le_refl _) hread,
    fun hread => h.within (Nat.le_refl _) (Nat.le_refl _) hread⟩

/-- The fuel for a longer text makes no difference. -/
theorem extend {value : α} {more : List Char}
    (hloop : ∀ fuel, Reads (loop fuel) (text ++ more) value (rest ++ more) ↔
      Reads (loop fuel) text value rest) :
    Reads (fueled loop bound) (text ++ more) value (rest ++ more) ↔
      Reads (fueled loop bound) text value rest := by
  have hle : bound text.length ≤ bound (text ++ more).length := h.mono (by simp)
  rw [h.reads_iff (Nat.le_refl (bound (text ++ more).length)), hloop, h.reads_iff hle]

theorem isLocal (hloop : ∀ fuel, IsLocal (loop fuel)) : IsLocal (fueled loop bound) where
  suffix := fun hread => (hloop _).suffix ((h.reads_iff (Nat.le_refl _)).1 hread)
  extend := fun hrest => h.extend fun fuel => (hloop fuel).extend hrest

theorem isClosed (hloop : ∀ fuel, IsClosed (loop fuel)) : IsClosed (fueled loop bound) where
  closes := fun hread => (hloop _).closes ((h.reads_iff (Nat.le_refl _)).1 hread)
  extend := h.extend fun fuel => (hloop fuel).extend

end FuelBound

/-! ## Arrays -/

section Items

variable {item : Scan α} (hitem : IsLocal item)
include hitem

theorem isClosed_itemsLoop (fuel : Nat) (first : Bool) (found : List α) :
    IsClosed (itemsLoop item fuel first found) := by
  induction fuel generalizing first found with
  | zero => exact isClosed_fault _
  | succ fuel ih =>
      have hnext := hitem.bind_closed fun next => ih false (next :: found)
      refine isClosed_peek_bind fun c => ?_
      exact hnext.ite <| (isLocal_expect ',').bind_closed fun _ =>
        isLocal_peek.bind_closed fun _ => (isClosed_fault _).ite hnext

/-- Behind the first item each round takes a comma. -/
theorem within_itemsLoop {fuel more : Nat} (h : n ≤ more) (found : List α) :
    Within n (itemsLoop item fuel false found) (itemsLoop item more false found) := by
  induction fuel generalizing n more found with
  | zero => exact within_fault ..
  | succ fuel ih =>
      cases more with
      | zero =>
          obtain rfl : n = 0 := by omega
          exact peek_within_zero _
      | succ more =>
          refine peek_within fun c m hm => (Within.refl ..).ite ?_
          subst hm
          refine (isClosed_expect ',').bind_within fun _ => ?_
          refine isLocal_peek.bind_within fun c => (Within.refl ..).ite ?_
          exact hitem.bind_within fun next => ih (by omega) (next :: found)

theorem fuelBound_items : FuelBound (fun fuel => itemsLoop item fuel true []) (· + 1) where
  mono := fun _ _ h => Nat.succ_le_succ h
  within := by
    intro n fuel more h
    obtain ⟨more, rfl⟩ : ∃ k, more = k + 1 := ⟨more - 1, by omega⟩
    cases fuel with
    | zero => exact within_fault ..
    | succ fuel =>
        refine isLocal_peek.bind_within fun c => (Within.refl ..).ite ?_
        exact hitem.bind_within fun next => within_itemsLoop hitem (by omega) [next]

/-- An array ends with its bracket. -/
theorem isClosed_items : IsClosed (items item) :=
  (fuelBound_items hitem).isClosed fun fuel => isClosed_itemsLoop hitem fuel true []

end Items

/-! ## Objects -/

theorem isClosed_fieldName : IsClosed fieldName :=
  isLocal_peek.bind_closed fun _ =>
    (isLocal_advance.bind_closed fun _ => isClosed_quotedRest).ite (isClosed_fault _)

section Fields

variable {step : β → String → Scan β} (hstep : ∀ found name, IsLocal (step found name))
include hstep

theorem isClosed_fieldsLoop (fuel : Nat) (first : Bool) (found : β) :
    IsClosed (fieldsLoop step fuel first found) := by
  induction fuel generalizing first found with
  | zero => exact isClosed_fault _
  | succ fuel ih =>
      have hfield := isClosed_fieldName.isLocal.bind_closed fun name =>
        (hstep found name).bind_closed fun next => ih false next
      refine isClosed_peek_bind fun c => ?_
      exact hfield.ite <| (isLocal_expect ',').bind_closed fun _ => hfield

/-- The name of a field takes a character, and so each round does. -/
theorem within_fieldsLoop {fuel more : Nat} {first : Bool} (h : n + 1 ≤ more) (found : β) :
    Within n (fieldsLoop step fuel first found) (fieldsLoop step more first found) := by
  induction fuel generalizing n more first found with
  | zero => exact within_fault ..
  | succ fuel ih =>
      obtain ⟨more, rfl⟩ : ∃ k, more = k + 1 := ⟨more - 1, by omega⟩
      refine peek_within fun c m hm => (Within.refl ..).ite (Within.ite ?_ ?_)
      · subst hm
        refine isClosed_fieldName.bind_within fun name => ?_
        exact (hstep found name).bind_within fun next => ih (by omega) next
      · subst hm
        refine (isClosed_expect ',').bind_within fun _ => ?_
        refine isClosed_fieldName.isLocal.bind_within fun name => ?_
        exact (hstep found name).bind_within fun next => ih (by omega) next

theorem fuelBound_fields (start : β) :
    FuelBound (fun fuel => fieldsLoop step fuel true start) (· + 1) where
  mono := fun _ _ h => Nat.succ_le_succ h
  within := fun h => within_fieldsLoop hstep h start

/-- An object ends with its brace. -/
theorem isClosed_fields (start : β) : IsClosed (fields step start) :=
  (fuelBound_fields hstep start).isClosed fun fuel => isClosed_fieldsLoop hstep fuel true start

end Fields

/-! ## Values -/

theorem isLocal_value (nesting : Nat) : IsLocal (value nesting) := by
  induction nesting with
  | zero => exact isLocal_scalar
  | succ nesting ih =>
      have hitems := (isClosed_items ih).isLocal
      have hstep : ∀ (found : List (String × Json)) (name : String), IsLocal (do
          expect ':'
          let content ← value nesting
          return (name, content) :: found) := fun found name =>
        (isLocal_expect ':').bind fun _ => ih.map fun content => (name, content) :: found
      have hfields := (isClosed_fields hstep []).isLocal
      refine isLocal_peek.bind fun c => ?_
      exact (isLocal_advance.bind fun _ => hitems.map Json.array).ite <|
        (isLocal_advance.bind fun _ => hfields.map fun found => Json.object found.reverse).ite
          isLocal_scalar

/-! ## Skipped values -/

theorem isClosed_skipQuotedRest : IsClosed skipQuotedRest :=
  (isClosed_quoted false .plain []).map fun _ => ()

theorem isLocal_skipScalar : IsLocal skipScalar := by
  refine isLocal_peek.bind fun c => ?_
  have hnumeral := (isLocal_ofText .malformed).map fun _ => ()
  have hscalar : IsLocal (discard scalar) := isLocal_scalar.map fun _ => ()
  exact (isLocal_advance.bind fun _ => isClosed_skipQuotedRest.isLocal).ite (hnumeral.ite hscalar)

theorem isLocal_skipFieldName (close : Char) : IsLocal (skipFieldName close) := by
  refine IsLocal.ite (isLocal_peek.bind fun c => ?_) (isLocal_pure ())
  exact (isLocal_advance.bind fun _ => isClosed_skipQuotedRest.isLocal.bind fun _ =>
    isLocal_expect ':').ite (isLocal_fault _)

theorem isLocal_skipLoop (fuel : Nat) (phase : SkipPhase) (closers : List Char) :
    IsLocal (skipLoop fuel phase closers) := by
  induction fuel generalizing phase closers with
  | zero => exact isLocal_fault _
  | succ fuel ih =>
      have hclose := fun closers => isLocal_advance.bind fun _ => ih .done closers
      have hvalue := fun close closers =>
        (isLocal_skipFieldName close).bind fun _ => ih .value (close :: closers)
      cases phase with
      | value =>
          refine isLocal_peek.bind fun c => ?_
          exact (isLocal_advance.bind fun _ => ih .opened _).ite <|
            (isLocal_advance.bind fun _ => ih .opened _).ite <|
            isLocal_skipScalar.bind fun _ => ih .done closers
      | opened =>
          cases closers with
          | nil => exact isLocal_fault _
          | cons close closers =>
              exact isLocal_peek.bind fun c => (hclose closers).ite (hvalue close closers)
      | done =>
          cases closers with
          | nil => exact isLocal_pure ()
          | cons close closers =>
              exact isLocal_peek.bind fun c => (hclose closers).ite <|
                (isLocal_expect ',').bind fun _ => hvalue close closers

/-- The fuel that is enough for a text of `n` characters. -/
def SkipPhase.fuel : SkipPhase → (n : Nat) → Nat
  | value, n => 2 * n + 2
  | opened, n => 2 * n + 3
  | done, n => 2 * n + 1

/-- Of two rounds in a row at least one takes a character. -/
theorem within_skipLoop {fuel more : Nat} {phase : SkipPhase} (h : phase.fuel n ≤ more)
    (closers : List Char) :
    Within n (skipLoop fuel phase closers) (skipLoop more phase closers) := by
  induction fuel generalizing n more phase closers with
  | zero => exact within_fault ..
  | succ fuel ih =>
      obtain ⟨more, rfl⟩ : ∃ k, more = k + 1 :=
        ⟨more - 1, by cases phase <;> simp only [SkipPhase.fuel] at h <;> omega⟩
      cases phase with
      | value =>
          refine peek_within fun c m hm => ?_
          subst hm
          have hopened : SkipPhase.opened.fuel m ≤ more := by
            simp only [SkipPhase.fuel] at h ⊢
            omega
          have hdone : SkipPhase.done.fuel (m + 1) ≤ more := by
            simp only [SkipPhase.fuel] at h ⊢
            omega
          refine (advance_within (ih hopened _)).ite ((advance_within (ih hopened _)).ite ?_)
          exact isLocal_skipScalar.bind_within fun _ => ih hdone closers
      | opened =>
          cases closers with
          | nil => exact within_fault ..
          | cons close closers =>
              refine peek_within fun c m hm => ?_
              subst hm
              have hdone : SkipPhase.done.fuel m ≤ more := by
                simp only [SkipPhase.fuel] at h ⊢
                omega
              have hvalue : SkipPhase.value.fuel (m + 1) ≤ more := by
                simp only [SkipPhase.fuel] at h ⊢
                omega
              refine (advance_within (ih hdone closers)).ite ?_
              exact (isLocal_skipFieldName close).bind_within fun _ => ih hvalue (close :: closers)
      | done =>
          cases closers with
          | nil => exact Within.refl ..
          | cons close closers =>
              refine peek_within fun c m hm => ?_
              subst hm
              have hdone : SkipPhase.done.fuel m ≤ more := by
                simp only [SkipPhase.fuel] at h ⊢
                omega
              have hvalue : SkipPhase.value.fuel m ≤ more := by
                simp only [SkipPhase.fuel] at h ⊢
                omega
              refine (advance_within (ih hdone closers)).ite ?_
              refine (isClosed_expect ',').bind_within fun _ => ?_
              exact (isLocal_skipFieldName close).bind_within fun _ => ih hvalue (close :: closers)

theorem fuelBound_skip :
    FuelBound (fun fuel => skipLoop fuel .value []) SkipPhase.value.fuel where
  mono := by
    intro m n hle
    simp only [SkipPhase.fuel]
    omega
  within := fun h => within_skipLoop h []

/-- A skipped value ends where another character follows. -/
theorem isLocal_skip : IsLocal skip :=
  fuelBound_skip.isLocal fun fuel => isLocal_skipLoop fuel .value []

end X86Listing.Scan
