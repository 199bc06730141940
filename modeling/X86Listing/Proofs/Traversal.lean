import Mathlib.Data.List.Forall2

/-!
# One after the other, up to the first fault

Chunks are swept and lines are read one after the other, and the first fault ends the whole:
`List.mapM` in `Except`.  It gives all results exactly when every item gives its own
(`mapM_eq_ok_iff`), and otherwise the fault of the first item that has one
(`mapM_eq_error_of_first`).
-/

namespace X86Listing

variable {α β ε : Type} {f : α → Except ε β}

/-- There is a result in the end exactly when each of two steps gives its own. -/
theorem bind_eq_ok_iff {first : Except ε α} {result : β} :
    first >>= f = .ok result ↔ ∃ found, first = .ok found ∧ f found = .ok result := by
  cases first with
  | error fault => exact iff_of_false (by rintro ⟨⟩) (by rintro ⟨_, ⟨⟩, _⟩)
  | ok found =>
      constructor
      · intro h
        exact ⟨found, rfl, h⟩
      · rintro ⟨_, ⟨⟩, h⟩
        exact h

/-- There are results for all items exactly when each item gives its own. -/
theorem mapM_eq_ok_iff {items : List α} {results : List β} :
    items.mapM f = .ok results ↔
      List.Forall₂ (fun item result => f item = .ok result) items results := by
  induction items generalizing results with
  | nil =>
      rw [List.mapM_nil, List.forall₂_nil_left_iff]
      constructor
      · intro h
        cases h
        rfl
      · rintro rfl
        rfl
  | cons item items ih =>
      rw [List.mapM_cons, List.forall₂_cons_left_iff]
      simp only [bind_eq_ok_iff, ih]
      constructor
      · rintro ⟨result, hitem, more, hitems, ⟨⟩⟩
        exact ⟨result, more, hitem, hitems, rfl⟩
      · rintro ⟨result, more, hitem, hitems, rfl⟩
        exact ⟨result, hitem, more, hitems, rfl⟩

/-- The first item that has a fault ends the whole with it. -/
theorem mapM_eq_error_of_first {before after : List α} {item : α} {fault : ε}
    (hbefore : ∀ other ∈ before, ∃ result, f other = .ok result) (hitem : f item = .error fault) :
    (before ++ item :: after).mapM f = .error fault := by
  induction before with
  | nil =>
      rw [List.nil_append, List.mapM_cons, hitem]
      rfl
  | cons other before ih =>
      obtain ⟨⟨result, hother⟩, hbefore⟩ := List.forall_mem_cons.1 hbefore
      rw [List.cons_append, List.mapM_cons, hother, ih hbefore]
      rfl

/-- If there are results, no item has a fault. -/
theorem exists_ok_of_mapM {items : List α} {results : List β} (h : items.mapM f = .ok results) :
    ∀ item ∈ items, ∃ result, f item = .ok result := by
  have hboth := (mapM_eq_ok_iff.1 h).imp fun item result hitem =>
    (⟨⟨result, hitem⟩, hitem⟩ : (∃ result, f item = .ok result) ∧ f item = .ok result)
  exact ((List.forall₂_and_left _ _).1 hboth).1

end X86Listing
