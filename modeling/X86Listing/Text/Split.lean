/-!
# Splitting a text at a separator

`splitOn` cuts a text at every occurrence of one character and keeps empty pieces, so a text with
`k` separators has `k + 1` pieces.
-/

namespace X86Listing.Text

/-- Put a character at the front of the first piece, or open a new piece at a separator. -/
def splitStep (sep c : Char) (pieces : List (List Char)) : List (List Char) :=
  if c = sep then [] :: pieces
  else match pieces with
    | [] => [[c]]
    | piece :: rest => (c :: piece) :: rest

/-- The pieces between the separators, empty ones included. -/
def splitOn (sep : Char) (text : List Char) : List (List Char) :=
  text.foldr (splitStep sep) [[]]

theorem splitOn_nil (sep : Char) : splitOn sep [] = [[]] := rfl

theorem splitOn_cons (sep c : Char) (text : List Char) :
    splitOn sep (c :: text) = splitStep sep c (splitOn sep text) := rfl

theorem splitOn_ne_nil (sep : Char) (text : List Char) : splitOn sep text ≠ [] := by
  cases text with
  | nil => simp [splitOn_nil]
  | cons c text =>
      rw [splitOn_cons]
      unfold splitStep
      split
      · simp
      · split <;> simp

/-- Splitting a text around a separator splits the two sides on their own. -/
theorem splitOn_append_cons (sep : Char) (a b : List Char) :
    splitOn sep (a ++ sep :: b) = splitOn sep a ++ splitOn sep b := by
  induction a with
  | nil => simp [splitOn_cons, splitOn_nil, splitStep]
  | cons c a ih =>
      rw [List.cons_append, splitOn_cons, ih, splitOn_cons]
      cases h : splitOn sep a with
      | nil => exact absurd h (splitOn_ne_nil sep a)
      | cons piece rest =>
          unfold splitStep
          split <;> simp

end X86Listing.Text
