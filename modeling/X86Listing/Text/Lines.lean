import X86Listing.Text.Split

/-!
# Lines of a text

A line ends at a line feed, and one carriage return right before that line feed belongs to the
line's end.  The text after the last line feed is a line too unless it is empty; a carriage return
at its end stays part of it.
-/

namespace X86Listing.Text

/-- A line without the one carriage return that may end it. -/
def dropCarriageReturn (line : List Char) : List Char :=
  if line.getLast? = some '\r' then line.dropLast else line

/-- The lines of a text without their line ends. -/
def lines (text : List Char) : List (List Char) :=
  let pieces := splitOn '\n' text
  let last := pieces.getLastD []
  pieces.dropLast.map dropCarriageReturn ++ if last.isEmpty then [] else [last]

end X86Listing.Text
