import X86Listing.Text.Blank
import X86Listing.Text.Numeral
import X86Listing.Text.Split

/-!
# Bit masks as text

A mask is written as the names of its bits joined by `" | "`, in the order in which the bits are
declared.  Bits without a name come last, together, as one hexadecimal numeral; a mask without
bits is the empty text.  Reading is more liberal: blanks around the names do not matter, names and
numerals may stand in any order, and a bit may be named more than once.
-/

namespace X86Listing.Text

/-- A name table: the name of a bit and the bit's position. -/
abbrev BitNames := List (String × Nat)

namespace BitNames

/-- The bits of the mask that have no name. -/
def unnamed (names : BitNames) (mask : Nat) : Nat :=
  names.foldl (fun rest (_, bit) => if rest.testBit bit then rest - 1 <<< bit else rest) mask

/-- The pieces of a mask's text: its names, then the numeral of its unnamed bits. -/
def pieces (names : BitNames) (mask : Nat) : List (List Char) :=
  let named := (names.filter fun (_, bit) => mask.testBit bit).map fun (name, _) => name.toList
  let rest := names.unnamed mask
  if rest = 0 then named else named ++ [marked rest]

/-- The text of a mask. -/
def write (names : BitNames) (mask : Nat) : List Char :=
  [' ', '|', ' '].intercalate (names.pieces mask)

/-- Read one piece: a numeral below `bound` behind `0x`, or the exact name of a bit. -/
def readPiece? (names : BitNames) (bound : Nat) (piece : List Char) : Option Nat :=
  match piece with
  | '0' :: 'x' :: digits => (ofHexadecimal? digits).filter (· < bound)
  | _ => (names.find? fun (name, _) => name.toList = piece).map fun (_, bit) => 1 <<< bit

/-- Read the text of a mask below `bound`.  A text of blanks alone is the mask without bits. -/
def read? (names : BitNames) (bound : Nat) (text : List Char) : Option Nat :=
  if (trim text).isEmpty then some 0
  else (splitOn '|' text).foldlM
    (fun mask piece => (names.readPiece? bound (trim piece)).map (mask ||| ·)) 0

end BitNames

end X86Listing.Text
