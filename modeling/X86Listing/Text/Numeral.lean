/-!
# Numerals

Decimal and hexadecimal numerals as lists of characters.  Hexadecimal digits are written in lower
case and read in either case.
-/

namespace X86Listing.Text

/-- The decimal numeral of a number. -/
def decimal (n : Nat) : List Char :=
  Nat.toDigits 10 n

/-- The decimal numeral of an integer, with a minus sign in front of a negative one. -/
def signedDecimal (n : Int) : List Char :=
  if n < 0 then '-' :: decimal n.natAbs else decimal n.natAbs

/-- The hexadecimal numeral of a number, in lower case and without a base mark. -/
def hexadecimal (n : Nat) : List Char :=
  Nat.toDigits 16 n

/-- A number with the mark `0x` in front, as addresses are printed. -/
def marked (n : Nat) : List Char :=
  '0' :: 'x' :: hexadecimal n

/-- A decimal numeral as a string, for messages. -/
def decimalString (n : Nat) : String :=
  String.ofList (decimal n)

/-- A marked hexadecimal numeral as a string, for messages. -/
def markedString (n : Nat) : String :=
  String.ofList (marked n)

/-- The value of a hexadecimal digit of either case. -/
def hexDigit? (c : Char) : Option Nat :=
  if '0' ≤ c ∧ c ≤ '9' then some (c.toNat - '0'.toNat)
  else if 'a' ≤ c ∧ c ≤ 'f' then some (c.toNat - 'a'.toNat + 10)
  else if 'A' ≤ c ∧ c ≤ 'F' then some (c.toNat - 'A'.toNat + 10)
  else none

/-- The number a run of hexadecimal digits stands for. -/
def hexValue? (digits : List Char) : Option Nat :=
  digits.foldlM (fun value c => (hexDigit? c).map fun digit => value * 16 + digit) 0

/-- Read a hexadecimal numeral: at least one digit, with at most one plus sign in front. -/
def ofHexadecimal? (text : List Char) : Option Nat :=
  let digits := match text with
    | '+' :: rest => rest
    | _ => text
  if digits.isEmpty then none else hexValue? digits

end X86Listing.Text
