import X86Listing.Json
import X86Listing.Json.Fault

/-!
# JSON numerals

A JSON numeral is an optional minus sign, digits without a leading zero, and an optional fraction
and exponent.  `ofText` finds the numeral at the front of a text; `toJson` gives its value.

A numeral may be as long as it likes, but it must not be too large for a 64-bit float: `fits`
computes what the usual fast conversion computes, which rounds the digits and the power of ten and
then their product, each to 53 bits.
-/

namespace X86Listing

/-- The parts of a JSON numeral. -/
structure JsonNumeral where
  negative : Bool
  /-- Digits before the point. -/
  whole : List Char
  /-- Digits after the point, if there is one. -/
  fraction : Option (List Char)
  /-- Whether the exponent is negative, and its digits. -/
  exponent : Option (Bool × List Char)
  deriving DecidableEq, Repr

namespace JsonNumeral

/-- Whether a character is a decimal digit. -/
def isDigit (c : Char) : Bool :=
  '0' ≤ c ∧ c ≤ '9'

/-- The number that a run of digits stands for. -/
def natValue (digits : List Char) : Nat :=
  digits.foldl (fun value c => value * 10 + (c.toNat - '0'.toNat)) 0

/-! ## Reading -/

/-- At least one digit at the front of the text.  If there is none, the text is at fault: `short`
says how if it ends here. -/
def digits (short : ReadFault) (text : List Char) :
    Except ReadFault (List Char × List Char) :=
  if (text.takeWhile isDigit).isEmpty then
    .error (if text.isEmpty then short else .malformed)
  else .ok (text.takeWhile isDigit, text.dropWhile isDigit)

/-- The digits before the point: either a single zero or digits that start with another one. -/
def wholePart (short : ReadFault) (text : List Char) :
    Except ReadFault (List Char × List Char) := do
  let (found, rest) ← digits short text
  if found.length > 1 ∧ found.head? = some '0' then .error .malformed else .ok (found, rest)

/-- The digits behind a point, if the text starts with one. -/
def fractionPart (short : ReadFault) (text : List Char) :
    Except ReadFault (Option (List Char) × List Char) :=
  match text with
  | '.' :: rest => do
      let (found, rest) ← digits short rest
      .ok (some found, rest)
  | _ => .ok (none, text)

/-- The sign in front of an exponent. -/
def exponentSign : List Char → Bool × List Char
  | '+' :: rest => (false, rest)
  | '-' :: rest => (true, rest)
  | text => (false, text)

/-- The exponent, if the text starts with one. -/
def exponentPart (short : ReadFault) (text : List Char) :
    Except ReadFault (Option (Bool × List Char) × List Char) :=
  match text with
  | mark :: rest =>
      if mark = 'e' ∨ mark = 'E' then do
        let (negative, rest) := exponentSign rest
        let (found, rest) ← digits short rest
        .ok (some (negative, found), rest)
      else .ok (none, text)
  | [] => .ok (none, text)

/-- The numeral at the front of a text that starts with a minus sign or a digit, and the text
behind it.  The fault `short` is that of a text that ends too early. -/
def ofText (short : ReadFault) (text : List Char) :
    Except ReadFault (JsonNumeral × List Char) := do
  let (negative, text) := match text with
    | '-' :: rest => (true, rest)
    | _ => (false, text)
  let (whole, text) ← wholePart short text
  let (fraction, text) ← fractionPart short text
  let (exponent, text) ← exponentPart short text
  .ok (⟨negative, whole, fraction, exponent⟩, text)

/-! ## Size -/

/-- The largest number with 64 bits. -/
def maxWord : Nat := UInt64.size - 1

/-- Take digits into a number as long as it has 64 bits; also how many digits are left over. -/
def accumulate (value : Nat) : List Char → Nat × Nat
  | [] => (value, 0)
  | c :: rest =>
      let next := value * 10 + (c.toNat - '0'.toNat)
      if next ≤ maxWord then accumulate next rest else (value, rest.length + 1)

/-- Round to the nearest number with 53 significant bits; a tie goes to the even one. -/
def round53 (n : Nat) : Nat :=
  if n < 1 <<< 53 then n
  else
    let unit := 1 <<< (Nat.log2 n - 52)
    let quotient := n / unit
    let rest := n % unit
    let up := unit < 2 * rest ∨ unit = 2 * rest ∧ quotient % 2 = 1
    (if up then quotient + 1 else quotient) * unit

/-- Products from here on are too large for a 64-bit float: half a unit above the largest one. -/
def floatBound : Nat := 1 <<< 1024 - 1 <<< 970

/-- Whether a significand times a power of ten is small enough for a 64-bit float. -/
def productFits (significand : Nat) (power : Int) : Bool :=
  significand = 0 ∨ power < 0 ∨
    (power ≤ 308 ∧ round53 significand * round53 (Nat.pow 10 power.toNat) < floatBound)

/-- Whether the numeral is small enough for a 64-bit float.  Of its digits those that fit a 64-bit
number count; more digits before the point raise the power of ten. -/
def fits (numeral : JsonNumeral) : Bool :=
  let (whole, dropped) := accumulate 0 numeral.whole
  let places := numeral.fraction.getD []
  let (significand, ignored) := accumulate whole places
  let shift : Int := dropped - (places.length - ignored : Nat)
  let power : Int := match numeral.exponent with
    | none => shift
    | some (negative, found) =>
        if negative then shift - natValue found else shift + natValue found
  productFits significand power

/-! ## Value -/

/-- The characters of the numeral. -/
def written (numeral : JsonNumeral) : List Char :=
  (if numeral.negative then ['-'] else []) ++ numeral.whole ++
    (match numeral.fraction with
      | none => []
      | some found => '.' :: found) ++
    (match numeral.exponent with
      | none => []
      | some (negative, found) => 'e' :: (if negative then '-' :: found else found))

/-- The integer that the numeral stands for: it has neither fraction nor exponent, fits 64 bits
with or without a sign, and is not minus zero. -/
def integer? (numeral : JsonNumeral) : Option Int :=
  let value := natValue numeral.whole
  if numeral.fraction.isSome ∨ numeral.exponent.isSome then none
  else if numeral.negative then
    if 0 < value ∧ value ≤ 1 <<< 63 then some (-value) else none
  else if value ≤ maxWord then some value
  else none

/-- The value of the numeral. -/
def toJson (numeral : JsonNumeral) : Json :=
  match numeral.integer? with
  | some value => .int value
  | none => .real numeral.written

end JsonNumeral

end X86Listing
