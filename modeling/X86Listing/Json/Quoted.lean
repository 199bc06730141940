import X86Listing.Json.Fault
import X86Listing.Text.Numeral

/-!
# Quoted text

A JSON string is read by a machine that goes through its characters once.  Its state says what an
escape still owes: nothing, the character behind a backslash, or hexadecimal digits of a 16-bit
unit.  A character outside the first 65536 is escaped as two units, a leading and a trailing
surrogate, and with `paired` a surrogate must have its partner; without it any unit will do.
-/

namespace X86Listing.Quoted

/-- What the characters read so far ask of the next one. -/
inductive State
  /-- Nothing. -/
  | plain
  /-- The character behind a backslash. -/
  | escape
  /-- Hexadecimal digits: of a unit that follows the leading surrogate `lead`, if there is one,
  `count` digits have been read, with value `value`. -/
  | unit (lead : Option Nat) (count value : Nat)
  /-- The backslash that starts the escape of a trailing surrogate. -/
  | partner (lead : Nat)
  /-- The letter of that escape. -/
  | partnerLetter (lead : Nat)
  deriving DecidableEq, Repr

/-- The character that a one-letter escape stands for. -/
def simpleEscape? (c : Char) : Option Char :=
  match c with
  | '"' => some '"'
  | '\\' => some '\\'
  | '/' => some '/'
  | 'b' => some '\x08'
  | 'f' => some '\x0c'
  | 'n' => some '\n'
  | 'r' => some '\r'
  | 't' => some '\t'
  | _ => none

/-- Whether a unit is a leading surrogate. -/
def isLeading (unit : Nat) : Bool := 0xd800 ≤ unit ∧ unit < 0xdc00

/-- Whether a unit is a trailing surrogate. -/
def isTrailing (unit : Nat) : Bool := 0xdc00 ≤ unit ∧ unit < 0xe000

/-- The character of two surrogates. -/
def pair (lead trail : Nat) : Char :=
  Char.ofNat (0x10000 + (lead - 0xd800) * 0x400 + (trail - 0xdc00))

/-- What follows a complete unit: a character, or a leading surrogate that waits for its partner. -/
def afterUnit (paired : Bool) (lead : Option Nat) (unit : Nat) :
    Except ReadFault (Char ⊕ Nat) :=
  if paired then
    match lead with
    | none =>
        if isTrailing unit then .error .malformed
        else if isLeading unit then .ok (.inr unit)
        else .ok (.inl (Char.ofNat unit))
    | some lead => if isTrailing unit then .ok (.inl (pair lead unit)) else .error .malformed
  else .ok (.inl (Char.ofNat unit))

/-- How many bytes the text has in UTF-8, counted up to four characters. -/
def shortSize (text : List Char) : Nat :=
  (text.take 4).foldl (fun size c => size + c.utf8Size) 0

/-- Read text up to its closing quote.  `found` holds the characters read so far, the latest first.
A control character has to be escaped.  A unit with a wrong digit is malformed, but if fewer than
four bytes are left for it, the text counts as truncated. -/
def scan (paired : Bool) (state : State) (found : List Char) :
    List Char → Except ReadFault (List Char × List Char)
  | [] => .error .truncated
  | c :: rest =>
    match state with
    | .plain =>
        if c = '"' then .ok (found.reverse, rest)
        else if c = '\\' then scan paired .escape found rest
        else if c.toNat < 0x20 then .error .malformed
        else scan paired .plain (c :: found) rest
    | .escape =>
        if c = 'u' then scan paired (.unit none 0 0) found rest
        else match simpleEscape? c with
          | some escaped => scan paired .plain (escaped :: found) rest
          | none => .error .malformed
    | .unit lead count value =>
        match Text.hexDigit? c with
        | none => .error (if count + shortSize (c :: rest) < 4 then .truncated else .malformed)
        | some digit =>
            let value := value * 16 + digit
            if count < 3 then scan paired (.unit lead (count + 1) value) found rest
            else match afterUnit paired lead value with
              | .error fault => .error fault
              | .ok (.inl escaped) => scan paired .plain (escaped :: found) rest
              | .ok (.inr lead) => scan paired (.partner lead) found rest
    | .partner lead =>
        if c = '\\' then scan paired (.partnerLetter lead) found rest else .error .malformed
    | .partnerLetter lead =>
        if c = 'u' then scan paired (.unit (some lead) 0 0) found rest else .error .malformed

/-- The text up to the closing quote, and what follows the quote. -/
def ofText (paired : Bool) (text : List Char) : Except ReadFault (List Char × List Char) :=
  scan paired .plain [] text

end X86Listing.Quoted
