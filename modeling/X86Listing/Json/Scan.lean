import X86Listing.Json.Numeral
import X86Listing.Json.Quoted

/-!
# Reading JSON from left to right

A `Scan` reads something from the front of a text and leaves the rest.  The first fault from the
left ends it, and its kind is the answer: so a reader that wants a particular value may refuse a
misfit where it stands, before it sees whether the rest of the text is JSON at all.

Here are the parts that all readers share: single characters, scalars, arrays, objects, values of
any kind (`value`) and values that nobody wants (`skip`).
-/

namespace X86Listing

/-- A reader of something at the front of a text. -/
abbrev Scan := StateT (List Char) (Except ReadFault)

namespace Scan

/-! ## Characters -/

/-- The blanks that may stand between the tokens of JSON. -/
def isGap (c : Char) : Bool :=
  c = ' ' ∨ c = '\t' ∨ c = '\n' ∨ c = '\r'

/-- Fail. -/
def fault {α : Type} (fault : ReadFault) : Scan α :=
  fun _ => .error fault

/-- Drop blanks and look at the next character without taking it. -/
def peek? : Scan (Option Char) :=
  fun text =>
    let text := text.dropWhile isGap
    .ok (text.head?, text)

/-- Drop blanks and look at the next character; there has to be one. -/
def peek : Scan Char := do
  match ← peek? with
  | some c => return c
  | none => fault .truncated

/-- Take the next character. -/
def advance : Scan Unit :=
  fun text => .ok ((), text.tail)

/-- Drop blanks and take the given character. -/
def expect (c : Char) : Scan Unit := do
  if (← peek) = c then advance else fault .malformed

/-- Take the given characters one by one. -/
def letters : List Char → Scan Unit
  | [] => pure ()
  | l :: rest => do
      match ← get with
      | [] => fault .truncated
      | c :: _ => if c = l then do advance; letters rest else fault .malformed

/-- Only blanks may follow. -/
def finish : Scan Unit := do
  match ← peek? with
  | none => return ()
  | some _ => fault .malformed

/-! ## Scalars -/

/-- A numeral that starts here. -/
def numeral : Scan Json := fun text => do
  let (found, rest) ← JsonNumeral.ofText .truncated text
  if found.fits then .ok (found.toJson, rest) else .error .malformed

/-- The rest of a string whose opening quote has been taken. -/
def quotedRest : Scan String := fun text => do
  let (found, rest) ← Quoted.ofText true text
  .ok (String.ofList found, rest)

/-- A value that is neither an array nor an object. -/
def scalar : Scan Json := do
  let c ← peek
  if c = '"' then do
    advance
    return .string (← quotedRest)
  else if c = '-' ∨ JsonNumeral.isDigit c then numeral
  else if c = 'n' then do
    letters ['n', 'u', 'l', 'l']
    return .null
  else if c = 't' then do
    letters ['t', 'r', 'u', 'e']
    return .bool true
  else if c = 'f' then do
    letters ['f', 'a', 'l', 's', 'e']
    return .bool false
  else fault .malformed

/-- A scalar where one is wanted: arrays and objects are misfits. -/
def wantScalar : Scan Json := do
  let c ← peek
  if c = '[' ∨ c = '\x7b' then fault .mismatch else scalar

/-- A value where an array or object is wanted that starts with another character: a scalar is a
misfit, once it has been read. -/
def misfit {α : Type} : Scan α := do
  let _ ← wantScalar
  fault .mismatch

/-- An integer between two bounds. -/
def integer (low high : Int) : Scan Int := do
  match ← wantScalar with
  | .int value => if low ≤ value ∧ value ≤ high then return value else fault .mismatch
  | _ => fault .mismatch

/-- A string. -/
def text : Scan String := do
  match ← wantScalar with
  | .string value => return value
  | _ => fault .mismatch

/-! ## Arrays and objects -/

/-- Items up to the closing bracket; `first` if none has been read.  Every item takes at least one
character, so the length of the text is fuel enough. -/
def itemsLoop {α : Type} (item : Scan α) : Nat → Bool → List α → Scan (List α)
  | 0, _, _ => fault .truncated
  | fuel + 1, first, found => do
      let c ← peek
      if c = ']' then do
        advance
        return found.reverse
      else if first then do
        let next ← item
        itemsLoop item fuel false (next :: found)
      else do
        expect ','
        if (← peek) = ']' then fault .malformed
        else do
          let next ← item
          itemsLoop item fuel false (next :: found)

/-- The items of an array whose opening bracket has been taken, and its closing bracket. -/
def items {α : Type} (item : Scan α) : Scan (List α) := do
  itemsLoop item ((← get).length + 1) true []

/-- The name of a field, which has to be a string. -/
def fieldName : Scan String := do
  if (← peek) = '"' then do
    advance
    quotedRest
  else fault .malformed

/-- Fields up to the closing brace; `first` if none has been read.  A field is read by `step`, which
is given what was read before and the field's name, and takes the colon and the value. -/
def fieldsLoop {β : Type} (step : β → String → Scan β) : Nat → Bool → β → Scan β
  | 0, _, _ => fault .truncated
  | fuel + 1, first, found => do
      let c ← peek
      if c = '\x7d' then do
        advance
        return found
      else if first then do
        let name ← fieldName
        let found ← step found name
        fieldsLoop step fuel false found
      else do
        expect ','
        let name ← fieldName
        let found ← step found name
        fieldsLoop step fuel false found

/-- The fields of an object whose opening brace has been taken, and its closing brace. -/
def fields {β : Type} (step : β → String → Scan β) (start : β) : Scan β := do
  fieldsLoop step ((← get).length + 1) true start

/-! ## Any value -/

/-- How deep arrays and objects may be nested in a value that is kept. -/
def maxNesting : Nat := 127

/-- A value of any kind, nested at most so deep. -/
def value : (nesting : Nat) → Scan Json
  | 0 => do
      scalar
  | nesting + 1 => do
      let c ← peek
      if c = '[' then do
        advance
        return .array (← items (value nesting))
      else if c = '\x7b' then do
        advance
        let found ← fields (fun found name => do
          expect ':'
          let content ← value nesting
          return (name, content) :: found) []
        return .object found.reverse
      else scalar

/-! ## Values that nobody wants -/

/-- What has to come next in a skipped value. -/
inductive SkipPhase
  /-- A value. -/
  | value
  /-- The first item or field, or the end, of what has just been opened. -/
  | opened
  /-- A comma, or the end of what is open. -/
  | done
  deriving DecidableEq, Repr

/-- Skip the rest of a string whose opening quote has been taken. -/
def skipQuotedRest : Scan Unit := fun text => do
  let (_, rest) ← Quoted.ofText false text
  .ok ((), rest)

/-- Skip a scalar.  Numbers may be of any size, and a numeral that ends too early is malformed. -/
def skipScalar : Scan Unit := do
  let c ← peek
  if c = '"' then do
    advance
    skipQuotedRest
  else if c = '-' ∨ JsonNumeral.isDigit c then fun text => do
    let (_, rest) ← JsonNumeral.ofText .malformed text
    .ok ((), rest)
  else discard scalar

/-- Skip the name of a field and its colon, if the innermost open bracket is a brace. -/
def skipFieldName (close : Char) : Scan Unit := do
  if close = '\x7d' then
    if (← peek) = '"' then do
      advance
      skipQuotedRest
      expect ':'
    else fault .malformed
  else pure ()

/-- Skip a value.  `closers` are the characters that close what is open, the innermost first, so
there is no limit on nesting.  Each round but one in two takes a character. -/
def skipLoop : Nat → SkipPhase → List Char → Scan Unit
  | 0, _, _ => fault .truncated
  | fuel + 1, .value, closers => do
      let c ← peek
      if c = '[' then do
        advance
        skipLoop fuel .opened (']' :: closers)
      else if c = '\x7b' then do
        advance
        skipLoop fuel .opened ('\x7d' :: closers)
      else do
        skipScalar
        skipLoop fuel .done closers
  | _ + 1, .opened, [] => fault .malformed
  | fuel + 1, .opened, close :: closers => do
      if (← peek) = close then do
        advance
        skipLoop fuel .done closers
      else do
        skipFieldName close
        skipLoop fuel .value (close :: closers)
  | _ + 1, .done, [] => pure ()
  | fuel + 1, .done, close :: closers => do
      if (← peek) = close then do
        advance
        skipLoop fuel .done closers
      else do
        expect ','
        skipFieldName close
        skipLoop fuel .value (close :: closers)

/-- Skip one value of any kind. -/
def skip : Scan Unit := do
  skipLoop (2 * (← get).length + 2) .value []

/-- Read a whole text. -/
def run {α : Type} (scan : Scan α) (text : List Char) : Except ReadFault α :=
  (scan <* finish).run' text

end Scan

/-- The value that a text holds, if it is JSON. -/
def Json.ofText? (text : List Char) : Option Json :=
  (Scan.run (Scan.value Scan.maxNesting) text).toOption

end X86Listing
