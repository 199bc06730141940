import X86Listing.Text.Numeral

/-!
# JSON values and how they are written

A JSON value keeps its integers exactly.  Any other number stays a numeral, for nothing here
computes with it.  The fields of an object keep their order, and nothing hinders two of them from
having the same name.

There are two written forms.  `compact` has no blanks.  `pretty` puts every item and every field on
a line of its own, indented by two spaces for each level, and leaves empty arrays and objects
closed up.
-/

namespace X86Listing

/-- A JSON value. -/
inductive Json
  | null
  | bool (value : Bool)
  | int (value : Int)
  /-- Any other number, as a numeral. -/
  | real (numeral : List Char)
  | string (value : String)
  | array (items : List Json)
  | object (fields : List (String × Json))
  deriving Repr

namespace Json

instance : Inhabited Json := ⟨null⟩

/-! ## Scalars -/

/-- A character inside a JSON string.  Quotes, backslashes and control characters are escaped. -/
def escapeChar (c : Char) : List Char :=
  match c with
  | '"' => ['\\', '"']
  | '\\' => ['\\', '\\']
  | '\n' => ['\\', 'n']
  | '\r' => ['\\', 'r']
  | '\t' => ['\\', 't']
  | '\x08' => ['\\', 'b']
  | '\x0c' => ['\\', 'f']
  | _ =>
    if c.toNat < 0x10 then ['\\', 'u', '0', '0', '0'] ++ Text.hexadecimal c.toNat
    else if c.toNat < 0x20 then ['\\', 'u', '0', '0'] ++ Text.hexadecimal c.toNat
    else [c]

/-- A JSON string with its quotes. -/
def quote (text : String) : List Char :=
  '"' :: (text.toList.flatMap escapeChar ++ ['"'])

/-- The written form of a value that is neither an array nor an object. -/
def scalar : Json → List Char
  | null => ['n', 'u', 'l', 'l']
  | bool true => ['t', 'r', 'u', 'e']
  | bool false => ['f', 'a', 'l', 's', 'e']
  | int value => Text.signedDecimal value
  | real numeral => numeral
  | string value => quote value
  | array _ | object _ => []

/-! ## The compact form -/

mutual

/-- The value without any blanks. -/
def compact : Json → List Char
  | array items => '[' :: (compactItems items ++ [']'])
  | object fields => '\x7b' :: (compactFields fields ++ ['\x7d'])
  | value => scalar value

/-- Items separated by commas. -/
def compactItems : List Json → List Char
  | [] => []
  | [item] => compact item
  | item :: next :: rest => compact item ++ ',' :: compactItems (next :: rest)

/-- Fields separated by commas, each a name, a colon and a value. -/
def compactFields : List (String × Json) → List Char
  | [] => []
  | [(name, value)] => quote name ++ ':' :: compact value
  | (name, value) :: next :: rest =>
      quote name ++ ':' :: (compact value ++ ',' :: compactFields (next :: rest))

end

/-! ## The indented form -/

/-- The start of a line at a level of nesting. -/
def newLine (level : Nat) : List Char :=
  '\n' :: List.replicate (2 * level) ' '

mutual

/-- The value with one item or field on a line, itself at the given level. -/
def prettyAt (level : Nat) : Json → List Char
  | array [] => ['[', ']']
  | array (item :: rest) =>
      '[' :: (prettyItems (level + 1) (item :: rest) ++ newLine level ++ [']'])
  | object [] => ['\x7b', '\x7d']
  | object (field :: rest) =>
      '\x7b' :: (prettyFields (level + 1) (field :: rest) ++ newLine level ++ ['\x7d'])
  | value => scalar value

/-- Items on lines of their own, separated by commas. -/
def prettyItems (level : Nat) : List Json → List Char
  | [] => []
  | [item] => newLine level ++ prettyAt level item
  | item :: next :: rest =>
      newLine level ++ prettyAt level item ++ ',' :: prettyItems level (next :: rest)

/-- Fields on lines of their own, separated by commas. -/
def prettyFields (level : Nat) : List (String × Json) → List Char
  | [] => []
  | [(name, value)] => newLine level ++ quote name ++ ':' :: ' ' :: prettyAt level value
  | (name, value) :: next :: rest =>
      newLine level ++ quote name ++ ':' :: ' ' :: prettyAt level value ++
        ',' :: prettyFields level (next :: rest)

end

/-- The value with one item or field on a line. -/
def pretty (value : Json) : List Char :=
  prettyAt 0 value

/-- The value's field of a name, if it is an object that has one. -/
def field? (value : Json) (name : String) : Option Json :=
  match value with
  | object fields => fields.lookup name
  | _ => none

end Json

end X86Listing
