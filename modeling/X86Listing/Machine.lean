/-!
# Machine modes, addresses and the limits of the model

The processor reads the same bytes differently in different modes.  The model knows the two that
matter for a listing: 64-bit long mode and 32-bit compatibility mode.  A mode has four spellings,
one for each place where it is written:

* `name` is what reports print, and `ofText?` reads it together with the common aliases, in any
  letter case;
* `optionName` is the spelling of a command line option, read by `ofOptionName?`;
* `tag` is the spelling inside JSON, read by `ofTag?`.
-/

namespace X86Listing

/-- An address in the decoded program's memory.  Address arithmetic wraps at `2 ^ 64`. -/
abbrev Address := UInt64

/-- No instruction is longer than this many bytes. -/
def maxInstructionSize : Nat := 15

/-- An instruction keeps at most this many operands. -/
def maxOperands : Nat := 10

/-- The mode in which the processor interprets instruction bytes. -/
inductive MachineMode
  /-- 64-bit long mode. -/
  | long64
  /-- 32-bit compatibility mode. -/
  | compat32
  deriving DecidableEq, Repr

namespace MachineMode

/-- Both modes, the wider one first. -/
def all : List MachineMode := [long64, compat32]

/-- The mode of a 64-bit host. -/
def native : MachineMode := long64

/-- Address width in bits. -/
def width : MachineMode → Nat
  | long64 => 64
  | compat32 => 32

/-! ## Spellings -/

/-- The name printed in reports. -/
def name : MachineMode → String
  | long64 => "long64"
  | compat32 => "compat32"

/-- The spelling on a command line. -/
def optionName : MachineMode → String
  | long64 => "long64"
  | compat32 => "long-compat32"

/-- The spelling inside JSON. -/
def tag : MachineMode → String
  | long64 => "Long64"
  | compat32 => "LongCompat32"

/-- Every spelling that free text may use, in lower case. -/
def aliases : MachineMode → List String
  | long64 => ["long64", "x86_64", "amd64"]
  | compat32 => ["compat32", "x86", "i386"]

/-- Read a mode from free text, in any letter case.  No letter outside ASCII has a lower case form
that occurs in an alias, so lowering ASCII letters decides every text. -/
def ofText? (text : String) : Option MachineMode :=
  all.find? fun mode => mode.aliases.contains text.toLower

/-- What to say of a text that names no mode. -/
def unknownMessage (text : String) : String :=
  "Unknown machine mode: " ++ text

/-- Read the spelling of a command line, exactly or in any ASCII letter case. -/
def ofOptionName? (ignoreCase : Bool) (text : String) : Option MachineMode :=
  all.find? fun mode =>
    if ignoreCase then mode.optionName.toLower == text.toLower else mode.optionName == text

/-- Read the spelling of JSON. -/
def ofTag? (text : String) : Option MachineMode :=
  all.find? fun mode => mode.tag == text

end MachineMode

end X86Listing
