/-!
# Log lines

What a session and a sweep tell about their work, at two levels of detail.
-/

namespace X86Listing

/-- How detailed a log line is. -/
inductive LogLevel
  | debug
  | trace
  deriving DecidableEq, Repr

/-- The level as printed. -/
def LogLevel.name : LogLevel → String
  | debug => "DEBUG"
  | trace => "TRACE"

/-- One line of the log. -/
structure LogLine where
  level : LogLevel
  text : String
  deriving DecidableEq, Repr

/-- The line with its level in front. -/
def LogLine.render (line : LogLine) : String :=
  line.level.name ++ ": " ++ line.text

end X86Listing
