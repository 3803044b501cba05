/-! # Log lines

What the program reports about its progress: a message with named values, on one of three levels.
-/

namespace ImportAtlas

/-- How much a log line matters. -/
inductive LogLevel where
  | debug
  | info
  | warning
deriving DecidableEq, Repr

/-- The name of a level. -/
def LogLevel.name : LogLevel → String
  | .debug => "DEBUG"
  | .info => "INFO"
  | .warning => "WARN"

/-- A message and the values that belong to it. -/
structure LogLine where
  level : LogLevel
  message : String
  fields : List (String × String)
deriving DecidableEq, Repr

namespace LogLine

/-- The line as text: the level, the message, and each value after its name. -/
def render (line : LogLine) : String :=
  line.fields.foldl (fun text field => text ++ " " ++ field.1 ++ "=" ++ field.2)
    (line.level.name ++ " " ++ line.message)

/-- Whether the line is shown: lines of the lowest level only if all are asked for. -/
def isShown (verbose : Bool) (line : LogLine) : Bool :=
  verbose || line.level != .debug

end LogLine

end ImportAtlas
