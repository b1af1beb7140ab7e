/-!
# Log lines

What a verifier tells its operator beside its reports.
-/

namespace SignedFlash

inductive LogLevel where
  | warn
  | info
  | debug
  deriving DecidableEq, Repr

namespace LogLevel

def name : LogLevel → String
  | .warn => "WARN"
  | .info => "INFO"
  | .debug => "DEBUG"

-- How much is shown when this is the least important level shown.
def detail : LogLevel → Nat
  | .warn => 0
  | .info => 1
  | .debug => 2

end LogLevel

structure LogLine where
  level : LogLevel
  message : String
  deriving DecidableEq

namespace LogLine

-- Whether a line is shown when `least` is the least important level shown.
def isShown (least : LogLevel) (line : LogLine) : Bool := line.level.detail ≤ least.detail

def text (line : LogLine) : String := line.level.name ++ " " ++ line.message

end LogLine

end SignedFlash
