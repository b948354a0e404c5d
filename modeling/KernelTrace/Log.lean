/-!
# Log records

What the programs of this library say about themselves goes to their error stream, one record a
line. At the usual level only what a user has to know is said; a verbose program says everything.
-/

namespace KernelTrace

/-- How important a log record is. -/
inductive LogLevel where
  | trace
  | debug
  | info
  | warn
  | error
  deriving DecidableEq, Repr

namespace LogLevel

def name : LogLevel → String
  | trace => "TRACE"
  | debug => "DEBUG"
  | info => "INFO"
  | warn => "WARN"
  | error => "ERROR"

/-- Whether a program logs records of this level. -/
def isLogged (verbose : Bool) : LogLevel → Bool
  | trace | debug => verbose
  | info | warn | error => true

end LogLevel

/-- Something a program says about itself. -/
structure LogRecord where
  level : LogLevel
  message : String
  deriving DecidableEq, Repr

/-- The record as it is written, without the time and the place it came from. -/
def LogRecord.line (r : LogRecord) : String := s!"{r.level.name} {r.message}"

end KernelTrace
