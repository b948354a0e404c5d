import KernelTrace.CommandLine.Help
import KernelTrace.CommandLine.Reading
import KernelTrace.Config
import KernelTrace.Failure
import KernelTrace.Tracing.ControlFiles

/-!
# What the commands have in common

A command reads its command line, does one thing, and ends with an exit code: zero if it succeeded,
one if it failed and said why, two if its command line was not understood.
-/

namespace KernelTrace.Commands

open CommandLine

abbrev Act := Program (Actions FileSystem)

/-- Programs that may fail for a reason to be reported. -/
abbrev Attempt := ExceptT Failure Act

def succeeded : Nat := 0

/-- The exit code of a failure that was reported. -/
def failed : Nat := 1

/-- The exit code of a command line that was not understood. -/
def misused : Nat := 2

def versionText : String := "0.0.0"

/-- The option for where process information is read from. -/
def procfsOption : Opt :=
  { short := none, long := "procfs-path", arity := .one, valueName := "DIR", kind := .path
    envName := some Config.procfsVariable
    about := "Read process information from this directory instead of /proc" }

/-- The option for where system information is read from. -/
def sysfsOption : Opt :=
  { short := none, long := "sysfs-path", arity := .one, valueName := "DIR", kind := .path
    envName := some Config.sysfsVariable
    about := "Read system information from this directory instead of /sys" }

def verboseOption : Opt :=
  { short := some 'v', long := "verbose", envName := some Config.verboseVariable
    about := "Log at trace level" }

/-- The options for the settings that every command has. -/
def configOptions : List Opt := [procfsOption, sysfsOption, verboseOption]

def configOf (env : Environment) (m : Matches) : Config :=
  ⟨m.path? env procfsOption, m.path? env sysfsOption, m.isSet env verboseOption⟩

def instanceOf (m : Matches) (o : Opt) : Option InstanceName :=
  (m.value? o.long).bind fun s => (InstanceName.parse s).toOption

def outputFailure (e : IoError) : Failure := ⟨e.message, []⟩

def print (text : Bytes) : Attempt Unit :=
  ExceptT.mk do return (← Actions.announce text).mapError outputFailure

def printText (text : String) : Attempt Unit := print (Utf8.encode text)

def log (level : LogLevel) (message : String) : Attempt Unit :=
  ExceptT.lift (Actions.log level message)

/-- The result of a program that may fail, with its failure as one to be reported. -/
def orFail {ε α : Type} (chain : ε → List String) (p : Act (Except ε α)) : Attempt α :=
  ExceptT.mk do return (← p).mapError fun e => Failure.ofChain (chain e)

/-- The result of a program that may fail in some context. -/
def within {α : Type} (context : String) (p : Attempt α) : Attempt α :=
  ExceptT.mk do return (← p.run).mapError (Failure.within context)

/-- Runs a program that may fail and reports the failure: the exit code. -/
def conclude (verbose : Bool) (p : Attempt Unit) : Act Nat :=
  Actions.filterLog verbose do
    match ← p.run with
    | .ok () => return succeeded
    | .error f =>
      Actions.log .error f.report
      return failed

/-- What a command line that was not understood is answered with. -/
def usageError (c : Command) (reason : String) : Act Nat := do
  let text := s!"error: {reason}\n\nUsage: {c.name} [OPTIONS]\n\nFor more information, try '--help'.\n"
  let _ ← Actions.relay (Utf8.encode text)
  return misused

/-- Writes to the output, whatever becomes of it. -/
def display (text : String) : Act Nat := do
  let _ ← Actions.announce (Utf8.encode text)
  return succeeded

/-- Ends a command whose command line asked for something else or was not understood. -/
def halted (c : Command) (env : Environment) : Halt → Act Nat
  | .help => display (c.help env)
  | .version => display c.versionLine
  | .unknownWord => usageError c "unexpected argument found"
  | .unusableValue => usageError c "a value is required"
  | .invalidValue => usageError c "invalid value"
  | .unneededValue => usageError c "unexpected value"
  | .repeated => usageError c "the argument cannot be used multiple times"

end KernelTrace.Commands
