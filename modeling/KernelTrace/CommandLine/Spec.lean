import KernelTrace.Os.Environment
import KernelTrace.Path
import KernelTrace.Text.Number
import KernelTrace.Tracing.InstanceName

/-!
# What a command line may hold

A command is described by the options it takes. The description is data: reading a command line and
rendering its help are functions of it, so the help lists exactly what is understood.
-/

namespace KernelTrace.CommandLine

/-- How many values an option takes. -/
inductive Arity where
  | flag
  | one
  /-- One or more, up to the next option. -/
  | some
  | any
  deriving DecidableEq, Repr

/-- What a value has to be. -/
inductive ValueKind where
  | text
  | path
  | integer (bits : Nat)
  | natural (bits : Nat)
  | instanceName
  deriving DecidableEq, Repr

/-- What an option is for. -/
inductive Purpose where
  | setting
  | help
  | version
  deriving DecidableEq, Repr

/-- An option of a command. -/
structure Opt where
  /-- The letter after one dash, if the option has one. -/
  short : Option Char
  long : String
  about : String
  arity : Arity := .flag
  valueName : String := ""
  kind : ValueKind := .text
  /-- Whether a value may look like an option. -/
  takesHyphens : Bool := false
  /-- The environment variable that is used when the option is not given. -/
  envName : Option String := none
  /-- The value that is used when there is no other. -/
  standIn : Option String := none
  purpose : Purpose := .setting
  deriving DecidableEq

/-- A command. -/
structure Command where
  name : String
  /-- What stands before everything else in its help. -/
  preamble : Option String
  about : Option String
  version : Option String
  options : List Opt

def helpOption : Opt :=
  { short := some 'h', long := "help", about := "Print help", purpose := .help }

def versionOption : Opt :=
  { short := some 'V', long := "version", about := "Print version", purpose := .version }

/-- The options that a command understands, in the order of its help. -/
def Command.allOptions (c : Command) : List Opt :=
  c.options ++ [helpOption] ++ (if c.version.isSome then [versionOption] else [])

def Opt.takesValues (o : Opt) : Bool := o.arity ≠ .flag

/-- Whether an option needs at least one value. -/
def Opt.needsValue (o : Opt) : Bool := o.arity = .one || o.arity = .some

/-- Whether an option may be given more than once, and takes values until the next option. -/
def Opt.isMany (o : Opt) : Bool := o.arity = .some || o.arity = .any

end KernelTrace.CommandLine
