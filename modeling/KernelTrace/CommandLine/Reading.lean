import KernelTrace.CommandLine.Spec

/-!
# Reading a command line

The words are read from left to right. A word that starts with a dash is an option, or several of
one letter each; `--` ends the options, and as no command here takes other words, nothing may follow
it. Values follow an option as words of their own or are attached to it; an attached value is the
only one. What an option collected is checked when the next option begins or the line ends, so a word
that is not understood is reported before a bad value that precedes it.

The environment is looked at for the options that were not given.
-/

namespace KernelTrace.CommandLine

/-- Why reading ended before the end of the line. -/
inductive Halt where
  | help
  | version
  | unknownWord
  /-- A value is missing, or is none of the few that are possible. -/
  | unusableValue
  /-- A value is not what it has to be. -/
  | invalidValue
  | unneededValue
  /-- An option that can be given once was given twice. -/
  | repeated
  deriving DecidableEq, Repr

/-- The options that were given, by their long names, with their values in order. -/
abbrev Matches := List (String × List String)

namespace Matches

def has (m : Matches) (long : String) : Bool := m.any (·.1 = long)

def values (m : Matches) (long : String) : List String :=
  m.flatMap fun o => if o.1 = long then o.2 else []

/-- The value of an option that takes one. -/
def value? (m : Matches) (long : String) : Option String := (m.values long).head?

end Matches

def ValueKind.check (s : String) : ValueKind → Except Halt Unit
  | .text => .ok ()
  | .path => if s = "" then .error .unusableValue else .ok ()
  | .integer bits => if (Number.integer? bits s.toList).isSome then .ok () else .error .invalidValue
  | .natural bits => if (Number.natural? bits s.toList).isSome then .ok () else .error .invalidValue
  | .instanceName =>
    if (instanceNameFault? s).isNone then .ok () else .error .invalidValue

/-- Checks values, up to the first that is not what it has to be. -/
def ValueKind.checkAll (k : ValueKind) : List String → Except Halt Unit
  | [] => .ok ()
  | s :: rest => do
    k.check s
    k.checkAll rest

/-- What the next word may be. -/
inductive Expecting where
  | option
  /-- A value of an option, or another option. -/
  | valueOf (o : Opt)
  | nothing

/-- How far a command line has been read. -/
structure Reading where
  taken : Matches
  /-- An option whose values have not been checked yet. -/
  pending : Option (Opt × List String)
  expecting : Expecting

namespace Reading

def start : Reading := ⟨[], none, .option⟩

def take (r : Reading) (o : Opt) (values : List String) : Except Halt Reading := do
  if o.needsValue ∧ values = [] then .error .unusableValue
  else if ¬ o.isMany ∧ r.taken.has o.long then .error .repeated
  else
    o.kind.checkAll values
    match o.purpose with
    | .help => .error .help
    | .version => .error .version
    | .setting => .ok { r with taken := r.taken ++ [(o.long, values)] }

/-- Takes the option whose values were being collected. -/
def settle (r : Reading) : Except Halt Reading :=
  match r.pending with
  | none => .ok r
  | some (o, values) => { r with pending := none }.take o values

/-- Takes an option with its values after the one before it. -/
def settleAndTake (r : Reading) (o : Opt) (values : List String) : Except Halt Reading := do
  let r ← (← r.settle).take o values
  return { r with expecting := .option }

/-- Begins to collect the values of an option. -/
def collect (r : Reading) (o : Opt) : Except Halt Reading := do
  let r ← r.settle
  return { r with pending := some (o, []), expecting := .valueOf o }

/-- Reads an option written as a word, `=` and a value attached or not. -/
def long (options : List Opt) (r : Reading) (word : List Char) : Except Halt Reading :=
  let name := word.takeWhile (· ≠ '=')
  let attached := (word.dropWhile (· ≠ '=')).drop 1
  let hasValue := word.contains '='
  match options.find? (·.long.toList = name) with
  | none => .error .unknownWord
  | some o =>
    if o.takesValues then
      if hasValue then r.settleAndTake o [String.ofList attached] else r.collect o
    else if hasValue then .error .unneededValue
    else r.settleAndTake o []

/-- Reads options written as letters. The first that takes values has the rest of the word as its
value, if there is one. -/
def letters (options : List Opt) (r : Reading) : List Char → Except Halt Reading
  | [] => .ok r
  | c :: rest =>
    match options.find? (·.short = some c) with
    | none => .error .unknownWord
    | some o =>
      if o.takesValues then
        match rest with
        | [] => r.collect o
        | '=' :: value => r.settleAndTake o [String.ofList value]
        | value => r.settleAndTake o [String.ofList value]
      else do letters options (← r.settleAndTake o []) rest

def value (r : Reading) (word : String) : Except Halt Reading :=
  match r.expecting, r.pending with
  | .valueOf o, some (p, values) =>
    .ok { r with
      pending := some (p, values ++ [word])
      expecting := if o.isMany then .valueOf o else .option }
  | _, _ => .error .unknownWord

/-- Whether the next word is a value whatever it looks like. -/
def takesAnything (r : Reading) : Bool :=
  match r.expecting with
  | .valueOf o => o.takesHyphens
  | _ => false

def word (options : List Opt) (r : Reading) (w : String) : Except Halt Reading :=
  match r.expecting with
  | .nothing => .error .unknownWord
  | _ =>
    if r.takesAnything then r.value w
    else match w.toList with
      | ['-', '-'] => .ok { r with expecting := .nothing }
      | '-' :: '-' :: rest => r.long options rest
      | '-' :: c :: rest => r.letters options (c :: rest)
      | _ => r.value w

def words (options : List Opt) : Reading → List String → Except Halt Reading
  | r, [] => r.settle
  | r, w :: rest => do words options (← r.word options w) rest

end Reading

/-- Checks the environment variables of the options that were not given. -/
def checkVariables (env : Environment) (m : Matches) : List Opt → Except Halt Unit
  | [] => .ok ()
  | o :: rest => do
    match o.envName.bind env.get? with
    | none => checkVariables env m rest
    | some v =>
      if m.has o.long then checkVariables env m rest
      else if o.takesValues then
        if v = [] then .error .unusableValue else checkVariables env m rest
      else if v = Utf8.encode "true" ∨ v = Utf8.encode "false" then checkVariables env m rest
      else .error .unusableValue

/-- Reads the words of a command line: the options that were given. -/
def Command.read (c : Command) (env : Environment) (args : List String) :
    Except Halt Matches := do
  let r ← Reading.start.words c.allOptions args
  checkVariables env r.taken c.options
  return r.taken

/-- The path that an option or its environment variable gives. -/
def Matches.path? (m : Matches) (env : Environment) (o : Opt) : Option Path :=
  if m.has o.long then (m.value? o.long).map Path.ofString
  else (o.envName.bind env.get?).map Path.mk

/-- Whether a flag is set by its option or its environment variable. -/
def Matches.isSet (m : Matches) (env : Environment) (o : Opt) : Bool :=
  m.has o.long || (o.envName.bind env.get?) = some (Utf8.encode "true")

end KernelTrace.CommandLine
