import KernelTrace.CommandLine.Spec
import KernelTrace.Text.Blank

/-!
# The help of a command

What a command does, how it is used, and its options in two columns: how each is written, and what
it is for, with the environment variable and the value that stand in for it.
-/

namespace KernelTrace.CommandLine

/-- How an option is written in the help, its values included. -/
def Opt.usage (o : Opt) : String :=
  let name := match o.short with
    | some c => s!"-{c}, --{o.long}"
    | none => s!"    --{o.long}"
  name ++ match o.arity with
    | .flag => ""
    | .one => s!" <{o.valueName}>"
    | .some => s!" <{o.valueName}>..."
    | .any => s!" [<{o.valueName}>...]"

/-- What an option is for, with what stands in for it. -/
def Opt.explanation (env : Environment) (o : Opt) : String :=
  let fromVariable := o.envName.map fun v =>
    s!"[env: {v}=" ++ Utf8.decodeLossy ((env.get? v).getD []) ++ "]"
  let otherwise := o.standIn.map fun f => s!"[default: {f}]"
  " ".intercalate (o.about :: fromVariable.toList ++ otherwise.toList)

def pad (width : Nat) (s : String) : String :=
  s ++ String.ofList (List.replicate (width - s.length) ' ')

/-- Two columns, two blanks apart, as indented lines. -/
def columns (rows : List (String × String)) : String :=
  let width := (rows.map (·.1.length)).foldl max 0
  String.join (rows.map fun (left, right) => "  " ++ pad width left ++ "  " ++ right ++ "\n")

/-- The mark for a new line in a description. -/
def newlineMark : List Char := ['\x7b', 'n', '\x7d']

/-- A description with its marks for new lines replaced. -/
def breakLines : List Char → List Char
  | [] => []
  | c :: rest =>
    if newlineMark.isPrefixOf (c :: rest) then '\n' :: breakLines (rest.drop 2)
    else c :: breakLines rest
termination_by cs => cs.length
decreasing_by all_goals (simp only [List.length_cons, List.length_drop]; omega)

def shown (s : String) : String := String.ofList (breakLines s.toList)

/-- Drops the first line if it is blank. -/
def dropBlankLine (s : List Char) : List Char :=
  let line := s.takeWhile (· ≠ '\n')
  if '\n' ∈ s ∧ line.all Blank.isBlank then (s.dropWhile (· ≠ '\n')).drop 1 else s

def dropTrailing (s : List Char) : List Char := (s.reverse.dropWhile Blank.isBlank).reverse

/-- The help of a command that is called in an environment. -/
def Command.help (env : Environment) (c : Command) : String :=
  let preamble := (c.preamble.map fun p => shown p ++ "\n\n").getD ""
  let about := (c.about.map fun a => shown a ++ "\n").getD ""
  let tag := if c.options.isEmpty then "" else " [OPTIONS]"
  let options := columns (c.allOptions.map fun o => (o.usage, o.explanation env))
  let text := preamble ++ about ++ "\nUsage: " ++ c.name ++ tag ++ "\n\nOptions:\n" ++ options
  String.ofList (dropTrailing (dropBlankLine text.toList) ++ ['\n'])

/-- What a command says about itself: its help, led by what it does even if the help starts with
something else. -/
def Command.description (env : Environment) (c : Command) : String :=
  let help := c.help env
  match c.about with
  | some about =>
    if about.toList.isPrefixOf help.toList then help else about ++ "\n\n" ++ help
  | none => help

def Command.versionLine (c : Command) : String := c.name ++ " " ++ c.version.getD "" ++ "\n"

end KernelTrace.CommandLine
