import KernelTrace.Actions
import KernelTrace.Data.Pieces
import KernelTrace.Text.Blank
import KernelTrace.Text.Number

/-!
# What the system tells about a process

A process is a directory of the process information file system, named by its number. Its file
`stat` is one line: the number, the command in parentheses, the state and 49 integers, separated by
single spaces. The command is whatever the process chose to call itself, blanks and parentheses
included, so it lasts from the first opening to the last closing parenthesis; what follows has none.
-/

namespace KernelTrace

/-- The part of a process's status line that this library uses. -/
structure ProcessStat where
  pid : Int
  command : String
  state : Char
  deriving DecidableEq

/-- The type of an integer field of the status line. -/
inductive StatField where
  | signed (bits : Nat)
  | unsigned (bits : Nat)

namespace StatField

/-- Whether a text is an integer of the field's type. -/
def accepts : StatField → List Char → Bool
  | signed bits, cs => (Number.integer? bits cs).isSome
  | unsigned bits, cs => (Number.natural? bits cs).isSome

end StatField

namespace ProcessStat

/-- The integer fields after the state: how many of which type. -/
def fieldGroups : List (Nat × StatField) :=
  [(5, .signed 32), (1, .unsigned 32), (6, .unsigned 64), (6, .signed 64), (16, .unsigned 64),
   (2, .signed 32), (2, .unsigned 32), (2, .unsigned 64), (1, .signed 64), (7, .unsigned 64),
   (1, .signed 32)]

def fields : List StatField := fieldGroups.flatMap fun g => List.replicate g.1 g.2

/-- Whether texts are integers of the fields' types. There may be more texts than fields. -/
def acceptsAll : List StatField → List (List Char) → Bool
  | [], _ => true
  | _ :: _, [] => false
  | f :: fs, t :: ts => f.accepts t && acceptsAll fs ts

/-- The state and the check of the integers, from what follows the command. -/
def stateOf? (rest : List Char) : Option Char :=
  match pieces ' ' rest with
  | (state :: _) :: numbers => if acceptsAll fields numbers then some state else none
  | _ => none

/-- What comes before the last occurrence of `c` and what comes after it. -/
def splitLast? (c : Char) (cs : List Char) : Option (List Char × List Char) :=
  if c ∈ cs then
    some (((cs.reverse.dropWhile (· ≠ c)).drop 1).reverse, (cs.reverse.takeWhile (· ≠ c)).reverse)
  else none

def ofChars? (text : List Char) : Option ProcessStat := do
  let line := Blank.trim text
  let front := line.takeWhile (· ≠ '(')
  let (command, rest) ← splitLast? ')' ((line.dropWhile (· ≠ '(')).drop 1)
  let pid ← if front = [] then none else Number.integer? 32 front.dropLast
  let state ← if rest = [] then none else stateOf? (rest.drop 1)
  return ⟨pid, String.ofList command, state⟩

/-- The status line that the content of a `stat` file is. -/
def ofBytes? (content : Bytes) : Option ProcessStat := ofChars? (Utf8.lossyChars content)

/-- Whether a process in this state still runs. A process that has ended and was not asked for its
result yet is still listed, and does not count. -/
def isRunning (s : ProcessStat) : Bool := s.state ≠ 'Z' && s.state ≠ 'X'

end ProcessStat

/-- Why a process cannot be looked at. -/
inductive ProcessFault where
  | notFound (path : Path)
  | unreadable (path : Path) (source : IoError)
  | malformed
  deriving DecidableEq

namespace ProcessFault

/-- The fault of a file that could not be opened or read. -/
def ofIo (path : Path) (e : IoError) : ProcessFault :=
  if e = .os .notFound then notFound path else unreadable path e

def message : ProcessFault → String
  | notFound path => s!"File not found: {path.display}"
  | unreadable path source => s!"Unexpected IO error({path.display}): {source.message}"
  | malformed => "Internal error: the status of the process is malformed"

end ProcessFault

namespace ProcessStat

def dirOf (procfs : Path) (pid : Pid) : Path := procfs.join (toString pid)

def look (procfs : Path) (pid : Pid) : Program FileSystem (Except ProcessFault ProcessStat) := do
  let dir := dirOf procfs pid
  match ← Program.perform (σ := FileSystem) (.status dir) with
  | .error e => return .error (.ofIo dir e)
  | .ok status =>
    if status.entry.isDirectory then
      match ← Program.perform (σ := FileSystem) (.readIn status.location "stat") with
      | .error e => return .error (.ofIo (dir.join "stat") e)
      | .ok content => return (ofBytes? content).elim (.error .malformed) .ok
    else return .error (.ofIo dir (.os .notDirectory))

end ProcessStat

namespace TargetWatch

def isAlive (procfs : Path) (pid : Pid) : Program FileSystem Bool := do
  match ← ProcessStat.look procfs pid with
  | .ok stat => return stat.isRunning
  | .error _ => return false

/-- Whether `look` says of one of the processes that it is running. Looks no further than the first
that is. -/
def anyOf {σ : Signature} (look : Pid → Program σ Bool) : List Pid → Program σ Bool
  | [] => return false
  | pid :: rest => do if ← look pid then return true else anyOf look rest

/-- Whether one of the watched processes is running. -/
def anyAlive (w : TargetWatch) : Program FileSystem Bool := anyOf (isAlive w.procfs) w.pids

end TargetWatch

end KernelTrace
