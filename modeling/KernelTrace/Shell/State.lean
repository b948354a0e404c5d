import KernelTrace.Host.Operation
import KernelTrace.Shell.Reader

/-!
# The state of a shell

A shell runs commands one after the other in a state: its arguments, variables, functions and traps,
and the processes it has started. A command may also end more than itself: the loops around it, the
function it is in, or the shell. What a process goes on with that was divided off a shell is a *job*,
a state together with what is to be done in it.
-/

namespace KernelTrace.Shell

/-- A variable. -/
structure Variable where
  value : Option Octets
  isExported : Bool
  isConstant : Bool
  deriving Inhabited

/-- When a trap is run: when a signal was caught, or at the end of the shell. -/
abbrev Occasion := Option Signal

/-- The state of a shell. -/
structure State where
  name : Octets
  args : List Octets
  vars : List (Octets × Variable)
  functions : List (Octets × Command)
  status : Nat
  /-- How the latest command has ended whose output replaced a part of a word, since it was last
  forgotten. -/
  substituted : Option Nat
  options : List Char
  /-- What is run on some occasions. Nothing at all stands for doing nothing. -/
  traps : List (Occasion × Octets)
  /-- The signals that were caught and have not been acted on. -/
  pending : List Signal
  /-- The processes that were divided off, and how they have ended if that is known. -/
  jobs : List (Nat × Option ExitStatus)
  /-- The latest process that was not waited for. -/
  latest : Option Nat
  /-- The process of the shell, or of the shell that it was divided off. -/
  pid : Nat
  /-- The line of the command that is run. -/
  line : Nat
  loops : Nat
  /-- What the variables were that the functions being run have as their own, innermost first. -/
  owned : List (List (Octets × Option Variable))
  /-- How many descriptors are kept to be put back. -/
  kept : Nat
  /-- The permission bits that new files do not get. -/
  mask : Nat
  /-- How many characters of the argument looked at were taken by `getopts`. -/
  optionOffset : Nat

/-- What a process goes on with that was divided off a shell. -/
inductive Task where
  | evaluate (c : Command)
  | become (path : Octets) (args : List Octets) (env : Environment)

/-- A process that was divided off a shell. -/
structure Job where
  state : State
  task : Task
  /-- The descriptors that are copied, each with what it is copied to. -/
  copies : List (Fd × Fd)
  closes : List Fd
  isBackground : Bool

/-- What a command ends besides itself. -/
inductive Flow where
  | leave (loops : Nat)
  /-- All but one of so many loops, and this round of that one. -/
  | again (loops : Nat)
  | back
  | quit

abbrev Exec := ExceptT Flow (StateT State (Running Job))

/-- More steps of any kind than a shell makes. -/
def plenty : Nat := 1000000

namespace Exec

def request (op : HostOp Job) : Exec op.Answer :=
  ExceptT.lift (StateT.lift (Running.request op))

def setStatus (n : Nat) : Exec Unit := modify fun s => { s with status := n }

/-- Runs something and says what else it ends. -/
def observe (p : Exec Unit) : Exec (Option Flow) :=
  ExceptT.mk do
    match ← p.run with
    | .ok () => return .ok none
    | .error f => return .ok (some f)

/-! ## Writing -/

def write (fd : Fd) (t : Octets) : Exec Bool := do
  match ← request (.write fd (Octets.toBytes t)) with
  | .ok () => return true
  | .error _ => return false

/-- Says what is wrong, and with which command. -/
def complain (who : Option Octets) (message : Octets) : Exec Unit := do
  let s ← get
  let whose := match who with
    | some w => w ++ ": ".toList
    | none => []
  let _ ← write 2 (s.name ++ ": ".toList ++ Octets.ofNat s.line ++ ": ".toList ++ whose ++ message
    ++ ['\n'])

/-- The status after something that the shell cannot do. -/
def refused : Nat := 2

/-- Says what is wrong with a command, whose status then says so. -/
def refuse (who : String) (message : Octets) : Exec Nat := do
  complain (some who.toList) message
  return refused

/-- Says what is wrong and ends the shell. -/
def fail {α : Type} (who : Option Octets) (message : Octets) : Exec α := do
  complain who message
  setStatus refused
  throw .quit

/-! ## Variables -/

def valueOf? (name : Octets) : Exec (Option Octets) := do
  if name = "LINENO".toList then return some (Octets.ofNat (← get).line)
  return ((← get).vars.lookup name).bind (·.value)

def putVariable (name : Octets) (v : Option Variable) : Exec Unit :=
  modify fun s =>
    let others := s.vars.filter (·.1 ≠ name)
    { s with vars := match v with
      | some v => (name, v) :: others
      | none => others }

def changeVariable (who : Option Octets) (name : Octets) (f : Variable → Variable) :
    Exec Unit := do
  let s ← get
  let old := (s.vars.lookup name).getD ⟨none, s.options.contains 'a', false⟩
  if old.isConstant then fail who (name ++ ": is read only".toList)
  else putVariable name (some (f old))

def assign (name value : Octets) : Exec Unit :=
  changeVariable none name fun v => { v with value := some value }

def environment : Exec Environment := do
  return (← get).vars.foldl (fun e (name, v) =>
    match v.isExported, v.value with
    | true, some value => e.set (String.ofList name) (Octets.toBytes value)
    | _, _ => e) .empty

def separators : Exec Octets := return (← valueOf? "IFS".toList).getD " \t\n".toList

/-! ## Signals and processes -/

def takeSignals : Exec Unit := do
  if (← get).traps.any fun t => t.1.isSome && t.2 ≠ [] then
    let signals ← request .caught
    modify fun s => { s with pending := s.pending ++ signals }

/-- Notes how a process of the shell has ended. -/
def note (pid : Nat) (status : ExitStatus) : Exec Unit :=
  modify fun s => { s with jobs := s.jobs.map fun j =>
    if j.1 = pid then (pid, some status) else j }

/-- Waits for a process of the shell, `fuel` looks at most. A signal that was caught ends the wait
only if it `mayEnd`. -/
def waitFor (pid : Nat) (mayEnd : Bool) : (fuel : Nat) → Exec (Option ExitStatus)
  | 0 => return none
  | fuel + 1 => do
    match (← get).jobs.lookup pid with
    | none => return none
    | some (some status) => return some status
    | some none =>
      match ← request (.collect none) with
      | .error _ => return none
      | .ok (some (p, status)) =>
        note p status
        waitFor pid mayEnd fuel
      | .ok none =>
        takeSignals
        if mayEnd ∧ (← get).pending ≠ [] then return none
        else
          request (.await ⟨[], true, none⟩)
          takeSignals
          waitFor pid mayEnd fuel

/-- The status that stands for the end of a process. -/
def statusOf : ExitStatus → Nat
  | .code n => n
  | .signal s => 128 + s.number

/-- Says that a process was ended by a signal, unless that is usual. -/
def announceEnd : ExitStatus → Exec Unit
  | .code _ => return
  | .signal s => do
    if s ≠ .SIGINT ∧ s ≠ .SIGPIPE then
      let _ ← write 2 (s.description.toList ++ ['\n'])

/-- Waits for a process that was started to be waited for, and sets the status. -/
def waitForeground (pid : Nat) : Exec Unit := do
  match ← waitFor pid false plenty with
  | some status =>
    announceEnd status
    setStatus (statusOf status)
  | none => setStatus 127

def divide (task : Task) (copies : List (Fd × Fd)) (closes : List Fd) (isBackground : Bool) :
    Exec Nat := do
  let pid ← request (.fork ⟨← get, task, copies, closes, isBackground⟩)
  modify fun s => { s with jobs := (pid, none) :: s.jobs }
  return pid

/-- Reads a descriptor to its end, `fuel` reads at most. -/
def readToEnd (fd : Fd) : (fuel : Nat) → (got : List Bytes) → Exec Bytes
  | 0, got => return got.reverse.flatten
  | fuel + 1, got => do
    match ← request (.read fd Running.chunk) with
    | .error _ | .ok (some []) => return got.reverse.flatten
    | .ok (some b) => readToEnd fd fuel (b :: got)
    | .ok none =>
      request (.await ⟨[fd], false, none⟩)
      takeSignals
      readToEnd fd fuel got

end Exec

end KernelTrace.Shell
