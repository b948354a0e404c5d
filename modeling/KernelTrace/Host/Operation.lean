import KernelTrace.Actions
import KernelTrace.Files.Edit
import KernelTrace.Os.Environment

/-!
# What a process may ask for

A process acts on files through descriptors, starts other processes and waits for them, and sends
and receives signals. Of all operations only `await` blocks: a read that finds nothing yet and a
look at a child that still runs say so, and the process awaits the descriptor or the child. So a
process that is not ready is one that asks to await something, and what it waits for is there to see.

A process that divides itself goes on in the copy with a value of type `ι`, which whoever runs the
machine knows how to continue.
-/

namespace KernelTrace

/-- A number by which a process knows an open file. -/
abbrev Fd := Nat

/-- What a process does when a signal arrives. -/
inductive Disposition where
  /-- What the system does: for most signals, ending the process. -/
  | default
  | ignored
  /-- It is told when it asks for the signals it has caught. -/
  | caught
  deriving DecidableEq, Repr

/-- How a file is opened. -/
inductive OpenMode where
  | read
  /-- To be written from the start, emptied first. -/
  | write
  | append
  /-- To be read and written from the start. -/
  | update
  deriving DecidableEq, Repr

/-- What a process waits for. Any of these ends the wait, and so does a signal that is caught. -/
structure Awaited where
  /-- One of these descriptors has something to read, or will never have. -/
  fds : List Fd
  child : Bool
  until? : Option Nat
  deriving DecidableEq

/-- How an executable is started. -/
structure Launch where
  path : Path
  /-- The arguments, the name it is called by first. -/
  args : List Bytes
  env : Environment
  /-- Its descriptors, each with the descriptor of the starting process that it is a copy of. -/
  fds : List (Fd × Fd)
  /-- Whether it leads a process group of its own. -/
  leads : Bool

/-- Who a process is. -/
structure Identity where
  pid : Nat
  /-- The number of the process that started it. -/
  parent : Nat
  group : Nat
  deriving DecidableEq

/-- An operation of a process. -/
inductive HostOp (ι : Type) where
  | file (op : FileOp)
  | edit (e : FileEdit)
  | openFile (path : Path) (mode : OpenMode)
  | close (fd : Fd)
  | copy (source target : Fd)
  /-- Makes a pipe: an end to read and an end to write. -/
  | pipe
  /-- Reads so many bytes at most. Nothing at all means that there is nothing yet. -/
  | read (fd : Fd) (count : Nat)
  | write (fd : Fd) (content : Bytes)
  | now
  | await (what : Awaited)
  | fork (rest : ι)
  | spawn (launch : Launch)
  | exec (path : Path) (args : List Bytes) (env : Environment)
  /-- Asks how a child, or any child, has ended. -/
  | collect (pid : Option Nat)
  /-- Sends a signal, or none, to a process, or to a group if the number is negative. -/
  | kill (target : Int) (signal : Option Signal)
  /-- Says what to do about a signal, and is told what was done about it. -/
  | handle (signal : Signal) (what : Disposition)
  /-- Asks for the signals caught since it last asked. -/
  | caught
  | identity
  | enter (path : Path)
  | place
  | draw

/-- What an operation of a process is answered with. -/
abbrev HostOp.Answer {ι : Type} : HostOp ι → Type
  | file op => op.Answer
  | edit _ | copy .. | write .. | enter _ => Except IoError Unit
  | openFile .. => Except IoError Fd
  | close _ | await _ => Unit
  | pipe => Fd × Fd
  | read .. => Except IoError (Option Bytes)
  | now => Nat
  | fork _ => Nat
  | spawn _ => Except IoError Nat
  | exec .. => IoError
  | collect _ => Except OsError (Option (Nat × ExitStatus))
  | kill .. => Except OsError Unit
  | handle .. => Disposition
  | caught => List Signal
  | identity => Identity
  | place => Path
  | draw => Draw

abbrev Host (ι : Type) : Signature := ⟨HostOp ι, HostOp.Answer⟩

abbrev Running (ι : Type) := Program (Host ι)

namespace Running

variable {ι : Type}

def request (op : HostOp ι) : Running ι op.Answer := Program.perform (σ := Host ι) op

/-- The most bytes that are read or moved at once. -/
def chunk : Nat := 65536

/-- More reads than any process makes of one descriptor. -/
def maxReads : Nat := 1000000

/-- Reads a descriptor until it has ended, `fuel` times at most. -/
def readFrom (fd : Fd) : (fuel : Nat) → List Bytes → Running ι (Except IoError Bytes)
  | 0, got => return .ok got.reverse.flatten
  | fuel + 1, got => do
    match ← request (.read fd chunk) with
    | .error e => return .error e
    | .ok (some []) => return .ok got.reverse.flatten
    | .ok (some b) => readFrom fd fuel (b :: got)
    | .ok none =>
      request (.await ⟨[fd], false, none⟩)
      readFrom fd fuel got

def readAll (fd : Fd) : Running ι (Except IoError Bytes) := readFrom fd maxReads []

def writeText (fd : Fd) (text : String) : Running ι Unit := do
  let _ ← request (.write fd (Utf8.encode text))

/-- Waits until a time, whatever is caught meanwhile. -/
def waitUntil (time : Nat) : (fuel : Nat) → Running ι Unit
  | 0 => return
  | fuel + 1 => do
    if time ≤ (← request .now) then return
    request (.await ⟨[], false, some time⟩)
    waitUntil time fuel

end Running

end KernelTrace
