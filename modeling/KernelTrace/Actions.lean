import KernelTrace.Files.Operation
import KernelTrace.Log
import KernelTrace.Os.Signal
import KernelTrace.Tracing.Call

/-!
# What orchestration may ask for

A session, a dispatcher and the commands built from them act through one set of operations: those
of some backend, a random number, a log record, waiting for a trace to end, writing to whoever reads
the output and running a hook. The backend is a parameter. Over `Backend` a program makes
calls of a tracing backend; over `FileSystem` each call has been taken apart into operations on
files, which is the level at which programs that share a file system interleave.
-/

namespace KernelTrace

/-- Why a wait ended. -/
inductive WakeReason where
  | signal (s : Signal)
  | deadline
  /-- None of the traced processes is running any more. -/
  | targetsExited
  /-- Nobody is left who could request a stop. -/
  | closed
  deriving DecidableEq, Repr

def WakeReason.message : WakeReason → String
  | signal s => s!"received {s.name}"
  | deadline => "deadline reached"
  | targetsExited => "traced processes exited"
  | closed => "stop source closed"

/-- Processes to watch through a directory of process information. -/
structure TargetWatch where
  /-- The directory with one entry for each process. -/
  procfs : Path
  pids : List Pid
  deriving DecidableEq

def showPids (pids : List Pid) : String :=
  "[" ++ ", ".intercalate (pids.map fun p => s!"Pid({p})") ++ "]"

/-- Why a hook gave no result. -/
inductive HookFault where
  | spawn (source : IoError)
  | wait (source : IoError)
  /-- The handler for interrupts could not be installed. -/
  | handler (source : IoError)
  deriving DecidableEq

/-- What a hook that ran left behind. -/
structure HookResult where
  status : ExitStatus
  stdout : Bytes
  stderr : Bytes
  deriving DecidableEq

/-- A run of a hook. -/
structure HookRun where
  path : Path
  args : List String
  env : List (String × Path)
  deriving DecidableEq

/-- An operation of orchestration over the backend `β`. -/
inductive Action (β : Signature) where
  | backend (op : β.Op)
  | draw
  | log (record : LogRecord)
  /-- Waits for a stop, for so many milliseconds at most and while some target is running. -/
  | wait (deadline : Option Nat) (targets : Option TargetWatch)
  /-- Takes over the signal that asks hooks to stop, and does nothing about it. -/
  | shieldStop
  /-- Takes the signals that ask for a stop from now on, for the waits to come. -/
  | listen
  | announce (text : Bytes)
  | flush
  | relay (text : Bytes)
  | invoke (run : HookRun)

/-- What an operation of orchestration is answered with. -/
abbrev Action.Answer {β : Signature} : Action β → Type
  | backend op => β.Answer op
  | draw => Draw
  | log _ => Unit
  | wait .. => WakeReason
  | shieldStop | listen | announce _ | flush | relay _ => Except IoError Unit
  | invoke _ => Except HookFault HookResult

/-- The operations of orchestration over the backend `β`. -/
abbrev Actions (β : Signature) : Signature := ⟨Action β, Action.Answer⟩

abbrev FileSystem : Signature := ⟨FileOp, FileOp.Answer⟩

namespace Actions

variable {β : Signature}

def backend (op : β.Op) : Program (Actions β) (β.Answer op) :=
  Program.perform (σ := Actions β) (.backend op)

def draw : Program (Actions β) Draw := Program.perform (σ := Actions β) .draw

def log (level : LogLevel) (message : String) : Program (Actions β) Unit :=
  Program.perform (σ := Actions β) (.log ⟨level, message⟩)

def wait (deadline : Option Nat) (targets : Option TargetWatch) :
    Program (Actions β) WakeReason :=
  Program.perform (σ := Actions β) (.wait deadline targets)

/-- Takes over the signal that asks hooks to stop. -/
def shieldStop : Program (Actions β) (Except IoError Unit) :=
  Program.perform (σ := Actions β) .shieldStop

/-- Takes the signals that ask for a stop from now on. -/
def listen : Program (Actions β) (Except IoError Unit) :=
  Program.perform (σ := Actions β) .listen

def announce (text : Bytes) : Program (Actions β) (Except IoError Unit) :=
  Program.perform (σ := Actions β) (.announce text)

/-- Passes on what was written to the output. -/
def flush : Program (Actions β) (Except IoError Unit) :=
  Program.perform (σ := Actions β) .flush

def relay (text : Bytes) : Program (Actions β) (Except IoError Unit) :=
  Program.perform (σ := Actions β) (.relay text)

def invoke (run : HookRun) : Program (Actions β) (Except HookFault HookResult) :=
  Program.perform (σ := Actions β) (.invoke run)

/-- A program that uses only the backend, as orchestration. -/
def ofBackend {α : Type} (p : Program β α) : Program (Actions β) α := p.expand backend

/-- Replaces every operation of a backend by a program over another backend and leaves the rest
as it is. -/
def onBackend {γ : Signature} (f : (op : β.Op) → Program (Actions γ) (β.Answer op)) :
    (op : Action β) → Program (Actions γ) op.Answer
  | .backend op => f op
  | .draw => draw
  | .log record => Program.perform (σ := Actions γ) (.log record)
  | .wait deadline targets => wait deadline targets
  | .shieldStop => shieldStop
  | .listen => listen
  | .announce text => announce text
  | .flush => flush
  | .relay text => relay text
  | .invoke run => invoke run

/-- A program that logs only what is logged at a level of talkativeness. -/
def filterLog {α : Type} (verbose : Bool) (p : Program (Actions β) α) : Program (Actions β) α :=
  p.expand (σ := Actions β) (τ := Actions β) fun op => match op with
    | .log record =>
      if record.level.isLogged verbose then Program.perform (σ := Actions β) (.log record)
      else return ()
    | .backend op => backend op
    | .draw => draw
    | .wait deadline targets => wait deadline targets
    | .shieldStop => shieldStop
    | .listen => listen
    | .announce text => announce text
    | .flush => flush
    | .relay text => relay text
    | .invoke run => invoke run

end Actions

end KernelTrace
