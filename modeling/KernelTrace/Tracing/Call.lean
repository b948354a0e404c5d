import KernelTrace.Program
import KernelTrace.Tracing.Error
import KernelTrace.Tracing.EventSet
import KernelTrace.Tracing.Root

/-!
# Calls of a tracing backend

Everything that is done to trace instances is one of six calls. A backend is whoever answers them:
the control files of the kernel (`Tracing.ControlFiles`) or a record held in memory
(`Tracing.Recording`). Every call names the instance it is about, which is what lets sessions that
know nothing of each other share one backend.
-/

namespace KernelTrace

abbrev Pid := Int

/-- The boolean options of an instance that sessions use. -/
inductive TraceOption where
  /-- Children of the processes in the event filter are added to it. -/
  | eventFork
  /-- Children of the processes in the function filter are added to it. -/
  | functionFork
  deriving DecidableEq, Repr

def TraceOption.fileName : TraceOption → String
  | eventFork => "event-fork"
  | functionFork => "function-fork"

/-- A trace instance: its name and where its control files are. -/
structure Instance where
  name : InstanceName
  dir : Path
  deriving DecidableEq

/-- Where the trace of the instance is read from. -/
def Instance.tracePath (i : Instance) : Path := i.dir.join "trace"

/-- What can be set on an instance. -/
inductive Setting where
  | option (option : TraceOption) (on : Bool)
  /-- Replaces the filter for events. No processes at all clears it. -/
  | eventPids (pids : List Pid)
  /-- Replaces the filter for functions. No processes at all clears it. -/
  | functionPids (pids : List Pid)
  | tracing (on : Bool)
  | events (events : EventSet) (on : Bool)
  deriving DecidableEq

/-- A call of a tracing backend. -/
inductive Call where
  | createInstance (name : InstanceName)
  | findInstance (name : InstanceName)
  /-- Removes an instance. The name need not be one that this library would give. -/
  | destroyInstance (name : String)
  | instanceNames
  | set (i : Instance) (setting : Setting)
  /-- Lists the events that the kernel offers for a system. -/
  | availableEvents (system : String)
  deriving DecidableEq

namespace Call

abbrev Value : Call → Type
  | createInstance _ => Instance
  | findInstance _ => Option Instance
  | instanceNames | availableEvents _ => List String
  | destroyInstance _ | set .. => Unit

abbrev Answer (c : Call) : Type := Except TracingError c.Value

end Call

abbrev Backend : Signature := ⟨Call, Call.Answer⟩

end KernelTrace
