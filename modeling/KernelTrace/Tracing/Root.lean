import KernelTrace.Path

/-!
# The tracing root

The directory of the kernel's tracing files: `instances` below it holds the trace instances and
`events` the events that can be switched on.
-/

namespace KernelTrace

/-- How a tracing root was found. -/
inductive RootKind where
  /-- A native mount of the tracing file system. -/
  | tracefs
  /-- The `tracing` directory of a debug file system. -/
  | debugfs
  /-- Nothing was found, and the well-known place is assumed. -/
  | assumed
  deriving DecidableEq, Repr

def RootKind.name : RootKind → String
  | tracefs => "Tracefs"
  | debugfs => "Debugfs"
  | assumed => "Default"

/-- Where the kernel's tracing files are. -/
structure TracingRoot where
  path : Path
  kind : RootKind
  deriving DecidableEq

namespace TracingRoot

def instancesDir (r : TracingRoot) : Path := r.path.join "instances"

/-- The directory of the events that the kernel offers. -/
def eventsDir (r : TracingRoot) : Path := r.path.join "events"

def instanceDir (r : TracingRoot) (name : String) : Path := r.instancesDir.join name

end TracingRoot

end KernelTrace
