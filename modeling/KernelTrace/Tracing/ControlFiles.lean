import KernelTrace.Actions

/-!
# The backend of control files

The kernel shows each trace instance as a directory of control files. A call becomes operations on
these files. A file that is missing stands for a knob that the kernel does not have, so none is
ever made; for the function filter, which is an optional part of the kernel, that is no failure.

A new directory is an instance only once its `tracing_on` could be switched off. If it cannot, the
directory is removed again, so a file system that is not the kernel's is left as it was.
-/

namespace KernelTrace.ControlFiles

abbrev Files := Program (Actions FileSystem)

def file (op : FileOp) : Files op.Answer := Actions.backend (β := FileSystem) op

def log (level : LogLevel) (message : String) : Files Unit := Actions.log level message

def flag (on : Bool) : String := if on then "1" else "0"

/-- The value of a filter: the process numbers with spaces between them. -/
def pidList (pids : List Pid) : String := " ".intercalate (pids.map toString)

/-- Writes a value into a control file that exists. -/
def write (path : Path) (value : String) : Files (Except TracingError Unit) := do
  log .trace s!"{path.display} <- \"{value}\""
  match ← file (.overwrite path (Utf8.encode value)) with
  | .ok () => return .ok ()
  | .error e => return .error (.writeFailed path value e)

def tolerateMissing (result : Except TracingError Unit) : Files (Except TracingError Unit) := do
  match result with
  | .error (.writeFailed path _ (.os .notFound)) =>
    log .warn s!"{path.display} does not exist, skipping"
    return .ok ()
  | other => return other

/-- The names of the directories in a directory, in byte order. Links are no directories, and
names that are no text are left out. -/
def subdirectories (dir : Path) : Files (Except TracingError (List String)) := do
  match ← file (.list dir) with
  | .error e => return .error (.readFailed dir e)
  | .ok entries =>
    return .ok ((entries.filter (·.2.isDirectory)).filterMap fun e => Utf8.decode? e.1)

def optionFile (i : Instance) (option : TraceOption) : Path :=
  (i.dir.join "options").join option.fileName

def tracingFile (i : Instance) : Path := i.dir.join "tracing_on"

def eventPidFile (i : Instance) : Path := i.dir.join "set_event_pid"

def functionPidFile (i : Instance) : Path := i.dir.join "set_ftrace_pid"

/-- The control files that switch the events of one system. -/
def systemFiles (i : Instance) (system : String) (events : List String) : List Path :=
  let dir := (i.dir.join "events").join system
  if EventSet.coversSystem events then [dir.join "enable"]
  else events.map fun event => (dir.join (Path.ofString event)).join "enable"

/-- The control files that switch the events of a set, in the order in which they are written. -/
def eventFiles (i : Instance) (events : EventSet) : List Path :=
  events.toList.flatMap fun e => systemFiles i e.1 e.2

/-- Writes a value into each of the files, up to the first that fails. -/
def writeAll (value : String) : List Path → Files (Except TracingError Unit)
  | [] => return .ok ()
  | path :: rest => do
    match ← write path value with
    | .ok () => writeAll value rest
    | .error e => return .error e

def create (root : TracingRoot) (name : InstanceName) :
    Files (Except TracingError Instance) := do
  let i : Instance := ⟨name, root.instanceDir name.text⟩
  match ← file (.makeDir i.dir) with
  | .error (.os .exists) => return .error (.alreadyExists name)
  | .error e => return .error (.createFailed name e)
  | .ok () =>
    match ← write (tracingFile i) (flag false) with
    | .error e =>
      let _ ← file (.removeDir i.dir)
      return .error e
    | .ok () =>
      log .debug s!"created trace instance {name.text}"
      return .ok i

def find (root : TracingRoot) (name : InstanceName) :
    Files (Except TracingError (Option Instance)) := do
  let i : Instance := ⟨name, root.instanceDir name.text⟩
  let status ← file (.status i.dir)
  return .ok (if FileStatus.isDirectory status then some i else none)

def destroy (root : TracingRoot) (name : String) : Files (Except TracingError Unit) := do
  match ← file (.removeDir (root.instanceDir name)) with
  | .error (.os .notFound) => return .error (.notFound name)
  | .error e => return .error (.destroyFailed name e)
  | .ok () =>
    log .debug s!"destroyed trace instance {name}"
    return .ok ()

def set (i : Instance) : Setting → Files (Except TracingError Unit)
  | .option .eventFork on => write (optionFile i .eventFork) (flag on)
  | .option .functionFork on => do
    tolerateMissing (← write (optionFile i .functionFork) (flag on))
  | .eventPids pids => write (eventPidFile i) (pidList pids)
  | .functionPids pids => do tolerateMissing (← write (functionPidFile i) (pidList pids))
  | .tracing on => write (tracingFile i) (flag on)
  | .events events on => writeAll (flag on) (eventFiles i events)

/-- Answers a call with operations on the files below `root`. -/
def answer (root : TracingRoot) : (c : Call) → Files c.Answer
  | .createInstance name => create root name
  | .findInstance name => find root name
  | .destroyInstance name => destroy root name
  | .instanceNames => subdirectories root.instancesDir
  | .set i setting => set i setting
  | .availableEvents system => subdirectories (root.eventsDir.join system)

/-- A program over a tracing backend as a program over the files below `root`. -/
def realize {α : Type} (root : TracingRoot) (p : Program (Actions Backend) α) : Files α :=
  p.expand (Actions.onBackend (β := Backend) (answer root))

end KernelTrace.ControlFiles
