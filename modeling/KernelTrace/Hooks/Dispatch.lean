import KernelTrace.Config
import KernelTrace.Hooks.Registry
import KernelTrace.Instances

/-!
# Running hooks

A dispatcher runs every hook of a name, one after the other, against one instance. Before the first
one starts it announces where the trace can be read. What a hook does, even if it cannot be started
or is ended by a signal, is part of what it left behind and never changes how the others are run.
-/

namespace KernelTrace

/-- Why hooks could not be run. -/
inductive HookError where
  /-- The directory of the hooks could not be looked through. -/
  | dirUnreadable (dir : Path) (source : WalkFault)
  | notFound (name : String)
  | spawn (path : Path) (source : IoError)
  | wait (path : Path) (source : IoError)
  /-- A handler for a signal could not be installed. -/
  | handler (source : IoError)
  /-- There is no instance to run hooks against. -/
  | inst (source : TracingError)
  | announce (source : IoError)

namespace HookError

/-- The wordings of the failure and of what is below it, outermost first. A missing instance says
no more than what its own failure says. -/
def chain : HookError → List String
  | dirUnreadable dir source =>
    s!"hooks directory {dir.display} is unreadable: {source.message}" :: source.chain
  | notFound name => [s!"no trace definition named '{name}'"]
  | spawn path source => [s!"failed to spawn {path.display}: {source.message}", source.message]
  | wait path source => [s!"failed to wait for {path.display}: {source.message}", source.message]
  | handler source =>
    [s!"failed to install signal handlers: {source.message}", source.message]
  | inst source => source.chain
  | announce source =>
    [s!"failed to announce the trace path: {source.message}", source.message]

def message (e : HookError) : String := e.chain.headD ""

end HookError

/-- What a hook left behind. One that could not be run has no status, and says why in its error
stream. -/
structure HookOutput where
  path : Path
  status : Option ExitStatus
  stdout : Bytes
  stderr : Bytes
  deriving DecidableEq

def HookOutput.isSuccess (o : HookOutput) : Bool :=
  match o.status with
  | some s => s.isSuccess
  | none => false

/-- Which trace definition to run, and how. -/
structure RunRequest where
  name : String
  args : List String
  /-- The instance to trace in, created if it is missing. -/
  inst : Option InstanceName
  /-- Whether an instance made for this run is removed in the end. -/
  removeInstance : Bool
  deriving DecidableEq

/-- Runs the hooks of a registry. -/
structure Dispatcher where
  registry : HookRegistry
  env : List (String × Path)

namespace Dispatcher

variable {β : Signature}

/-- The executables for a name, at least one. -/
def lookup (d : Dispatcher) (name : String) : Except HookError (List Path) :=
  match d.registry.lookup name with
  | [] => .error (.notFound name)
  | paths => .ok paths

/-- What a hook that could not be run leaves behind. -/
def failed (path : Path) (e : HookError) : Program (Actions β) HookOutput := do
  Actions.log .error e.message
  return ⟨path, none, [], Utf8.encode s!"{e.message}\n"⟩

def invoke (d : Dispatcher) (path : Path) (args : List String) :
    Program (Actions β) HookOutput := do
  let words := " ".intercalate args
  Actions.log .debug s!"running {path.display} {words}"
  match ← Actions.invoke ⟨path, args, d.env⟩ with
  | .error (.spawn source) => failed path (.spawn path source)
  | .error (.wait source) => failed path (.wait path source)
  | .error (.handler source) => failed path (.handler source)
  | .ok result =>
    let level : LogLevel := if result.status.isSuccess then .info else .warn
    Actions.log level s!"{path.display} exited with {result.status.message}"
    return ⟨path, some result.status, result.stdout, result.stderr⟩

def invokeEach (d : Dispatcher) (args : List String) :
    List Path → Program (Actions β) (List HookOutput)
  | [] => return []
  | path :: rest => do
    let output ← d.invoke path args
    return output :: (← invokeEach d args rest)

/-- The arguments that ask a hook to describe itself. -/
def describeArgs : List String := ["--describe"]

/-- Asks every hook of a name to describe itself. No instance is involved. -/
def describe (d : Dispatcher) (name : String) :
    Program (Actions β) (Except HookError (List HookOutput)) := do
  match d.lookup name with
  | .error e => return .error e
  | .ok paths => return .ok (← d.invokeEach describeArgs paths)

/-- The line that announces where a trace can be read. -/
def announcement (i : Instance) : Bytes := Utf8.encode s!"{i.tracePath.display}\n"

def announce (i : Instance) : Program (Actions β) (Except IoError Unit) := do
  match ← Actions.announce (announcement i) with
  | .error e => return .error e
  | .ok () => Actions.flush

/-- The arguments for hooks that trace in an instance. -/
def hookArgs (r : RunRequest) (i : Instance) : List String :=
  r.args ++ ["--instance", i.name.text]

/-- Removes the instance of a run that made it for itself, if that is asked for. -/
def cleanUp (r : RunRequest) (i : Instance) : Tracing Unit := do
  if r.removeInstance && r.inst.isNone then
    match ← Instances.destroy i.name.text with
    | .ok () => return
    | .error e => Actions.log .warn e.message

/-- Runs every hook of a name against one instance. -/
def run (d : Dispatcher) (r : RunRequest) : Tracing (Except HookError (List HookOutput)) := do
  match d.lookup r.name with
  | .error e => return .error e
  | .ok paths =>
    match ← Actions.shieldStop with
    | .error e => return .error (.handler e)
    | .ok () =>
      match ← Instances.bind r.inst with
      | .error e => return .error (.inst e)
      | .ok i =>
        match ← announce i with
        | .error e => return .error (.announce e)
        | .ok () =>
          let outputs ← d.invokeEach (hookArgs r i) paths
          cleanUp r i
          return .ok outputs

end Dispatcher

end KernelTrace
