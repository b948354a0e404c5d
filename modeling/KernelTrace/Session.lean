import KernelTrace.Instances

/-!
# Trace sessions

A session traces some processes in one instance. It *binds* the instance, *arms* it, that is sets
up the filters, and only then switches tracing on, so that tracing is never on without its filter.
When the trace has ended, for whatever reason, and also when arming failed half way, it *drains* the
instance: every setting is put back, each whether or not another could be.

What is set and in which order is data (`TraceRequest.arming` and `TraceRequest.draining`); arming
stops at the first failure, draining goes through to the end.
-/

namespace KernelTrace

/-- What to trace and for how long. -/
structure TraceRequest where
  pids : List Pid
  parents : List Pid
  /-- The instance to use, created if it is missing. -/
  inst : Option InstanceName
  /-- How many milliseconds to trace. Zero is no limit. -/
  duration : Option Nat
  events : EventSet
  /-- Where to look whether the processes have exited. -/
  procfs : Option Path
  deriving DecidableEq

/-- How far a session has got. -/
inductive SessionState where
  | parsed
  | bound
  | armed
  | running
  | draining
  | done
  | failed
  deriving DecidableEq, Repr

def SessionState.name : SessionState → String
  | parsed => "Parsed"
  | bound => "Bound"
  | armed => "Armed"
  | running => "Running"
  | draining => "Draining"
  | done => "Done"
  | failed => "Failed"

/-- Why a session failed. -/
inductive SessionError where
  | missingTarget
  | bind (source : TracingError)
  | arm (name : InstanceName) (source : TracingError)
  | start (name : InstanceName) (source : TracingError)
  | drain (name : InstanceName) (source : TracingError)

namespace SessionError

/-- The failure of the instance below this one. -/
def source? : SessionError → Option TracingError
  | missingTarget => none
  | bind source | arm _ source | start _ source | drain _ source => some source

def message : SessionError → String
  | missingTarget => "no target selected: pass at least one pid or parent pid"
  | bind source => s!"failed to bind a trace instance: {source.message}"
  | arm name source => s!"failed to arm trace instance '{name.text}': {source.message}"
  | start name source => s!"failed to start tracing in instance '{name.text}': {source.message}"
  | drain name source =>
    s!"teardown of trace instance '{name.text}' incomplete: {source.message}"

/-- The wordings of the failure and of what is below it, outermost first. -/
def chain (e : SessionError) : List String :=
  e.message :: (e.source?.map TracingError.chain).getD []

end SessionError

/-- What a session did. -/
structure SessionReport where
  inst : Instance
  wake : WakeReason
  deriving DecidableEq

/-- A duration in milliseconds as it is logged: in seconds from one second on, with as many decimal
places as it takes. -/
def showMilliseconds (ms : Nat) : String :=
  if ms < 1000 then s!"{ms}ms"
  else
    let places := (Nat.toDigits 10 (1000 + ms % 1000)).drop 1
    let kept := (places.reverse.dropWhile (· = '0')).reverse
    s!"{ms / 1000}" ++ (if kept = [] then "" else "." ++ String.ofList kept) ++ "s"

example : showMilliseconds 20 = "20ms" ∧ showMilliseconds 1500 = "1.5s"
    ∧ showMilliseconds 60000 = "60s" ∧ showMilliseconds 1005 = "1.005s" := by decide +kernel

/-- The members of a list in the order of their first occurrence. -/
def firstOccurrences (pids : List Pid) : List Pid :=
  pids.foldl (fun seen p => if p ∈ seen then seen else seen ++ [p]) []

namespace TraceRequest

/-- The processes in the filters: targets and parents, each once. -/
def filterPids (r : TraceRequest) : List Pid := firstOccurrences (r.pids ++ r.parents)

def deadline (r : TraceRequest) : Option Nat := r.duration.filter (· ≠ 0)

def targets (r : TraceRequest) : Option TargetWatch := r.procfs.map fun p => ⟨p, r.filterPids⟩

/-- The switching of the events, if there are any. -/
def eventSettings (r : TraceRequest) (on : Bool) : List Setting :=
  if r.events.isEmpty then [] else [.events r.events on]

/-- What is set before tracing is switched on. -/
def arming (r : TraceRequest) : List Setting :=
  [.option .eventFork true, .option .functionFork true, .eventPids r.filterPids,
    .functionPids r.filterPids] ++ r.eventSettings true

def draining (r : TraceRequest) : List Setting :=
  [.tracing false, .option .eventFork false, .option .functionFork false, .eventPids [],
    .functionPids []] ++ r.eventSettings false

end TraceRequest

namespace Session

open Tracing

/-- Makes settings in order, up to the first that fails. -/
def setAll (i : Instance) : List Setting → Tracing (Except TracingError Unit)
  | [] => return .ok ()
  | s :: rest => do
    match ← call (.set i s) with
    | .ok () => setAll i rest
    | .error e => return .error e

/-- Makes settings in order, each whatever became of the others, and gives the failures. -/
def setEach (i : Instance) : List Setting → Tracing (List TracingError)
  | [] => return []
  | s :: rest => do
    let result ← call (.set i s)
    let failures ← setEach i rest
    match result with
    | .ok () => return failures
    | .error e => return e :: failures

/-- Logs a step from one state to another. -/
def enter (state next : SessionState) : Tracing Unit :=
  Actions.log .debug s!"session {state.name} -> {next.name}"

/-- Warns of what could not be put back. -/
def warnEach (i : Instance) : List TracingError → Tracing Unit
  | [] => return
  | e :: rest => do
    Actions.log .warn s!"draining instance {i.name.text}: {e.message}"
    warnEach i rest

/-- Puts every setting back. The first failure is the one that counts. -/
def drain (r : TraceRequest) (i : Instance) : Tracing (Except TracingError Unit) := do
  let failures ← setEach i r.draining
  warnEach i failures
  match failures with
  | [] => return .ok ()
  | e :: _ => return .error e

/-- Traces in an instance until the trace ends. Gives the state that was reached as well. -/
def trace (r : TraceRequest) (i : Instance) :
    Tracing (SessionState × Except SessionError WakeReason) := do
  enter .bound .armed
  match ← setAll i r.arming with
  | .error e => return (.armed, .error (.arm i.name e))
  | .ok () =>
    match ← call (.set i (.tracing true)) with
    | .error e => return (.armed, .error (.start i.name e))
    | .ok () =>
      enter .armed .running
      let limit := (r.deadline.map fun d => "for " ++ showMilliseconds d).getD "until stopped"
      Actions.log .info s!"tracing {showPids r.filterPids} in instance {i.name.text} ({limit})"
      let wake ← Actions.wait r.deadline r.targets
      if wake = .targetsExited then
        Actions.log .trace s!"none of {showPids r.filterPids} is running"
      Actions.log .info s!"trace in instance {i.name.text} ended: {wake.message}"
      return (.running, .ok wake)

/-- What a session comes to, given how the trace and the draining went. -/
def outcome (i : Instance) (traced : Except SessionError WakeReason)
    (drained : Except TracingError Unit) : Except SessionError SessionReport :=
  match traced, drained with
  | .error e, _ => .error e
  | .ok _, .error e => .error (.drain i.name e)
  | .ok wake, .ok () => .ok ⟨i, wake⟩

def endState (result : Except SessionError SessionReport) : SessionState :=
  match result with
  | .ok _ => .done
  | .error _ => .failed

/-- Runs a session to its end: what it came to. The state it ends in is `endState` of that. -/
def execute (r : TraceRequest) : Tracing (Except SessionError SessionReport) := do
  if r.pids.isEmpty && r.parents.isEmpty then
    enter .parsed .failed
    return .error .missingTarget
  else match ← Instances.bind r.inst with
    | .error e =>
      enter .parsed .failed
      return .error (.bind e)
    | .ok i =>
      enter .parsed .bound
      let (state, traced) ← trace r i
      enter state .draining
      let drained ← drain r i
      let result := outcome i traced drained
      enter .draining (endState result)
      return result

end Session

end KernelTrace
