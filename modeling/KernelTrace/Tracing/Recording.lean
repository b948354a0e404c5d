import KernelTrace.Tracing.Call

/-!
# A backend held in memory

A recording answers calls from a record of what the kernel would hold for each instance, and notes
every call that was meant to change something. Failures can be arranged beforehand: creations that
find no room, instances that are in use and cannot be removed, and settings that fail once.
-/

namespace KernelTrace

/-- What the kernel holds for one instance. -/
structure InstanceState where
  tracingOn : Bool
  /-- Whether children are added to the event filter. -/
  eventFork : Bool
  /-- Whether children are added to the function filter. -/
  functionFork : Bool
  eventPids : List Pid
  functionPids : List Pid
  /-- The events switched on last, until they are switched off. -/
  events : Option EventSet
  deriving DecidableEq

namespace InstanceState

def fresh : InstanceState := ⟨false, false, false, [], [], none⟩

/-- The state after something was set. Switching events off forgets which ones were on. -/
def apply (s : InstanceState) : Setting → InstanceState
  | .option .eventFork on => { s with eventFork := on }
  | .option .functionFork on => { s with functionFork := on }
  | .eventPids pids => { s with eventPids := pids }
  | .functionPids pids => { s with functionPids := pids }
  | .tracing on => { s with tracingOn := on }
  | .events events on => { s with events := if on then some events else none }

/-- Whether nothing of a session is left behind. -/
def isQuiescent (s : InstanceState) : Bool :=
  !s.tracingOn && !s.eventFork && !s.functionFork && s.eventPids.isEmpty
    && s.functionPids.isEmpty && s.events.isNone

end InstanceState

/-- The knobs of an instance, each with a setting of its own. -/
inductive Knob where
  | option
  | eventPids
  | functionPids
  | tracing
  | events
  deriving DecidableEq, Repr

def Setting.knob : Setting → Knob
  | option .. => .option
  | eventPids _ => .eventPids
  | functionPids _ => .functionPids
  | tracing _ => .tracing
  | events .. => .events

/-- The name under which a failure to set something is reported. -/
def Setting.fileName : Setting → String
  | option o _ => o.fileName
  | eventPids _ => "set_event_pid"
  | functionPids _ => "set_ftrace_pid"
  | tracing _ => "tracing_on"
  | events .. => "events"

/-- A backend held in memory. -/
structure Recording where
  instances : SortedMap String InstanceState
  /-- The calls that were meant to change something, oldest first. -/
  calls : List Call
  createCalls : Nat
  /-- How many of the next creations find no room. -/
  failingCreates : Nat
  busy : List String
  /-- How many of the next settings of a knob fail. -/
  failing : Knob → Nat
  /-- The events that the kernel offers for each system. -/
  available : SortedMap String (List String)

namespace Recording

/-- Where a recording claims its instances to be. -/
def root : TracingRoot := ⟨"/recording/tracing", .assumed⟩

def empty : Recording := ⟨.empty, [], 0, 0, [], fun _ => 0, .empty⟩

/-- The recording with an instance that somebody else made. -/
def withInstance (r : Recording) (name : String) : Recording :=
  { r with instances := r.instances.insert name .fresh }

/-- The recording that offers events for a system. -/
def withAvailable (r : Recording) (system : String) (events : List String) : Recording :=
  { r with available := r.available.insert system events }

/-- The recording in which the next `count` creations find no room. -/
def failNextCreates (r : Recording) (count : Nat) : Recording := { r with failingCreates := count }

/-- The recording in which an instance is in use. -/
def markBusy (r : Recording) (name : String) : Recording := { r with busy := name :: r.busy }

/-- The recording in which one more of the next settings of a knob fails. -/
def failOnce (r : Recording) (knob : Knob) : Recording :=
  { r with failing := fun k => if k = knob then r.failing k + 1 else r.failing k }

def instanceOf (name : InstanceName) : Instance := ⟨name, root.instanceDir name.text⟩

def note (r : Recording) (c : Call) : Recording := { r with calls := r.calls ++ [c] }

/-- Sets something on an instance. A failure that was arranged comes first and writes nothing; an
instance that is not live is the next one. -/
def set (r : Recording) (i : Instance) (setting : Setting) :
    Except TracingError Unit × Recording :=
  let r := r.note (.set i setting)
  let knob := setting.knob
  if 0 < r.failing knob then
    (.error (.writeFailed (i.dir.join setting.fileName) "" (.os .inputOutput)),
      { r with failing := fun k => if k = knob then r.failing k - 1 else r.failing k })
  else match r.instances.get? i.name.text with
    | none => (.error (.notFound i.name.text), r)
    | some state =>
      (.ok (), { r with instances := r.instances.insert i.name.text (state.apply setting) })

def create (r : Recording) (name : InstanceName) : Except TracingError Instance × Recording :=
  let r := { r.note (.createInstance name) with createCalls := r.createCalls + 1 }
  if 0 < r.failingCreates then
    (.error (.createFailed name (.os .noSpace)),
      { r with failingCreates := r.failingCreates - 1 })
  else if r.instances.contains name.text then (.error (.alreadyExists name), r)
  else (.ok (instanceOf name), r.withInstance name.text)

def destroy (r : Recording) (name : String) : Except TracingError Unit × Recording :=
  let r := r.note (.destroyInstance name)
  if name ∈ r.busy then (.error (.destroyFailed name (.os .busy)), r)
  else if r.instances.contains name then
    (.ok (), { r with instances := r.instances.erase name })
  else (.error (.notFound name), r)

def answer (r : Recording) : (c : Call) → c.Answer × Recording
  | .createInstance name => r.create name
  | .findInstance name =>
    (.ok (if r.instances.contains name.text then some (instanceOf name) else none), r)
  | .destroyInstance name => r.destroy name
  | .instanceNames => (.ok r.instances.keys, r)
  | .set i setting => r.set i setting
  | .availableEvents system => (.ok ((r.available.get? system).getD []), r)

end Recording

end KernelTrace
