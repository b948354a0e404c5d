import KernelTrace.Instances

/-!
# Choosing the events of system calls

A system call is traced through the event of its entry. It can be named with or without the mark of
entry events; a name that is an event as it stands is taken as it stands. Without names every entry
event is chosen, and the whole subsystem where the kernel lists none.
-/

namespace KernelTrace

/-- Why no events could be chosen. -/
inductive SelectionError where
  | unknownCall (name : String)
  | tracing (source : TracingError)

namespace SelectionError

/-- The wordings of the failure and of what is below it, outermost first. -/
def chain : SelectionError → List String
  | unknownCall name =>
    [s!"unknown system call '{name}': neither '{name}' nor 'sys_enter_{name}' is an available event"]
  | tracing source => source.chain

def message (e : SelectionError) : String := e.chain.headD ""

end SelectionError

namespace SystemCalls

def system : String := "syscalls"

def entryMark : String := "sys_enter_"

/-- Whether an event is that of an entry. -/
def isEntry (event : String) : Bool := entryMark.toList.isPrefixOf event.toList

def eventOf? (available : List String) (name : String) : Option String :=
  [name, entryMark ++ name].find? (available.contains ·)

/-- The set of some events of the subsystem. -/
def ofEvents (events : List String) : EventSet := EventSet.ofList (events.map fun e => (system, e))

/-- The events that names mean, or the first name that means none. -/
def resolve (available : List String) : List String → Except SelectionError (List String)
  | [] => .ok []
  | name :: rest =>
    match eventOf? available name with
    | none => .error (.unknownCall name)
    | some event => (resolve available rest).map (event :: ·)

def choose (available names : List String) : Except SelectionError EventSet :=
  if names = [] then
    let entries := available.filter isEntry
    .ok (if entries = [] then EventSet.ofSystem system else ofEvents entries)
  else (resolve available names).map ofEvents

/-- Lists the available events and chooses among them. -/
def select (names : List String) : Tracing (Except SelectionError EventSet) := do
  match ← Tracing.call (.availableEvents system) with
  | .error e => return .error (.tracing e)
  | .ok available => return choose available names

end SystemCalls

end KernelTrace
