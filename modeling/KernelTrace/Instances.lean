import KernelTrace.Actions

/-!
# Creating, finding and removing instances

Sessions share nothing but the instances of one backend, and nobody takes a lock. They stay apart
because creating an instance is atomic and fails if the name is taken: an anonymous instance is one
that this very program has created, under a name drawn at random, and a name that turns out to be
taken costs one of ten attempts.

Only instances whose name marks them as made by this library are ever removed unasked.
-/

namespace KernelTrace

abbrev Tracing := Program (Actions Backend)

def Tracing.call (c : Call) : Tracing c.Answer := Actions.backend (β := Backend) c

/-- What became of the instances that a reset tried to remove. -/
structure ResetReport where
  removed : List String
  failed : List String
  deriving DecidableEq

namespace Instances

open Tracing

/-- How many names are tried for an anonymous instance. -/
def maxAttempts : Nat := 10

/-- Tries `left` more names after the attempts that failed. -/
def createFrom : (left : Nat) → (failed : List TracingError) →
    Tracing (Except TracingError Instance)
  | 0, failed => return .error (.exhausted failed)
  | left + 1, failed => do
    let name := InstanceName.random (← Actions.draw)
    match ← call (.createInstance name) with
    | .ok i =>
      Actions.log .info s!"created trace instance {name.text}"
      return .ok i
    | .error e =>
      Actions.log .warn (s!"creating a trace instance failed "
        ++ s!"(attempt {maxAttempts - left}/{maxAttempts}): {e.message}")
      createFrom left (failed ++ [e])

/-- Creates an instance under a name drawn at random. -/
def createAnonymous : Tracing (Except TracingError Instance) := createFrom maxAttempts []

/-- The instance with a name, created with tracing off if it is not there. Somebody else may create
it between the look and the creation. -/
def findOrCreate (name : InstanceName) : Tracing (Except TracingError Instance) := do
  match ← call (.findInstance name) with
  | .error e => return .error e
  | .ok (some i) =>
    Actions.log .debug s!"using existing trace instance {name.text}"
    return .ok i
  | .ok none =>
    match ← call (.createInstance name) with
    | .ok i =>
      Actions.log .info s!"created trace instance {name.text}"
      return .ok i
    | .error (.alreadyExists _) =>
      match ← call (.findInstance name) with
      | .error e => return .error e
      | .ok (some i) => return .ok i
      | .ok none => return .error (.notFound name.text)
    | .error e => return .error e

/-- The instance with a name, or a new one if there is no name. -/
def bind : Option InstanceName → Tracing (Except TracingError Instance)
  | some name => findOrCreate name
  | none => createAnonymous

def destroy (name : String) : Tracing (Except TracingError Unit) := do
  match ← call (.destroyInstance name) with
  | .error e => return .error e
  | .ok () =>
    Actions.log .info s!"removed trace instance {name}"
    return .ok ()

/-- The names of the live instances of this library's making. -/
def listOwned : Tracing (Except TracingError (List String)) := do
  return (← call .instanceNames).map fun names => names.filter InstanceName.isOwnedText

/-- Removes each of the instances, whatever becomes of the others. -/
def removeEach : List String → ResetReport → Tracing ResetReport
  | [], report => return report
  | name :: rest, report => do
    match ← call (.destroyInstance name) with
    | .ok () =>
      Actions.log .debug s!"removed trace instance {name}"
      removeEach rest { report with removed := report.removed ++ [name] }
    | .error e =>
      Actions.log .warn e.message
      removeEach rest { report with failed := report.failed ++ [name] }

/-- Removes every instance of this library's making that is not in use. -/
def resetAll : Tracing (Except TracingError ResetReport) := do
  match ← listOwned with
  | .error e => return .error e
  | .ok names =>
    let report ← removeEach names ⟨[], []⟩
    Actions.log .info (s!"removed {report.removed.length} trace instances, "
      ++ s!"{report.failed.length} could not be removed")
    return .ok report

end Instances

end KernelTrace
