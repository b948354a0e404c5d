import KernelTrace.Os.Error
import KernelTrace.Path
import KernelTrace.Tracing.InstanceName

/-!
# Failures of trace instances

What can go wrong with trace instances and their control files. Each failure is a cause with the
things it is about; the wording is in one place, and so is the chain of causes below it.
-/

namespace KernelTrace

/-- Why something could not be done to a trace instance. -/
inductive TracingError where
  | invalidName (name : String) (fault : InstanceNameFault)
  | alreadyExists (name : InstanceName)
  | notFound (name : String)
  | createFailed (name : InstanceName) (source : IoError)
  | destroyFailed (name : String) (source : IoError)
  /-- Every attempt to create an instance under a generated name failed. -/
  | exhausted (attempts : List TracingError)
  | writeFailed (path : Path) (value : String) (source : IoError)
  | readFailed (path : Path) (source : IoError)

namespace TracingError

/-- The wording of the failure. Written values are flags and numbers, so quoting one changes
nothing in it. -/
def message : TracingError → String
  | invalidName name fault => s!"'{name}' is not a valid instance name: {fault.message}"
  | alreadyExists name => s!"instance '{name.text}' already exists"
  | notFound name => s!"instance '{name}' not found"
  | createFailed name source =>
    s!"instance '{name.text}' could not be created: {source.message}"
  | destroyFailed name source => s!"instance '{name}' could not be destroyed: {source.message}"
  | exhausted attempts =>
    s!"no trace instance could be created after {attempts.length} attempts"
  | writeFailed path value source =>
    s!"failed to write \"{value}\" to {path.display}: {source.message}"
  | readFailed path source => s!"failed to read {path.display}: {source.message}"

/-- The failure below this one, if the system gave one. -/
def source? : TracingError → Option IoError
  | createFailed _ source | destroyFailed _ source | writeFailed _ _ source
  | readFailed _ source => some source
  | invalidName .. | alreadyExists _ | notFound _ | exhausted _ => none

/-- The wordings of the failure and of what is below it, outermost first. -/
def chain (e : TracingError) : List String :=
  e.message :: (e.source?.map IoError.message).toList

end TracingError

end KernelTrace
