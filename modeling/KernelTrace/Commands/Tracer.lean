import KernelTrace.Commands.Basic
import KernelTrace.Hooks.Dispatch

/-!
# The command `tracer`

Lists, describes and runs trace definitions, and removes the instances that were left behind. Of
several things asked for it does the first, in that order. Output meant for other programs goes to
the output, everything else to the error stream.
-/

namespace KernelTrace.Commands

open CommandLine

/-- The command line of `tracer`. -/
structure TracerOptions where
  /-- Whether to list the names of all trace definitions. -/
  getAll : Bool
  describe : Option String
  /-- Whether to remove every instance of this library's making. -/
  clear : Bool
  run : Option String
  /-- The arguments for the trace definition, as one text. -/
  args : Option String
  inst : Option InstanceName
  /-- Whether an instance made for the run is removed in the end. -/
  removeInstance : Bool
  hooksDir : Option Path
  config : Config
  deriving DecidableEq

namespace TracerOptions

def instanceOption : Opt :=
  { short := some 'i', long := "instance", arity := .one, valueName := "NAME"
    kind := .instanceName
    about := "Trace into this instance, created if missing. "
      ++ "Defaults to a fresh anonymous instance" }

/-- The option for the directory of the hooks. -/
def hooksOption : Opt :=
  { short := none, long := "trace-hooks", arity := .one, valueName := "DIR", kind := .path
    envName := some "TRACER_HOOKS"
    about := "Directory holding the trace definitions. "
      ++ "Defaults to the directory of the tracer executable" }

def command : Command :=
  { name := "tracer"
    preamble := none
    about := some "Runs trace definitions against isolated kernel trace instances"
    version := some versionText
    options :=
      [{ short := some 'g', long := "get-all", about := "List the names of all trace definitions" },
       { short := some 'd', long := "describe", arity := .one, valueName := "NAME"
         about := "Print what the trace definition NAME does and which arguments it takes" },
       { short := some 'c', long := "clear"
         about := "Remove every trace instance the tracer created" },
       { short := some 'r', long := "run", arity := .one, valueName := "NAME"
         about := "Run the trace definition NAME" },
       { short := some 'a', long := "args", arity := .one, valueName := "ARGS"
         takesHyphens := true
         about := "Arguments for the trace definition, as one string" },
       instanceOption,
       { short := none, long := "remove-instance"
         about := "Remove the anonymous instance once the trace definition exited" },
       hooksOption] ++ configOptions }

def ofMatches (env : Environment) (m : Matches) : TracerOptions where
  getAll := m.has "get-all"
  describe := m.value? "describe"
  clear := m.has "clear"
  run := m.value? "run"
  args := m.value? "args"
  inst := instanceOf m instanceOption
  removeInstance := m.has "remove-instance"
  hooksDir := m.path? env hooksOption
  config := configOf env m

def read (env : Environment) (args : List String) : Except Halt TracerOptions :=
  (command.read env args).map (ofMatches env)

/-- The run that is asked for. Arguments are separated by blanks. -/
def runRequest (o : TracerOptions) (name : String) : RunRequest :=
  ⟨name, (o.args.map Blank.fields).getD [], o.inst, o.removeInstance⟩

end TracerOptions

namespace Tracer

/-- Looks for the hooks. They are next to the command itself unless told otherwise. -/
def registry (home : Path) (o : TracerOptions) : Attempt HookRegistry :=
  let dir := o.hooksDir.getD home
  orFail HookError.chain do
    return (← HookRegistry.discover dir).mapError (HookError.dirUnreadable dir)

def dispatcher (home : Path) (o : TracerOptions) : Attempt Dispatcher := do
  return ⟨← registry home o, o.config.env⟩

def root (o : TracerOptions) : Attempt TracingRoot := do
  let root ← ExceptT.lift (TracingRoot.resolve o.config.overrides)
  log .trace s!"using tracing root {root.path.display}"
  return root

def emit (outputs : List HookOutput) : Attempt Unit := do
  outputs.forM fun output => do
    print output.stdout
    orFail (fun e : IoError => [e.message]) (Actions.relay output.stderr)
  orFail (fun e : IoError => [e.message]) Actions.flush

def getAll (home : Path) (o : TracerOptions) : Attempt Unit := do
  let registry ← registry home o
  registry.names.forM fun name => printText (name ++ "\n")

def describe (home : Path) (o : TracerOptions) (name : String) : Attempt Unit := do
  let dispatcher ← dispatcher home o
  emit (← orFail HookError.chain (dispatcher.describe (β := FileSystem) name))

def clear (o : TracerOptions) : Attempt Unit := do
  let root ← root o
  let report ← within "failed to list trace instances"
    (orFail TracingError.chain (ControlFiles.realize root Instances.resetAll))
  report.removed.forM fun name => printText (name ++ "\n")

def runNamed (home : Path) (o : TracerOptions) (name : String) : Attempt Unit := do
  let dispatcher ← dispatcher home o
  let root ← root o
  let outputs ← within s!"failed to run '{name}'"
    (orFail HookError.chain (ControlFiles.realize root (dispatcher.run (o.runRequest name))))
  log .info s!"'{name}' finished, {outputs.length} hook(s) ran"
  emit outputs

def act (home : Path) (o : TracerOptions) : Attempt Unit := do
  log .trace "**Logging: Verbose Mode**"
  if o.getAll then getAll home o
  else match o.describe with
    | some name => describe home o name
    | none =>
      if o.clear then clear o
      else match o.run with
        | some name => runNamed home o name
        | none =>
          throw ⟨"nothing to do: pass one of --get-all, --describe, --clear or --run", []⟩

end Tracer

/-- The command `tracer`, whose executable is in the directory `home`. -/
def tracer (home : Path) (env : Environment) (args : List String) : Act Nat :=
  match TracerOptions.read env args with
  | .error halt => halted TracerOptions.command env halt
  | .ok o => conclude o.config.verbose (Tracer.act home o)

end KernelTrace.Commands
