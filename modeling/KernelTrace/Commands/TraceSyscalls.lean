import KernelTrace.Commands.Basic
import KernelTrace.Processes.Stat
import KernelTrace.Session
import KernelTrace.SystemCalls

/-!
# The command `trace_syscalls`

Traces the system calls of some processes in one instance, until it is told to stop, the time is up
or the processes have exited. The events are chosen before an instance is bound, so a name that
means nothing leaves everything as it was.
-/

namespace KernelTrace.Commands

open CommandLine

/-- The command line of `trace_syscalls`. -/
structure SyscallsOptions where
  pids : List Pid
  parents : List Pid
  inst : Option InstanceName
  /-- How many milliseconds to trace. Zero is no limit. -/
  time : Nat
  describe : Bool
  /-- The names of the system calls to trace. -/
  syscalls : List String
  config : Config
  deriving DecidableEq

namespace SyscallsOptions

def pidOption : Opt :=
  { short := some 'p', long := "pid", arity := .some, valueName := "PID", kind := .integer 32
    about := "Trace these processes and, once forked, their children" }

def parentOption : Opt :=
  { short := none, long := "parent", arity := .some, valueName := "PID", kind := .integer 32
    about := "Trace the children of these processes" }

def instanceOption : Opt :=
  { short := some 'i', long := "instance", arity := .one, valueName := "NAME"
    kind := .instanceName
    about := "Trace instance to use, created if missing. "
      ++ "Defaults to a fresh anonymous instance" }

def timeOption : Opt :=
  { short := some 't', long := "time", arity := .one, valueName := "MS", kind := .natural 64
    standIn := some "0"
    about := "Stop tracing after this many milliseconds. "
      ++ "0 waits for SIGUSR1, SIGINT or every traced process to exit" }

/-- The option for the names of system calls. -/
def syscallOption : Opt :=
  { short := some 's', long := "syscall", arity := .any, valueName := "NAME"
    about := "Only trace these system calls, e.g. `openat` or `sys_enter_openat`. "
      ++ "Without names every system call entry is traced" }

def command : Command :=
  { name := "trace_syscalls"
    preamble := none
    about := some "Trace system calls, used by given container"
    version := some versionText
    options :=
      [pidOption, parentOption, instanceOption, timeOption,
       { short := none, long := "describe"
         about := "Print what this trace does and which arguments it takes, then exit" },
       syscallOption] ++ configOptions }

def pidsOf (m : Matches) (o : Opt) : List Pid :=
  (m.values o.long).filterMap fun s => Number.integer? 32 s.toList

def ofMatches (env : Environment) (m : Matches) : SyscallsOptions where
  pids := pidsOf m pidOption
  parents := pidsOf m parentOption
  inst := instanceOf m instanceOption
  time := ((m.value? timeOption.long).bind fun s => Number.natural? 64 s.toList).getD 0
  describe := m.has "describe"
  syscalls := m.values syscallOption.long
  config := configOf env m

def read (env : Environment) (args : List String) : Except Halt SyscallsOptions :=
  (command.read env args).map (ofMatches env)

/-- The trace that is asked for, of some events. -/
def request (o : SyscallsOptions) (events : EventSet) (procfs : Option Path) : TraceRequest :=
  ⟨o.pids, o.parents, o.inst, some o.time, events, procfs⟩

end SyscallsOptions

namespace TraceSyscalls

/-- Reports whether processes are running. One that is not may be started later. -/
def reportTargets (procfs : Path) : List Pid → Attempt Unit
  | [] => return
  | pid :: rest => do
    match ← ExceptT.lift (Actions.ofBackend (ProcessStat.look procfs pid)) with
    | .ok stat => log .debug s!"tracing pid {pid} ({stat.command})"
    | .error fault => log .warn s!"pid {pid} is not running: {fault.message}"
    reportTargets procfs rest

/-- The chain of a failure to listen for stops. -/
def listenChain (e : IoError) : List String :=
  [s!"failed to listen for stop signals: {e.message}", e.message]

def act (o : SyscallsOptions) : Attempt Unit := do
  let root ← ExceptT.lift (TracingRoot.resolve o.config.overrides)
  let events ← orFail SelectionError.chain
    (ControlFiles.realize root (SystemCalls.select o.syscalls))
  let request := o.request events (some o.config.procfsDir)
  reportTargets o.config.procfsDir request.pids
  orFail listenChain Actions.listen
  let report ← within "trace session failed"
    (orFail SessionError.chain (ControlFiles.realize root (Session.execute request)))
  log .info (s!"trace finished ({report.wake.message}), "
    ++ s!"data is in {report.inst.tracePath.display}")

end TraceSyscalls

def traceSyscalls (env : Environment) (args : List String) : Act Nat :=
  match SyscallsOptions.read env args with
  | .error halt => halted SyscallsOptions.command env halt
  | .ok o =>
    if o.describe then display (SyscallsOptions.command.description env)
    else conclude o.config.verbose (TraceSyscalls.act o)

end KernelTrace.Commands
