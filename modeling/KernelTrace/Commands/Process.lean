import KernelTrace.Commands.TraceSyscalls
import KernelTrace.Commands.Tracer
import KernelTrace.Host.Operation
import KernelTrace.Stop

/-!
# Commands as processes

Here the operations of orchestration are taken apart into those of a process. Output and log go to
the descriptors they have always gone to; a stop arrives as a signal; a hook is a process that leads
a group of its own, whose output is read until it has ended. An interrupt that arrives meanwhile is
passed on to that group, so that it is up to the hook what to do about it.
-/

namespace KernelTrace.Commands

variable {ι : Type}

/-- What a process does that keeps a stop channel with a receiver. -/
abbrev Attending (ι : Type) := StateT StopSignal (Running ι)

namespace Attending

def request (op : HostOp ι) : Attending ι op.Answer := StateT.lift (Running.request op)

def log (level : LogLevel) (message : String) : Attending ι Unit :=
  StateT.lift (Running.writeText 2 ((LogRecord.mk level message).line ++ "\n"))

/-! ## Stops -/

def stops : List Signal := [.SIGUSR1, .SIGINT]

/-- Requests the first stop that was caught. After that nobody requests stops any more. -/
def receive : Attending ι Unit := do
  let signals ← request .caught
  match signals.find? stops.contains with
  | none => return
  | some s =>
    if (← get).channel.isOpen then
      log .info s!"received {s.name}, stopping trace"
      modify fun signal => (signal.stop s).close

def answerWait : (op : WaitOp) → Attending ι op.Answer
  | .now => request .now
  | .channel op => do
    receive
    modifyGet fun signal => signal.answer op
  | .isAlive procfs pid =>
    (TargetWatch.isAlive procfs pid).run (σ := FileSystem) fun op => request (.file op)
  | .pause until? => request (.await ⟨[], false, until?⟩)
  | .pick _ => return 0

/-! ## Hooks -/

/-- What was read of a hook's output so far. -/
structure Reception where
  fd : Option Fd
  got : List Bytes

namespace Reception

def content (r : Reception) : Bytes := r.got.reverse.flatten

/-- Reads what is there: whether there was anything or the end was reached. -/
def go (r : Reception) : Attending ι (Except IoError (Bool × Reception)) := do
  match r.fd with
  | none => return .ok (false, r)
  | some fd =>
    match ← request (.read fd Running.chunk) with
    | .error e => return .error e
    | .ok none => return .ok (false, r)
    | .ok (some []) =>
      request (.close fd)
      return .ok (true, { r with fd := none })
    | .ok (some b) => return .ok (true, { r with got := b :: r.got })

end Reception

/-- Passes an interrupt on to a process group. -/
def forward (group : Nat) : Attending ι Unit := do
  log .info s!"forwarding SIGINT to process group {group}"
  match ← request (.kill (-(group : Int)) (some .SIGINT)) with
  | .ok () => return
  | .error e =>
    let name := match e with
      | .noSuchProcess => "ESRCH"
      | _ => "EPERM"
    log .warn s!"failed to forward SIGINT to {group}: {name}: {e.wording}"

/-- Attends to a hook until it has ended and its output with it, `fuel` rounds at most. -/
def attend (pid : Nat) : (fuel : Nat) → (status : Option ExitStatus) → (out err : Reception) →
    Attending ι (Except HookFault HookResult)
  | 0, _, _, _ => return .error (.wait (.os .noChild))
  | fuel + 1, status, out, err => do
    if (← request .caught).contains .SIGINT then forward pid
    match ← out.go, ← err.go with
    | .error e, _ | _, .error e => return .error (.wait e)
    | .ok (outMoved, out), .ok (errMoved, err) =>
      let ended ← match status with
        | some s => pure (.ok (some s))
        | none => do pure ((← request (.collect (some pid))).map fun r => r.map (·.2))
      match ended with
      | .error e => return .error (.wait (.os e))
      | .ok now =>
        match now, out.fd, err.fd with
        | some s, none, none => return .ok ⟨s, out.content, err.content⟩
        | _, _, _ =>
          if !outMoved && !errMoved && now = status then
            request (.await ⟨out.fd.toList ++ err.fd.toList, now.isNone, none⟩)
          attend pid fuel now out err

/-- Runs a hook to its end in a process group of its own. -/
def invoke (env : Environment) (run : HookRun) : Attending ι (Except HookFault HookResult) := do
  let _ ← request (.handle .SIGINT .caught)
  let _ ← request .caught
  let args := run.path.bytes :: run.args.map Utf8.encode
  let vars := run.env.map fun v => (v.1, v.2.bytes)
  if (args ++ vars.map (·.2)).any (·.contains 0) then
    return .error (.spawn (.refused "nul byte found in provided data"))
  else
    match ← request (.openFile "/dev/null" .read) with
    | .error e => return .error (.spawn e)
    | .ok null =>
      let (outSource, outSink) ← request .pipe
      let (errSource, errSink) ← request .pipe
      let started ← request (.spawn
        { path := run.path, args, env := env.setAll vars
          fds := [(0, null), (1, outSink), (2, errSink)], leads := true })
      request (.close null)
      request (.close outSink)
      request (.close errSink)
      match started with
      | .error e =>
        request (.close outSource)
        request (.close errSource)
        return .error (.spawn e)
      | .ok pid =>
        attend pid Running.maxReads none ⟨some outSource, []⟩ ⟨some errSource, []⟩

def answer (env : Environment) : (op : Action FileSystem) → Attending ι op.Answer
  | .backend op => request (.file op)
  | .draw => request .draw
  | .log record => log record.level record.message
  | .wait deadline targets => (Waiting.await deadline targets).run (σ := Waiting) answerWait
  | .shieldStop => do
    let _ ← request (.handle .SIGUSR1 .caught)
    return .ok ()
  | .listen => do
    stops.forM fun s => do
      let _ ← request (.handle s .caught)
    return .ok ()
  | .announce text => request (.write 1 text)
  | .flush => return .ok ()
  | .relay text => request (.write 2 text)
  | .invoke run => invoke env run

end Attending

/-- Runs orchestration as a process with an environment. -/
def asProcess {α : Type} (env : Environment) (p : Act α) : Running ι α := do
  let _ ← Running.request (.handle .SIGPIPE .ignored)
  let (a, _) ← (p.run (σ := Actions FileSystem) (Attending.answer env)).run StopSignal.fresh
  return a

/-- A command as a program, given its words and environment. Its words have to be text. -/
def start (command : Environment → List String → Act Nat) (words : List Bytes)
    (env : Environment) : Running ι Nat :=
  match words.tail.mapM Utf8.decode? with
  | some args => asProcess env (command env args)
  | none => do
    Running.writeText 2 "error: invalid UTF-8 was detected in one or more arguments\n"
    return misused

end KernelTrace.Commands
