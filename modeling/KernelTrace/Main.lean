import KernelTrace.Commands.TraceSyscalls
import KernelTrace.Commands.Tracer
import KernelTrace.Stop

/-!
# The commands on the system at hand

This is the outer layer: what a command asks for is asked of the system that it runs on, one
operation after the other, and nothing is decided here.

The layer starts no other programs, takes no signals over and sees no permission bits. So a hook is
refused, a signal does to the command whatever it does by default, and every file counts as
executable.
-/

namespace KernelTrace.Outer

/-! ## Refusals -/

def number? : IO.Error → Option UInt32
  | .alreadyExists _ n _ | .otherError n _ | .resourceBusy n _ | .resourceVanished n _
  | .unsupportedOperation n _ | .hardwareFault n _ | .unsatisfiedConstraints n _
  | .illegalOperation n _ | .protocolError n _ | .timeExpired n _ | .interrupted _ n _
  | .noFileOrDirectory _ n _ | .invalidArgument _ n _ | .permissionDenied _ n _
  | .resourceExhausted _ n _ | .inappropriateType _ n _ | .noSuchThing _ n _ => some n
  | .unexpectedEof | .userError _ => none

def refusal (e : IO.Error) : IoError :=
  match (number? e).bind fun n => OsError.ofNumber? n.toNat with
  | some error => .os error
  | none => .refused (toString e)

def attempt {α : Type} (act : IO α) : IO (Except IoError α) := do
  try
    return .ok (← act)
  catch e =>
    return .error (refusal e)

/-- Tries something with a path, which has to be text. -/
def attemptAt {α : Type} (p : Path) (act : String → IO α) : IO (Except IoError α) :=
  if p.bytes.contains 0 then return .error .nulInPath
  else match Utf8.decode? p.bytes with
    | some text => attempt (act text)
    | none => return .error .notText

/-! ## Files -/

/-- What stands for something of which only the kind is known. -/
def entryOf : IO.FS.FileType → Entry
  | .dir => .directory
  | .symlink => .link ⟨[]⟩
  | .file | .other => .file [] 0o755

/-- The location that a path without links and dots is. -/
def locationOf (path : String) : Location :=
  (Path.ofString path).components.filterMap fun c => match c with
    | .name n => some n
    | _ => none

/-- The path of a location. -/
def pathOf (loc : Location) : Path := ⟨Path.separator :: [Path.separator].intercalate loc⟩

def read (path : String) : IO Bytes := return (← IO.FS.readBinFile path).toList

def status (path : String) : IO FileStatus := do
  let place ← IO.FS.realPath path
  return ⟨locationOf place.toString, entryOf (← place.metadata).type⟩

def list (path : String) : IO (List (Bytes × Entry)) := do
  let place ← IO.FS.realPath path
  let entries ← (← place.readDir).mapM fun e => do
    return (Utf8.encode e.fileName, entryOf (← e.path.symlinkMetadata).type)
  return entries.toList.mergeSort fun a b => decide (a.1 ≤ b.1)

/-- Replaces the content of a file that exists. -/
def overwrite (path : String) (content : Bytes) : IO Unit := do
  let h ← IO.FS.Handle.mk path .readWrite
  h.truncate
  h.write ⟨content.toArray⟩
  h.flush

def perform : (op : FileOp) → IO op.Answer
  | .makeDir p => attemptAt p fun path => IO.FS.createDir path
  | .removeDir p => attemptAt p fun path => IO.FS.removeDir path
  | .overwrite p content => attemptAt p fun path => overwrite path content
  | .read p => attemptAt p read
  | .readIn dir p => attemptAt ((pathOf dir).join p) read
  | .list p => attemptAt p list
  | .status p | .linkStatus p => attemptAt p status

/-! ## Everything else -/

def answerWait : (op : WaitOp) → IO op.Answer
  | .now => return (← IO.monoMsNow) * 1000
  | .channel op => return (StopSignal.fresh.answer op).1
  | .isAlive procfs pid => (TargetWatch.isAlive procfs pid).run (σ := FileSystem) perform
  | .pause until? => do
    let now ← IO.monoMsNow
    let rest := match until? with
      | some time => (time + 999) / 1000 - now
      | none => pollInterval / 1000
    IO.sleep rest.toUInt32
  | .pick _ => return 0

def draw : IO Draw := do
  let bytes ← IO.getRandomBytes 16
  return BitVec.ofNat _ (bytes.toList.foldl (fun n b => n * 256 + b.toNat) 0)

def put (stream : IO.FS.Stream) (text : Bytes) : IO (Except IoError Unit) :=
  attempt (stream.write ⟨text.toArray⟩)

def answer : (op : Action FileSystem) → IO op.Answer
  | .backend op => perform op
  | .draw => draw
  | .log record => do
    let _ ← put (← IO.getStderr) (Utf8.encode (record.line ++ "\n"))
  | .wait deadline targets => (Waiting.await deadline targets).run (σ := Waiting) answerWait
  | .shieldStop | .listen => return .ok ()
  | .announce text => do put (← IO.getStdout) text
  | .flush => do attempt (← IO.getStdout).flush
  | .relay text => do put (← IO.getStderr) text
  | .invoke _ => return .error (.spawn (.os .notImplemented))

def environment : IO Environment := do
  let names := [Config.procfsVariable, Config.sysfsVariable, Config.verboseVariable]
    ++ Commands.TracerOptions.hooksOption.envName.toList
  let vars ← names.filterMapM fun name => do
    return (← IO.getEnv name).map fun value => (name, Utf8.encode value)
  return Environment.empty.setAll vars

/-- Runs the command that the executable is called, with its words: its exit code. -/
def run (args : List String) : IO UInt32 := do
  let app ← IO.appPath
  let env ← environment
  let home := Path.ofString (app.parent.getD app).toString
  let command := if app.fileName = some "trace_syscalls" then Commands.traceSyscalls env args
    else Commands.tracer home env args
  return (← command.run (σ := Actions FileSystem) answer).toUInt32

end KernelTrace.Outer

/-- Runs the command that the executable is called. -/
def main (args : List String) : IO UInt32 := KernelTrace.Outer.run args
