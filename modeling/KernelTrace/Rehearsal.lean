import KernelTrace.Hooks.Dispatch
import KernelTrace.Stop
import KernelTrace.Tracing.ControlFiles
import KernelTrace.Tracing.Recording

/-!
# Rehearsals

A rehearsal runs orchestration in surroundings that are values: a file tree, a backend, a stop
channel, a clock that only waiting moves, and things that somebody else does at set times. Whatever
the surroundings hold afterwards is what the orchestration has done.
-/

namespace KernelTrace

/-- The backend of a rehearsal. -/
inductive Stage where
  | files (root : TracingRoot)
  | memory (recording : Recording)

/-- Something that somebody else does. -/
inductive Occurrence where
  | stop (s : Signal)
  | close
  | look
  | change (f : FileTree → FileTree)

/-- How an announcement is refused. -/
inductive Refusal where
  | write
  | flush
  deriving DecidableEq

/-- The surroundings of a rehearsal. -/
structure Scene where
  tree : FileTree
  cwd : Location
  stage : Stage
  /-- How many of the next lookups of an instance find nothing. -/
  hiddenFinds : Nat
  channel : StopSignal
  clock : Nat
  upcoming : List (Nat × Occurrence)
  seen : List (FileTree × Stage)
  drawn : Nat
  logged : List LogRecord
  refusal : Option Refusal
  announced : Bytes
  flushes : Nat

abbrev Rehearsal := StateM Scene

/-- Runs a hook on the files there are, and gives the files it leaves. -/
abbrev HookRunner := FileTree → HookRun → Except HookFault HookResult × FileTree

def scatter (n : Nat) : Draw :=
  let z := (BitVec.ofNat 64 (n + 1)) * 0x9E3779B97F4A7C15#64
  let z := (z ^^^ (z >>> 30)) * 0xBF58476D1CE4E5B9#64
  let z := (z ^^^ (z >>> 27)) * 0x94D049BB133111EB#64
  let z := z ^^^ (z >>> 31)
  z ++ z.rotateLeft 23

namespace Rehearsal

def file (op : FileOp) : Rehearsal op.Answer := do
  let scene ← get
  let (answer, tree) := scene.tree.perform scene.cwd op
  set { scene with tree }
  return answer

def log (record : LogRecord) : Rehearsal Unit :=
  modify fun scene => { scene with logged := scene.logged ++ [record] }

def occur : Occurrence → Rehearsal Unit
  | .stop s => modify fun scene => { scene with channel := scene.channel.stop s }
  | .close => modify fun scene => { scene with channel := scene.channel.close }
  | .look => modify fun scene =>
    { scene with seen := scene.seen ++ [(scene.tree, scene.stage)] }
  | .change f => modify fun scene => { scene with tree := f scene.tree }

def nextTime? (upcoming : List (Nat × Occurrence)) : Option Nat := (upcoming.map (·.1)).min?

/-- Moves the clock to a time and lets everything happen that happens until then. -/
def advance (time : Nat) : Rehearsal Unit := do
  let scene ← get
  let (due, rest) := scene.upcoming.partition (·.1 ≤ time)
  set { scene with clock := max scene.clock time, upcoming := rest }
  due.forM fun o => occur o.2

/-- Lets everything happen that is still to come. -/
def finish : Rehearsal Unit := do
  let scene ← get
  match (scene.upcoming.map (·.1)).max? with
  | none => return
  | some time => advance time

/-- Pauses until a time or the next occurrence. Where nothing is to come, nobody is left who could
request a stop. -/
def pause (until? : Option Nat) : Rehearsal Unit := do
  let scene ← get
  match Waiting.earlier until? (nextTime? scene.upcoming) with
  | some time => advance time
  | none => occur .close

def answerWait : (op : WaitOp) → Rehearsal op.Answer
  | .now => return (← get).clock
  | .channel op => modifyGet fun scene =>
    let (answer, channel) := scene.channel.answer op
    (answer, { scene with channel })
  | .isAlive procfs pid => (TargetWatch.isAlive procfs pid).run (σ := FileSystem) file
  | .pause until? => pause until?
  | .pick _ => return 0

/-- Answers the operations of orchestration other than those of its backend. -/
def answerWith (hooks : HookRunner) {β : Signature} (backend : (op : β.Op) → Rehearsal (β.Answer op)) :
    (op : Action β) → Rehearsal op.Answer
  | .backend op => backend op
  | .draw => do
    let scene ← get
    set { scene with drawn := scene.drawn + 1 }
    return scatter scene.drawn
  | .log record => log record
  | .wait deadline targets => (Waiting.await deadline targets).run (σ := Waiting) answerWait
  | .shieldStop | .listen | .relay _ => return .ok ()
  | .announce text => do
    let scene ← get
    if scene.refusal = some .write then return .error (.refused "write refused")
    else
      set { scene with announced := scene.announced ++ text }
      return .ok ()
  | .flush => do
    let scene ← get
    if scene.refusal = some .flush then return .error (.refused "flush refused")
    else
      set { scene with flushes := scene.flushes + 1 }
      return .ok ()
  | .invoke run => do
    let scene ← get
    let (result, tree) := hooks scene.tree run
    set { scene with tree }
    return result

def onFiles {α : Type} (hooks : HookRunner) (p : Program (Actions FileSystem) α) : Rehearsal α :=
  p.run (σ := Actions FileSystem) (answerWith hooks (β := FileSystem) file)

def call (hooks : HookRunner) (c : Call) : Rehearsal c.Answer := do
  let scene ← get
  match scene.stage with
  | .files root => onFiles hooks (ControlFiles.answer root c)
  | .memory recording =>
    let (answer, recording) := recording.answer c
    set { scene with stage := .memory recording }
    return answer

/-- Answers a call of the backend, unless a lookup is to find nothing. -/
def callOrHide (hooks : HookRunner) (c : Call) : Rehearsal c.Answer :=
  match c with
  | .findInstance name => do
    let scene ← get
    match scene.hiddenFinds with
    | 0 => call hooks (.findInstance name)
    | n + 1 =>
      set { scene with hiddenFinds := n }
      return .ok none
  | other => call hooks other

def onBackend {α : Type} (hooks : HookRunner) (p : Tracing α) : Rehearsal α :=
  p.run (σ := Actions Backend) (answerWith hooks (β := Backend) (callOrHide hooks))

end Rehearsal

end KernelTrace
