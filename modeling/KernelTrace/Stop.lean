import KernelTrace.Processes.Stat

/-!
# Stopping a trace

A trace goes on until somebody asks for a stop, its time is up, or the processes it is about have
exited. Stops arrive on a channel that keeps the latest one for good. Whoever waits for them has a
receiver, which knows how many of the changes of the channel it has seen, and there may be any
number of those.

A wait is *polled*: it looks at everything that could end it, and if there is nothing it is left as
far as it has come (`Progress`) and polled again later. What could end it are its branches, the next
stop, the deadline and the exit of the targets. A poll goes through the branches, starting with any
of them, and the first that is ready decides. A channel that closes without a stop having been
requested ends the wait only if there is nothing else to wait for. If there is, the wait goes on
with the two other branches.

`Waiting.await` polls and pauses by turns.
-/

namespace KernelTrace

/-! ## The channel -/

/-- The channel on which stops are requested. -/
structure StopChannel where
  /-- The stop that was requested last, if one was. -/
  latest : Option Signal
  /-- How many stops were requested. -/
  changes : Nat
  /-- Whether somebody is left who could request one. -/
  isOpen : Bool
  unchanged : latest = none ↔ changes = 0
  deriving DecidableEq, Repr

/-- What a receiver can ask of the channel. -/
inductive ReceiverOp where
  /-- The latest stop. All changes have been seen then. -/
  | take
  /-- Whether there are changes that were not seen. They have been seen then. -/
  | change
  /-- The latest stop, without that a change has been seen. -/
  | peek
  deriving DecidableEq

/-- What a receiver learns about the changes of the channel. -/
inductive ChangeNews where
  | changed
  /-- Nothing has changed yet. -/
  | pending
  /-- Nothing has changed, and nobody is left who could request a stop. -/
  | closed
  deriving DecidableEq, Repr

/-- What an operation of a receiver is answered with. -/
abbrev ReceiverOp.Answer : ReceiverOp → Type
  | take | peek => Option Signal
  | change => ChangeNews

namespace StopChannel

/-- A channel on which nothing was requested yet. -/
def fresh : StopChannel := ⟨none, 0, true, by decide⟩

/-- The channel after a stop was requested. A closed channel takes no more requests. -/
def stop (c : StopChannel) (s : Signal) : StopChannel :=
  if c.isOpen then ⟨some s, c.changes + 1, true, by simp⟩ else c

/-- The channel after everybody who could request a stop has left. -/
def close (c : StopChannel) : StopChannel := { c with isOpen := false }

/-- Answers a receiver that has seen so many changes: the answer, and how many it has seen then. -/
def answer (c : StopChannel) (seen : Nat) : (op : ReceiverOp) → op.Answer × Nat
  | .take => (c.latest, c.changes)
  | .change =>
    if seen ≠ c.changes then (.changed, c.changes)
    else (if c.isOpen then .pending else .closed, seen)
  | .peek => (c.latest, seen)

end StopChannel

/-- A channel with one of its receivers, which has seen so many changes. -/
structure StopSignal where
  channel : StopChannel
  seen : Nat
  deriving DecidableEq, Repr

namespace StopSignal

def fresh : StopSignal := ⟨.fresh, 0⟩

def stop (r : StopSignal) (s : Signal) : StopSignal := { r with channel := r.channel.stop s }

def close (r : StopSignal) : StopSignal := { r with channel := r.channel.close }

def answer (r : StopSignal) (op : ReceiverOp) : op.Answer × StopSignal :=
  let (answer, seen) := r.channel.answer r.seen op
  (answer, { r with seen })

end StopSignal

/-! ## Polling -/

/-- How often a wait looks at its targets, in microseconds. -/
def pollInterval : Nat := 100000

/-- An operation of something that waits. Times are in microseconds. -/
inductive WaitOp where
  | now
  | channel (op : ReceiverOp)
  | isAlive (procfs : Path) (pid : Pid)
  /-- Picks one of so many things, by its number. -/
  | pick (count : Nat)
  /-- Sleeps until a time, if one is given, or until the channel changes. -/
  | pause (until? : Option Nat)

/-- What an operation of something that waits is answered with. -/
abbrev WaitOp.Answer : WaitOp → Type
  | now | pick _ => Nat
  | channel op => op.Answer
  | isAlive .. => Bool
  | pause _ => Unit

abbrev Waiting : Signature := ⟨WaitOp, WaitOp.Answer⟩

namespace Waiting

def ask (op : WaitOp) : Program Waiting op.Answer := Program.perform (σ := Waiting) op

/-- How far a wait has come. -/
structure Progress where
  /-- For how many milliseconds it waits at most. -/
  deadline : Option Nat
  /-- The processes of which one has to run. -/
  targets : Option TargetWatch
  /-- Whether it has asked for the latest stop in vain and now looks for changes. -/
  awaitsChange : Bool
  /-- Whether it has found the channel closed without a stop having been requested. -/
  isClosed : Bool
  /-- When the time is up, once the first poll has told the time. -/
  due : Option Nat
  /-- When to look at the targets next, once the first poll has told the time. -/
  tick : Option Nat

def Progress.start (deadline : Option Nat) (targets : Option TargetWatch) : Progress :=
  ⟨deadline, targets, false, false, none, none⟩

/-- Something that can be polled in the course of a wait: it is ready with a value or not ready yet,
and how far the wait has come then. -/
abbrev Branch (α : Type) : Type := Progress → Program Waiting (Option α × Progress)

def Branch.map {α β : Type} (f : α → β) (b : Branch α) : Branch β := fun w => do
  let (ready, w) ← b w
  return (ready.map f, w)

/-- How many steps in its search for a stop a poll makes at most before it gives others a chance. -/
def budget : Nat := 128

/-- The next stop, or that there will be none. -/
def nextStop : (steps : Nat) → Branch (Option Signal)
  | 0, w => return (none, w)
  | steps + 1, w => do
    if w.awaitsChange then
      match ← ask (.channel .change) with
      | .changed => nextStop steps { w with awaitsChange := false }
      | .pending => return (none, w)
      | .closed => do
        let latest ← ask (.channel .peek)
        return (some latest, w)
    else
      match ← ask (.channel .take) with
      | some s => return (some (some s), w)
      | none => nextStop steps { w with awaitsChange := true }

/-- The end of the time, which begins to run with the first poll. -/
def sleep : Branch WakeReason := fun w =>
  match w.deadline with
  | none => return (none, w)
  | some ms => do
    let now ← ask .now
    let due := w.due.getD (now + ms * 1000)
    return (if due ≤ now then some .deadline else none, { w with due := some due })

/-- The exit of the targets, which are looked at with the first poll and then at every interval. -/
def exited : Branch WakeReason := fun w =>
  match w.targets with
  | none => return (none, w)
  | some watch => do
    let now ← ask .now
    let tick := w.tick.getD now
    if tick ≤ now then
      let alive ← TargetWatch.anyOf (fun pid => ask (.isAlive watch.procfs pid)) watch.pids
      return (if alive then none else some .targetsExited,
        { w with tick := some (tick + pollInterval) })
    else return (none, { w with tick := some tick })

/-- Polls the branches in their order up to the first that is ready. -/
def firstReady {α : Type} : List (Branch α) → Branch α
  | [], w => return (none, w)
  | b :: rest, w => do
    match ← b w with
    | (some a, w) => return (some a, w)
    | (none, w) => firstReady rest w

/-- Polls the branches in turn, starting with any of them, up to the first that is ready. -/
def select {α : Type} (branches : List (Branch α)) : Branch α := fun w => do
  let start ← ask (.pick branches.length)
  firstReady (branches.rotateLeft start) w

/-- One poll of a wait. -/
def poll : Branch WakeReason := fun w => do
  if w.isClosed then select [sleep, exited] w
  else
    match ← select [(nextStop budget).map (Option.map .signal), sleep.map some,
        exited.map some] w with
    | (none, w) => return (none, w)
    | (some (some reason), w) => return (some reason, w)
    | (some none, w) =>
      if w.deadline.isNone && w.targets.isNone then return (some .closed, w)
      else select [sleep, exited] { w with isClosed := true }

/-! ## Waiting -/

/-- The earlier of two times that may be missing. -/
def earlier : Option Nat → Option Nat → Option Nat
  | some a, some b => some (min a b)
  | some a, none => some a
  | none, b => b

/-- Polls and pauses by turns until a poll is ready, so many times at most. -/
def awaitFrom : (polls : Nat) → Progress → Program Waiting (Option WakeReason)
  | 0, _ => return none
  | polls + 1, w => do
    match ← poll w with
    | (some reason, _) => return some reason
    | (none, w) => do
      ask (.pause (earlier w.due w.tick))
      awaitFrom polls w

/-- More polls than any wait takes: one every tenth of a second for three thousand years. -/
def maxPolls : Nat := 1000000000000

/-- Waits for a stop, for so many milliseconds at most and while some target is running. A wait that
has not ended after all its polls is given up, as if nobody were left to request a stop. -/
def await (deadline : Option Nat) (targets : Option TargetWatch) : Program Waiting WakeReason := do
  let reason ← awaitFrom maxPolls (.start deadline targets)
  return reason.getD .closed

end Waiting

end KernelTrace
