import KernelTrace.Shell.Evaluation

/-!
# The shell as a process

A shell is started with a script, or with commands as an argument, and ends with the status of the
last command it ran. A process that was divided off a shell goes on with a job; it has no traps but
those that ignore a signal, since the others belong to the shell it came from.
-/

namespace KernelTrace.Shell

namespace Exec

/-- Runs what is to be run at the end of the shell. -/
def runEnd : Exec Unit := do
  let s ← get
  match s.traps.lookup none with
  | none | some [] => return
  | some action =>
    modify fun s => { s with traps := s.traps.filter (·.1 ≠ none) }
    evaluateText plenty ⟨false, false⟩ action
    setStatus s.status

/-- Runs something to its end: the status of the shell. -/
def finish (p : Exec Unit) (s : State) : Running Job Nat := do
  let whole : Exec Unit := do
    let _ ← observe p
    let _ ← observe runEnd
  let (_, s) ← whole.run.run s
  return s.status

end Exec

/-- Does what a process has to do that was divided off a shell. -/
def Job.run (j : Job) : Running Job Nat := do
  if j.isBackground then
    let _ ← Running.request (.handle .SIGINT .ignored)
    let _ ← Running.request (.handle .SIGQUIT .ignored)
    match ← Running.request (.openFile "/dev/null" .read) with
    | .ok fd =>
      if fd ≠ 0 then
        let _ ← Running.request (.copy fd 0)
        Running.request (.close fd)
    | .error _ => pure ()
  j.copies.forM fun (source, target) => do
    let _ ← Running.request (.copy source target)
  j.closes.forM fun fd => Running.request (.close fd)
  j.state.traps.forM fun (o, action) => do
    match o, action with
    | some s, _ :: _ =>
      let _ ← Running.request (.handle s .default)
    | _, _ => return
  let state := { j.state with
    traps := j.state.traps.filter fun t => t.1.isSome && t.2 = []
    pending := [], jobs := [], loops := 0 }
  match j.task with
  | .evaluate c => Exec.finish (Exec.evaluate plenty ⟨true, false⟩ c) state
  | .become path args env => Exec.finish (Exec.become none path args env) state

/-- What a shell is asked to run. -/
inductive Source where
  | file (path : Octets)
  | commands (text : Octets)
  | input

/-- Reads the words a shell is started with: its options, what it is to run, its name and its
arguments. -/
def sourceOf (name : Octets) (words : List Octets) : List Char × Source × Octets × List Octets :=
  let isFlags (w : Octets) : Bool := w.head? = some '-' && w.length > 1 && w ≠ "--".toList
  let flagWords := words.takeWhile isFlags
  let flags := flagWords.flatMap List.tail
  let rest := words.drop flagWords.length
  let rest := if rest.head? = some "--".toList then rest.tail else rest
  let options := flags.filter fun c => c ≠ 'c' && c ≠ 's'
  if flags.contains 'c' then
    match rest with
    | [] => (options, .commands [], name, [])
    | text :: [] => (options, .commands text, name, [])
    | text :: given :: args => (options, .commands text, given, args)
  else
    match rest with
    | [] => (options, .input, name, [])
    | path :: args =>
      if flags.contains 's' then (options, .input, name, path :: args)
      else (options, .file path, path, args)

def State.initial (self : Identity) (env : Environment) (place : Octets) (options : List Char)
    (name : Octets) (args : List Octets) : State :=
  let given := env.vars.entries.filterMap fun (n, v) =>
    if Octets.isName n.toList && n ≠ "IFS" then
      some (n.toList, { value := some (Octets.ofBytes v), isExported := true, isConstant := false })
    else none
  let own (n : String) (v : Octets) : Octets × Variable := (n.toList, ⟨some v, false, false⟩)
  let isOwn (n : Octets) : Bool := ["PPID", "OPTIND", "PWD"].any (·.toList = n)
  { name, args, functions := [], status := 0, substituted := none, options, traps := []
    pending := [], jobs := [], latest := none, pid := self.pid, line := 0, loops := 0, owned := []
    kept := 0, mask := 0o022, optionOffset := 0
    vars := [own "IFS" " \t\n".toList, own "PPID" (Octets.ofNat self.parent),
      own "OPTIND" ['1'], ("PWD".toList, ⟨some place, true, false⟩)]
      ++ given.filter fun v => !isOwn v.1 }

def start (words : List Bytes) (env : Environment) : Running Job Nat := do
  let words := words.map Octets.ofBytes
  let self ← Running.request .identity
  let place ← Running.request .place
  let (options, source, name, args) := sourceOf (words.headD "sh".toList) words.tail
  let state := State.initial self env (Octets.ofBytes place.bytes) options name args
  let run (text : Octets) : Running Job Nat :=
    Exec.finish (Exec.evaluateText plenty ⟨false, false⟩ text) state
  match source with
  | .commands text =>
    Exec.finish (Exec.evaluateText plenty ⟨true, false⟩ text) state
  | .input =>
    match ← Running.readAll 0 with
    | .ok content => run (Octets.ofBytes content)
    | .error _ => run []
  | .file path =>
    match ← Running.request (.file (.read ⟨Octets.toBytes path⟩)) with
    | .ok content => run (Octets.ofBytes content)
    | .error e =>
      let state := { state with name := words.headD [] }
      Exec.finish (Exec.fail none (Exec.openFault false path e)) state

end KernelTrace.Shell
