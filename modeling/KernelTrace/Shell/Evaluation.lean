import KernelTrace.Shell.Builtin

/-!
# Running commands

A command is run by what it is made of: its parts are run one after the other, in processes divided
off, or again and again. The name of a simple command is that of a function, of a command that the
shell performs itself, or of an executable, for which the directories of the search path are looked
through. After each command the traps of the signals that were caught meanwhile are run.

Running is bounded by a number of steps that no script comes near, since a loop need not end.
-/

namespace KernelTrace.Shell

/-- The circumstances in which a command is run. -/
structure Setting where
  /-- Whether nothing is done in this process afterwards. -/
  isLast : Bool
  /-- Whether it is asked if the command fails, so that failing is no reason to end. -/
  isTested : Bool

namespace Exec

/-! ## Redirections -/

/-- What puts a descriptor back: the descriptor that keeps what it led to, if it led anywhere. -/
abbrev Undo := Fd × Option Fd

/-- The first descriptor that keeps what another one led to. -/
def firstKept : Fd := 10

def keep (fd : Fd) : Exec Undo := do
  let n := firstKept + (← get).kept
  match ← request (.copy fd n) with
  | .ok () =>
    modify fun s => { s with kept := s.kept + 1 }
    return (fd, some n)
  | .error _ => return (fd, none)

def putBack : List Undo → Exec Unit
  | [] => return
  | (fd, none) :: rest => do
    request (.close fd)
    putBack rest
  | (fd, some n) :: rest => do
    let _ ← request (.copy n fd)
    request (.close n)
    modify fun s => { s with kept := s.kept - 1 }
    putBack rest

def settle (undo : List Undo) : Exec Unit := do
  undo.forM fun u => match u.2 with
    | some n => request (.close n)
    | none => return
  modify fun s => { s with kept := 0 }

def moveFd (source target : Fd) : Exec Unit := do
  if source ≠ target then
    let _ ← request (.copy source target)
    request (.close source)

/-- What is said about a file that cannot be opened. -/
def openFault (isMade : Bool) (target : Octets) (e : IoError) : Octets :=
  let lead := if isMade then "cannot create ".toList else "cannot open ".toList
  let reason := match e with
    | .os .notFound | .os .notDirectory | .nulInPath =>
      if isMade then "Directory nonexistent" else "No such file"
    | .os e => e.wording
    | e => e.message
  lead ++ target ++ ": ".toList ++ reason.toList

def redirectTo (fd : Fd) (kind : Redirection) (target : Octets) : Exec Bool := do
  let path : Path := ⟨Octets.toBytes target⟩
  let place (mode : OpenMode) (isMade : Bool) : Exec Bool := do
    match ← request (.openFile path mode) with
    | .ok n =>
      moveFd n fd
      return true
    | .error e =>
      complain none (openFault isMade target e)
      return false
  match kind with
  | .read => place .read false
  | .write => place .write true
  | .append => place .append true
  | .update => place .update true
  | .text =>
    let (source, sink) ← request .pipe
    let _ ← write sink target
    request (.close sink)
    moveFd source fd
    return true
  | .copy =>
    if target = ['-'] then
      request (.close fd)
      return true
    else match natural? target with
      | none => fail none "Bad fd number".toList
      | some n =>
        match ← request (.copy n fd) with
        | .ok () => return true
        | .error _ =>
          complain none (target ++ ": Bad file descriptor".toList)
          return false

/-- Redirects descriptors: whether that succeeded, and what puts them back. -/
def redirect : List Redirect → (undo : List Undo) → Exec (Bool × List Undo)
  | [], undo => return (true, undo)
  | .mk fd kind target :: rest, undo => do
    let target ← single target
    let u ← keep fd
    if ← redirectTo fd kind target then redirect rest (u :: undo) else return (false, u :: undo)

/-! ## Executables -/

def searchPath : Exec (List Octets) := do
  let usual := "/usr/local/sbin:/usr/local/bin:/usr/sbin:/usr/bin:/sbin:/bin"
  let path := (← valueOf? "PATH".toList).getD usual.toList
  return (pieces ':' path).map fun d => if d = [] then [] else d ++ ['/']

/-- The path of the executable with a name. -/
def lookFor (name : Octets) : List Octets → Exec (Option Octets)
  | [] => return none
  | dir :: rest => do
    let path := dir ++ name
    match ← request (.file (.status ⟨Octets.toBytes path⟩)) with
    | .ok s => if s.entry.isFile then return some path else lookFor name rest
    | .error _ => lookFor name rest

/-- The path of an executable: a name with a slash is one. -/
def executable? (name : Octets) : Exec (Option Octets) := do
  if name.contains '/' then return some name else lookFor name (← searchPath)

/-- Becomes an executable, or ends the shell with what is wrong. -/
def become {α : Type} (who : Option Octets) (path : Octets) (args : List Octets)
    (env : Environment) : Exec α := do
  let attempt (path : Octets) (args : List Octets) : Exec IoError :=
    request (.exec ⟨Octets.toBytes path⟩ (args.map Octets.toBytes) env)
  let e ← attempt path args
  let shell := "/bin/sh".toList
  let e ← match e with
    | .os .execFormat => attempt shell (shell :: path :: args.tail)
    | e => pure e
  let (status, reason) := match e with
    | .os .notFound | .os .notDirectory | .nulInPath => (127, "not found")
    | .os .nameTooLong => (127, OsError.nameTooLong.wording)
    | .os .tooManyLinks => (127, OsError.tooManyLinks.wording)
    | .os e => (126, e.wording)
    | e => (126, e.message)
  complain who (args.headD [] ++ ": ".toList ++ reason.toList)
  setStatus status
  throw .quit

/-- Starts an executable with variables and waits for it, or becomes it. -/
def execute (setting : Setting) (name : Octets) (args : List Octets)
    (given : List (Octets × Octets)) : Exec Unit := do
  let vars := given.map fun (n, v) => (String.ofList n, Octets.toBytes v)
  let env := (← environment).setAll vars
  match ← executable? name with
  | none =>
    complain none (name ++ ": not found".toList)
    setStatus 127
  | some path =>
    if setting.isLast && (← get).traps.isEmpty then become none path (name :: args) env
    else waitForeground (← divide (.become path (name :: args) env) [] [] false)

/-! ## Simple commands -/

/-- The commands whose words that look like assignments are not split. -/
def declarations : List String := ["export", "readonly", "local"]

def fieldsOf (words : List Word) : Exec (List Octets) := do
  let isDeclaration := match words.head?.bind bare? with
    | some t => declarations.contains (String.ofList t)
    | none => false
  let each (w : Word) : Exec (List Octets) := do
    match isDeclaration, assignment? w with
    | true, some (name, value) => return [name ++ ['='] ++ (← single value)]
    | _, _ => fields w
  return (← words.mapM each).flatten

/-- Shows a command that is about to be run, if that is asked for. -/
def trace (assignments : List (Octets × Octets)) (words : List Octets) : Exec Unit := do
  if (← get).options.contains 'x' then
    let lead := (← valueOf? "PS4".toList).getD "+ ".toList
    let shown := assignments.map (fun (n, v) => n ++ ['='] ++ v) ++ words
    let _ ← write 2 (lead ++ [' '].intercalate shown ++ ['\n'])

/-- Runs something with variables set that are put back afterwards. -/
def withVariables (given : List (Octets × Octets)) (p : Exec Unit) : Exec Unit := do
  let before := (← get).vars
  let old := given.map fun (n, _) => (n, before.lookup n)
  given.forM fun (n, v) =>
    changeVariable none n fun old => { old with value := some v, isExported := true }
  let flow ← observe p
  old.forM fun (n, v) => putVariable n v
  match flow with
  | none => return
  | some f => throw f

/-- What kind of command a name is. -/
inductive Kind where
  /-- A command that the shell performs itself, or that evaluates other commands. -/
  | own
  | function (body : Command)
  | program

def evaluators : List String := ["eval", ".", "exec", "command", "type"]

/-- The kind of command that a name is. -/
def kindOf (name : Octets) : Exec Kind := do
  let text := String.ofList name
  let isOwn := evaluators.contains text || builtins.any (·.1 = text)
  if isOwn && specialBuiltins.contains text then return .own
  else match (← get).functions.lookup name with
    | some body => return .function body
    | none => return if isOwn then .own else .program

def describe (isWordy : Bool) (name : Octets) : Exec Nat := do
  let answer (short long : Octets) : Exec Nat :=
    say "command" ((if isWordy then name ++ " is ".toList ++ long else short) ++ ['\n'])
  match ← kindOf name with
  | .own =>
    if specialBuiltins.contains (String.ofList name) then
      answer name "a special shell builtin".toList
    else answer name "a shell builtin".toList
  | .function _ => answer name "a shell function".toList
  | .program =>
    if keywords.contains (String.ofList name) then answer name "a shell keyword".toList
    else match ← executable? name with
      | some path =>
        match ← request (.file (.status ⟨Octets.toBytes path⟩)) with
        | .ok _ => answer path path
        | .error _ => return 127
      | none =>
        if isWordy then
          let _ ← write 1 (name ++ ": not found\n".toList)
        return 127

/-- Ends the shell if a command has failed and that is asked for. -/
def checkFailure (setting : Setting) : Exec Unit := do
  let s ← get
  if s.status ≠ 0 ∧ !setting.isTested ∧ s.options.contains 'e' then throw .quit

/-- Waits for the processes of a pipeline and sets the status to that of the last one. -/
def waitForAll : List Nat → Exec Unit
  | [] => return
  | pid :: rest => do
    waitForeground pid
    waitForAll rest

/-- Starts the commands of a pipeline, the first one reading from `source`, if that is given. -/
def startStages : (source : Option Fd) → List Command → Exec (List Nat)
  | _, [] => return []
  | source, [c] => do
    let input := (source.map (·, 0)).toList
    let pid ← divide (.evaluate c) input source.toList false
    source.forM fun fd => request (.close fd)
    return [pid]
  | source, c :: rest => do
    let (next, sink) ← request .pipe
    let input := (source.map (·, 0)).toList
    let pid ← divide (.evaluate c) (input ++ [(sink, 1)]) (source.toList ++ [next, sink]) false
    source.forM fun fd => request (.close fd)
    request (.close sink)
    return pid :: (← startStages (some next) rest)

/-! ## All commands -/

mutual

/-- Runs a command, then the traps of the signals that were caught. -/
def evaluate : (fuel : Nat) → Setting → Command → Exec Unit
  | 0, _, _ => throw .quit
  | fuel + 1, setting, c => do
    match c with
    | .simple line assignments words redirects =>
      modify fun s => { s with line, substituted := none }
      evaluateSimple fuel setting assignments words redirects
      checkFailure setting
    | .pipeline negated stages =>
      match stages with
      | [c] => evaluate fuel { isLast := false, isTested := setting.isTested || negated } c
      | _ => waitForAll (← startStages none stages)
      if negated then setStatus (if (← get).status = 0 then 1 else 0)
      else checkFailure setting
    | .andThen first second =>
      evaluate fuel ⟨false, true⟩ first
      if (← get).status = 0 then evaluate fuel setting second
    | .orElse first second =>
      evaluate fuel ⟨false, true⟩ first
      if (← get).status ≠ 0 then evaluate fuel setting second
    | .sequence cs => evaluateEach fuel setting cs
    | .background body =>
      let pid ← divide (.evaluate body) [] [] true
      modify fun s => { s with latest := some pid, status := 0 }
    | .subshell body =>
      waitForeground (← divide (.evaluate body) [] [] false)
      checkFailure setting
    | .redirected body redirects =>
      let (isDone, undo) ← redirect redirects []
      if isDone then
        let flow ← observe (evaluate fuel { setting with isLast := false } body)
        putBack undo
        match flow with
        | none => pure ()
        | some f => throw f
      else
        putBack undo
        setStatus refused
        checkFailure setting
    | .branch condition yes no =>
      evaluate fuel ⟨false, true⟩ condition
      if (← get).status = 0 then evaluate fuel setting yes
      else
        setStatus 0
        evaluate fuel setting no
    | .loop isUntil condition body =>
      modify fun s => { s with loops := s.loops + 1 }
      evaluateLoop fuel setting.isTested isUntil condition body 0
      modify fun s => { s with loops := s.loops - 1 }
    | .forEach name words body =>
      let words ← match words with
        | some ws => fieldsOf ws
        | none => pure (← get).args
      modify fun s => { s with loops := s.loops + 1, status := 0 }
      evaluateFor fuel setting.isTested name words body
      modify fun s => { s with loops := s.loops - 1 }
    | .choose word cases =>
      let text ← single word
      setStatus 0
      evaluateCase fuel setting text cases
    | .define name body =>
      modify fun s =>
        { s with functions := (name, body) :: s.functions.filter (·.1 ≠ name), status := 0 }
    takeSignals
    runTraps fuel

def evaluateEach : (fuel : Nat) → Setting → List Command → Exec Unit
  | 0, _, _ => throw .quit
  | _, _, [] => return
  | fuel + 1, setting, [c] => evaluate fuel setting c
  | fuel + 1, setting, c :: rest => do
    evaluate fuel { setting with isLast := false } c
    evaluateEach fuel setting rest

/-- Runs a command again and again. `status` is that of the latest round. -/
def evaluateLoop : (fuel : Nat) → (isTested isUntil : Bool) → Command → Command →
    (status : Nat) → Exec Unit
  | 0, _, _, _, _, _ => throw .quit
  | fuel + 1, isTested, isUntil, condition, body, status => do
    let flow ← observe do
      evaluate fuel ⟨false, true⟩ condition
    let isOver := ((← get).status = 0) = isUntil
    let flow ← match flow with
      | some f => pure (some f)
      | none => if isOver then pure none else observe (evaluate fuel ⟨false, isTested⟩ body)
    match flow with
    | none =>
      if isOver then setStatus status
      else evaluateLoop fuel isTested isUntil condition body (← get).status
    | some (.leave (n + 2)) => throw (.leave (n + 1))
    | some (.leave _) => return
    | some (.again (n + 2)) => throw (.again (n + 1))
    | some (.again _) => evaluateLoop fuel isTested isUntil condition body (← get).status
    | some f => throw f

/-- Runs a command for each of some words. -/
def evaluateFor : (fuel : Nat) → (isTested : Bool) → Octets → List Octets → Command → Exec Unit
  | 0, _, _, _, _ => throw .quit
  | _, _, _, [], _ => return
  | fuel + 1, isTested, name, word :: rest, body => do
    assign name word
    match ← observe (evaluate fuel ⟨false, isTested⟩ body) with
    | none => evaluateFor fuel isTested name rest body
    | some (.leave (n + 2)) => throw (.leave (n + 1))
    | some (.leave _) => return
    | some (.again (n + 2)) => throw (.again (n + 1))
    | some (.again _) => evaluateFor fuel isTested name rest body
    | some f => throw f

/-- Runs the command of the first pattern that a text matches. -/
def evaluateCase : (fuel : Nat) → Setting → Octets → List (List Word × Command) → Exec Unit
  | 0, _, _, _ => throw .quit
  | _, _, _, [] => return
  | fuel + 1, setting, text, (patterns, body) :: rest => do
    if ← patterns.anyM fun w => do return (← pattern w).accepts text then
      evaluate fuel setting body
    else evaluateCase fuel setting text rest

def evaluateSimple : (fuel : Nat) → Setting → List (Octets × Word) → List Word →
    List Redirect → Exec Unit
  | 0, _, _, _, _ => throw .quit
  | fuel + 1, setting, assignments, words, redirects => do
    let words ← fieldsOf words
    let (isDone, undo) ← redirect redirects []
    let values : Exec (List (Octets × Octets)) :=
      assignments.mapM fun (name, word) => do return (name, ← single word)
    match words with
    | [] =>
      if isDone then
        let vars ← values
        trace vars []
        vars.forM fun (n, v) => assign n v
        setStatus ((← get).substituted.getD 0)
      else setStatus refused
      putBack undo
    | name :: args =>
      if !isDone then
        putBack undo
        setStatus refused
        if specialBuiltins.contains (String.ofList name) then throw .quit
      else
        let flow ← observe do
          let vars ← values
          trace vars (name :: args)
          match ← kindOf name with
          | .program => execute setting name args vars
          | .function body =>
            withVariables vars (evaluateFunction fuel setting.isTested body args)
          | .own =>
            if specialBuiltins.contains (String.ofList name) then
              vars.forM fun (n, v) => assign n v
              evaluateOwn fuel setting name args undo
            else withVariables vars (evaluateOwn fuel setting name args undo)
        if name = "exec".toList ∧ flow.isNone then settle undo else putBack undo
        match flow with
        | none => return
        | some f => throw f

/-- Runs a command that the shell performs itself. -/
def evaluateOwn : (fuel : Nat) → Setting → Octets → List Octets → List Undo → Exec Unit
  | 0, _, _, _, _ => throw .quit
  | fuel + 1, setting, name, args, undo => do
    match String.ofList name, args with
    | "eval", args =>
      setStatus 0
      evaluateText fuel { setting with isLast := false } ([' '].intercalate args)
    | "exec", [] => setStatus 0
    | "exec", command :: rest =>
      settle undo
      match ← executable? command with
      | some path => become (some "exec".toList) path (command :: rest) (← environment)
      | none =>
        complain (some "exec".toList) (command ++ ": not found".toList)
        setStatus 127
        throw .quit
    | ".", [] => setStatus 0
    | ".", file :: _ =>
      let path ← executable? file
      match ← request (.file (.read ⟨Octets.toBytes (path.getD file)⟩)) with
      | .error _ => fail (some ['.']) ("cannot open ".toList ++ file ++ ": No such file".toList)
      | .ok content =>
        setStatus 0
        match ← observe (evaluateText fuel { setting with isLast := false }
            (Octets.ofBytes content)) with
        | none | some .back => return
        | some f => throw f
    | "type", args =>
      let mut status := 0
      for a in args do
        let n ← describe true a
        if n ≠ 0 then status := n
      setStatus status
    | "command", ['-', 'v'] :: name :: _ => setStatus (← describe false name)
    | "command", ['-', 'V'] :: name :: _ => setStatus (← describe true name)
    | "command", [['-', 'v']] | "command", [['-', 'V']] => setStatus 0
    | "command", words =>
      match words.filter fun w => w ≠ "-p".toList && w ≠ "--".toList with
      | [] => setStatus 0
      | command :: rest =>
        let text := String.ofList command
        if evaluators.contains text || builtins.any (·.1 = text) then
          evaluateOwn fuel setting command rest undo
        else execute setting command rest []
    | text, args =>
      match builtins.lookup text with
      | some f => setStatus (← f args)
      | none => setStatus 127

/-- Runs the body of a function with arguments. -/
def evaluateFunction : (fuel : Nat) → (isTested : Bool) → Command → List Octets → Exec Unit
  | 0, _, _, _ => throw .quit
  | fuel + 1, isTested, body, args => do
    let before ← get
    modify fun s => { s with args, loops := 0, owned := [] :: s.owned }
    let flow ← observe (evaluate fuel ⟨false, isTested⟩ body)
    (((← get).owned.headD []).forM fun (n, v) => putVariable n v)
    modify fun s => { s with args := before.args, loops := before.loops, owned := before.owned }
    match flow with
    | none | some .back => return
    | some f => throw f

def evaluateText : (fuel : Nat) → Setting → Octets → Exec Unit
  | 0, _, _ => throw .quit
  | fuel + 1, setting, text => evaluateScript fuel setting (Script.ofOctets text)

/-- Runs the commands of a script, one line of commands after the other. -/
def evaluateScript : (fuel : Nat) → Setting → Script → Exec Unit
  | 0, _, _ => throw .quit
  | fuel + 1, setting, script => do
    match script.next with
    | (.error e, _) =>
      modify fun s => { s with line := e.line }
      fail none e.message.toList
    | (.ok none, _) => return
    | (.ok (some c), script) =>
      evaluate fuel { setting with isLast := setting.isLast && script.rest = [] } c
      evaluateScript fuel setting script

/-- Runs the traps of the signals that were caught, and keeps the status. -/
def runTraps : (fuel : Nat) → Exec Unit
  | 0 => throw .quit
  | fuel + 1 => do
    let s ← get
    match s.pending with
    | [] => return
    | signal :: rest =>
      modify fun s => { s with pending := rest }
      match s.traps.lookup (some signal) with
      | none | some [] => runTraps fuel
      | some action =>
        evaluateText fuel ⟨false, false⟩ action
        setStatus s.status
        runTraps fuel

end

end Exec

end KernelTrace.Shell
