import KernelTrace.Shell.Condition
import KernelTrace.Shell.Expansion
import KernelTrace.Shell.Format

/-!
# Commands that a shell performs itself

These commands change the state of the shell, or are so common that no other process is started for
them. Each is given its words and gives a status. Those that evaluate other commands are not here.
-/

namespace KernelTrace.Shell

namespace Exec

/-- A command that the shell performs itself, given the words after its name. -/
abbrev Builtin := List Octets → Exec Nat

/-- The number that a word is, in decimal digits. -/
def natural? (t : Octets) : Option Nat :=
  if t ≠ [] ∧ t.all Char.isDigit then
    some (t.foldl (fun n c => n * 10 + (c.toNat - '0'.toNat)) 0)
  else none

/-- Fails with a word that is no number, as a command that ends the shell then. -/
def illegalNumber {α : Type} (who : String) (t : Octets) : Exec α :=
  fail (some who.toList) ("Illegal number: ".toList ++ t)

/-! ## Writing and testing -/

def say (who : String) (t : Octets) : Exec Nat := do
  if t = [] then return 0
  else if ← write 1 t then return 0
  else
    complain (some who.toList) (who.toList ++ ": I/O error".toList)
    return 1

def echo : Builtin := fun words =>
  match words with
  | ['-', 'n'] :: rest => say "echo" (Format.line rest false)
  | _ => say "echo" (Format.line words true)

def printf : Builtin := fun words => do
  match words with
  | [] => refuse "printf" "usage: printf format [arg ...]".toList
  | first :: more =>
    match if first = "--".toList then more else words with
    | [] => refuse "printf" "usage: printf format [arg ...]".toList
    | f :: args =>
      let (text, errors) := Format.format f args
      let status ← say "printf" text
      errors.forM fun e => complain (some "printf".toList) e.toList
      return if errors ≠ [] then 1 else status

def test : Builtin := fun words => do
  let result ← ExceptT.lift (StateT.lift (Condition.test words))
  match result with
  | .ok true => return 0
  | .ok false => return 1
  | .error e => refuse "test" e.toList

/-- Tests a condition that ends with a bracket. -/
def bracket : Builtin := fun words => do
  if words.getLast? ≠ some [']'] then refuse "[" "missing ]".toList
  else
    let result ← ExceptT.lift (StateT.lift (Condition.test words.dropLast))
    match result with
    | .ok true => return 0
    | .ok false => return 1
    | .error e => refuse "[" e.toList

/-! ## Directories -/

def place : Exec Octets := do return Octets.ofBytes (← request .place).bytes

def cd : Builtin := fun words => do
  let words := words.filter fun w => w ≠ "--".toList && w ≠ "-P".toList && w ≠ "-L".toList
  let old ← place
  let target ← match words with
    | [] => do pure ((← valueOf? "HOME".toList).getD [])
    | ['-'] :: _ => do pure ((← valueOf? "OLDPWD".toList).getD [])
    | w :: _ => pure w
  if target = [] then return 0
  else match ← request (.enter ⟨Octets.toBytes target⟩) with
    | .error _ => refuse "cd" ("can't cd to ".toList ++ target)
    | .ok () =>
      let new ← place
      let put (name value : Octets) : Exec Unit :=
        changeVariable none name fun v => { v with value := some value, isExported := true }
      put "OLDPWD".toList old
      put "PWD".toList new
      if words.head? = some ['-'] then say "cd" (new ++ ['\n']) else return 0

def pwd : Builtin := fun _ => do say "pwd" ((← place) ++ ['\n'])

/-! ## Variables and arguments -/

/-- A name and the value after its equals sign, if there is one. -/
def assignmentOf (w : Octets) : Octets × Option Octets :=
  let name := w.takeWhile (· ≠ '=')
  (name, (w.drop name.length).tail?)

def quote (t : Octets) : Octets :=
  [singleQuote] ++ t.flatMap (fun c =>
    if c = singleQuote then [singleQuote, doubleQuote, c, doubleQuote, singleQuote] else [c])
    ++ [singleQuote]

def listVariables (lead : String) (keep : Variable → Bool) : Exec Nat := do
  let kept := (← get).vars.filter fun v => keep v.2
  let sorted := kept.mergeSort fun a b => a.1.le b.1
  let lines := sorted.filterMap fun (name, v) =>
    match v.value with
    | some value => some (lead.toList ++ name ++ ['='] ++ quote value ++ ['\n'])
    | none => if lead = "" then none else some (lead.toList ++ name ++ ['\n'])
  say "set" lines.flatten

/-- Marks variables, and sets those that come with a value. -/
def markEach (who : String) (mark : Variable → Variable) : Builtin := fun words => do
  words.forM fun w => do
    let (name, value) := assignmentOf w
    if !Octets.isName name then fail (some who.toList) (w ++ ": bad variable name".toList)
    else changeVariable (some who.toList) name fun v =>
      mark { v with value := value.orElse fun _ => v.value }
  return 0

def «export» : Builtin := fun words =>
  match words.filter (· ≠ "-p".toList) with
  | [] => listVariables "export " (·.isExported)
  | ws => markEach "export" (fun v => { v with isExported := true }) ws

def readonly : Builtin := fun words =>
  match words.filter (· ≠ "-p".toList) with
  | [] => listVariables "readonly " (·.isConstant)
  | ws => markEach "readonly" (fun v => { v with isConstant := true }) ws

def «local» : Builtin := fun words => do
  if (← get).owned = [] then fail (some "local".toList) "not in a function".toList
  words.forM fun w => do
    let (name, value) := assignmentOf w
    if !Octets.isName name then fail (some "local".toList) (w ++ ": bad variable name".toList)
    else
      modify fun s => match s.owned with
        | [] => s
        | own :: rest =>
          if own.any (·.1 = name) then s
          else { s with owned := ((name, s.vars.lookup name) :: own) :: rest }
      match value with
      | some v => assign name v
      | none => return
  return 0

def unset : Builtin := fun words => do
  match words with
  | ['-', 'f'] :: names =>
    modify fun s => { s with functions := s.functions.filter fun f => !names.contains f.1 }
    return 0
  | _ =>
    words.forM fun name => do
      if name ≠ "-v".toList then
        match (← get).vars.lookup name with
        | some v =>
          if v.isConstant then fail (some "unset".toList) (name ++ ": is read only".toList)
          else putVariable name none
        | none => return
    return 0

def shift : Builtin := fun words => do
  let n ← match words with
    | [] => pure 1
    | w :: _ => match natural? w with
      | some n => pure n
      | none => illegalNumber "shift" w
  let s ← get
  if s.args.length < n then fail (some "shift".toList) "can't shift that many".toList
  else
    set { s with args := s.args.drop n }
    return 0

def namedOptions : List (String × Char) :=
  [("errexit", 'e'), ("noglob", 'f'), ("ignoreeof", 'I'), ("interactive", 'i'), ("monitor", 'm'),
   ("noexec", 'n'), ("stdin", 's'), ("xtrace", 'x'), ("verbose", 'v'), ("vi", 'V'), ("emacs", 'E'),
   ("noclobber", 'C'), ("allexport", 'a'), ("notify", 'b'), ("nounset", 'u')]

def setOption (on : Bool) (c : Char) : Exec Unit :=
  modify fun s =>
    let others := s.options.filter (· ≠ c)
    { s with options := if on then others ++ [c] else others }

/-- Sets or clears options as words say: the words that are left and whether they are arguments. -/
def setOptions : List Octets → Exec (List Octets × Bool)
  | [] => return ([], false)
  | w :: rest => do
    match w with
    | ['-', '-'] => return (rest, true)
    | '-' :: flags => apply true flags rest
    | '+' :: flags => apply false flags rest
    | _ => return (w :: rest, true)
where
  /-- Sets or clears the options of one word and goes on. -/
  apply (on : Bool) (flags : List Char) (rest : List Octets) : Exec (List Octets × Bool) := do
    if flags = ['o'] then
      match rest with
      | name :: rest' =>
        match namedOptions.lookup (String.ofList name) with
        | some c =>
          setOption on c
          setOptions rest'
        | none => fail (some "set".toList) ("Illegal option -o ".toList ++ name)
      | [] => return ([], false)
    else
      match flags.find? fun c => !(namedOptions.any (·.2 = c)) with
      | some c => fail (some "set".toList) ("Illegal option -".toList ++ [c])
      | none =>
        flags.forM (setOption on)
        setOptions rest

def «set» : Builtin := fun words => do
  if words = [] then listVariables "" fun _ => true
  else
    let (args, isGiven) ← setOptions words
    if isGiven then modify fun s => { s with args }
    return 0

/-- Sets variables to the fields of a line, the last one to all that is left. -/
def assignFields (separators : Octets) : List Octets → Octets → Exec Unit
  | [], _ => return
  | [name], line =>
    let soft (c : Char) : Bool := separators.contains c && Atom.isSoft c
    assign name ((line.dropWhile soft).reverse.dropWhile soft).reverse
  | name :: names, line => do
    let soft (c : Char) : Bool := separators.contains c && Atom.isSoft c
    let line := line.dropWhile soft
    let field := line.takeWhile fun c => !separators.contains c
    let after := (line.drop field.length).dropWhile soft
    let after := match after with
      | c :: more => if separators.contains c then more else c :: more
      | [] => []
    assign name field
    assignFields separators names after

/-- Reads a line, one byte at a time so that nothing after it is lost. A backslash before a line end
joins two lines unless the line is `raw`. `fuel` bounds the number of bytes. -/
def readLine (raw : Bool) : (fuel : Nat) → (got : Octets) → Exec (Octets × Bool)
  | 0, got => return (got.reverse, false)
  | fuel + 1, got => do
    match ← request (.read 0 1) with
    | .error _ | .ok (some []) => return (got.reverse, false)
    | .ok none =>
      request (.await ⟨[0], false, none⟩)
      takeSignals
      readLine raw fuel got
    | .ok (some b) =>
      match Octets.ofBytes b, got with
      | ['\n'], '\\' :: before =>
        if raw then return (got.reverse, true) else readLine raw fuel before
      | ['\n'], _ => return (got.reverse, true)
      | [c], '\\' :: before =>
        if raw then readLine raw fuel (c :: got) else readLine raw fuel (c :: before)
      | cs, _ => readLine raw fuel (cs ++ got)

def read : Builtin := fun words => do
  let raw := words.contains "-r".toList
  let names := words.filter (· ≠ "-r".toList)
  if names = [] then refuse "read" "arg count".toList
  else
    let (line, isWhole) ← readLine raw plenty []
    assignFields (← separators) names line
    return if isWhole then 0 else 1

/-! ## Processes and signals -/

/-- The signal with a name or number. One signal has a number only. -/
def signal? (t : Octets) : Option (Option Signal) :=
  match natural? t with
  | some 0 => some none
  | some n => (Signal.ofNumber? n).map some
  | none =>
    let name := String.ofList (t.map Char.toUpper)
    if name = "EXIT" then some none
    else ((Signal.ofName? ("SIG" ++ name)).filter (· ≠ .SIGSTKFLT)).map some

def occasionName : Occasion → Octets
  | none => "EXIT".toList
  | some .SIGSTKFLT => "16".toList
  | some s => (s.name.drop 3).toString.toList

def sendEach (signal : Option Signal) : Builtin := fun targets => do
  let mut status := 0
  for t in targets do
    let (sign, digits) := match t with
      | '-' :: ds => ((-1 : Int), ds)
      | ds => (1, ds)
    match natural? digits with
    | none => return (← refuse "kill" ("Illegal number: ".toList ++ digits))
    | some n =>
      match ← request (.kill (sign * n) signal) with
      | .ok () => pure ()
      | .error e =>
        complain (some "kill".toList) (e.wording.toList ++ ['\n'])
        status := 1
  return status

/-- What is said about a `kill` that is not understood. -/
def killUsage : Octets :=
  ("Usage: kill [-s sigspec | -signum | -sigspec] [pid | job]... or\nkill -l [exitstatus]").toList

def kill : Builtin := fun words => do
  match words with
  | ['-', 'l'] :: [] =>
    say "kill" (['0', '\n'] ++ Signal.all.flatMap fun s => occasionName (some s) ++ ['\n'])
  | ['-', 'l'] :: w :: _ =>
    match natural? w with
    | none => refuse "kill" ("Illegal number: ".toList ++ w)
    | some n =>
      match Signal.ofNumber? (if 128 < n then n - 128 else n) with
      | some s => say "kill" (occasionName (some s) ++ ['\n'])
      | none => refuse "kill" ("invalid signal number or exit status: ".toList ++ w)
  | ['-', 's'] :: name :: targets =>
    match signal? name with
    | some s => sendEach s (targets.filter (· ≠ "--".toList))
    | none => refuse "kill" ("invalid signal number or name: ".toList ++ name)
  | ['-', '-'] :: targets => sendEach (some .SIGTERM) targets
  | ('-' :: name) :: targets =>
    match signal? name with
    | some s =>
      if targets = [] then refuse "kill" killUsage
      else sendEach s (targets.filter (· ≠ "--".toList))
    | none => refuse "kill" ("Illegal option -".toList ++ name.take 1)
  | [] => refuse "kill" killUsage
  | targets => sendEach (some .SIGTERM) targets

def wait : Builtin := fun words => do
  let interrupted : Exec Nat := do
    match (← get).pending with
    | s :: _ => return 128 + s.number
    | [] => return 127
  if words = [] then
    let jobs := (← get).jobs
    let mut status := 0
    for (pid, _) in jobs do
      match ← waitFor pid true plenty with
      | some _ => pure ()
      | none => if (← get).pending ≠ [] then status ← interrupted
    return status
  else
    let mut status := 127
    for w in words do
      match natural? w with
      | none => return (← refuse "wait" ("Illegal number: ".toList ++ w))
      | some pid =>
        match ← waitFor pid true plenty with
        | some e =>
          announceEnd e
          status := statusOf e
        | none => status ← interrupted
    return status

/-- Sets what is done on an occasion, or that what is usual is done. A signal that was ignored when
the shell was started stays so. -/
def setTrap (o : Occasion) (action : Option Octets) : Exec Unit := do
  let before := (← get).traps.lookup o
  modify fun s =>
    let others := s.traps.filter (·.1 ≠ o)
    { s with traps := match action with
      | some a => others ++ [(o, a)]
      | none => others }
  match o with
  | none => return
  | some s =>
    let what : Disposition := match action with
      | none => .default
      | some [] => .ignored
      | some _ => .caught
    let old ← request (.handle s what)
    if old = .ignored ∧ before ≠ some [] then
      let _ ← request (.handle s .ignored)

def trap : Builtin := fun words => do
  match if words.head? = some "--".toList then words.tail else words with
  | [] =>
    let lines := (← get).traps.map fun (o, a) =>
      "trap -- ".toList ++ quote a ++ [' '] ++ occasionName o ++ ['\n']
    say "trap" lines.flatten
  | first :: more =>
    let isReset := more = [] || (natural? first).isSome
    let action := if isReset || first = ['-'] then none else some first
    let mut status := 0
    for w in if isReset then first :: more else more do
      match signal? w with
      | some o => setTrap o action
      | none =>
        let _ ← write 2 ("trap: ".toList ++ w ++ ": bad trap\n".toList)
        return 1
    return status

/-- Shows or sets the permission bits that new files do not get. -/
def umask : Builtin := fun words => do
  match words.filter (· ≠ "-S".toList) with
  | [] =>
    let ds := Nat.toDigits 8 (← get).mask
    say "umask" (List.replicate (4 - ds.length) '0' ++ ds ++ ['\n'])
  | w :: _ =>
    if w.all Format.isOctal then
      modify fun s =>
        { s with mask := w.foldl (fun n c => n * 8 + (c.toNat - '0'.toNat)) 0 % 0o1000 }
      return 0
    else refuse "umask" ("Illegal mode: ".toList ++ w)

/-- Takes the next option off arguments. An option is a letter, and its argument is the rest of the
word or the next one. -/
def getopts : Builtin := fun words => do
  match words with
  | letters :: name :: given =>
    let s ← get
    let args := if given = [] then s.args else given
    let silent := letters.head? = some ':'
    let index := ((← valueOf? "OPTIND".toList).bind natural?).getD 1
    let offset := if index = 1 && s.optionOffset = 0 then 1 else max 1 s.optionOffset
    let finish (index : Nat) : Exec Nat := do
      assign "OPTIND".toList (Octets.ofNat index)
      modify fun s => { s with optionOffset := 0 }
      assign name ['?']
      return 1
    match args[index - 1]? with
    | none => finish index
    | some word =>
      if word.head? ≠ some '-' ∨ word = ['-'] then finish index
      else if word = "--".toList then finish (index + 1)
      else
        let c := word.getD offset '?'
        let rest := word.drop (offset + 1)
        let place (index offset : Nat) : Exec Unit := do
          assign "OPTIND".toList (Octets.ofNat index)
          modify fun s => { s with optionOffset := offset }
        let wrong (before after : String) (mark : Char) : Exec Nat := do
          if silent then assign "OPTARG".toList [c]
          else
            putVariable "OPTARG".toList none
            let _ ← write 2 (before.toList ++ [c] ++ after.toList ++ ['\n'])
          assign name [if silent then mark else '?']
          return 0
        match letters.idxOf? c with
        | none =>
          if rest = [] then place (index + 1) 0 else place index (offset + 1)
          wrong "Illegal option -" "" '?'
        | some i =>
          if letters[i + 1]? = some ':' then
            match rest, args[index]? with
            | _ :: _, _ =>
              place (index + 1) 0
              assign "OPTARG".toList rest
              assign name [c]
              return 0
            | [], some value =>
              place (index + 2) 0
              assign "OPTARG".toList value
              assign name [c]
              return 0
            | [], none =>
              place (index + 1) 0
              wrong "No arg for -" " option" ':'
          else
            if rest = [] then place (index + 1) 0 else place index (offset + 1)
            putVariable "OPTARG".toList none
            assign name [c]
            return 0
  | _ => refuse "getopts" "Usage: getopts optstring var [arg]".toList

/-! ## Ends -/

def exit : Builtin := fun words => do
  match words with
  | [] => throw .quit
  | w :: _ =>
    match natural? w with
    | some n =>
      setStatus (n % 256)
      throw .quit
    | none => illegalNumber "exit" w

def «return» : Builtin := fun words => do
  match words with
  | [] => throw .back
  | w :: _ =>
    match natural? w with
    | some n =>
      setStatus n
      throw .back
    | none => illegalNumber "return" w

def leaveLoops (who : String) (flow : Nat → Flow) : Builtin := fun words => do
  let n ← match words with
    | [] => pure 1
    | w :: _ => match natural? w with
      | some (n + 1) => pure (n + 1)
      | _ => illegalNumber who w
  let loops := (← get).loops
  if loops = 0 then return 0
  else
    setStatus 0
    throw (flow (min n loops))

end Exec

def builtins : List (String × Exec.Builtin) :=
  [(":", fun _ => return 0), ("true", fun _ => return 0), ("false", fun _ => return 1),
   ("echo", Exec.echo), ("printf", Exec.printf), ("test", Exec.test), ("[", Exec.bracket),
   ("cd", Exec.cd), ("pwd", Exec.pwd), ("export", Exec.export), ("readonly", Exec.readonly),
   ("local", Exec.local), ("unset", Exec.unset), ("shift", Exec.shift), ("set", Exec.set),
   ("read", Exec.read), ("kill", Exec.kill), ("wait", Exec.wait), ("trap", Exec.trap),
   ("exit", Exec.exit), ("return", Exec.return), ("break", Exec.leaveLoops "break" .leave),
   ("continue", Exec.leaveLoops "continue" .again), ("umask", Exec.umask),
   ("getopts", Exec.getopts), ("times", fun _ => return 0), ("hash", fun _ => return 0),
   ("jobs", fun _ => return 0), ("alias", fun _ => return 0), ("ulimit", fun _ => return 0)]

end KernelTrace.Shell
