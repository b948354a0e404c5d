import KernelTrace.Commands.Process
import KernelTrace.Host.Machine
import KernelTrace.Shell.Process
import KernelTrace.Tools.Files
import KernelTrace.Tools.Lines

/-!
# The programs of a machine

A machine has a shell, tools for scripts and the commands of this library, each an executable whose
content says which program it is. Here a machine is equipped with them, and hooks and commands are
run on it.
-/

namespace KernelTrace

open Shell

namespace Tool

variable {ι : Type}

/-- The time that a word says, in microseconds: a number of seconds, or of what a letter after it
says. -/
def duration? (w : Octets) : Option Nat :=
  let whole := w.takeWhile Char.isDigit
  let rest := w.drop whole.length
  let (part, rest) := match rest with
    | '.' :: more => (more.takeWhile Char.isDigit, more.dropWhile Char.isDigit)
    | _ => ([], rest)
  let unit? : Option Nat := match rest with
    | [] | ['s'] => some 1
    | ['m'] => some 60
    | ['h'] => some 3600
    | ['d'] => some 86400
    | _ => none
  let micros := (natural? ((part ++ List.replicate 6 '0').take 6)).getD 0
  if whole = [] ∧ part = [] then none
  else unit?.map fun unit => ((natural? whole).getD 0 * 1000000 + micros) * unit

def sleep : Tool ι := fun words => do
  match words.mapM duration? with
  | none =>
    let wrong := (words.find? fun w => (duration? w).isNone).getD []
    complain "sleep" ("invalid time interval '".toList ++ wrong ++ ['\x27'])
    hint "sleep"
    return 1
  | some [] =>
    complain "sleep" "missing operand".toList
    hint "sleep"
    return 1
  | some times =>
    let now ← Running.request .now
    Running.waitUntil (now + times.foldl (· + ·) 0) Running.maxReads
    return 0

/-- Writes words or places them in a format, as the shell does. -/
def printf : Tool ι := fun words => do
  let (text, errors) := Format.format (words.headD []) words.tail
  say text
  errors.forM fun e => complain "printf" e.toList
  return if errors = [] then 0 else 1

def test : Tool ι := fun words => do
  match ← Condition.test words with
  | .ok true => return 0
  | .ok false => return 1
  | .error e =>
    complain "test" e.toList
    return 2

/-- Writes variables, or runs an executable with variables set. -/
def env (vars : Environment) : Tool ι := fun words => do
  let isSetting (w : Octets) : Bool := w.contains '='
  let clear := words.head? = some ['-'] || words.head? = some "-i".toList
  let words := if clear then words.tail else words
  let settings := (words.takeWhile isSetting).map fun w =>
    let name := w.takeWhile (· ≠ '=')
    (String.ofList name, Octets.toBytes (w.drop (name.length + 1)))
  let vars := (if clear then Environment.empty else vars).setAll settings
  match words.dropWhile isSetting with
  | [] =>
    say (vars.vars.entries.flatMap fun (n, v) =>
      n.toList ++ ['='] ++ Octets.ofBytes v ++ ['\n'])
    return 0
  | name :: args =>
    let dirs := if name.contains '/' then [[]]
      else ["/usr/bin/".toList, "/bin/".toList]
    let mut fault := IoError.os .notFound
    for dir in dirs do
      fault ← Running.request (.exec (pathOf (dir ++ name))
        ((name :: args).map Octets.toBytes) vars)
    complain "env" (['\x27'] ++ name ++ "': ".toList ++ reason fault)
    return if fault = .os .notFound then 127 else 126

def pwd : Tool ι := fun _ => do
  say (Octets.ofBytes (← Running.request .place).bytes ++ ['\n'])
  return 0

def kill : Tool ι := fun words => do
  let (signal, targets) := match words with
    | ['-', 's'] :: name :: rest => (Exec.signal? name, rest)
    | ('-' :: name) :: rest => (Exec.signal? name, rest)
    | rest => (some (some .SIGTERM), rest)
  match signal with
  | none => return 1
  | some signal => forEach targets fun t => do
    let (sign, digits) := match t with
      | '-' :: ds => ((-1 : Int), ds)
      | ds => (1, ds)
    match ← Running.request (.kill (sign * ((natural? digits).getD 0 : Nat)) signal) with
    | .ok () => return true
    | .error e =>
      complain "kill" (['('] ++ digits ++ ") - ".toList ++ e.wording.toList)
      return false

end Tool

namespace Machine

def tools : List (String × Tool Job) :=
  [("cat", Tool.cat), ("rm", Tool.rm), ("mkdir", Tool.mkdir), ("rmdir", Tool.rmdir),
   ("touch", Tool.touch), ("chmod", Tool.chmod), ("mv", Tool.mv), ("cp", Tool.cp), ("ln", Tool.ln),
   ("readlink", Tool.readlink), ("ls", Tool.ls), ("head", Tool.head), ("tail", Tool.tail),
   ("wc", Tool.wc), ("sort", Tool.sort), ("uniq", Tool.uniq), ("tr", Tool.tr),
   ("grep", Tool.grep), ("cut", Tool.cut), ("yes", Tool.yes), ("seq", Tool.seq), ("basename", Tool.basename),
   ("dirname", Tool.dirname), ("tee", Tool.tee), ("sleep", Tool.sleep),
   ("printf", Tool.printf), ("test", Tool.test), ("[", fun ws => Tool.test ws.dropLast),
   ("pwd", Tool.pwd), ("kill", Tool.kill), ("true", fun _ => return 0),
   ("false", fun _ => return 1),
   ("echo", fun ws => do
      Tool.say ([' '].intercalate ws ++ ['\n'])
      return 0)]

/-- The directory of the commands of this library. -/
def home : Path := "/usr/libexec/tracer"

def commands : List (String × (Environment → List String → Commands.Act Nat)) :=
  [("tracer", Commands.tracer home), ("trace_syscalls", Commands.traceSyscalls)]

/-- The program of an executable of some kind. -/
def program? (kind : Bytes) (words : List Bytes) (env : Environment) : Option (Running Job Nat) := do
  let name ← Utf8.decode? kind
  if name = "sh" then return Shell.start words env
  else if name = "env" then return Tool.env env (words.tail.map Octets.ofBytes)
  else match commands.lookup name with
    | some command => return Commands.start command words env
    | none => return (← tools.lookup name) (words.tail.map Octets.ofBytes)

/-- What a machine needs to know of its programs. -/
def loader : Loader Job := ⟨program?, Job.run⟩

/-- Where the executables are, and what each is. -/
def executables : List (Path × String) :=
  (("sh" :: "env" :: tools.map (·.1)).map fun name => (Path.ofString ("/bin/" ++ name), name))
    ++ commands.map fun c => (home.join c.1, c.1)

/-- Files with the programs of a machine, a place for temporary files and the first process. -/
def equip (t : FileTree) : FileTree :=
  let keep (t : FileTree) (r : Except IoError FileTree) : FileTree := r.toOption.getD t
  let t := ["/bin", "/usr/libexec/tracer", "/dev", "/proc/1", "/tmp", "/root"].foldl
    (fun t dir => keep t (t.makeDirs [] (Path.ofString dir))) t
  let t := keep t (t.makeLink [] "/usr/bin" "/bin")
  let t := keep t (t.writeFile [] "/dev/null" [] 0o666)
  let first : Process Job :=
    ⟨⟨1, 0, 1⟩, Utf8.encode "init", [], .led, [], [], [], []⟩
  let t := keep t (t.writeFile [] "/proc/1/stat" first.statLine 0o444)
  executables.foldl (fun t (path, kind) =>
    let t := keep t (t.writeFile [] path (image kind) 0o755)
    keep t (t.setMode [] path 0o755)) t

/-- The process that is led on a new machine. -/
def ledPid : Nat := 4021

/-- A machine with files and one process, which runs a command and is led. It reads nothing, and what
it writes leaves the machine. -/
def withFiles (tree : FileTree) (name : String) (cwd : Location) (draws : Nat → Draw) :
    Machine Job :=
  let p : Process Job :=
    { self := ⟨ledPid, ledPid - 1, ledPid⟩, command := Utf8.encode name
      image := (home.join name).steps, life := .led
      fds := [(0, 0), (1, 1), (2, 2)], cwd, dispositions := [], pending := [] }
  let m : Machine Job :=
    { tree, clock := 0, processes := [], openFiles :=
        [(0, ⟨.null, .read, 0⟩), (1, ⟨.outside 1, .write, 0⟩), (2, ⟨.outside 2, .write, 0⟩)]
      pipes := [], outside := [], nextPid := ledPid, nextId := 3, drawn := 0, draws }
  m.addProcess p

/-- The files of a machine, its processes not among them. -/
def files (m : Machine Job) : FileTree :=
  m.processes.foldl (fun t p => t.prune (processLocation p.self.pid)) m.tree

def turns : Nat := 5000000

/-- Runs a hook on files from a working directory with an environment: its result, and the files it
leaves. -/
def runHook (env : Environment) (cwd : Location) (tree : FileTree) (run : HookRun) :
    Except HookFault HookResult × FileTree :=
  let invocation : Running Job (Except HookFault HookResult) := do
    let _ ← Running.request (.handle .SIGUSR1 .caught)
    let _ ← Running.request (.handle .SIGPIPE .ignored)
    let (result, _) ← (Commands.Attending.invoke env run).run StopSignal.fresh
    return result
  let m := withFiles tree "tracer" cwd fun n => BitVec.ofNat _ n
  match m.lead loader ledPid turns invocation with
  | (.value result, m) => (result, m.files)
  | (_, m) => (.error (.wait (.os .noChild)), m.files)

/-- What a command has left behind. -/
structure Trace where
  status : Option ExitStatus
  stdout : Bytes
  stderr : Bytes
  files : FileTree

/-- Runs a command on files from a working directory with words and an environment. -/
def runCommand (name : String) (args : List String) (env : Environment) (cwd : Location)
    (tree : FileTree) (draws : Nat → Draw) : Trace :=
  let words := (name :: args).map Utf8.encode
  let m := withFiles tree name cwd draws
  match program? (Utf8.encode name) words env with
  | none => ⟨none, [], [], tree⟩
  | some program =>
    let (outcome, m) := m.lead loader ledPid turns program
    let status := match outcome with
      | .value code => some (.code (code % 256))
      | .ended status => some status
      | .stuck => none
    let stream (n : Nat) : Bytes := (m.outside.lookup n).getD []
    ⟨status, stream 1, stream 2, m.files⟩

end Machine

end KernelTrace
