import KernelTrace.Host.Operation

/-!
# A machine

A machine is a file tree, a clock and processes that act on them, one operation at a time. Processes
take turns; the clock moves by a little with every operation, and when every process waits it jumps
to the next time that one of them waits for. So a run of a machine is a function of how it starts.

Each process is also listed among the files, as the system's process information.
-/

namespace KernelTrace

variable {ι : Type}

/-- What a descriptor leads to. -/
inductive Channel where
  /-- Nothing: reads end at once and writes disappear. -/
  | null
  | zeros
  | file (loc : Location)
  /-- Bytes that were read when the file was opened. -/
  | snapshot (content : Bytes)
  /-- The end of a pipe that is read. -/
  | source (pipe : Nat)
  /-- The end of a pipe that is written. -/
  | sink (pipe : Nat)
  | outside (stream : Nat)
  deriving DecidableEq

/-- An open file, which several descriptors may share. -/
structure OpenFile where
  channel : Channel
  mode : OpenMode
  offset : Nat
  deriving DecidableEq

/-- How far a process has got. -/
inductive Life (ι : Type) where
  /-- Its program is run by whoever runs the machine. -/
  | led
  /-- It goes on with a program that gives its exit code. -/
  | running (rest : Running ι Nat)
  /-- It has ended and was not asked for yet. -/
  | ended (status : ExitStatus)

/-- A process. -/
structure Process (ι : Type) where
  self : Identity
  command : Bytes
  /-- The executable that it runs. -/
  image : Location
  life : Life ι
  /-- Its descriptors, each with the number of an open file. -/
  fds : List (Fd × Nat)
  cwd : Location
  /-- What it does about signals where that is not the default. -/
  dispositions : List (Signal × Disposition)
  /-- The signals it has caught and not asked for. -/
  pending : List Signal

/-- A machine. -/
structure Machine (ι : Type) where
  tree : FileTree
  clock : Nat
  /-- The processes, in the order of their turns. -/
  processes : List (Process ι)
  openFiles : List (Nat × OpenFile)
  pipes : List (Nat × Bytes)
  outside : List (Nat × Bytes)
  nextPid : Nat
  /-- The number of the next open file or pipe. -/
  nextId : Nat
  drawn : Nat
  draws : Nat → Draw

/-- What a machine needs to know of programs. -/
structure Loader (ι : Type) where
  /-- The program of an executable of some kind, given its arguments and environment. -/
  start : Bytes → List Bytes → Environment → Option (Running ι Nat)
  /-- The program of a process that was divided off. -/
  resume : ι → Running ι Nat

namespace Process

def hasEnded (p : Process ι) : Bool :=
  match p.life with
  | .ended _ => true
  | _ => false

def disposition (p : Process ι) (s : Signal) : Disposition :=
  ((p.dispositions.find? (·.1 = s)).map (·.2)).getD .default

/-- The process with something else done about a signal. -/
def withDisposition (p : Process ι) (s : Signal) (d : Disposition) : Process ι :=
  { p with dispositions := (s, d) :: p.dispositions.filter (·.1 ≠ s) }

/-- What is done about signals by an executable that takes the place of the process's program: what
was caught can no longer be. -/
def execDispositions (p : Process ι) : List (Signal × Disposition) :=
  p.dispositions.filter (·.2 = .ignored)

/-- The open file that a descriptor leads to. -/
def openFile? (p : Process ι) (fd : Fd) : Option Nat := (p.fds.find? (·.1 = fd)).map (·.2)

def freeFd (p : Process ι) : Fd :=
  ((List.range (p.fds.length + 1)).find? fun n => (p.openFile? n).isNone).getD p.fds.length

/-- The process with a descriptor that leads to an open file. -/
def withFd (p : Process ι) (fd : Fd) (file : Nat) : Process ι :=
  { p with fds := (fd, file) :: p.fds.filter (·.1 ≠ fd) }

def withoutFd (p : Process ι) (fd : Fd) : Process ι := { p with fds := p.fds.filter (·.1 ≠ fd) }

/-- The state of the process as the system shows it. -/
def stateLetter (p : Process ι) : String := if p.hasEnded then "Z" else "S"

/-- The line with which the system describes the process. -/
def statLine (p : Process ι) : Bytes :=
  let s := p.self
  Utf8.encode s!"{s.pid} (" ++ p.command.take 15
    ++ Utf8.encode s!") {p.stateLetter} {s.parent} {s.group} {s.group}"
    ++ Utf8.encode (String.join (List.replicate 46 " 0") ++ "\n")

end Process

namespace Machine

/-! ## Looking things up -/

def process? (m : Machine ι) (pid : Nat) : Option (Process ι) :=
  m.processes.find? (·.self.pid = pid)

def update (m : Machine ι) (pid : Nat) (f : Process ι → Process ι) : Machine ι :=
  { m with processes := m.processes.map fun p => if p.self.pid = pid then f p else p }

/-- The open file that a descriptor of a process leads to. -/
def openFile? (m : Machine ι) (p : Process ι) (fd : Fd) : Option (Nat × OpenFile) :=
  (p.openFile? fd).bind fun n => (m.openFiles.lookup n).map (n, ·)

def setOpenFile (m : Machine ι) (n : Nat) (f : OpenFile) : Machine ι :=
  { m with openFiles := (n, f) :: m.openFiles.filter (·.1 ≠ n) }

def inPipe (m : Machine ι) (n : Nat) : Bytes := (m.pipes.lookup n).getD []

/-- The machine with something else in a pipe. -/
def setPipe (m : Machine ι) (n : Nat) (b : Bytes) : Machine ι :=
  { m with pipes := (n, b) :: m.pipes.filter (·.1 ≠ n) }

/-- Whether a descriptor of some process leads to a channel. -/
def isHeld (m : Machine ι) (c : Channel) : Bool :=
  m.processes.any fun p => p.fds.any fun (_, n) =>
    match m.openFiles.lookup n with
    | some f => f.channel = c
    | none => false

/-! ## Process information -/

def processDir : Location := [Utf8.encode "proc"]

def processLocation (pid : Nat) : Location := processDir ++ [Utf8.encode (toString pid)]

/-- The path without detours that leads to a location. -/
def pathTo (loc : Location) : Path := ⟨Path.separator :: [Path.separator].intercalate loc⟩

def list (m : Machine ι) (p : Process ι) : Machine ι :=
  let dir := processLocation p.self.pid
  let add (t : FileTree) (name : String) (entry : Entry) : FileTree :=
    t.put (dir ++ [Utf8.encode name]) entry
  let t := add (m.tree.put dir .directory) "stat" (.file p.statLine 0o444)
  let t := add t "comm" (.file (p.command.take 15 ++ [0x0A]) 0o444)
  { m with tree := add t "exe" (.link (pathTo p.image)) }

def unlist (m : Machine ι) (pid : Nat) : Machine ι :=
  { m with tree := m.tree.prune (processLocation pid) }

def relist (m : Machine ι) (pid : Nat) : Machine ι :=
  match m.process? pid with
  | some p => m.list p
  | none => m

/-! ## Ends of processes -/

/-- The process that takes over those whose parent has ended. -/
def firstPid : Nat := 1

def forget (m : Machine ι) (pid : Nat) : Machine ι :=
  { m with processes := m.processes.filter (·.self.pid ≠ pid) }.unlist pid

/-- Ends a process. Its children go to the first process, which asks at once for those that have
ended. -/
def finish (m : Machine ι) (pid : Nat) (status : ExitStatus) : Machine ι :=
  let m := m.update pid fun p => { p with life := .ended status, fds := [], pending := [] }
  let orphans := m.processes.filter (·.self.parent = pid)
  let m := orphans.foldl (fun m p =>
    if p.hasEnded then m.forget p.self.pid
    else (m.update p.self.pid fun p => { p with self.parent := firstPid }).relist p.self.pid) m
  match m.process? pid with
  | some p => if p.self.parent = firstPid then m.forget pid else m.relist pid
  | none => m

def deliver (m : Machine ι) (pid : Nat) (s : Signal) : Machine ι :=
  match m.process? pid with
  | none => m
  | some p =>
    if p.hasEnded then m
    else match p.disposition s with
      | .ignored => m
      | .caught =>
        m.update pid fun p =>
          { p with pending := if s ∈ p.pending then p.pending else p.pending ++ [s] }
      | .default => if s.isHarmless then m else m.finish pid (.signal s)

/-! ## Reading and writing -/

/-- Whether a descriptor has something to read, or will never have. -/
def isReadable (m : Machine ι) (p : Process ι) (fd : Fd) : Bool :=
  match m.openFile? p fd with
  | some (_, f) =>
    match f.channel with
    | .source n => m.inPipe n ≠ [] || !m.isHeld (.sink n)
    | _ => true
  | none => true

def readFd (m : Machine ι) (p : Process ι) (fd : Fd) (count : Nat) :
    Except IoError (Option Bytes) × Machine ι :=
  match m.openFile? p fd with
  | none => (.error (.os .badDescriptor), m)
  | some (n, f) =>
    let fromContent (content : Bytes) :=
      let b := (content.drop f.offset).take count
      (.ok (some b), m.setOpenFile n { f with offset := f.offset + b.length })
    if f.mode = .write ∨ f.mode = .append then (.error (.os .badDescriptor), m)
    else match f.channel with
      | .null | .outside _ => (.ok (some []), m)
      | .zeros => (.ok (some (List.replicate count 0)), m)
      | .snapshot content => fromContent content
      | .file loc =>
        match m.tree.get? loc with
        | some (.file content _) => fromContent content
        | some .directory => (.error (.os .isDirectory), m)
        | _ => (.ok (some []), m)
      | .source pipe =>
        let content := m.inPipe pipe
        if content = [] then (.ok (if m.isHeld (.sink pipe) then none else some []), m)
        else (.ok (some (content.take count)), m.setPipe pipe (content.drop count))
      | .sink _ => (.error (.os .badDescriptor), m)

/-- The content of a file after bytes were written at a position. -/
def overlay (content : Bytes) (offset : Nat) (b : Bytes) : Bytes :=
  content.take offset ++ List.replicate (offset - content.length) 0 ++ b
    ++ content.drop (offset + b.length)

/-- Writes to a descriptor. Writing to a pipe that nobody reads is answered with a signal first. -/
def writeFd (m : Machine ι) (p : Process ι) (fd : Fd) (b : Bytes) :
    Except IoError Unit × Machine ι :=
  match m.openFile? p fd with
  | none => (.error (.os .badDescriptor), m)
  | some (n, f) =>
    if f.mode = .read then (.error (.os .badDescriptor), m)
    else match f.channel with
      | .null | .zeros | .snapshot _ => (.ok (), m)
      | .outside stream =>
        let before := (m.outside.lookup stream).getD []
        (.ok (), { m with
          outside := (stream, before ++ b) :: m.outside.filter (·.1 ≠ stream) })
      | .file loc =>
        match m.tree.get? loc with
        | some (.file content mode) =>
          let offset := if f.mode = .append then content.length else f.offset
          let m := { m with tree := m.tree.put loc (.file (overlay content offset b) mode) }
          (.ok (), m.setOpenFile n { f with offset := offset + b.length })
        | _ => (.ok (), m)
      | .sink pipe =>
        if m.isHeld (.source pipe) then (.ok (), m.setPipe pipe (m.inPipe pipe ++ b))
        else (.error (.os .brokenPipe), m.deliver p.self.pid .SIGPIPE)
      | .source _ => (.error (.os .badDescriptor), m)

/-! ## Executables -/

/-- What an executable of the machine's own starts with. Its kind follows. -/
def imageMark : Bytes := [0x7F, 0x45, 0x4C, 0x46]

/-- The content of an executable of a kind. -/
def image (kind : String) : Bytes := imageMark ++ Utf8.encode kind

/-- The first line of a script, without its mark, if the content is a script. -/
def scriptLine? (content : Bytes) : Option Bytes :=
  match content with
  | 0x23 :: 0x21 :: rest => some ((pieces 0x0A rest).headD [])
  | _ => none

/-- Whether a byte separates the words of a script's first line. -/
def isLineBlank (b : UInt8) : Bool := b = 0x20 || b = 0x09

/-- The interpreter of a script and the argument given to it, if there is one. -/
def interpreter? (line : Bytes) : Option (Bytes × List Bytes) :=
  let trimmed := (line.dropWhile isLineBlank).reverse.dropWhile isLineBlank |>.reverse
  let name := trimmed.takeWhile fun b => !isLineBlank b
  let rest := (trimmed.drop name.length).dropWhile isLineBlank
  if name = [] then none else some (name, if rest = [] then [] else [rest])

/-- How many scripts may stand between an executable and what runs it. -/
def maxInterpreters : Nat := 4

/-- An executable that is ready to be run. -/
structure Loaded (ι : Type) where
  program : Running ι Nat
  /-- What the process is called. -/
  command : Bytes
  /-- What is run in the end: for a script, its interpreter. -/
  image : Location

def load (loader : Loader ι) (tree : FileTree) (cwd : Location) (env : Environment) :
    (depth : Nat) → Path → List Bytes → Except IoError (Loaded ι)
  | 0, _, _ => .error (.os .tooManyLinks)
  | depth + 1, path, args => do
    match ← tree.find cwd path with
    | (loc, .file content mode) =>
      if mode &&& 0o111 = 0 then .error (.os .accessDenied)
      else match scriptLine? content with
        | some line =>
          match interpreter? line with
          | none => .error (.os .execFormat)
          | some (name, more) =>
            let args := name :: more ++ path.bytes :: args.drop 1
            return { ← load loader tree cwd env depth ⟨name⟩ args with
              command := loc.getLast?.getD [] }
        | none =>
          if imageMark.isPrefixOf content then
            match loader.start (content.drop imageMark.length) args env with
            | some program => .ok ⟨program, (path.fileName?).getD [], loc⟩
            | none => .error (.os .execFormat)
          else .error (.os .execFormat)
    | _ => .error (.os .accessDenied)

/-! ## Operations -/

/-- Descriptors from here on are closed when an executable is started. -/
def privateFds : Fd := 10

def addProcess (m : Machine ι) (p : Process ι) : Machine ι :=
  { m with processes := m.processes ++ [p], nextPid := m.nextPid + 1 }.list p

/-- The descriptor of a process that a path names. -/
def ownFd? (path : Path) : Option Fd :=
  [("/dev/stdin", 0), ("/dev/stdout", 1), ("/dev/stderr", 2)].findSome? fun (name, fd) =>
    if path = Path.ofString name then some fd else none

/-- A path in which the process information of whoever asks is that of a process. -/
def ownPath (p : Process ι) (path : Path) : Path :=
  let own := Utf8.encode "/proc/self/"
  if own.isPrefixOf path.bytes then
    ⟨Path.separator :: [Path.separator].intercalate (processLocation p.self.pid)
      ++ Path.separator :: path.bytes.drop own.length⟩
  else path

def openPath (m : Machine ι) (p : Process ι) (path : Path) (mode : OpenMode) :
    Except IoError Fd × Machine ι :=
  let add (m : Machine ι) (c : Channel) : Except IoError Fd × Machine ι :=
    let fd := p.freeFd
    let m := { m.setOpenFile m.nextId ⟨c, mode, 0⟩ with nextId := m.nextId + 1 }
    (.ok fd, m.update p.self.pid (·.withFd fd (m.nextId - 1)))
  if path = "/dev/null" then add m .null
  else if path = "/dev/zero" then add m .zeros
  else match ownFd? path, mode with
    | some fd, _ =>
      match m.openFile? p fd with
      | some (_, f) => add m f.channel
      | none => (.error (.os .notFound), m)
    | none, .read =>
      match m.tree.find p.cwd (ownPath p path) with
      | .error e => (.error e, m)
      | .ok (loc, _) =>
        if processDir.isPrefixOf loc then
          match m.tree.get? loc with
          | some (.file content _) => add m (.snapshot content)
          | _ => add m (.file loc)
        else add m (.file loc)
    | none, _ =>
      let opening : FileTree.Opening := if mode = .write then .empty else .keep
      match m.tree.openToWrite p.cwd path opening 0o644 with
      | .error e => (.error e, m)
      | .ok (loc, tree) => add { m with tree } (.file loc)

def spawn (loader : Loader ι) (m : Machine ι) (p : Process ι) (l : Launch) :
    Except IoError Nat × Machine ι :=
  match load loader m.tree p.cwd l.env maxInterpreters l.path l.args with
  | .error e => (.error e, m)
  | .ok loaded =>
    let pid := m.nextPid
    let group := if l.leads then pid else p.self.group
    let fds := l.fds.filterMap fun (fd, source) => (p.openFile? source).map (fd, ·)
    let dispositions := p.execDispositions.filter (·.1 ≠ .SIGPIPE)
    (.ok pid, m.addProcess
      ⟨⟨pid, p.self.pid, group⟩, loaded.command, loaded.image, .running loaded.program, fds, p.cwd,
        dispositions, []⟩)

def collect (m : Machine ι) (p : Process ι) (target : Option Nat) :
    Except OsError (Option (Nat × ExitStatus)) × Machine ι :=
  let mine := m.processes.filter fun c =>
    c.self.parent = p.self.pid && (target.isNone || target = some c.self.pid)
  if mine.isEmpty then (.error .noChild, m)
  else match mine.find? (·.hasEnded) with
    | none => (.ok none, m)
    | some c =>
      match c.life with
      | .ended status => (.ok (some (c.self.pid, status)), m.forget c.self.pid)
      | _ => (.ok none, m)

def kill (m : Machine ι) (p : Process ι) (target : Int) (s : Option Signal) :
    Except OsError Unit × Machine ι :=
  let group : Nat := if target = 0 then p.self.group else (-target).toNat
  let isMeant (c : Process ι) : Bool :=
    if 0 < target then (c.self.pid : Int) = target
    else if target = -1 then c.self.pid ≠ firstPid && c.self.pid ≠ p.self.pid
    else c.self.group = group
  let meant := m.processes.filter isMeant
  if meant.isEmpty then (.error .noSuchProcess, m)
  else (.ok (), match s with
    | none => m
    | some s => meant.foldl (fun m c => m.deliver c.self.pid s) m)

/-- Whether what a process waits for is there. -/
def isThere (m : Machine ι) (p : Process ι) (w : Awaited) : Bool :=
  !p.pending.isEmpty
    || w.fds.any (m.isReadable p)
    || (w.child && m.processes.any fun c => c.self.parent = p.self.pid && c.hasEnded)
    || (match w.until? with
      | some time => decide (time ≤ m.clock)
      | none => false)

/-- Whether an operation of a process can be answered now. -/
def isReady (m : Machine ι) (p : Process ι) : HostOp ι → Bool
  | .await w => m.isThere p w
  | _ => true

/-- Answers an operation of a process. The answer to becoming an executable is given only if that
fails. -/
def perform (loader : Loader ι) (m : Machine ι) (p : Process ι) :
    (op : HostOp ι) → op.Answer × Machine ι
  | .file op =>
    let (answer, tree) := m.tree.perform p.cwd op
    (answer, { m with tree })
  | .edit e =>
    match m.tree.edit p.cwd e with
    | .ok tree => (.ok (), { m with tree })
    | .error e => (.error e, m)
  | .openFile path mode => m.openPath p path mode
  | .close fd => ((), m.update p.self.pid (·.withoutFd fd))
  | .copy source target =>
    match p.openFile? source with
    | some n => (.ok (), m.update p.self.pid (·.withFd target n))
    | none => (.error (.os .badDescriptor), m)
  | .pipe =>
    let id := m.nextId
    let m := (m.setOpenFile (id + 1) ⟨.source id, .read, 0⟩).setOpenFile (id + 2)
      ⟨.sink id, .write, 0⟩
    let source := p.freeFd
    let sink := (p.withFd source (id + 1)).freeFd
    ((source, sink), { m with nextId := id + 3 }.update p.self.pid fun p =>
      (p.withFd source (id + 1)).withFd sink (id + 2))
  | .read fd count => m.readFd p fd count
  | .write fd content => m.writeFd p fd content
  | .now => (m.clock, m)
  | .await _ => ((), m)
  | .fork rest =>
    let pid := m.nextPid
    (pid, m.addProcess
      { p with self := ⟨pid, p.self.pid, p.self.group⟩, life := .running (loader.resume rest)
               pending := [] })
  | .spawn launch => spawn loader m p launch
  | .exec path args env =>
    match load loader m.tree p.cwd env maxInterpreters path args with
    | .error e => (e, m)
    | .ok loaded =>
      (.os .execFormat, (m.update p.self.pid fun p =>
        { p with
          life := .running loaded.program
          command := loaded.command
          image := loaded.image
          fds := p.fds.filter (·.1 < privateFds)
          dispositions := p.execDispositions
          pending := [] }).relist p.self.pid)
  | .collect target => m.collect p target
  | .kill target s => m.kill p target s
  | .handle s d =>
    if s.isOptional then
      (p.disposition s, m.update p.self.pid fun p =>
        { p.withDisposition s d with
          pending := if d = .caught then p.pending else p.pending.filter (· ≠ s) })
    else (.default, m)
  | .caught => (p.pending, m.update p.self.pid fun p => { p with pending := [] })
  | .identity => (p.self, m)
  | .enter path =>
    match m.tree.find p.cwd path with
    | .ok (loc, .directory) => (.ok (), m.update p.self.pid fun p => { p with cwd := loc })
    | .ok _ => (.error (.os .notDirectory), m)
    | .error e => (.error e, m)
  | .place => (pathTo p.cwd, m)
  | .draw => (m.draws m.drawn, { m with drawn := m.drawn + 1 })

/-! ## Turns -/

/-- How much the clock moves with an operation. -/
def operationTime : Nat := 2

/-- The machine after one operation took its time. -/
def tick (m : Machine ι) : Machine ι := { m with clock := m.clock + operationTime }

def canMove (m : Machine ι) (p : Process ι) : Bool :=
  match p.life with
  | .running (.done _) => true
  | .running (.ask op _) => m.isReady p op
  | _ => false

def move (loader : Loader ι) (m : Machine ι) (p : Process ι) : Machine ι :=
  match p.life with
  | .running (.done code) => m.finish p.self.pid (.code (code % 256))
  | .running (.ask op next) =>
    let m := m.update p.self.pid fun p => { p with life := .led }
    let (answer, m) := m.perform loader p op
    (m.update p.self.pid fun p =>
      match p.life with
      | .led => { p with life := .running (next answer) }
      | _ => p).tick
  | _ => m

/-- The first process, in the order of turns, that can move. -/
def nextToMove? (m : Machine ι) : Option (Process ι) := m.processes.find? m.canMove

/-- Puts a process last in the order of turns. -/
def putLast (m : Machine ι) (pid : Nat) : Machine ι :=
  { m with
    processes := m.processes.filter (·.self.pid ≠ pid) ++ m.processes.filter (·.self.pid = pid) }

def awaitedTime? : HostOp ι → Option Nat
  | .await w => w.until?
  | _ => none

def awaitedTimes (m : Machine ι) : List Nat :=
  m.processes.filterMap fun p =>
    match p.life with
    | .running (.ask op _) => awaitedTime? op
    | _ => none

/-- Lets the next process make one operation, if one can. -/
def turn? (loader : Loader ι) (m : Machine ι) : Option (Machine ι) :=
  match m.nextToMove? with
  | some p => some ((m.move loader p).putLast p.self.pid)
  | none => none

/-- How a led process has come out: it ended with a value, was ended, or nothing moved any more. -/
inductive Outcome (α : Type) where
  | value (a : α)
  | ended (status : ExitStatus)
  /-- Nothing moved any more, or not within the given number of turns. -/
  | stuck

/-- Leads a process through its program, the others moving in turn with it, for `fuel` turns at
most. -/
def lead {α : Type} (loader : Loader ι) (pid : Nat) :
    (fuel : Nat) → Machine ι → Running ι α → Outcome α × Machine ι
  | 0, m, _ => (.stuck, m)
  | fuel + 1, m, program =>
    match m.process? pid with
    | none => (.stuck, m)
    | some p =>
      match p.life, program with
      | .ended status, _ => (.ended status, m)
      | _, .done a => (.value a, m)
      | _, .ask op next =>
        if m.isReady p op then
          let (answer, m) := m.perform loader p op
          let m := m.tick
          lead loader pid fuel ((m.turn? loader).getD m) (next answer)
        else match m.turn? loader with
          | some m => lead loader pid fuel m (.ask op next)
          | none =>
            match ((awaitedTime? op).toList ++ m.awaitedTimes).min? with
            | some time =>
              lead loader pid fuel { m with clock := max m.clock time } (.ask op next)
            | none => (.stuck, m)

end Machine

end KernelTrace
