/-!
# Signals

The signals of the system by name and number, and how the end of a process is put into words.
-/

namespace KernelTrace

/-- A signal of the system. -/
inductive Signal where
  | SIGHUP | SIGINT | SIGQUIT | SIGILL | SIGTRAP | SIGABRT | SIGBUS | SIGFPE
  | SIGKILL | SIGUSR1 | SIGSEGV | SIGUSR2 | SIGPIPE | SIGALRM | SIGTERM | SIGSTKFLT
  | SIGCHLD | SIGCONT | SIGSTOP | SIGTSTP | SIGTTIN | SIGTTOU | SIGURG | SIGXCPU
  | SIGXFSZ | SIGVTALRM | SIGPROF | SIGWINCH | SIGIO | SIGPWR | SIGSYS
  deriving DecidableEq, Repr

namespace Signal

/-- Every signal, in the order of the numbers, which start at one. -/
def all : List Signal :=
  [SIGHUP, SIGINT, SIGQUIT, SIGILL, SIGTRAP, SIGABRT, SIGBUS, SIGFPE,
   SIGKILL, SIGUSR1, SIGSEGV, SIGUSR2, SIGPIPE, SIGALRM, SIGTERM, SIGSTKFLT,
   SIGCHLD, SIGCONT, SIGSTOP, SIGTSTP, SIGTTIN, SIGTTOU, SIGURG, SIGXCPU,
   SIGXFSZ, SIGVTALRM, SIGPROF, SIGWINCH, SIGIO, SIGPWR, SIGSYS]

def number (s : Signal) : Nat := all.idxOf s + 1

def ofNumber? (n : Nat) : Option Signal := if n = 0 then none else all[n - 1]?

def name : Signal → String
  | SIGHUP => "SIGHUP" | SIGINT => "SIGINT" | SIGQUIT => "SIGQUIT" | SIGILL => "SIGILL"
  | SIGTRAP => "SIGTRAP" | SIGABRT => "SIGABRT" | SIGBUS => "SIGBUS" | SIGFPE => "SIGFPE"
  | SIGKILL => "SIGKILL" | SIGUSR1 => "SIGUSR1" | SIGSEGV => "SIGSEGV" | SIGUSR2 => "SIGUSR2"
  | SIGPIPE => "SIGPIPE" | SIGALRM => "SIGALRM" | SIGTERM => "SIGTERM"
  | SIGSTKFLT => "SIGSTKFLT" | SIGCHLD => "SIGCHLD" | SIGCONT => "SIGCONT"
  | SIGSTOP => "SIGSTOP" | SIGTSTP => "SIGTSTP" | SIGTTIN => "SIGTTIN" | SIGTTOU => "SIGTTOU"
  | SIGURG => "SIGURG" | SIGXCPU => "SIGXCPU" | SIGXFSZ => "SIGXFSZ"
  | SIGVTALRM => "SIGVTALRM" | SIGPROF => "SIGPROF" | SIGWINCH => "SIGWINCH" | SIGIO => "SIGIO"
  | SIGPWR => "SIGPWR" | SIGSYS => "SIGSYS"

def ofName? (n : String) : Option Signal := all.find? fun s => s.name = n

/-- The system's description of a process that the signal ended. -/
def description : Signal → String
  | SIGHUP => "Hangup" | SIGINT => "Interrupt" | SIGQUIT => "Quit"
  | SIGILL => "Illegal instruction" | SIGTRAP => "Trace/breakpoint trap" | SIGABRT => "Aborted"
  | SIGBUS => "Bus error" | SIGFPE => "Floating point exception" | SIGKILL => "Killed"
  | SIGUSR1 => "User defined signal 1" | SIGSEGV => "Segmentation fault"
  | SIGUSR2 => "User defined signal 2" | SIGPIPE => "Broken pipe" | SIGALRM => "Alarm clock"
  | SIGTERM => "Terminated" | SIGSTKFLT => "Stack fault" | SIGCHLD => "Child exited"
  | SIGCONT => "Continued" | SIGSTOP => "Stopped (signal)" | SIGTSTP => "Stopped"
  | SIGTTIN => "Stopped (tty input)" | SIGTTOU => "Stopped (tty output)"
  | SIGURG => "Urgent I/O condition" | SIGXCPU => "CPU time limit exceeded"
  | SIGXFSZ => "File size limit exceeded" | SIGVTALRM => "Virtual timer expired"
  | SIGPROF => "Profiling timer expired" | SIGWINCH => "Window changed"
  | SIGIO => "I/O possible" | SIGPWR => "Power failure" | SIGSYS => "Bad system call"

/-- Whether a process that does nothing about the signal outlives it. -/
def isHarmless : Signal → Bool
  | SIGCHLD | SIGCONT | SIGURG | SIGWINCH | SIGSTOP | SIGTSTP | SIGTTIN | SIGTTOU => true
  | _ => false

/-- Whether it is up to a process what it does about the signal. -/
def isOptional : Signal → Bool
  | SIGKILL | SIGSTOP => false
  | _ => true

example : SIGUSR1.number = 10 ∧ ofNumber? 15 = some SIGTERM ∧ SIGSYS.number = 31 := by decide

end Signal

/-- How a process ended. -/
inductive ExitStatus where
  | code (n : Nat)
  | signal (s : Signal)
  deriving DecidableEq, Repr

namespace ExitStatus

def isSuccess (s : ExitStatus) : Bool := s = .code 0

/-- The wording of the end of a process. -/
def message : ExitStatus → String
  | .code n => s!"exit status: {n}"
  | .signal s => s!"signal: {s.number} ({s.name})"

end ExitStatus

end KernelTrace
