import KernelTrace.Text.Utf8

/-!
# What the operating system refuses

An operation on the file system or on a process fails with one of the system's error numbers, or,
before the system is asked at all, because a path cannot be passed to it or a text is not one. The
wording is the system's own, followed by the number.
-/

namespace KernelTrace

/-- The system's error numbers that the operations of this library can meet. -/
inductive OsError where
  | notPermitted
  | notFound
  | noSuchProcess
  | inputOutput
  | execFormat
  | badDescriptor
  | noChild
  | accessDenied
  | busy
  | exists
  | notDirectory
  | isDirectory
  | invalidArgument
  | noSpace
  | brokenPipe
  | nameTooLong
  | notImplemented
  | notEmpty
  | tooManyLinks
  deriving DecidableEq, Repr

namespace OsError

def number : OsError → Nat
  | notPermitted => 1
  | notFound => 2
  | noSuchProcess => 3
  | inputOutput => 5
  | execFormat => 8
  | badDescriptor => 9
  | noChild => 10
  | accessDenied => 13
  | busy => 16
  | .exists => 17
  | notDirectory => 20
  | isDirectory => 21
  | invalidArgument => 22
  | noSpace => 28
  | brokenPipe => 32
  | nameTooLong => 36
  | notImplemented => 38
  | notEmpty => 39
  | tooManyLinks => 40

def wording : OsError → String
  | notPermitted => "Operation not permitted"
  | notFound => "No such file or directory"
  | noSuchProcess => "No such process"
  | inputOutput => "Input/output error"
  | execFormat => "Exec format error"
  | badDescriptor => "Bad file descriptor"
  | noChild => "No child processes"
  | accessDenied => "Permission denied"
  | busy => "Device or resource busy"
  | .exists => "File exists"
  | notDirectory => "Not a directory"
  | isDirectory => "Is a directory"
  | invalidArgument => "Invalid argument"
  | noSpace => "No space left on device"
  | brokenPipe => "Broken pipe"
  | nameTooLong => "File name too long"
  | notImplemented => "Function not implemented"
  | notEmpty => "Directory not empty"
  | tooManyLinks => "Too many levels of symbolic links"

def all : List OsError :=
  [notPermitted, notFound, noSuchProcess, inputOutput, execFormat, badDescriptor, noChild,
   accessDenied, busy, .exists, notDirectory, isDirectory, invalidArgument, noSpace, brokenPipe,
   nameTooLong, notImplemented, notEmpty, tooManyLinks]

def ofNumber? (n : Nat) : Option OsError := all.find? fun e => e.number = n

theorem ofNumber?_number (e : OsError) : ofNumber? e.number = some e := by cases e <;> decide

end OsError

/-- Why reading or writing failed. -/
inductive IoError where
  | os (error : OsError)
  /-- The path holds a NUL byte and cannot be passed to the system. -/
  | nulInPath
  /-- A line that has to be text is not. -/
  | notText
  /-- The other side refused, in its own words. -/
  | refused (reason : String)
  deriving DecidableEq, Repr

def IoError.message : IoError → String
  | .os e => s!"{e.wording} (os error {e.number})"
  | .nulInPath => "file name contained an unexpected NUL byte"
  | .notText => "stream did not contain valid UTF-8"
  | .refused reason => reason

end KernelTrace
