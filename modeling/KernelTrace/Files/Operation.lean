import KernelTrace.Files.Lookup

/-!
# Operations on files

The operations that tracing needs of a file system, each atomic. A control file is overwritten and
never made, so writing to one that is missing is an error; a directory is removed only when it is
empty. What an operation answers and what it leaves behind are functions of the tree, which is all
that a statement about programs that use files needs to know.
-/

namespace KernelTrace

/-- What the system tells about a file. -/
structure FileStatus where
  /-- The location of the file itself, links followed. Two paths lead to one file exactly if they
  agree here. -/
  location : Location
  entry : Entry
  deriving DecidableEq

/-- An operation on the file system. -/
inductive FileOp where
  | makeDir (path : Path)
  | removeDir (path : Path)
  /-- Replaces the content of a file that exists. -/
  | overwrite (path : Path) (content : Bytes)
  | read (path : Path)
  /-- Reads a file by its path from a directory that was found before, wherever that has been. -/
  | readIn (dir : Location) (path : Path)
  /-- Lists a directory: names and what they stand for, links not followed. -/
  | list (path : Path)
  | status (path : Path)
  /-- Looks at a file without following a link at the end. -/
  | linkStatus (path : Path)
  deriving DecidableEq

namespace FileOp

abbrev Value : FileOp → Type
  | makeDir _ | removeDir _ | overwrite .. => Unit
  | read _ | readIn .. => Bytes
  | list _ => List (Bytes × Entry)
  | status _ | linkStatus _ => FileStatus

abbrev Answer (op : FileOp) : Type := Except IoError op.Value

end FileOp

namespace FileTree

def makeDir (t : FileTree) (cwd : Location) (p : Path) : Except IoError FileTree := do
  match ← t.resolveParent cwd p with
  | (dir, .name n) =>
    match t.get? (dir ++ [n]) with
    | some _ => .error (.os .exists)
    | none => .ok (t.put (dir ++ [n]) .directory)
  | _ => .error (.os .exists)

/-- Removes an empty directory. A link to one is not one. -/
def removeDir (t : FileTree) (cwd : Location) (p : Path) : Except IoError FileTree := do
  match ← t.resolveParent cwd p with
  | (_, .root) => .error (.os .busy)
  | (_, .here) => .error (.os .invalidArgument)
  | (_, .up) => .error (.os .notEmpty)
  | (dir, .name n) =>
    match t.get? (dir ++ [n]) with
    | none => .error (.os .notFound)
    | some .directory =>
      if t.children (dir ++ [n]) = [] then .ok (t.erase (dir ++ [n]))
      else .error (.os .notEmpty)
    | some _ => .error (.os .notDirectory)

/-- Replaces the content of a file, links followed. -/
def overwrite (t : FileTree) (cwd : Location) (p : Path) (content : Bytes) :
    Except IoError FileTree := do
  match ← t.find cwd p with
  | (loc, .file _ mode) => .ok (t.put loc (.file content mode))
  | (_, .directory) => .error (.os .isDirectory)
  | (_, .link _) => .error (.os .tooManyLinks)

def read (t : FileTree) (cwd : Location) (p : Path) : Except IoError Bytes := do
  match ← t.find cwd p with
  | (_, .file content _) => .ok content
  | (_, .directory) => .error (.os .isDirectory)
  | (_, .link _) => .error (.os .tooManyLinks)

def list (t : FileTree) (cwd : Location) (p : Path) : Except IoError (List (Bytes × Entry)) := do
  match ← t.find cwd p with
  | (loc, .directory) => .ok (t.children loc)
  | _ => .error (.os .notDirectory)

def status (t : FileTree) (cwd : Location) (followLast : Bool) (p : Path) :
    Except IoError FileStatus := do
  match ← t.resolve cwd followLast p with
  | .present loc entry => .ok ⟨loc, entry⟩
  | .vacant .. => .error (.os .notFound)

def isDirectory (t : FileTree) (cwd : Location) (p : Path) : Bool :=
  match t.find cwd p with
  | .ok (_, .directory) => true
  | _ => false

/-- The answer and the tree after an operation that changes the tree when it succeeds. -/
def attempt (t : FileTree) : Except IoError FileTree → Except IoError Unit × FileTree
  | .ok t' => (.ok (), t')
  | .error e => (.error e, t)

/-- Performs an operation: its answer, and the tree afterwards. -/
def perform (t : FileTree) (cwd : Location) : (op : FileOp) → op.Answer × FileTree
  | .makeDir p => t.attempt (t.makeDir cwd p)
  | .removeDir p => t.attempt (t.removeDir cwd p)
  | .overwrite p content => t.attempt (t.overwrite cwd p content)
  | .read p => (t.read cwd p, t)
  | .readIn dir p => (t.read dir p, t)
  | .list p => (t.list cwd p, t)
  | .status p => (t.status cwd true p, t)
  | .linkStatus p => (t.status cwd false p, t)

end FileTree

/-- Whether what the system tells about a path is that a directory is there. -/
def FileStatus.isDirectory : Except IoError FileStatus → Bool
  | .ok s => s.entry.isDirectory
  | .error _ => false

end KernelTrace
