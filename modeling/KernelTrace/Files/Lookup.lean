import KernelTrace.Files.Tree
import KernelTrace.Os.Error

/-!
# From paths to locations

The system follows a path name by name from the root or the working directory. A dot stays, two
dots go to the parent, a link is followed by going on with its target from where it stands. Only
directories can be gone through, so a separator or a dot after a file is an error, and a chain of
more than forty links is one too. The last name may be missing: the walk then ends at a *vacant*
place in a directory that exists.

A walk ends for every tree, cycles of links included, because each link used costs one of the
forty.
-/

namespace KernelTrace

/-- Where the walk along a path ended. -/
inductive Found where
  | present (loc : Location) (entry : Entry)
  /-- In a directory that has nothing of the last name. -/
  | vacant (dir : Location) (name : Bytes)
  deriving DecidableEq

/-- What the last name of a path stands for, seen from the directory before it. -/
inductive LastName where
  | root
  | here
  | up
  | name (name : Bytes)
  deriving DecidableEq

namespace Path

/-- The names to follow one after the other. A separator at the end asks for a directory, which is
what a final dot asks for too. -/
def steps (p : Path) : List Bytes :=
  let names := (pieces p.bytes).filter (· ≠ [])
  if names ≠ [] ∧ (pieces p.bytes).getLast? = some [] then names ++ [dot] else names

end Path

namespace FileTree

def maxLinks : Nat := 40

/-- The longest name a directory can hold, in bytes. -/
def maxName : Nat := 255

/-- The longest path the system takes, in bytes. -/
def maxPath : Nat := 4095

/-- Follows `names` from the directory `loc`. A link at the end is followed if `followLast`; at
most `links` links are followed. -/
def walk (t : FileTree) (followLast : Bool) (links : Nat) (loc : Location)
    (names : List Bytes) : Except OsError Found :=
  match names with
  | [] => .ok (.present loc .directory)
  | n :: rest =>
    if n = Path.dot then walk t followLast links loc rest
    else if n = Path.dotDot then walk t followLast links loc.dropLast rest
    else if maxName < n.length then .error .nameTooLong
    else match t.get? (loc ++ [n]) with
      | none => if rest = [] then .ok (.vacant loc n) else .error .notFound
      | some .directory => walk t followLast links (loc ++ [n]) rest
      | some (.file content mode) =>
        if rest = [] then .ok (.present (loc ++ [n]) (.file content mode))
        else .error .notDirectory
      | some (.link target) =>
        if rest = [] ∧ followLast = false then .ok (.present (loc ++ [n]) (.link target))
        else match links with
          | 0 => .error .tooManyLinks
          | left + 1 =>
            walk t followLast left (if target.isAbsolute then [] else loc) (target.steps ++ rest)
termination_by (links, names.length)

/-- Refuses the paths that are not even looked at. -/
def checkPath (p : Path) : Except IoError Unit :=
  if p.bytes.contains 0 then .error .nulInPath
  else if p.bytes = [] then .error (.os .notFound)
  else if maxPath < p.bytes.length then .error (.os .nameTooLong)
  else .ok ()

def startOf (cwd : Location) (p : Path) : Location := if p.isAbsolute then [] else cwd

/-- What a path leads to from the working directory `cwd`. -/
def resolve (t : FileTree) (cwd : Location) (followLast : Bool) (p : Path) :
    Except IoError Found := do
  checkPath p
  (t.walk followLast maxLinks (startOf cwd p) p.steps).mapError .os

/-- What a path leads to, with links followed to their end. -/
def find (t : FileTree) (cwd : Location) (p : Path) : Except IoError (Location × Entry) := do
  match ← t.resolve cwd true p with
  | .present loc entry => .ok (loc, entry)
  | .vacant .. => .error (.os .notFound)

/-- The directory that holds the last name of a path, and that name. -/
def resolveParent (t : FileTree) (cwd : Location) (p : Path) :
    Except IoError (Location × LastName) := do
  checkPath p
  let names := (Path.pieces p.bytes).filter (· ≠ [])
  match names.getLast? with
  | none => .ok ([], .root)
  | some last =>
    match ← (t.walk true maxLinks (startOf cwd p) (names.dropLast ++ [Path.dot])).mapError .os with
    | .vacant .. => .error (.os .notFound)
    | .present loc _ =>
      if last = Path.dot then .ok (loc, .here)
      else if last = Path.dotDot then .ok (loc, .up)
      else if maxName < last.length then .error (.os .nameTooLong)
      else .ok (loc, .name last)

end FileTree

end KernelTrace
