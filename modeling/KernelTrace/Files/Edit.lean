import KernelTrace.Files.Operation

/-!
# Changing files at will

What everybody else does to files: making them with everything on the way to them, writing, linking,
renaming and removing them. The operations that tracing itself needs are in `Files.Operation`.
-/

namespace KernelTrace

namespace FileTree

/-- Makes a directory and the directories on the way to it. Those that are there stay. -/
def makeDirs (t : FileTree) (cwd : Location) (p : Path) : Except IoError FileTree := do
  checkPath p
  (go t (startOf cwd p) p.steps).mapError .os
where
  /-- Makes the directories called `names`, one in the other, from `loc` on. -/
  go (t : FileTree) (loc : Location) : List Bytes → Except OsError FileTree
    | [] => .ok t
    | n :: rest => do
      match ← t.walk true maxLinks loc [n] with
      | .present loc' .directory => go t loc' rest
      | .present .. => .error .notDirectory
      | .vacant dir name => go (t.put (dir ++ [name]) .directory) (dir ++ [name]) rest

/-- What becomes of a file that is opened to be written. -/
inductive Opening where
  | empty
  | keep
  deriving DecidableEq

/-- Opens a file to be written, made with permission bits `mode` if it is missing: where it is. -/
def openToWrite (t : FileTree) (cwd : Location) (p : Path) (opening : Opening) (mode : Nat) :
    Except IoError (Location × FileTree) := do
  match ← t.resolve cwd true p with
  | .vacant dir name =>
    if (Path.pieces p.bytes).getLast? = some [] then .error (.os .isDirectory)
    else .ok (dir ++ [name], t.put (dir ++ [name]) (.file [] mode))
  | .present loc (.file content m) =>
    .ok (loc, if opening = .empty then t.put loc (.file [] m) else t.put loc (.file content m))
  | .present _ .directory => .error (.os .isDirectory)
  | .present _ (.link _) => .error (.os .tooManyLinks)

/-- Writes a file, made with permission bits `mode` if it is missing. -/
def writeFile (t : FileTree) (cwd : Location) (p : Path) (content : Bytes) (mode : Nat) :
    Except IoError FileTree := do
  let (loc, t) ← t.openToWrite cwd p .empty mode
  match t.get? loc with
  | some (.file _ m) => .ok (t.put loc (.file content m))
  | _ => .ok t

def makeLink (t : FileTree) (cwd : Location) (p target : Path) : Except IoError FileTree := do
  match ← t.resolveParent cwd p with
  | (dir, .name n) =>
    match t.get? (dir ++ [n]) with
    | some _ => .error (.os .exists)
    | none => .ok (t.put (dir ++ [n]) (.link target))
  | _ => .error (.os .exists)

def setMode (t : FileTree) (cwd : Location) (p : Path) (mode : Nat) : Except IoError FileTree := do
  match ← t.find cwd p with
  | (loc, .file content _) => .ok (t.put loc (.file content mode))
  | _ => .ok t

def unlink (t : FileTree) (cwd : Location) (p : Path) : Except IoError FileTree := do
  match ← t.resolveParent cwd p with
  | (dir, .name n) =>
    match t.get? (dir ++ [n]) with
    | none => .error (.os .notFound)
    | some .directory => .error (.os .isDirectory)
    | some _ => .ok (t.erase (dir ++ [n]))
  | _ => .error (.os .isDirectory)

def removeAll (t : FileTree) (cwd : Location) (p : Path) : Except IoError FileTree := do
  match ← t.resolveParent cwd p with
  | (dir, .name n) =>
    match t.get? (dir ++ [n]) with
    | none => .error (.os .notFound)
    | some _ => .ok (t.prune (dir ++ [n]))
  | _ => .error (.os .invalidArgument)

/-- Everything at a location and below it, with the names from there on. -/
def below (t : FileTree) (loc : Location) : List (Location × Entry) :=
  t.entries.entries.filterMap fun (l, e) =>
    if loc.isPrefixOf l then some (l.drop loc.length, e) else none

/-- Moves everything at one location to another, over what is there. -/
def move (t : FileTree) (source dest : Location) : FileTree :=
  (t.below source).foldl (fun t (rest, e) => t.put (dest ++ rest) e)
    ((t.prune source).prune dest)

def rename (t : FileTree) (cwd : Location) (source dest : Path) : Except IoError FileTree := do
  match ← t.resolveParent cwd source, ← t.resolveParent cwd dest with
  | (dir, .name n), (dir', .name n') =>
    let old := dir ++ [n]
    let new := dir' ++ [n']
    match t.get? old, t.get? new with
    | none, _ => .error (.os .notFound)
    | some .directory, some .directory =>
      if old = new then .ok t
      else if t.children new ≠ [] then .error (.os .notEmpty)
      else if old.isPrefixOf new then .error (.os .invalidArgument)
      else .ok (t.move old new)
    | some .directory, some _ => .error (.os .notDirectory)
    | some .directory, none =>
      if old.isPrefixOf new then .error (.os .invalidArgument) else .ok (t.move old new)
    | some _, some .directory => .error (.os .isDirectory)
    | some _, _ => .ok (if old = new then t else t.move old new)
  | _, _ => .error (.os .busy)

end FileTree

/-- A change to one or two paths. -/
inductive FileEdit where
  | makeLink (path target : Path)
  | setMode (path : Path) (mode : Nat)
  | unlink (path : Path)
  | rename (source dest : Path)
  deriving DecidableEq

def FileTree.edit (t : FileTree) (cwd : Location) : FileEdit → Except IoError FileTree
  | .makeLink path target => t.makeLink cwd path target
  | .setMode path mode => t.setMode cwd path mode
  | .unlink path => t.unlink cwd path
  | .rename source dest => t.rename cwd source dest

end KernelTrace
