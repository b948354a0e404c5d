import KernelTrace.Actions

/-!
# Hooks

A hook is an executable that knows how to trace something. Hooks live in one directory; the name of
their file is a mark, the logical name, and whatever follows the first dot, so that variants for
several machines stand side by side under one name. A registry is what one look at the directory
found, in byte order of the file names.

Links are followed. A link that leads nowhere or back to the directory itself is worth a warning
and does not spoil the rest.
-/

namespace KernelTrace

/-- What went wrong while a directory was looked through. -/
inductive WalkFault where
  /-- The system refused to look at a path. -/
  | io (path : Path) (source : IoError)
  /-- A link leads back to a directory that it is in. -/
  | loop (path ancestor : Path)
  deriving DecidableEq

namespace WalkFault

def message : WalkFault → String
  | io path source => s!"IO error for operation on {path.display}: {source.message}"
  | loop path ancestor =>
    s!"File system loop found: {path.display} points to an ancestor {ancestor.display}"

/-- The wordings of the fault and of what is below it, outermost first. -/
def chain (f : WalkFault) : List String :=
  f.message :: match f with
    | io _ source => [source.message]
    | loop .. => []

end WalkFault

/-- One executable trace definition. -/
structure Hook where
  name : String
  path : Path
  deriving DecidableEq

/-- The hooks of one directory. -/
structure HookRegistry where
  dir : Path
  /-- The hooks, in byte order of the file names. -/
  hooks : List Hook
  deriving DecidableEq

namespace Hook

/-- What the file names of hooks start with. -/
def mark : String := "trace_"

/-- What follows the mark in a text, if it is there. -/
def afterMark? (s : String) : Option (List Char) :=
  if mark.toList.isPrefixOf s.toList then some (s.toList.drop mark.length) else none

/-- The logical name of a hook with a file name: what stands between the mark and the first dot, if
it is not empty. -/
def logicalName? (fileName : String) : Option String :=
  match afterMark? fileName with
  | none => none
  | some rest =>
    let stem := rest.takeWhile (· ≠ '.')
    if stem = [] then none else some (String.ofList stem)

/-- The logical name that is asked for by a name with or without the mark. -/
def wanted (name : String) : String := ((afterMark? name).map String.ofList).getD name

end Hook

abbrev HookSearch := Program (Actions FileSystem)

namespace HookSearch

def status (p : Path) : HookSearch (Except IoError FileStatus) :=
  Actions.backend (β := FileSystem) (.status p)

/-- Looks at a path without following a link at the end. -/
def linkStatus (p : Path) : HookSearch (Except IoError FileStatus) :=
  Actions.backend (β := FileSystem) (.linkStatus p)

def list (p : Path) : HookSearch (Except IoError (List (Bytes × Entry))) :=
  Actions.backend (β := FileSystem) (.list p)

/-- What a directory entry at `path` leads to, if it is no link that leads nowhere or back to the
directory at `home`. -/
def follow (dir path : Path) (home : Location) (e : Entry) :
    HookSearch (Except WalkFault Entry) := do
  match e with
  | .link _ =>
    match ← status path with
    | .error source => return .error (.io path source)
    | .ok s =>
      if s.entry.isDirectory ∧ s.location = home then return .error (.loop path dir)
      else return .ok s.entry
  | other => return .ok other

/-- Whether an entry, links followed, is a file, and its path leads to what somebody may execute. -/
def isExecutable (path : Path) (e : Entry) : HookSearch Bool := do
  if e.isFile then
    match ← status path with
    | .error _ => return false
    | .ok s => return s.entry.mode &&& 0o111 ≠ 0
  else return false

/-- The hook that a directory entry is, if it is one. -/
def candidate (dir : Path) (home : Location) (name : Bytes) (e : Entry) :
    HookSearch (Option Hook) := do
  let path := dir.join ⟨name⟩
  match ← follow dir path home e with
  | .error fault =>
    Actions.log .warn s!"skipping hook candidate: {fault.message}"
    return none
  | .ok entry =>
    match (Utf8.decode? name).bind Hook.logicalName? with
    | none => return none
    | some logical =>
      if ← isExecutable path entry then return some ⟨logical, path⟩
      else
        Actions.log .debug s!"{path.display} is not an executable file"
        return none

def candidates (dir : Path) (home : Location) : List (Bytes × Entry) → HookSearch (List Hook)
  | [] => return []
  | (name, e) :: rest => do
    let hook ← candidate dir home name e
    let hooks ← candidates dir home rest
    return hook.toList ++ hooks

end HookSearch

namespace HookRegistry

open HookSearch

/-- The registry of the hooks found in a directory. -/
def found (dir : Path) (hooks : List Hook) : HookSearch (Except WalkFault HookRegistry) := do
  Actions.log .debug s!"found {hooks.length} hooks in {dir.display}"
  return .ok ⟨dir, hooks⟩

/-- Looks for hooks in a directory. A path that leads to something else has none. -/
def discover (dir : Path) : HookSearch (Except WalkFault HookRegistry) := do
  match ← linkStatus dir with
  | .error source => return .error (.io dir source)
  | .ok _ =>
    match ← status dir with
    | .error source => return .error (.io dir source)
    | .ok s =>
      if s.entry.isDirectory then
        match ← list dir with
        | .error source => return .error (.io dir source)
        | .ok entries => found dir (← candidates dir s.location entries)
      else found dir []

/-- The logical names, each once, in order of first appearance. -/
def names (r : HookRegistry) : List String :=
  r.hooks.foldl (fun seen h => if h.name ∈ seen then seen else seen ++ [h.name]) []

/-- The executables for a name, which may carry the mark. -/
def lookup (r : HookRegistry) (name : String) : List Path :=
  (r.hooks.filter (·.name = Hook.wanted name)).map (·.path)

end HookRegistry

end KernelTrace
