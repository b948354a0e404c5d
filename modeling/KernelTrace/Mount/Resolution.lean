import KernelTrace.Actions
import KernelTrace.Mount.Table
import KernelTrace.Tracing.Root

/-!
# Finding the tracing root

Usually the tracing files are at a well-known place and no mount table is looked at. A process
that sees the machine's process and system information somewhere else says so with overrides; then
the root is read off the mount table it sees, and moved along with the system information. A native
mount is taken as it is listed, a debug file system only if its `tracing` directory is there.
Whatever goes wrong, the well-known place remains.
-/

namespace KernelTrace

/-- Where the process and system information is seen, if not at the usual places. -/
structure RootOverrides where
  procfs : Option Path
  sysfs : Option Path
  deriving DecidableEq

namespace RootOverrides

def none : RootOverrides := ⟨.none, .none⟩

def isEmpty (o : RootOverrides) : Bool := o.procfs.isNone && o.sysfs.isNone

def mountTable (o : RootOverrides) : Path := (o.procfs.getD "/proc").join "mounts"

end RootOverrides

/-- Why a mount table gave no tracing root. -/
inductive MountFault where
  | unreadable (table : Path) (source : IoError)
  /-- The table lists nothing that can be used. -/
  | notMounted (table : Path)
  deriving DecidableEq

def MountFault.message : MountFault → String
  | unreadable table source =>
    s!"failed to read mount table {table.display}: {source.message}"
  | notMounted table =>
    s!"neither tracefs nor debugfs is mounted according to {table.display}"

abbrev DirectoryTest : Signature := ⟨Path, fun _ => Bool⟩

namespace MountScan

def systemTop : Path := "/sys"

/-- A path moved from the usual place of the system information to `sysfs`, if one is given. -/
def rebase (p : Path) (sysfs : Option Path) : Path :=
  match sysfs, p.stripTop? systemTop with
  | some s, some rest => s.join rest
  | _, _ => p

def select (scan : MountScan) (sysfs : Option Path) :
    Program DirectoryTest (Option TracingRoot) :=
  match scan.tracefs, scan.debugfs with
  | some p, _ => return some ⟨rebase p sysfs, .tracefs⟩
  | none, some p => do
    let tracing := rebase (p.join "tracing") sysfs
    if ← Program.perform (σ := DirectoryTest) tracing then return some ⟨tracing, .debugfs⟩
    else return none
  | none, none => return none

end MountScan

namespace TracingRoot

/-- Whether a path is a directory, as a question to the file system. -/
def isDirectory (p : Path) : Program FileSystem Bool := do
  return FileStatus.isDirectory (← Program.perform (σ := FileSystem) (.status p))

/-- Reads the tracing root off the mount table. -/
def ofMountTable (o : RootOverrides) : Program FileSystem (Except MountFault TracingRoot) := do
  let table := o.mountTable
  match ← Program.perform (σ := FileSystem) (.read table) with
  | .error e => return .error (.unreadable table e)
  | .ok content =>
    match MountTable.scan content with
    | .error e => return .error (.unreadable table e)
    | .ok scan =>
      match ← (scan.select o.sysfs).expand isDirectory with
      | some root => return .ok root
      | none => return .error (.notMounted table)

def nativePlace : Path := "/sys/kernel/tracing"

def debugPlace : Path := "/sys/kernel/debug/tracing"

/-- The place to assume when no mount table helps: the older one only if it alone is there. -/
def wellKnown : Program FileSystem TracingRoot := do
  if ← isDirectory nativePlace then return ⟨nativePlace, .assumed⟩
  if ← isDirectory debugPlace then return ⟨debugPlace, .assumed⟩
  return ⟨nativePlace, .assumed⟩

def resolve (o : RootOverrides) : Program (Actions FileSystem) TracingRoot := do
  if o.isEmpty then Actions.ofBackend wellKnown
  else match ← Actions.ofBackend (ofMountTable o) with
    | .ok root =>
      Actions.log .debug s!"tracing root resolved to {root.path.display} ({root.kind.name})"
      return root
    | .error fault =>
      let root ← Actions.ofBackend wellKnown
      Actions.log .warn s!"{fault.message}, falling back to {root.path.display}"
      return root

end TracingRoot

end KernelTrace
