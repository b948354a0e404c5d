import KernelTrace.Mount.Resolution

/-!
# Settings shared by the programs

The dispatcher and every trace definition see the machine's process and system information in the
same places: what is overridden for the one is passed on to the others in their environment.
-/

namespace KernelTrace

/-- The settings that every program of this library has. -/
structure Config where
  /-- Where process information is read from, if not at the usual place. -/
  procfs : Option Path
  /-- Where system information is read from, if not at the usual place. -/
  sysfs : Option Path
  verbose : Bool
  deriving DecidableEq

namespace Config

/-- The environment variable that overrides where process information is read from. -/
def procfsVariable : String := "TRACER_PROCFS_PATH"

/-- The environment variable that overrides where system information is read from. -/
def sysfsVariable : String := "TRACER_SYSFS_PATH"

/-- The environment variable that makes a program say everything. -/
def verboseVariable : String := "TRACER_VERBOSE"

def overrides (c : Config) : RootOverrides := ⟨c.procfs, c.sysfs⟩

def procfsDir (c : Config) : Path := c.procfs.getD "/proc"

/-- The overrides as environment variables for other programs. -/
def env (c : Config) : List (String × Path) :=
  (c.procfs.map (procfsVariable, ·)).toList ++ (c.sysfs.map (sysfsVariable, ·)).toList

end Config

end KernelTrace
