import KernelTrace.Data.SortedMap
import KernelTrace.Text.Utf8

/-!
# The environment of a program

Named byte strings that a program is started with and passes on to those it starts.
-/

namespace KernelTrace

/-- The environment of a program. -/
structure Environment where
  vars : SortedMap String Bytes
  deriving DecidableEq, Inhabited

namespace Environment

def empty : Environment := ⟨.empty⟩

def get? (e : Environment) (name : String) : Option Bytes := e.vars.get? name

def set (e : Environment) (name : String) (value : Bytes) : Environment :=
  ⟨e.vars.insert name value⟩

def unset (e : Environment) (name : String) : Environment := ⟨e.vars.erase name⟩

def setAll (e : Environment) (vars : List (String × Bytes)) : Environment :=
  vars.foldl (fun e v => e.set v.1 v.2) e

end Environment

end KernelTrace
