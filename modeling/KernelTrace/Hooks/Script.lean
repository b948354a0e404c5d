import KernelTrace.Files.Edit

/-!
# Scripts

A hook may be a script: a file that everybody may execute, whose first line names the shell.
-/

namespace KernelTrace.Script

def mode : Nat := 0o755

/-- The content of the script with some commands. -/
def content (body : String) : Bytes := Utf8.encode ("#!/bin/sh\n" ++ body ++ "\n")

def write (t : FileTree) (cwd : Location) (p : Path) (body : String) :
    Except IoError FileTree := do
  (← t.writeFile cwd p (content body) mode).setMode cwd p mode

end KernelTrace.Script
