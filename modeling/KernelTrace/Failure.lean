/-!
# Reporting a failure

A command that fails says why, from the outermost failure down to the innermost cause. One cause
stands alone; several are numbered. Lines after the first are indented as far as the first one.
-/

namespace KernelTrace

/-- A failure and the causes below it, outermost first. -/
structure Failure where
  message : String
  causes : List String
  deriving DecidableEq

namespace Failure

/-- The failure with a chain of wordings, outermost first. -/
def ofChain (chain : List String) : Failure := ⟨chain.headD "", chain.drop 1⟩

/-- The failure of something because of another failure. -/
def within (context : String) (f : Failure) : Failure := ⟨context, f.message :: f.causes⟩

/-- A text whose lines after the first are indented. -/
def indentLines (indent : List Char) (text : String) : String :=
  String.ofList (text.toList.flatMap fun c => if c = '\n' then c :: indent else [c])

def blanks (n : Nat) : List Char := List.replicate n ' '

def numbered (i : Nat) (cause : String) : String :=
  let number := toString i
  String.ofList (blanks (5 - number.length)) ++ number ++ ": " ++ indentLines (blanks 7) cause

def report (f : Failure) : String :=
  match f.causes with
  | [] => f.message
  | [cause] => f.message ++ "\n\nCaused by:\n    " ++ indentLines (blanks 4) cause
  | causes => f.message ++ "\n\nCaused by:\n" ++ "\n".intercalate (causes.mapIdx numbered)

example : (Failure.mk "a" ["b"]).report = "a\n\nCaused by:\n    b"
    ∧ (Failure.mk "a" ["b", "c\nd"]).report
      = "a\n\nCaused by:\n    0: b\n    1: c\n       d" := by decide +kernel

end Failure

end KernelTrace
