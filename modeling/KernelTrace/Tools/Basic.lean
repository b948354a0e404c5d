import KernelTrace.Data.Pieces
import KernelTrace.Host.Operation
import KernelTrace.Text.Octets

/-!
# Tools

A tool is a small program that scripts use: it is given words, reads files or its input, writes to
its output, and ends with a status that says whether all went well.
-/

namespace KernelTrace

variable {ι : Type}

/-- A tool, given its words after its name. -/
abbrev Tool (ι : Type) := List Octets → Running ι Nat

namespace Tool

def say (t : Octets) : Running ι Unit := do
  if t ≠ [] then
    let _ ← Running.request (.write 1 (Octets.toBytes t))

def complain (who : String) (message : Octets) : Running ι Unit := do
  let _ ← Running.request (.write 2 (Octets.toBytes (who.toList ++ ": ".toList ++ message ++ ['\n'])))

/-- Says where to find out how a tool is used. -/
def hint (who : String) : Running ι Unit :=
  Running.writeText 2 ("Try '" ++ who ++ " --help' for more information.\n")

def pathOf (w : Octets) : Path := ⟨Octets.toBytes w⟩

/-- The wording of a refusal, without its number. -/
def reason : IoError → Octets
  | .os e => e.wording.toList
  | e => e.message.toList

/-- Says that something could not be done with a file. -/
def complainOf (who : String) (what : String) (file : Octets) (e : IoError) : Running ι Unit :=
  complain who (what.toList ++ ['\x27'] ++ file ++ "': ".toList ++ reason e)

/-- The letters of the options before the other words, and the other words. -/
def options (words : List Octets) : List Char × List Octets :=
  let isOption (w : Octets) : Bool := w.head? = some '-' && w.length > 1 && w ≠ "--".toList
  let flags := (words.takeWhile isOption).flatMap List.tail
  let rest := words.dropWhile isOption
  (flags, if rest.head? = some "--".toList then rest.tail else rest)

/-- Does something for every word: one if it failed for some word, and zero otherwise. -/
def forEach (words : List Octets) (f : Octets → Running ι Bool) : Running ι Nat := do
  let mut status := 0
  for w in words do
    if !(← f w) then status := 1
  return status

/-- Does something for every word, of which there has to be one. -/
def forSome (who : String) (words : List Octets) (f : Octets → Running ι Bool) : Running ι Nat := do
  if words = [] then
    complain who "missing operand".toList
    hint who
    return 1
  else forEach words f

/-- The content of a file, or of the input if the word is a dash. -/
def contentOf (w : Octets) : Running ι (Except IoError Octets) := do
  if w = ['-'] then return (← Running.readAll 0).map Octets.ofBytes
  else
    match ← Running.request (.openFile (pathOf w) .read) with
    | .error e => return .error e
    | .ok fd =>
      let content ← Running.readAll fd
      Running.request (.close fd)
      return content.map Octets.ofBytes

/-- Does something with the content of every file, or of the input if there is none. -/
def forContents (who : String) (files : List Octets) (f : Octets → Octets → Running ι Unit) :
    Running ι Nat :=
  forEach (if files = [] then [['-']] else files) fun file => do
    match ← contentOf file with
    | .ok content =>
      f file content
      return true
    | .error e =>
      complain who (file ++ ": ".toList ++ reason e)
      return false

/-- The lines of a text, the last one with or without an end. -/
def linesOf (t : Octets) : List Octets :=
  let ps := pieces '\n' t
  if ps.getLast? = some [] then ps.dropLast else ps

def ofLines (ls : List Octets) : Octets := ls.flatMap (· ++ ['\n'])

/-- The number that a word is, in decimal digits. -/
def natural? (t : Octets) : Option Nat :=
  if t ≠ [] ∧ t.all Char.isDigit then
    some (t.foldl (fun n c => n * 10 + (c.toNat - '0'.toNat)) 0)
  else none

end Tool

end KernelTrace
