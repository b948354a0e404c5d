import KernelTrace.Data.Pieces
import KernelTrace.Os.Error
import KernelTrace.Path
import KernelTrace.Text.Blank
import KernelTrace.Text.Number

/-!
# The mount table

The kernel lists what is mounted as one line per mount: what is mounted, where, and as which type,
separated by white space. White space and backslashes inside a field are written as a backslash
and three octal digits, so a line has the fields it seems to have.

Of the table only two mount points matter: that of the first tracing file system, and that of the
first debug file system before it. Reading stops where the first of these is found, so what follows
it may be anything; a line that is no text before that is an error.
-/

namespace KernelTrace

/-- One mount. -/
structure MountRecord where
  device : String
  /-- Where, as it is written in the table. -/
  place : String
  kind : String
  deriving DecidableEq

/-- The mount points of a table that tracing is interested in. -/
structure MountScan where
  /-- Where the first tracing file system is mounted. -/
  tracefs : Option Path
  /-- Where the first debug file system before it is mounted. -/
  debugfs : Option Path
  deriving DecidableEq

namespace MountTable

/-! ## Escapes -/

/-- The byte that a backslash and three more bytes stand for, if they are an escape. The three are
read as an octal number, which may have a plus sign. -/
def escaped? (b d₁ d₂ d₃ : UInt8) : Option UInt8 :=
  if b = 0x5C then
    (Number.unsigned? 8 256 ([d₁, d₂, d₃].map fun d => Char.ofNat d.toNat)).map UInt8.ofNat
  else none

/-- The bytes that a field stands for. A backslash that starts no escape stands for itself. -/
def unescape : Bytes → Bytes
  | b :: d₁ :: d₂ :: d₃ :: rest =>
    match escaped? b d₁ d₂ d₃ with
    | some v => v :: unescape rest
    | none => b :: unescape (d₁ :: d₂ :: d₃ :: rest)
  | short => short

/-! ## Records -/

def newline : UInt8 := 0x0A

/-- The lines of a table. What follows the last newline is a line if it is not empty. -/
def lines (table : Bytes) : List Bytes :=
  let ps := pieces newline table
  if ps.getLast? = some [] then ps.dropLast else ps

/-- The mount that a line describes. A line of fewer than three fields describes none. -/
def recordOf? (line : String) : Option MountRecord :=
  match Blank.fields line with
  | device :: place :: kind :: _ => some ⟨device, place, kind⟩
  | _ => none

def MountRecord.path (r : MountRecord) : Path := ⟨unescape (Utf8.encode r.place)⟩

def tracingKind : String := "tracefs"

def debugKind : String := "debugfs"

/-- Looks for the interesting mounts in lines, where `debugfs` was found before. -/
def scanLines (debugfs : Option Path) : List Bytes → Except IoError MountScan
  | [] => .ok ⟨none, debugfs⟩
  | line :: rest =>
    match Utf8.decode? line with
    | none => .error .notText
    | some text =>
      match recordOf? text with
      | none => scanLines debugfs rest
      | some r =>
        if r.kind = tracingKind then .ok ⟨some (MountRecord.path r), debugfs⟩
        else if r.kind = debugKind ∧ debugfs = none then
          scanLines (some (MountRecord.path r)) rest
        else scanLines debugfs rest

def scan (table : Bytes) : Except IoError MountScan := scanLines none (lines table)

example : (Utf8.decodeLossy (unescape (Utf8.encode "/a\\040b\\\\x"))) = "/a b\\\\x" := by
  decide +kernel

end MountTable

end KernelTrace
