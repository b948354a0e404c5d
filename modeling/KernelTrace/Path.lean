import KernelTrace.Data.Pieces
import KernelTrace.Text.Utf8

/-!
# Paths

A path is a byte string. Its *components* are what it means: repeated separators, trailing ones
and inner dots do not count, while `..` is kept, because what lies above a directory depends on the
links on the way to it. Two paths are compared, and one is stripped off another, by components.

Joining works on the bytes: an absolute right side replaces the left, and joining the empty path
only adds a separator. So `join` is not injective in general; for names without separators it is,
which is what keeps instances apart.
-/

namespace KernelTrace

/-- A path of the file system, as its bytes. -/
structure Path where
  bytes : Bytes
  deriving DecidableEq, Inhabited

/-- One component of a path. -/
inductive Path.Component where
  | root
  | here
  | up
  | name (bytes : Bytes)
  deriving DecidableEq

namespace Path

def separator : UInt8 := 0x2F

def dot : Bytes := [0x2E]

/-- The name of a directory's parent in it. -/
def dotDot : Bytes := [0x2E, 0x2E]

def ofString (s : String) : Path := ⟨Utf8.encode s⟩

instance : Coe String Path := ⟨ofString⟩

/-- The path as text, with U+FFFD for what is no character. -/
def display (p : Path) : String := Utf8.decodeLossy p.bytes

/-- Whether the path starts at the root of the file system. -/
def isAbsolute (p : Path) : Bool := p.bytes.head? == some separator

/-- The pieces of a byte string between separators, at least one. -/
def pieces (b : Bytes) : List Bytes := KernelTrace.pieces separator b

/-- The path one gets to by following `q` from the directory `p`. -/
def join (p q : Path) : Path :=
  if q.isAbsolute then q
  else match p.bytes.getLast? with
    | none => q
    | some b => if b = separator then ⟨p.bytes ++ q.bytes⟩ else ⟨p.bytes ++ separator :: q.bytes⟩

/-- Whether a piece between separators has no meaning in the middle of a path. -/
def isVoid (piece : Bytes) : Bool := piece = [] || piece = dot

/-- The components that pieces after the beginning of a path stand for. -/
def bodyComponents (ps : List Bytes) : List Component :=
  (ps.filter (! isVoid ·)).map fun p => if p = dotDot then .up else .name p

def components (p : Path) : List Component :=
  let body := bodyComponents (pieces p.bytes)
  if p.isAbsolute then .root :: body
  else if (pieces p.bytes).head? = some dot then .here :: body
  else body

/-- Whether the components of `q` are the first components of `p`. -/
def startsWith (p q : Path) : Bool := q.components.isPrefixOf p.components

/-- Drops `n` components off pieces, and with each the void pieces before it. -/
def dropNames : Nat → List Bytes → List Bytes
  | 0, ps => ps
  | _ + 1, [] => []
  | n + 1, p :: ps => if isVoid p then dropNames (n + 1) ps else dropNames n ps

/-- What follows the absolute path `top` in `p`, without the separators and dots around it. -/
def stripTop? (p top : Path) : Option Path :=
  if p.isAbsolute && p.startsWith top then
    let rest := dropNames (top.components.length - 1) (pieces p.bytes)
    let rest := ((rest.dropWhile isVoid).reverse.dropWhile isVoid).reverse
    some ⟨[separator].intercalate rest⟩
  else none

/-- The last component, if it is a name. -/
def fileName? (p : Path) : Option Bytes :=
  match p.components.getLast? with
  | some (.name n) => some n
  | _ => none

/-- The path without its last component and the separators before that, if it has a component that
is not the root. -/
def parent? (p : Path) : Option Path :=
  match p.components.getLast? with
  | none | some .root => none
  | some .here => some ⟨[]⟩
  | some _ =>
    let lead := if p.isAbsolute || (pieces p.bytes).head? = some dot then 1 else 0
    let body := ((pieces p.bytes).drop lead).reverse.dropWhile isVoid
    let kept := (pieces p.bytes).take lead ++ ((body.drop 1).dropWhile isVoid).reverse
    some ⟨if kept = [[]] then [separator] else [separator].intercalate kept⟩

example : (join "/a" "b").display = "/a/b" ∧ (join "/a" "").display = "/a/"
    ∧ (join "" "b").display = "b" ∧ (join "/a" "/b").display = "/b" := by decide +kernel

example : (stripTop? "/sys//kernel/./tracing/" "/sys").map display = some "kernel/./tracing"
    ∧ (stripTop? "/sys" "/sys").map display = some ""
    ∧ (stripTop? "/sysfs/a" "/sys").map display = none := by decide +kernel

example : (parent? "/a/./b/").map display = some "/a" ∧ (parent? "/a").map display = some "/"
    ∧ (parent? "./a").map display = some "." ∧ (parent? "a").map display = some ""
    ∧ (parent? "/").map display = none := by decide +kernel

end Path

end KernelTrace
