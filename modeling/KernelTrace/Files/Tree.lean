import KernelTrace.Data.SortedMap
import KernelTrace.Path

/-!
# File trees

A file tree holds directories, files and symbolic links by their *location*, the names from the
root down to them. The root itself is always a directory and has no entry. A tree is a
`SortedMap`, so a statement about what an operation leaves alone is a statement about the lookup
of every other location, and a tree that was put back as it was is equal to the old one.

A path is not a location: links and `..` stand between them (see `Files.Lookup`).
-/

namespace KernelTrace

/-- The names from the root of the file system down to a file. -/
abbrev Location := List Bytes

/-- What a location holds. -/
inductive Entry where
  /-- A directory. Its contents are the entries one name below it. -/
  | directory
  /-- A regular file with its content and its permission bits. -/
  | file (content : Bytes) (mode : Nat)
  | link (target : Path)
  deriving DecidableEq

namespace Entry

def isDirectory : Entry → Bool
  | directory => true
  | _ => false

def isFile : Entry → Bool
  | file .. => true
  | _ => false

/-- The permission bits of the entry. Directories and links can be entered and followed by
everybody. -/
def mode : Entry → Nat
  | file _ mode => mode
  | directory => 0o755
  | link _ => 0o777

end Entry

/-- The files of a machine. -/
structure FileTree where
  entries : SortedMap Location Entry
  deriving DecidableEq, Inhabited

namespace FileTree

def empty : FileTree := ⟨SortedMap.empty⟩

/-- What a location holds. The root is a directory. -/
def get? (t : FileTree) (loc : Location) : Option Entry :=
  if loc = [] then some .directory else t.entries.get? loc

def put (t : FileTree) (loc : Location) (entry : Entry) : FileTree :=
  if loc = [] then t else ⟨t.entries.insert loc entry⟩

def erase (t : FileTree) (loc : Location) : FileTree := ⟨t.entries.erase loc⟩

/-- The tree without the entry at `loc` and everything below it. -/
def prune (t : FileTree) (loc : Location) : FileTree :=
  ⟨t.entries.filter fun l _ => ! loc.isPrefixOf l⟩

/-- The names in a directory and what they stand for, in byte order of the names. -/
def children (t : FileTree) (loc : Location) : List (Bytes × Entry) :=
  t.entries.entries.filterMap fun (l, e) =>
    match l.getLast? with
    | some n => if l.dropLast = loc then some (n, e) else none
    | none => none

/-- Adds the directories on the way to `loc` that are not there. -/
def putParents (t : FileTree) (loc : Location) : FileTree :=
  (List.range loc.length).foldl
    (fun t n => match t.get? (loc.take n) with
      | some _ => t
      | none => t.put (loc.take n) .directory)
    t

/-! ## What changing one location does to the others -/

@[simp] theorem get?_root (t : FileTree) : t.get? [] = some .directory := rfl

theorem get?_put (t : FileTree) {loc : Location} (loc' : Location) (e : Entry)
    (h : loc ≠ []) : (t.put loc e).get? loc' = if loc' = loc then some e else t.get? loc' := by
  unfold get? put
  by_cases h' : loc' = []
  · have : [] ≠ loc := Ne.symm h
    simp [h', this]
  · simp [h, h']

theorem get?_erase (t : FileTree) {loc : Location} (loc' : Location) (h : loc ≠ []) :
    (t.erase loc).get? loc' = if loc' = loc then none else t.get? loc' := by
  unfold get? erase
  by_cases h' : loc' = []
  · have : [] ≠ loc := Ne.symm h
    simp [h', this]
  · simp [h']

/-- Two trees that hold the same at every location are equal. -/
theorem ext_get? {t₁ t₂ : FileTree} (h : ∀ loc, t₁.get? loc = t₂.get? loc)
    (h₁ : t₁.entries.get? [] = none) (h₂ : t₂.entries.get? [] = none) : t₁ = t₂ := by
  cases t₁ with | mk m₁ => cases t₂ with | mk m₂ =>
  congr 1
  refine SortedMap.ext_get? fun loc => ?_
  by_cases hl : loc = []
  · subst hl; exact h₁.trans h₂.symm
  · simpa [get?, hl] using h loc

end FileTree

end KernelTrace
