import KernelTrace.Shell.Arithmetic
import KernelTrace.Shell.Pattern
import KernelTrace.Shell.State

/-!
# What words become

The pieces of a word are replaced by characters, each with a mark that says whether it was quoted
and whether it may be split off. What was not quoted is then split into fields at separators, and a
field that is a pattern becomes the names of the files that match it. Words of which exactly one
field is wanted are only replaced.
-/

namespace KernelTrace.Shell

/-- A character of what a word becomes, or a boundary. -/
inductive Atom where
  | fixed (c : Char) (isQuoted : Bool)
  /-- A character that may be a separator of fields. -/
  | loose (c : Char)
  /-- A place that makes a field, even if there is no character in it. -/
  | edge
  | cut

namespace Atom

/-- A text that may be split, or one that was quoted. -/
def ofText (isQuoted : Bool) (t : Octets) : List Atom :=
  if isQuoted then edge :: t.map (fixed · true) else t.map loose

def text (as : List Atom) : Octets := as.filterMap fun a =>
  match a with
  | fixed c _ | loose c => some c
  | edge => none
  | cut => some ' '

def marked (as : List Atom) : List Marked := as.filterMap fun a =>
  match a with
  | fixed c q => some (c, q)
  | loose c => some (c, false)
  | _ => none

/-- Characters that were not quoted, as characters that may be split off. -/
def loosen (as : List Atom) : List Atom := as.map fun a =>
  match a with
  | fixed c false => loose c
  | a => a

/-- Whether a separator is white space, of which any number separates once. -/
def isSoft (c : Char) : Bool := c = ' ' || c = '\t' || c = '\n'

/-- The fields of atoms. `field` are the characters of the field so far, last one first, if there is
a field; `softly` says that white space has just ended one. -/
def split (separators : Octets) : (field : Option (List Marked)) → (softly : Bool) → List Atom →
    List (List Marked)
  | field, _, [] => (field.map List.reverse).toList
  | field, softly, a :: rest =>
    match a with
    | fixed c q => split separators (some ((c, q) :: field.getD [])) false rest
    | edge => split separators (some (field.getD [])) false rest
    | cut => (field.map List.reverse).toList ++ split separators none false rest
    | loose c =>
      if !separators.contains c then
        split separators (some ((c, false) :: field.getD [])) false rest
      else if isSoft c then
        (field.map List.reverse).toList
          ++ split separators none (softly || field.isSome) rest
      else if field.isNone && softly then split separators none false rest
      else (field.getD []).reverse :: split separators none false rest

example : (split " ".toList none false (ofText false " a  b ".toList)).length = 2
    ∧ (split " ".toList none false (ofText true []) ).length = 1
    ∧ (split " ,".toList none false (ofText false "a , ,b".toList)).length = 3 := by
  decide +kernel

end Atom

namespace Exec

/-! ## Parameters -/

/-- The value of a parameter that has one value. -/
def parameter? (name : Octets) : Exec (Option Octets) := do
  let s ← get
  match name with
  | ['#'] => return some (Octets.ofNat s.args.length)
  | ['?'] => return some (Octets.ofNat s.status)
  | ['$'] => return some (Octets.ofNat s.pid)
  | ['!'] => return s.latest.map Octets.ofNat
  | ['-'] => return some s.options
  | ['0'] => return some s.name
  | _ =>
    if name.all Char.isDigit then
      let n := name.foldl (fun n c => n * 10 + (c.toNat - '0'.toNat)) 0
      return if n = 0 then some s.name else s.args[n - 1]?
    else valueOf? name

def isArguments (name : Octets) : Bool := name = ['@'] || name = ['*']

/-- The values of a parameter, or nothing if it is not set. -/
def values? (name : Octets) : Exec (Option (List Octets)) := do
  if isArguments name then
    let args := (← get).args
    return if args = [] then none else some args
  else return (← parameter? name).map ([·])

def ofValues (name : Octets) (isQuoted : Bool) (values : List Octets) : Exec (List Atom) := do
  if name = ['*'] ∧ isQuoted then
    let joint := (← separators).take 1
    return Atom.ofText true (joint.intercalate values)
  else return [Atom.cut].intercalate (values.map (Atom.ofText isQuoted))

/-! ## Words -/

/-- The place that a parameter without a value leaves. -/
def leftover (name : Octets) (isQuoted : Bool) : List Atom :=
  if isQuoted && name ≠ ['@'] then [.edge] else []

/-- A text without the line ends at its end. -/
def withoutEnds (t : Octets) : Octets := (t.reverse.dropWhile (· = '\n')).reverse

/-- What a command writes, run in a shell divided off. -/
def outputOf (body : Command) : Exec Octets := do
  let (source, sink) ← request .pipe
  let pid ← divide (.evaluate body) [(sink, 1)] [source, sink] false
  request (.close sink)
  let content ← readToEnd source plenty []
  request (.close source)
  let status ← waitFor pid false plenty
  modify fun s => { s with substituted := some ((status.map statusOf).getD 127) }
  return withoutEnds ((Octets.ofBytes content).filter (· ≠ '\x00'))

def calculate (text : Octets) : Exec Octets := do
  let s ← get
  let lookup (name : Octets) : Octets :=
    ((s.vars.lookup name).bind (·.value)).getD []
  let (result, assigned) := Arithmetic.evaluate lookup text
  match result with
  | .error e =>
    if "Illegal number".toList.isPrefixOf e.toList then fail none e.toList
    else fail none ("arithmetic expression: ".toList ++ e.toList ++ ": \"".toList ++ text ++ ['\x22'])
  | .ok n =>
    assigned.forM fun (name, value) => assign name (Octets.ofInt value)
    return Octets.ofInt n

def counts (empty : Bool) (values : Option (List Octets)) : Option (List Octets) :=
  values.filter fun vs => !(empty && vs.all (· = []))

/-- Replaces the pieces of a word. `fuel` bounds how deep words stand in words. -/
def replace : (fuel : Nat) → Word → Exec (List Atom)
  | 0, _ => fail none "too deep".toList
  | _, [] => return []
  | fuel + 1, p :: rest => do
    let here ← match p with
      | .plain t => pure (t.map (Atom.fixed · false))
      | .quoted t => pure (Atom.edge :: t.map (Atom.fixed · true))
      | .output body q => return Atom.ofText q (← outputOf body) ++ (← replace fuel rest)
      | .value expression q =>
        let text ← replace fuel expression
        return Atom.ofText q (← calculate (Atom.text text)) ++ (← replace fuel rest)
      | .parameter name use q =>
        let values ← values? name
        let inner (w : Word) : Exec (List Atom) := do
          let as ← replace fuel w
          return if q then Atom.edge :: as else Atom.loosen as
        match use with
        | .value =>
          match values with
          | some vs => ofValues name q vs
          | none =>
            if (← get).options.contains 'u' && !isArguments name then
              fail none (name ++ ": parameter not set".toList)
            else pure (leftover name q)
        | .length =>
          match isArguments name, values with
          | true, vs => pure (Atom.ofText q (Octets.ofNat ([' '].intercalate (vs.getD [])).length))
          | false, some vs => pure (Atom.ofText q (Octets.ofNat (vs.headD []).length))
          | false, none =>
            if (← get).options.contains 'u' then fail none (name ++ ": parameter not set".toList)
            else pure (Atom.ofText q ['0'])
        | .orElse empty w =>
          match counts empty values with
          | some vs => ofValues name q vs
          | none => inner w
        | .orAssign empty w =>
          match counts empty values with
          | some vs => ofValues name q vs
          | none =>
            if !Octets.isName name then
              fail none (name ++ ": bad variable name".toList)
            else
              let value := Atom.text (← replace fuel w)
              assign name value
              pure (Atom.ofText q value)
        | .orFail empty w =>
          match counts empty values with
          | some vs => ofValues name q vs
          | none =>
            let message := Atom.text (← replace fuel w)
            let message := if message ≠ [] then message
              else if empty then "parameter not set or null".toList
              else "parameter not set".toList
            fail none (name ++ ": ".toList ++ message)
        | .instead empty w =>
          match counts empty values with
          | some _ => inner w
          | none => pure (leftover name q)
        | .trim atEnd longest w =>
          match values with
          | none => pure (leftover name q)
          | some vs =>
            let pattern := Pattern.ofMarked (Atom.marked (← replace fuel w))
            ofValues name q (vs.map (pattern.trim atEnd longest))
        | .unknown => fail none "Bad substitution".toList
    return here ++ (← replace fuel rest)

/-- A word with the home directory in the place of a tilde at its start. -/
def homeward : Word → Exec Word
  | .plain ('~' :: t) :: rest => do
    if t = [] ∧ rest = [] ∨ t.head? = some '/' then
      match ← valueOf? "HOME".toList with
      | some home => return .quoted home :: .plain t :: rest
      | none => return .plain ('~' :: t) :: rest
    else return .plain ('~' :: t) :: rest
  | w => return w

def depth : Nat := 100000

def atoms (w : Word) : Exec (List Atom) := do replace depth (← homeward w)

/-- What a word becomes that is one field. -/
def single (w : Word) : Exec Octets := return Atom.text (← atoms w)

def pattern (w : Word) : Exec Pattern := return Pattern.ofMarked (Atom.marked (← atoms w))

/-! ## Names of files -/

def componentsOf (field : List Marked) : List (List Marked) :=
  match field with
  | [] => [[]]
  | m :: rest =>
    if m.1 = '/' then [] :: componentsOf rest
    else match componentsOf rest with
      | [] => [[m]]
      | c :: cs => (m :: c) :: cs

def namesIn (dir : Octets) : Exec (List Octets) := do
  let path : Path := if dir = [] then "." else ⟨Octets.toBytes dir⟩
  match ← request (.file (.list path)) with
  | .ok entries => return entries.map fun e => Octets.ofBytes e.1
  | .error _ => return []

/-- The paths that components stand for after a path. Names with a dot at their start have to be
asked for. -/
def matching (before : Octets) : List (List Marked) → Exec (List Octets)
  | [] => return []
  | c :: rest => do
    let p := Pattern.ofMarked c
    let here ← if p.isLiteral then pure [before ++ c.map (·.1)]
      else do
        let names ← namesIn before
        let isAskedFor (n : Octets) : Bool :=
          n.head? ≠ some '.' || (c.map (·.1)).head? = some '.'
        pure ((names.filter fun n => isAskedFor n && p.accepts n).map (before ++ ·))
    match rest with
    | [] =>
      here.filterM fun path => do
        match ← request (.file (.linkStatus ⟨Octets.toBytes path⟩)) with
        | .ok _ => return true
        | .error _ => return path ≠ [] ∧ path.getLast? = some '/'
    | _ => return (← here.mapM fun path => matching (path ++ ['/']) rest).flatten

def wordsOf (field : List Marked) : Exec (List Octets) := do
  let asIs := [field.map (·.1)]
  if (← get).options.contains 'f' || (Pattern.ofMarked field).isLiteral then return asIs
  else match ← matching [] (componentsOf field) with
    | [] => return asIs
    | found => return found

def fields (w : Word) : Exec (List Octets) := do
  let split := Atom.split (← separators) none false (← atoms w)
  return (← split.mapM wordsOf).flatten

end Exec

end KernelTrace.Shell
