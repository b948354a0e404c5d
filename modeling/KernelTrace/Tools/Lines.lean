import KernelTrace.Shell.Pattern
import KernelTrace.Tools.Basic

/-!
# Tools for lines and words
-/

namespace KernelTrace.Tool

variable {ι : Type}

/-- How much is asked for: lines or bytes. -/
inductive Amount where
  | lines (n : Nat)
  | bytes (n : Nat)

/-- How much options ask for, and the other words. -/
def amount : List Octets → Amount × List Octets
  | ['-', 'n'] :: n :: rest => (.lines ((natural? n).getD 10), rest)
  | ['-', 'c'] :: n :: rest => (.bytes ((natural? n).getD 0), rest)
  | ('-' :: 'n' :: n) :: rest => (.lines ((natural? n).getD 10), rest)
  | ('-' :: 'c' :: n) :: rest => (.bytes ((natural? n).getD 0), rest)
  | ('-' :: n) :: rest =>
    match natural? n with
    | some n => (.lines n, rest)
    | none => (.lines 10, ('-' :: n) :: rest)
  | words => (.lines 10, words)

/-- What is still wanted of a text that goes on, and how far this part of it is. -/
def Amount.take (a : Amount) (t : Octets) : Octets × Amount :=
  match a with
  | .bytes n => (t.take n, .bytes (n - t.length))
  | .lines n =>
    let ends := (t.zipIdx.filter (·.1 = '\n')).map (·.2)
    if n = 0 then ([], .lines 0)
    else match ends[n - 1]? with
      | some i => (t.take (i + 1), .lines 0)
      | none => (t, .lines (n - ends.length))

def Amount.isNothing : Amount → Bool
  | .lines n | .bytes n => n = 0

def Amount.ending (a : Amount) (t : Octets) : Octets :=
  match a with
  | .bytes n => t.drop (t.length - n)
  | .lines n =>
    let ls := linesOf t
    ofLines (ls.drop (ls.length - n))

/-- How much is read at once where not all is wanted. -/
def block : Nat := 1024

/-- Writes what a descriptor gives until there is enough of it, `fuel` reads at most. -/
def sayStart (fd : Fd) : (fuel : Nat) → Amount → Running ι Unit
  | 0, _ => return
  | fuel + 1, a => do
    if a.isNothing then return
    match ← Running.request (.read fd block) with
    | .error _ | .ok (some []) => return
    | .ok (some b) =>
      let (t, more) := a.take (Octets.ofBytes b)
      say t
      sayStart fd fuel more
    | .ok none =>
      Running.request (.await ⟨[fd], false, none⟩)
      sayStart fd fuel a

def head : Tool ι := fun words =>
  let (a, files) := amount words
  forEach (if files = [] then [['-']] else files) fun file => do
    if file = ['-'] then
      sayStart 0 Running.maxReads a
      return true
    else match ← Running.request (.openFile (pathOf file) .read) with
      | .error e =>
        complain "head" ("cannot open '".toList ++ file ++ "' for reading: ".toList ++ reason e)
        return false
      | .ok fd =>
        sayStart fd Running.maxReads a
        Running.request (.close fd)
        return true

def tail : Tool ι := fun words =>
  let (a, files) := amount words
  forContents "tail" files fun _ content => say (a.ending content)

/-- Writes a line again and again, `fuel` times at most. -/
def repeatLine (line : Bytes) : (fuel : Nat) → Running ι Nat
  | 0 => return 0
  | fuel + 1 => do
    match ← Running.request (.write 1 line) with
    | .ok () => repeatLine line fuel
    | .error _ => return 1

/-- Writes words again and again, about a block of them at once. -/
def yes : Tool ι := fun words =>
  let words := if words = [] then [['y']] else words
  let line := Octets.toBytes ([' '].intercalate words ++ ['\n'])
  repeatLine (List.replicate (block / line.length + 1) line).flatten Running.maxReads

/-- How many runs of characters there are that are no white space. -/
def wordCount (t : Octets) : Nat :=
  ((KernelTrace.pieces ' ' (t.map fun c => if c.isWhitespace then ' ' else c)).filter
    (· ≠ [])).length

def wc : Tool ι := fun words =>
  let (flags, files) := options words
  forContents "wc" files fun file content => do
    let counts := [('l', content.count '\n'), ('w', wordCount content), ('c', content.length)]
    let asked := counts.filter fun c => flags = [] || flags.contains c.1
    let texts := asked.map fun c => Octets.ofNat c.2
    let name := if file = ['-'] then [] else ' ' :: file
    match texts with
    | [t] => say (t ++ name ++ ['\n'])
    | _ =>
      let wide (t : Octets) : Octets := List.replicate (7 - t.length) ' ' ++ t
      say ([' '].intercalate (texts.map wide) ++ name ++ ['\n'])

/-- The lines without those that are the same as the one before. -/
def withoutRepeats : List Octets → List Octets
  | [] => []
  | [l] => [l]
  | l :: m :: rest => if l = m then withoutRepeats (m :: rest) else l :: withoutRepeats (m :: rest)

/-- The number at the start of a line. -/
def leadingNumber (l : Octets) : Int :=
  let l := l.dropWhile Char.isWhitespace
  match l with
  | '-' :: ds => -(((natural? (ds.takeWhile Char.isDigit)).getD 0 : Nat) : Int)
  | ds => ((natural? (ds.takeWhile Char.isDigit)).getD 0 : Nat)

def sort : Tool ι := fun words => do
  let (flags, files) := options words
  let mut all : List Octets := []
  for file in if files = [] then [['-']] else files do
    match ← contentOf file with
    | .ok content => all := all ++ linesOf content
    | .error e =>
      complain "sort" ("cannot read: ".toList ++ file ++ ": ".toList ++ reason e)
      return 2
  let le (a b : Octets) : Bool :=
    if flags.contains 'n' && leadingNumber a ≠ leadingNumber b then
      decide (leadingNumber a ≤ leadingNumber b)
    else a.le b
  let sorted := all.mergeSort le
  let sorted := if flags.contains 'r' then sorted.reverse else sorted
  say (ofLines (if flags.contains 'u' then withoutRepeats sorted else sorted))
  return 0

/-- Leaves out lines that are the same as the one before. -/
def uniq : Tool ι := fun words =>
  forContents "uniq" (options words).2 fun _ content => say (ofLines (withoutRepeats (linesOf content)))

/-- The characters of a set, in which a dash stands for those between two. -/
def charactersOf : Octets → List Char
  | a :: '-' :: b :: rest =>
    ((List.range (b.toNat + 1)).drop a.toNat).map Char.ofNat ++ charactersOf rest
  | '\\' :: 'n' :: rest => '\n' :: charactersOf rest
  | '\\' :: 't' :: rest => '\t' :: charactersOf rest
  | '\\' :: '0' :: rest => '\x00' :: charactersOf rest
  | c :: rest => c :: charactersOf rest
  | [] => []

/-- The character that takes the place of one, the last one of a set standing for all that follow. -/
def exchanged (old new : List Char) (c : Char) : Char :=
  match old.idxOf? c with
  | some i => ((new[i]?).orElse fun _ => new.getLast?).getD c
  | none => c

/-- Exchanges or leaves out characters of the input. -/
def tr : Tool ι := fun words => do
  let (flags, sets) := options words
  match (← Running.readAll 0).map Octets.ofBytes, sets with
  | .ok content, old :: more =>
    let old := charactersOf old
    if flags.contains 'd' then say (content.filter fun c => !old.contains c)
    else say (content.map (exchanged old (charactersOf (more.headD []))))
    return 0
  | _, _ => return 1

/-- What one place in a regular expression stands for, and whether it may be there any number of
times. -/
structure Repeat where
  place : Shell.Place
  /-- Whether it may be there any number of times. -/
  isStarred : Bool

/-- The places of a regular expression, `fuel` at most. -/
def repeats : (fuel : Nat) → Octets → List Repeat
  | 0, _ | _, [] => []
  | fuel + 1, c :: rest =>
    let (place, after) : Shell.Place × Octets := match c, rest with
      | '\\', d :: more => (.char d, more)
      | '.', _ => (.any, rest)
      | '[', _ =>
        match Shell.Pattern.set? (rest.map (·, false)) with
        | some (p, more) => (p, more.map (·.1))
        | none => (.char c, rest)
      | _, _ => (.char c, rest)
    match after with
    | '*' :: more => ⟨place, true⟩ :: repeats fuel more
    | _ => ⟨place, false⟩ :: repeats fuel after

/-- Whether a text starts with what a regular expression stands for, or is it if it is `whole`. -/
def startsWith (whole : Bool) : List Repeat → Octets → Bool
  | [], t => !whole || t = []
  | r :: rs, t =>
    if r.isStarred then
      startsWith whole rs t || match t with
        | [] => false
        | c :: rest => r.place.fits c && startsWith whole (r :: rs) rest
    else match t with
      | [] => false
      | c :: rest => r.place.fits c && startsWith whole rs rest
termination_by rs t => rs.length + t.length

/-- Whether a line holds what an expression stands for. -/
def holds (isFixed : Bool) (expression line : Octets) : Bool :=
  let somewhere (p : Octets → Bool) : Bool :=
    (List.range (line.length + 1)).any fun n => p (line.drop n)
  if isFixed then somewhere expression.isPrefixOf
  else
    let (atStart, e) := match expression with
      | '^' :: e => (true, e)
      | e => (false, e)
    let atEnd := e.getLast? = some '$'
    let places := repeats e.length (if atEnd then e.dropLast else e)
    if atStart then startsWith atEnd places line
    else somewhere (startsWith atEnd places)

/-- Writes the lines that hold what an expression stands for. -/
def grep : Tool ι := fun words => do
  let (flags, rest) := options words
  match rest with
  | [] =>
    let _ ← Running.request (.write 2 (Utf8.encode "Usage: grep [OPTION]... PATTERNS [FILE]...\n"))
    return 2
  | expression :: files =>
    let mut count := 0
    let mut status := 0
    for file in if files = [] then [['-']] else files do
      match ← contentOf file with
      | .error e =>
        complain "grep" (file ++ ": ".toList ++ reason e)
        status := 2
      | .ok content =>
        let found := (linesOf content).filter fun l =>
          holds (flags.contains 'F') expression l != flags.contains 'v'
        let lead : Octets := if files.length > 1 then file ++ [':'] else []
        count := count + found.length
        if flags.contains 'c' then say (lead ++ Octets.ofNat found.length ++ ['\n'])
        else if !flags.contains 'q' then say (ofLines (found.map (lead ++ ·)))
    return if status ≠ 0 then status else if count = 0 then 1 else 0

/-- The numbers that a list of numbers and ranges names, up to a bound. -/
def positions (bound : Nat) (list : Octets) : List Nat :=
  (KernelTrace.pieces ',' list).flatMap fun part =>
    match KernelTrace.pieces '-' part with
    | [n] => (natural? n).toList
    | [first, last] =>
      let low := (natural? first).getD 1
      let high := (natural? last).getD bound
      (List.range (min high bound + 1)).drop low
    | _ => []

/-- Writes parts of lines: fields between delimiters, or characters. -/
def cut : Tool ι := fun words => do
  let rec go (delimiter : Char) (fields chars : Option Octets) :
      List Octets → Char × Option Octets × Option Octets × List Octets
    | ['-', 'd'] :: d :: rest => go (d.headD '\t') fields chars rest
    | ('-' :: 'd' :: d :: _) :: rest => go d fields chars rest
    | ['-', 'f'] :: f :: rest => go delimiter (some f) chars rest
    | ('-' :: 'f' :: f) :: rest => go delimiter (some f) chars rest
    | ['-', 'c'] :: c :: rest => go delimiter fields (some c) rest
    | ('-' :: 'c' :: c) :: rest => go delimiter fields (some c) rest
    | files => (delimiter, fields, chars, files)
  let (delimiter, fields, chars, files) := go '\t' none none words
  forContents "cut" files fun _ content => do
    let part (l : Octets) : Octets :=
      match fields, chars with
      | some list, _ =>
        let ps := KernelTrace.pieces delimiter l
        if ps.length = 1 then l
        else
          let wanted := positions ps.length list
          [delimiter].intercalate
            ((ps.zipIdx 1).filterMap fun (p, n) => if wanted.contains n then some p else none)
      | none, some list =>
        let wanted := positions l.length list
        (l.zipIdx 1).filterMap fun (c, n) => if wanted.contains n then some c else none
      | none, none => l
    say (ofLines ((linesOf content).map part))

def seq : Tool ι := fun words => do
  match words.map natural? with
  | [some last] => say (ofLines ((List.range last).map fun n => Octets.ofNat (n + 1)))
  | [some first, some last] =>
    say (ofLines ((List.range (last + 1 - first)).map fun n => Octets.ofNat (first + n)))
  | _ => return 1
  return 0

/-- Writes the last component of a path, without an ending. -/
def basename : Tool ι := fun words => do
  match (options words).2 with
  | [] =>
    complain "basename" "missing operand".toList
    return 1
  | path :: more =>
    let name := (((KernelTrace.pieces '/' path).filter (· ≠ [])).getLast?).getD
      (if path = [] then [] else ['/'])
    let ending := more.headD []
    let cut := if ending ≠ [] && name ≠ ending && ending.isSuffixOf name then
        name.take (name.length - ending.length) else name
    say (cut ++ ['\n'])
    return 0

def dirname : Tool ι := fun words => forEach (options words).2 fun path => do
  let trimmed := (path.reverse.dropWhile (· = '/')).reverse
  let dir := (trimmed.reverse.dropWhile (· ≠ '/')).reverse
  let dir := if dir = [] then (if trimmed = [] && path ≠ [] then ['/'] else ['.'])
    else match (dir.reverse.dropWhile (· = '/')).reverse with
      | [] => ['/']
      | d => d
  say (dir ++ ['\n'])
  return true

/-- Writes the input to the output and to files. -/
def tee : Tool ι := fun words => do
  let (flags, files) := options words
  match ← Running.readAll 0 with
  | .error _ => return 1
  | .ok content =>
    say (Octets.ofBytes content)
    forEach files fun file => do
      match ← Running.request
          (.openFile (pathOf file) (if flags.contains 'a' then .append else .write)) with
      | .ok fd =>
        let _ ← Running.request (.write fd content)
        Running.request (.close fd)
        return true
      | .error e =>
        complain "tee" (file ++ ": ".toList ++ reason e)
        return false

end KernelTrace.Tool
