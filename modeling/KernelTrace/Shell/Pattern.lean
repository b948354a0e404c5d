import KernelTrace.Text.Octets

/-!
# Patterns

A pattern stands for a set of words: a question mark for any character, an asterisk for any
characters, brackets for one character of a set. A character that was quoted stands for itself.
-/

namespace KernelTrace.Shell

/-- A character of a word, and whether it was quoted. -/
abbrev Marked := Char × Bool

/-- A member of a set of characters. -/
inductive Member where
  | range (low high : Char)
  | named (name : String)
  deriving DecidableEq

/-- What one place in a pattern stands for. -/
inductive Place where
  | char (c : Char)
  | any
  | anything
  /-- A character that is in a set, or one that is not. -/
  | set (negated : Bool) (members : List Member)
  deriving DecidableEq

abbrev Pattern := List Place

namespace Member

/-- Whether a character is in a named class. -/
def isInClass (name : String) (c : Char) : Bool :=
  match name with
  | "alpha" => c.isAlpha
  | "digit" => c.isDigit
  | "alnum" => c.isAlphanum
  | "upper" => c.isUpper
  | "lower" => c.isLower
  | "space" => c = ' ' || ('\t' ≤ c && c ≤ '\r')
  | "blank" => c = ' ' || c = '\t'
  | "punct" => '!' ≤ c && c ≤ '~' && !c.isAlphanum
  | "print" => ' ' ≤ c && c ≤ '~'
  | "graph" => '!' ≤ c && c ≤ '~'
  | "cntrl" => c < ' ' || c = '\x7f'
  | "xdigit" => c.isDigit || ('a' ≤ c && c ≤ 'f') || ('A' ≤ c && c ≤ 'F')
  | _ => false

/-- Whether a character is the member or one of its characters. -/
def holds (c : Char) : Member → Bool
  | range low high => low ≤ c && c ≤ high
  | named name => isInClass name c

end Member

/-- Whether a character is one that a place in a pattern stands for. -/
def Place.fits (c : Char) : Place → Bool
  | .char d => c = d
  | .set negated ms => ms.any (·.holds c) != negated
  | _ => true

namespace Pattern

/-- The name of a class of characters, and what follows it. -/
def className? (s : List Marked) : Option (String × List Marked) :=
  let name := s.takeWhile fun m => m.1.isLower
  match s.drop name.length with
  | (':', false) :: (']', false) :: rest => some (String.ofList (name.map (·.1)), rest)
  | _ => none

/-- The members of a set up to its end, and what follows it. At the start an end is a member.
`fuel` bounds the number of members. -/
def members? : (fuel : Nat) → (atStart : Bool) → List Marked → Option (List Member × List Marked)
  | 0, _, _ => none
  | _, _, [] => none
  | fuel + 1, atStart, (c, isQuoted) :: rest =>
    let go (m : Member) (rest : List Marked) :=
      (members? fuel false rest).map fun (ms, after) => (m :: ms, after)
    if c = ']' ∧ !isQuoted ∧ !atStart then some ([], rest)
    else
      let named := if c = '[' ∧ !isQuoted then
          match rest with
          | (':', false) :: more => className? more
          | _ => none
        else none
      match named, rest with
      | some (name, after), _ => go (.named name) after
      | none, ('-', false) :: (d, q) :: more =>
        if d = ']' ∧ !q then go (.range c c) rest else go (.range c d) more
      | none, _ => go (.range c c) rest

/-- The set at the start of characters that follow an opening bracket, and what follows the set. -/
def set? (s : List Marked) : Option (Place × List Marked) :=
  let (negated, s') := match s with
    | ('!', false) :: rest => (true, rest)
    | ('^', false) :: rest => (true, rest)
    | _ => (false, s)
  (members? s.length true s').map fun (ms, rest) => (.set negated ms, rest)

/-- The pattern that characters are, read `fuel` places at most. -/
def read : (fuel : Nat) → List Marked → Pattern
  | 0, _ => []
  | _, [] => []
  | fuel + 1, (c, isQuoted) :: rest =>
    if isQuoted then .char c :: read fuel rest
    else match c with
      | '?' => .any :: read fuel rest
      | '*' => .anything :: read fuel rest
      | '[' =>
        match set? rest with
        | some (p, after) => p :: read fuel after
        | none => .char c :: read fuel rest
      | _ => .char c :: read fuel rest

def ofMarked (s : List Marked) : Pattern := read s.length s

def accepts : Pattern → Octets → Bool
  | [], s => s = []
  | .anything :: ps, s =>
    accepts ps s || match s with
      | [] => false
      | _ :: rest => accepts (.anything :: ps) rest
  | p :: ps, s =>
    match s with
    | [] => false
    | c :: rest => p.fits c && accepts ps rest
termination_by p s => p.length + s.length

/-- Whether a pattern is only the word that it looks like. -/
def isLiteral (p : Pattern) : Bool := p.all fun x =>
  match x with
  | .char _ => true
  | _ => false

/-- A word without the shortest or longest part at its start or end that matches a pattern. -/
def trim (p : Pattern) (atEnd longest : Bool) (s : Octets) : Octets :=
  let sizes := List.range (s.length + 1)
  let sizes := if longest then sizes.reverse else sizes
  if atEnd then
    match sizes.find? fun n => p.accepts (s.drop (s.length - n)) with
    | some n => s.take (s.length - n)
    | none => s
  else
    match sizes.find? fun n => p.accepts (s.take n) with
    | some n => s.drop n
    | none => s

def ofString (s : String) : Pattern := ofMarked (s.toList.map (·, false))

example : (ofString "a*c?").accepts "abcd".toList ∧ !(ofString "[!a-c]").accepts "b".toList
    ∧ (ofString "[]x]").accepts "]".toList ∧ (ofString "[a").accepts "[a".toList := by
  decide +kernel

example : (ofString "*/").trim false true "a/b/c".toList = "c".toList
    ∧ (ofString ".*").trim true false "a.b.c".toList = "a.b".toList := by decide +kernel

end Pattern

end KernelTrace.Shell
