import KernelTrace.Data.Pieces
import KernelTrace.Shell.Syntax

/-!
# The characters of a script

A script is read from its characters, counting lines for what is said about errors. The text that is
given to a command after its line is taken out of the script when the command asks for it, so that
what follows the line is what is read next.
-/

namespace KernelTrace.Shell

/-- A word, an operator or an end. -/
inductive Token where
  | finish
  | newline
  | operator (text : String)
  /-- A redirection, with the descriptor if one is given. -/
  | redirect (fd : Option Nat) (text : String)
  | word (word : Word)

/-- Where reading a script has got to. -/
structure Script where
  rest : Octets
  line : Nat
  /-- How many lines were taken out after this one. -/
  taken : Nat
  /-- A token that was read and put back. -/
  held : Option Token

/-- Why a script cannot be read. -/
structure SyntaxError where
  line : Nat
  message : String

abbrev Reading := ExceptT SyntaxError (StateM Script)

def isBlank (c : Char) : Bool := c = ' ' || c = '\t'

def backquote : Char := '\x60'

def singleQuote : Char := '\x27'

def doubleQuote : Char := '\x22'

def backslash : Char := '\x5c'

namespace Script

def ofOctets (text : Octets) : Script := ⟨text, 1, 0, none⟩

def advance (s : Script) : Nat → Script
  | 0 => s
  | n + 1 =>
    match s.rest with
    | [] => s
    | '\n' :: rest => advance ⟨rest, s.line + 1 + s.taken, 0, s.held⟩ n
    | _ :: rest => advance { s with rest } n

/-- How many characters there are of blanks, comments and line ends that do not count. -/
def blankLength : Octets → Nat
  | [] => 0
  | [c] => if isBlank c then 1 else 0
  | c :: d :: rest =>
    if isBlank c then 1 + blankLength (d :: rest)
    else if c = backslash ∧ d = '\n' then 2 + blankLength rest
    else 0

/-- How many characters there are of line ends that do not count. -/
def joinLength : Octets → Nat
  | c :: d :: rest => if c = backslash ∧ d = '\n' then 2 + joinLength rest else 0
  | _ => 0

/-- The lines up to a delimiter, what follows the delimiter, and how many lines there were. With
`strip`, tabs at the start of the lines are left out. -/
def givenText (delimiter : Octets) (strip : Bool) :
    (lines : List Octets) → (got : List Octets) → Octets × List Octets × Nat
  | [], got => ((got.reverse.map (· ++ ['\n'])).flatten, [], got.length)
  | l :: rest, got =>
    let l := if strip then l.dropWhile (· = '\t') else l
    if l = delimiter then ((got.reverse.map (· ++ ['\n'])).flatten, rest, got.length + 1)
    else if rest = [] ∧ l = [] then
      ((got.reverse.map (· ++ ['\n'])).flatten, [], got.length)
    else givenText delimiter strip rest (l :: got)

end Script

namespace Reading

def rest : Reading Octets := return (← get).rest

def next? : Reading (Option Char) := return (← rest).head?

def advance (n : Nat) : Reading Unit := modify (·.advance n)

def takeWhile (p : Char → Bool) : Reading Octets := do
  let run := (← rest).takeWhile p
  advance run.length
  return run

def fail {α : Type} (message : String) : Reading α := do
  throw ⟨(← get).line, message⟩

def hold (t : Token) : Reading Unit := modify fun s => { s with held := some t }

/-- Leaves out blanks, comments and line ends that do not count. -/
def skipBlanks : Reading Unit := do
  advance (Script.blankLength (← rest))
  match ← next? with
  | some '#' => let _ ← takeWhile (· ≠ '\n')
  | _ => return

/-- Takes the text that is given after the line, up to a delimiter. -/
def takeText (delimiter : Octets) (strip : Bool) : Reading Octets :=
  modifyGet fun s =>
    let lineRest := s.rest.takeWhile (· ≠ '\n')
    let after := s.rest.drop (lineRest.length + 1)
    let (text, left, count) := Script.givenText delimiter strip (pieces '\n' after) []
    (text, { s with rest := lineRest ++ '\n' :: ['\n'].intercalate left, taken := s.taken + count })

end Reading

def operators : List String := ["&&", "||", ";;", ";", "&", "|", "(", ")"]

def redirectOperators : List String := ["<<-", "<<", "<&", "<>", "<", ">>", ">&", ">|", ">"]

def endsWord (c : Char) : Bool := isBlank c || "\n;&|<>()".toList.contains c

/-- The words that mean something where a command is expected. -/
def keywords : List String :=
  ["!", "\x7b", "\x7d", "case", "do", "done", "elif", "else", "esac", "fi", "for", "if", "in", "then",
   "until", "while"]

namespace Token

/-- The keyword that the token is where one is expected. -/
def keyword? : Token → Option String
  | word w =>
    match bare? w with
    | some t => keywords.find? (·.toList = t)
    | none => none
  | _ => none

/-- Whether a list of commands ends before the token. -/
def endsList (t : Token) : Bool :=
  match t with
  | finish => true
  | operator o => o = ")" || o = ";;"
  | _ =>
    match t.keyword? with
    | some k => ["\x7d", "do", "done", "elif", "else", "esac", "fi", "then"].contains k
    | none => false

def describe (t : Token) : String :=
  match t with
  | finish => "end of file"
  | newline => "newline"
  | operator o => s!"\"{o}\""
  | redirect .. => "redirection"
  | word _ =>
    match t.keyword? with
    | some k => s!"\"{k}\""
    | none => "word"

end Token

end KernelTrace.Shell
