import KernelTrace.Text.Octets

/-!
# Commands of the shell

A script is a sequence of commands. The words of a command are kept in pieces, by what happens to
each: some stand for themselves, some are replaced by the value of a parameter, by what a command
writes or by a number, and what was quoted is neither split into fields nor read as a pattern.
-/

namespace KernelTrace.Shell

/-- How a file is redirected. -/
inductive Redirection where
  | read
  /-- Write to a file that is emptied first. -/
  | write
  | append
  | update
  /-- Use what another descriptor leads to, or close the descriptor. -/
  | copy
  | text
  deriving DecidableEq, Repr

mutual

/-- A piece of a word. -/
inductive Piece where
  | plain (text : Octets)
  | quoted (text : Octets)
  | parameter (name : Octets) (use : Use) (isQuoted : Bool)
  | output (body : Command) (isQuoted : Bool)
  | value (expression : List Piece) (isQuoted : Bool)

/-- What is made of a parameter. Where a flag `empty` is set, a parameter that is empty is treated
as one that is not set. -/
inductive Use where
  | value
  | length
  /-- Its value or, if it is not set, a word. -/
  | orElse (empty : Bool) (word : List Piece)
  /-- Its value or, if it is not set, a word that it is set to. -/
  | orAssign (empty : Bool) (word : List Piece)
  /-- Its value; if it is not set that is an error. -/
  | orFail (empty : Bool) (word : List Piece)
  | instead (empty : Bool) (word : List Piece)
  /-- Its value without what matches a pattern at the start or the end. -/
  | trim (atEnd longest : Bool) (pattern : List Piece)
  /-- Nothing that is known: an error once it is come to. -/
  | unknown

/-- A redirection of a descriptor. -/
inductive Redirect where
  /-- The descriptor, what is done to it, and the word it is done with. -/
  | mk (fd : Nat) (kind : Redirection) (target : List Piece)

/-- A command. -/
inductive Command where
  /-- Assignments, words and redirections, with the number of the line they start in. -/
  | simple (line : Nat) (assignments : List (Octets × List Piece)) (words : List (List Piece))
      (redirects : List Redirect)
  /-- Commands of which each reads what the one before it writes. -/
  | pipeline (negated : Bool) (stages : List Command)
  /-- The second command, if the first one succeeds. -/
  | andThen (first second : Command)
  /-- The second command, if the first one fails. -/
  | orElse (first second : Command)
  | sequence (commands : List Command)
  | background (body : Command)
  /-- A command in a process of its own. -/
  | subshell (body : Command)
  | redirected (body : Command) (redirects : List Redirect)
  /-- One of two commands, depending on a third. -/
  | branch (condition yes no : Command)
  /-- A command repeated while, or until, another one succeeds. -/
  | loop (isUntil : Bool) (condition body : Command)
  /-- A command for each of some words, or for each argument. -/
  | forEach (name : Octets) (words : Option (List (List Piece))) (body : Command)
  /-- The command of the first pattern that a word matches. -/
  | choose (word : List Piece) (cases : List (List (List Piece) × Command))
  | define (name : Octets) (body : Command)

end

abbrev Word := List Piece

instance : Inhabited Piece := ⟨.plain []⟩
instance : Inhabited Command := ⟨.sequence []⟩

def Command.nothing : Command := .sequence []

/-- The characters of a word, its quotes forgotten, if nothing of it is to be replaced. -/
def literal? : Word → Option Octets
  | [] => some []
  | .plain t :: rest => (literal? rest).map (t ++ ·)
  | .quoted t :: rest => (literal? rest).map (t ++ ·)
  | _ => none

def hasQuoted (w : Word) : Bool := w.any fun p =>
  match p with
  | .plain _ => false
  | .quoted _ => true
  | .parameter _ _ q | .output _ q | .value _ q => q

/-- The characters of a word in which nothing was quoted and nothing is to be replaced. -/
def bare? (w : Word) : Option Octets := if hasQuoted w then none else literal? w

/-- The name and the value of a word that has the form of an assignment. -/
def assignment? : Word → Option (Octets × Word)
  | .plain t :: rest =>
    let name := t.takeWhile Octets.isNameChar
    match t.drop name.length with
    | '=' :: value =>
      if Octets.isName name then
        some (name, if value = [] then rest else .plain value :: rest)
      else none
    | _ => none
  | _ => none

end KernelTrace.Shell
