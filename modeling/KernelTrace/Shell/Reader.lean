import KernelTrace.Shell.Token

/-!
# Reading scripts

A script is read one line of commands at a time, as far as a command that starts in the line
reaches, so that what comes before an error is run. Words hold commands and commands hold words;
the functions that read them call each other with a bound that is larger than the number of steps
the rest of the script can take.
-/

namespace KernelTrace.Shell

/-- What characters are read as, and where they end. -/
inductive Quoting where
  | bare
  | double
  /-- The word after the name of a parameter in braces, which may itself stand in double quotes. -/
  | braced (isQuoted : Bool)
  | text
  | arithmetic (depth : Nat)
  deriving DecidableEq

namespace Quoting

def isQuoted : Quoting → Bool
  | bare => false
  | braced q => q
  | _ => true

/-- Whether a backslash before a character stands for the character alone. -/
def escapes (q : Quoting) (c : Char) : Bool :=
  match q with
  | bare | braced false => true
  | double => c = '$' || c = backquote || c = backslash || c = doubleQuote
  | braced true => c = '$' || c = backquote || c = backslash || c = doubleQuote || c = '}'
  | text | arithmetic _ => c = '$' || c = backquote || c = backslash

/-- Whether quotes of a kind have a meaning in this place. -/
def knowsQuote (q : Quoting) (c : Char) : Bool :=
  match q with
  | bare | braced false => true
  | double | braced true => c = doubleQuote
  | text | arithmetic _ => false

/-- Whether a character is nothing special in this place. -/
def isOrdinary (q : Quoting) (c : Char) : Bool :=
  !(c = backslash || c = '$' || c = backquote || c = singleQuote || c = doubleQuote)
    && match q with
      | bare => !endsWord c
      | braced _ => c ≠ '}'
      | arithmetic _ => c ≠ '(' && c ≠ ')'
      | _ => true

/-- Characters as they are read in this place. -/
def piece (q : Quoting) (t : Octets) : Piece := if q.isQuoted then .quoted t else .plain t

end Quoting

/-- Puts a piece before pieces that are kept last one first. -/
def push (p : Piece) : List Piece → List Piece
  | .plain t :: rest => match p with
    | .plain u => .plain (t ++ u) :: rest
    | _ => p :: .plain t :: rest
  | .quoted t :: rest => match p with
    | .quoted u => .quoted (t ++ u) :: rest
    | _ => p :: .quoted t :: rest
  | ps => p :: ps

/-- What is between backquotes, and what follows them. -/
def backquoted? (isQuoted : Bool) : Octets → Option (Octets × Octets)
  | [] => none
  | [c] => if c = backquote then some ([], []) else none
  | c :: d :: rest =>
    if c = backquote then some ([], d :: rest)
    else if c = backslash then
      if d = backquote ∨ d = '$' ∨ d = backslash ∨ (isQuoted ∧ d = doubleQuote) then
        (backquoted? isQuoted rest).map fun (t, after) => (d :: t, after)
      else (backquoted? isQuoted rest).map fun (t, after) => (c :: d :: t, after)
    else (backquoted? isQuoted (d :: rest)).map fun (t, after) => (c :: t, after)

/-- The parameters with names that are no letters. -/
def specialParameters : List Char := ['@', '*', '#', '?', '-', '$', '!']

/-- The name of a parameter at the start of characters, or nothing. -/
def parameterName (t : Octets) : Octets :=
  match t with
  | [] => []
  | c :: _ =>
    if Octets.isNameStart c then t.takeWhile Octets.isNameChar
    else if c.isDigit then t.takeWhile Char.isDigit
    else if specialParameters.contains c then [c]
    else []

/-- Reads the name of a parameter in braces, and whether its length is asked for. -/
def readName : Reading (Octets × Bool) := do
  let rest ← Reading.rest
  match rest with
  | '#' :: more =>
    let name := parameterName more
    if name ≠ [] ∧ (more.drop name.length).head? = some '}' then
      Reading.advance (1 + name.length)
      return (name, true)
    else
      Reading.advance 1
      return (['#'], false)
  | _ =>
    let name := parameterName rest
    Reading.advance name.length
    return (name, false)

/-- Reads the operator after the name of a parameter in braces: what to make of the parameter, given
the word that follows, if one does. -/
def readUse : Reading (Option (Bool × (Word → Use))) := do
  let rest ← Reading.rest
  let (colon, rest) := match rest with
    | ':' :: rest => (true, rest)
    | _ => (false, rest)
  let skip := if colon then 1 else 0
  let found (n : Nat) (isPattern : Bool) (f : Word → Use) := do
    Reading.advance (skip + n)
    return some (isPattern, f)
  match colon, rest with
  | false, '}' :: _ => return none
  | _, '-' :: _ => found 1 false (.orElse colon)
  | _, '=' :: _ => found 1 false (.orAssign colon)
  | _, '?' :: _ => found 1 false (.orFail colon)
  | _, '+' :: _ => found 1 false (.instead colon)
  | false, '%' :: '%' :: _ => found 2 true (.trim true true)
  | false, '%' :: _ => found 1 true (.trim true false)
  | false, '#' :: '#' :: _ => found 2 true (.trim false true)
  | false, '#' :: _ => found 1 true (.trim false false)
  | _, [] | _, ['\n'] => Reading.fail "Syntax error: Missing '\x7d'"
  | _, _ => found 1 false fun _ => .unknown

/-- The commands that a name cannot be given to. -/
def specialBuiltins : List String :=
  [".", ":", "break", "continue", "eval", "exec", "exit", "export", "readonly", "return", "set",
   "shift", "times", "trap", "unset"]

/-- What is wrong where some token was not expected. -/
def unexpected {α : Type} (t : Token) (expected : Option String) : Reading α :=
  Reading.fail <| "Syntax error: " ++ t.describe ++ " unexpected" ++ match expected with
    | some e => " (expecting \"" ++ e ++ "\")"
    | none => ""

mutual

/-- Reads pieces up to the end of what they are in. `got` are the pieces before, last one first. -/
def readPieces : (fuel : Nat) → Quoting → (got : List Piece) → Reading Word
  | 0, _, _ => Reading.fail "Syntax error: too deep"
  | fuel + 1, q, got => do
    let keep (n : Nat) (p : Piece) : Reading Word := do
      Reading.advance n
      readPieces fuel q (push p got)
    match ← Reading.rest with
    | [] =>
      match q with
      | .bare | .text => return got.reverse
      | .double => Reading.fail "Syntax error: Unterminated quoted string"
      | .braced _ => Reading.fail "Syntax error: Missing '\x7d'"
      | .arithmetic _ => Reading.fail "Syntax error: Missing '))'"
    | c :: rest =>
      if q = .bare ∧ endsWord c then return got.reverse
      else if q = .double ∧ c = doubleQuote then
        Reading.advance 1
        return got.reverse
      else if (q = .braced true ∨ q = .braced false) ∧ c = '}' then
        Reading.advance 1
        return got.reverse
      else if c = backslash then
        match rest with
        | [] => keep 1 (q.piece [c])
        | d :: _ =>
          if d = '\n' then
            Reading.advance 2
            readPieces fuel q got
          else if q.escapes d then keep 2 (.quoted [d])
          else keep 1 (q.piece [c])
      else if c = singleQuote ∧ q.knowsQuote c then
        let text := rest.takeWhile (· ≠ singleQuote)
        if text.length = rest.length then
          Reading.advance (rest.length + 1)
          Reading.fail "Syntax error: Unterminated quoted string"
        else keep (text.length + 2) (.quoted text)
      else if c = doubleQuote ∧ q.knowsQuote c then
        Reading.advance 1
        let inner ← readPieces fuel .double []
        let inner := if inner = [] then [.quoted []] else inner
        readPieces fuel q (inner.foldl (fun got p => push p got) got)
      else if c = '$' then
        Reading.advance 1
        let p ← readDollar fuel q
        readPieces fuel q (push p got)
      else if c = backquote then
        match backquoted? q.isQuoted rest with
        | none =>
          Reading.advance (rest.length + 1)
          Reading.fail "Syntax error: EOF in backquote substitution"
        | some (text, after) =>
          let s ← get
          set { s with rest := text, held := none }
          let body ← readItems fuel true false []
          set { s with rest := after }
          readPieces fuel q (push (.output body q.isQuoted) got)
      else match q with
        | .arithmetic depth =>
          if c = '(' then
            Reading.advance 1
            readPieces fuel (.arithmetic (depth + 1)) (push (.quoted [c]) got)
          else if c = ')' then
            match depth with
            | 0 =>
              if rest.head? = some ')' then
                Reading.advance 2
                return got.reverse
              else Reading.fail "Syntax error: Missing '))'"
            | depth + 1 =>
              Reading.advance 1
              readPieces fuel (.arithmetic depth) (push (.quoted [c]) got)
          else readRun fuel q got c
        | _ => readRun fuel q got c

/-- Reads characters that are nothing special, at least one, and goes on. -/
def readRun : (fuel : Nat) → Quoting → (got : List Piece) → Char → Reading Word
  | 0, _, _, _ => Reading.fail "Syntax error: too deep"
  | fuel + 1, q, got, c => do
    let run ← Reading.takeWhile q.isOrdinary
    if run = [] then
      Reading.advance 1
      readPieces fuel q (push (q.piece [c]) got)
    else readPieces fuel q (push (q.piece run) got)

def readDollar : (fuel : Nat) → Quoting → Reading Piece
  | 0, _ => Reading.fail "Syntax error: too deep"
  | fuel + 1, q => do
    Reading.advance (Script.joinLength (← Reading.rest))
    match ← Reading.rest with
    | '(' :: '(' :: _ =>
      Reading.advance 2
      return .value (← readPieces fuel (.arithmetic 0) []) q.isQuoted
    | '(' :: _ =>
      Reading.advance 1
      let held := (← get).held
      modify fun s => { s with held := none }
      let body ← readItems fuel true false []
      match ← readToken fuel with
      | .operator ")" => pure ()
      | t => unexpected t (some ")")
      modify fun s => { s with held }
      return .output body q.isQuoted
    | '\x7b' :: _ =>
      Reading.advance 1
      let (name, isLength) ← readName
      if name = [] then
        let _ ← readPieces fuel (.braced q.isQuoted) []
        return .parameter name .unknown q.isQuoted
      else if isLength then
        Reading.advance 1
        return .parameter name .length q.isQuoted
      else match ← readUse with
        | none =>
          Reading.advance 1
          return .parameter name .value q.isQuoted
        | some (isPattern, use) =>
          let word ← readPieces fuel (.braced (!isPattern && q.isQuoted)) []
          return .parameter name (use word) q.isQuoted
    | rest =>
      let name := match parameterName rest with
        | c :: more => if c.isDigit then [c] else c :: more
        | [] => []
      if name = [] then return q.piece ['$']
      else
        Reading.advance name.length
        return .parameter name .value q.isQuoted

def readToken : (fuel : Nat) → Reading Token
  | 0 => Reading.fail "Syntax error: too deep"
  | fuel + 1 => do
    match (← get).held with
    | some t =>
      modify fun s => { s with held := none }
      return t
    | none =>
      Reading.skipBlanks
      let rest ← Reading.rest
      match rest with
      | [] => return .finish
      | '\n' :: _ =>
        Reading.advance 1
        return .newline
      | c :: _ =>
        match operators.find? fun o => o.toList.isPrefixOf rest with
        | some o =>
          Reading.advance o.length
          return .operator o
        | none =>
          match redirectOperators.find? fun o => o.toList.isPrefixOf rest with
          | some o =>
            Reading.advance o.length
            return .redirect none o
          | none =>
            let after := rest.drop 1
            match c.isDigit, redirectOperators.find? fun o => o.toList.isPrefixOf after with
            | true, some o =>
              Reading.advance (1 + o.length)
              return .redirect (some (c.toNat - '0'.toNat)) o
            | _, _ => return .word (← readPieces fuel .bare [])

/-- Reads a token that is not the end of a line. -/
def readPastLines : (fuel : Nat) → Reading Token
  | 0 => Reading.fail "Syntax error: too deep"
  | fuel + 1 => do
    match ← readToken fuel with
    | .newline => readPastLines fuel
    | t => return t

def expectKeyword : (fuel : Nat) → String → Reading Unit
  | 0, _ => Reading.fail "Syntax error: too deep"
  | fuel + 1, keyword => do
    let t ← readPastLines fuel
    if t.keyword? = some keyword then return
    else unexpected t (some keyword)

/-- Reads commands up to something that ends a list of them, which is put back. A list of one line
ends with the line. `got` are the commands before, last one first. -/
def readItems : (fuel : Nat) → (mayBeEmpty isLine : Bool) → (got : List Command) → Reading Command
  | 0, _, _, _ => Reading.fail "Syntax error: too deep"
  | fuel + 1, mayBeEmpty, isLine, got => do
    let finish : Reading Command := return match got with
      | [c] => c
      | cs => .sequence cs.reverse
    let t ← if isLine then readToken fuel else readPastLines fuel
    match t with
    | .newline => finish
    | .finish =>
      Reading.hold t
      finish
    | _ =>
      Reading.hold t
      if (mayBeEmpty ∨ got ≠ []) ∧ !isLine ∧ t.endsList then finish
      else
        let c ← readAndOr fuel
        match ← readToken fuel with
        | .operator ";" => readItems fuel mayBeEmpty isLine (c :: got)
        | .operator "&" => readItems fuel mayBeEmpty isLine (.background c :: got)
        | .newline =>
          if isLine then
            return match got with
              | [] => c
              | _ => .sequence (c :: got).reverse
          else readItems fuel mayBeEmpty isLine (c :: got)
        | t =>
          let isEnd := match t with
            | .finish => true
            | _ => false
          if isLine ∧ !isEnd then unexpected t none
          else
            Reading.hold t
            return match got with
              | [] => c
              | _ => .sequence (c :: got).reverse

/-- Reads pipelines joined by their success or failure. -/
def readAndOr : (fuel : Nat) → Reading Command
  | 0 => Reading.fail "Syntax error: too deep"
  | fuel + 1 => do
    let first ← readPipeline fuel
    readAndOrRest fuel first

/-- Reads the pipelines joined to a first one. -/
def readAndOrRest : (fuel : Nat) → Command → Reading Command
  | 0, _ => Reading.fail "Syntax error: too deep"
  | fuel + 1, first => do
    match ← readToken fuel with
    | .operator "&&" =>
      Reading.hold (← readPastLines fuel)
      let second ← readPipeline fuel
      readAndOrRest fuel (.andThen first second)
    | .operator "||" =>
      Reading.hold (← readPastLines fuel)
      let second ← readPipeline fuel
      readAndOrRest fuel (.orElse first second)
    | t =>
      Reading.hold t
      return first

def readPipeline : (fuel : Nat) → Reading Command
  | 0 => Reading.fail "Syntax error: too deep"
  | fuel + 1 => do
    let t ← readToken fuel
    if t.keyword? = some "!" then
      let first ← readCommand fuel
      let stages ← readStages fuel [first]
      return .pipeline true stages
    else
      Reading.hold t
      let first ← readCommand fuel
      match ← readStages fuel [first] with
      | [c] => return c
      | stages => return .pipeline false stages

/-- Reads the commands of a pipeline after those before, which are kept last one first. -/
def readStages : (fuel : Nat) → (got : List Command) → Reading (List Command)
  | 0, _ => Reading.fail "Syntax error: too deep"
  | fuel + 1, got => do
    match ← readToken fuel with
    | .operator "|" =>
      Reading.hold (← readPastLines fuel)
      let c ← readCommand fuel
      readStages fuel (c :: got)
    | t =>
      Reading.hold t
      return got.reverse

def readCommand : (fuel : Nat) → Reading Command
  | 0 => Reading.fail "Syntax error: too deep"
  | fuel + 1 => do
    let line := (← get).line
    let t ← readToken fuel
    match t with
    | .operator "(" =>
      let body ← readItems fuel false false []
      match ← readToken fuel with
      | .operator ")" => readRedirects fuel (.subshell body) []
      | t => unexpected t (some ")")
    | .redirect .. =>
      Reading.hold t
      readSimple fuel line [] [] []
    | .word _ =>
      match t.keyword? with
      | none =>
        Reading.hold t
        readSimple fuel line [] [] []
      | some "\x7b" =>
        let body ← readItems fuel false false []
        expectKeyword fuel "\x7d"
        readRedirects fuel body []
      | some "if" =>
        let c ← readBranch fuel
        readRedirects fuel c []
      | some "while" =>
        let c ← readLoop fuel false
        readRedirects fuel c []
      | some "until" =>
        let c ← readLoop fuel true
        readRedirects fuel c []
      | some "for" =>
        let c ← readFor fuel
        readRedirects fuel c []
      | some "case" =>
        let c ← readCase fuel
        readRedirects fuel c []
      | some _ => unexpected t none
    | _ => unexpected t none

def readRedirects : (fuel : Nat) → Command → (got : List Redirect) → Reading Command
  | 0, _, _ => Reading.fail "Syntax error: too deep"
  | fuel + 1, c, got => do
    match ← readToken fuel with
    | .redirect fd o =>
      let r ← readRedirect fuel fd o
      readRedirects fuel c (r :: got)
    | t =>
      Reading.hold t
      return if got = [] then c else .redirected c got.reverse

/-- Reads what a redirection is to or from. -/
def readRedirect : (fuel : Nat) → Option Nat → String → Reading Redirect
  | 0, _, _ => Reading.fail "Syntax error: too deep"
  | fuel + 1, fd, o => do
    let t ← readToken fuel
    match t with
    | .word w =>
      let input := fd.getD 0
      let output := fd.getD 1
      match o with
      | "<" => return .mk input .read w
      | "<>" => return .mk input .update w
      | "<&" => return .mk input .copy w
      | ">>" => return .mk output .append w
      | ">&" => return .mk output .copy w
      | "<<" | "<<-" =>
        let text ← Reading.takeText ((literal? w).getD []) (o = "<<-")
        if hasQuoted w then return .mk input .text [.quoted text]
        else
          let s ← get
          set { s with rest := text, held := none }
          let body ← readPieces fuel .text []
          set s
          return .mk input .text body
      | _ => return .mk output .write w
    | t => unexpected t none

/-- Reads the rest of a command that is not compound. -/
def readSimple : (fuel : Nat) → Nat → (assignments : List (Octets × Word)) → (words : List Word) →
    (redirects : List Redirect) → Reading Command
  | 0, _, _, _, _ => Reading.fail "Syntax error: too deep"
  | fuel + 1, line, assignments, words, redirects => do
    match ← readToken fuel with
    | .word w =>
      match words, assignment? w with
      | [], some a => readSimple fuel line (a :: assignments) [] redirects
      | _, _ => readSimple fuel line assignments (w :: words) redirects
    | .redirect fd o =>
      let r ← readRedirect fuel fd o
      readSimple fuel line assignments words (r :: redirects)
    | t =>
      match t, words, assignments, redirects with
      | .operator "(", [w], [], [] =>
        match ← readToken fuel with
        | .operator ")" =>
          let name := (bare? w).getD []
          if !Octets.isName name || specialBuiltins.contains (String.ofList name) then
            Reading.fail "Syntax error: Bad function name"
          else
            Reading.hold (← readPastLines fuel)
            return .define name (← readCommand fuel)
        | t => unexpected t (some ")")
      | _, _, _, _ =>
        Reading.hold t
        return .simple line assignments.reverse words.reverse redirects.reverse

/-- Reads a conditional command after its first keyword. -/
def readBranch : (fuel : Nat) → Reading Command
  | 0 => Reading.fail "Syntax error: too deep"
  | fuel + 1 => do
    let condition ← readItems fuel false false []
    expectKeyword fuel "then"
    let yes ← readItems fuel false false []
    let t ← readPastLines fuel
    match t.keyword? with
    | some "elif" => return .branch condition yes (← readBranch fuel)
    | some "else" =>
      let no ← readItems fuel false false []
      expectKeyword fuel "fi"
      return .branch condition yes no
    | some "fi" => return .branch condition yes .nothing
    | _ => unexpected t (some "fi")

def readLoop : (fuel : Nat) → (isUntil : Bool) → Reading Command
  | 0, _ => Reading.fail "Syntax error: too deep"
  | fuel + 1, isUntil => do
    let condition ← readItems fuel false false []
    expectKeyword fuel "do"
    let body ← readItems fuel false false []
    expectKeyword fuel "done"
    return .loop isUntil condition body

/-- Reads a loop over words after its first keyword. -/
def readFor : (fuel : Nat) → Reading Command
  | 0 => Reading.fail "Syntax error: too deep"
  | fuel + 1 => do
    let t ← readToken fuel
    let name := match t with
      | .word w => (bare? w).getD []
      | _ => []
    if !Octets.isName name then Reading.fail "Syntax error: Bad for loop variable"
    else
      let t ← readPastLines fuel
      let words ← readForWords fuel t
      expectKeyword fuel "do"
      let body ← readItems fuel false false []
      expectKeyword fuel "done"
      return .forEach name words body

/-- Reads the words of a loop, if it has some, after their first token. -/
def readForWords : (fuel : Nat) → Token → Reading (Option (List Word))
  | 0, _ => Reading.fail "Syntax error: too deep"
  | fuel + 1, t => do
    if t.keyword? = some "in" then return some (← readWords fuel [])
    else
      match t with
      | .operator ";" => return none
      | t =>
        Reading.hold t
        return none

/-- Reads words up to the end of the line or a semicolon. -/
def readWords : (fuel : Nat) → (got : List Word) → Reading (List Word)
  | 0, _ => Reading.fail "Syntax error: too deep"
  | fuel + 1, got => do
    match ← readToken fuel with
    | .word w => readWords fuel (w :: got)
    | .newline | .operator ";" => return got.reverse
    | t => unexpected t none

/-- Reads a command that depends on patterns after its first keyword. -/
def readCase : (fuel : Nat) → Reading Command
  | 0 => Reading.fail "Syntax error: too deep"
  | fuel + 1 => do
    match ← readToken fuel with
    | .word w =>
      expectKeyword fuel "in"
      return .choose w (← readCases fuel [])
    | t => unexpected t (some "word")

def readCases : (fuel : Nat) → (got : List (List Word × Command)) →
    Reading (List (List Word × Command))
  | 0, _ => Reading.fail "Syntax error: too deep"
  | fuel + 1, got => do
    let t ← readPastLines fuel
    if t.keyword? = some "esac" then return got.reverse
    else
      let t ← match t with
        | .operator "(" => readToken fuel
        | t => pure t
      let patterns ← readPatterns fuel t []
      let body ← readItems fuel true false []
      match ← readPastLines fuel with
      | .operator ";;" => readCases fuel ((patterns, body) :: got)
      | t =>
        if t.keyword? = some "esac" then return ((patterns, body) :: got).reverse
        else unexpected t (some ";;")

/-- Reads the patterns of one case, of which the first token was read. -/
def readPatterns : (fuel : Nat) → Token → (got : List Word) → Reading (List Word)
  | 0, _, _ => Reading.fail "Syntax error: too deep"
  | fuel + 1, t, got => do
    let w := match t with
      | .word w => w
      | _ => []
    match ← readToken fuel with
    | .operator "|" =>
      let t ← readToken fuel
      readPatterns fuel t (w :: got)
    | .operator ")" => return (w :: got).reverse
    | t => unexpected t (some ")")

end

/-- A bound on the steps that reading a script takes. -/
def readingFuel (text : Octets) : Nat := 20 * (text.length + 10)

/-- Reads the next line of commands, or nothing at the end of the script. -/
def readLine (fuel : Nat) : Reading (Option Command) := do
  match ← readPastLines fuel with
  | .finish => return none
  | t =>
    Reading.hold t
    return some (← readItems fuel false true [])

/-- The next line of commands of a script, and the script after it. -/
def Script.next (s : Script) : Except SyntaxError (Option Command) × Script :=
  (readLine (readingFuel s.rest)).run.run s

end KernelTrace.Shell
