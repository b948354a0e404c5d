import KernelTrace.Host.Operation
import KernelTrace.Shell.Arithmetic

/-!
# Conditions

A condition is a list of words: tests of texts, numbers and files, joined by operators. Which words
are operators depends on those around them, so that a text that looks like an operator can be tested
too.
-/

namespace KernelTrace.Shell

/-- A condition. -/
inductive Condition where
  | never
  | notEmpty (t : Octets)
  | unary (o : String) (t : Octets)
  | binary (o : String) (a b : Octets)
  | not (c : Condition)
  | and (a b : Condition)
  | or (a b : Condition)
  deriving DecidableEq

namespace Condition

def unaryOperators : List String :=
  ["-b", "-c", "-d", "-e", "-f", "-g", "-h", "-k", "-L", "-n", "-O", "-G", "-p", "-r", "-S", "-s",
   "-t", "-u", "-w", "-x", "-z"]

def binaryOperators : List String :=
  ["=", "==", "!=", "<", ">", "-eq", "-ne", "-gt", "-ge", "-lt", "-le", "-nt", "-ot", "-ef"]

/-- The operator that a word is, out of some. -/
def operator? (operators : List String) (w : Octets) : Option String :=
  operators.find? (·.toList = w)

/-- What is said about words that cannot be read. -/
abbrev Fault := String

mutual

/-- Reads conditions of which one has to hold. -/
def readOr : (fuel : Nat) → List Octets → Except Fault (Condition × List Octets)
  | 0, _ => .error "argument expected"
  | fuel + 1, ws => do
    let (a, rest) ← readAnd fuel ws
    match rest with
    | ['-', 'o'] :: rest =>
      let (b, rest) ← readOr fuel rest
      return (.or a b, rest)
    | _ => return (a, rest)

/-- Reads conditions of which all have to hold. -/
def readAnd : (fuel : Nat) → List Octets → Except Fault (Condition × List Octets)
  | 0, _ => .error "argument expected"
  | fuel + 1, ws => do
    let (a, rest) ← readNot fuel ws
    match rest with
    | ['-', 'a'] :: rest =>
      let (b, rest) ← readAnd fuel rest
      return (.and a b, rest)
    | _ => return (a, rest)

def readNot : (fuel : Nat) → List Octets → Except Fault (Condition × List Octets)
  | 0, _ => .error "argument expected"
  | fuel + 1, ws =>
    match ws with
    | [] => .ok (.never, [])
    | w :: rest =>
      match rest with
      | [] => readOne fuel w rest
      | o :: after =>
        match operator? binaryOperators o, after with
        | some o, b :: after => .ok (.binary o w b, after)
        | some o, [] => .error (o ++ ": argument expected")
        | none, _ => readOne fuel w rest

/-- Reads a condition that starts with a word that is no operand of a test of two texts. -/
def readOne : (fuel : Nat) → Octets → List Octets → Except Fault (Condition × List Octets)
  | 0, _, _ => .error "argument expected"
  | fuel + 1, w, rest =>
    if rest = [] then .ok (.notEmpty w, [])
    else if w = ['!'] then do
      let (c, rest) ← readNot fuel rest
      return (.not c, rest)
    else if w = ['('] then do
      let (c, rest) ← readOr fuel rest
      match rest with
      | [')'] :: rest => return (c, rest)
      | _ => .error "closing paren expected"
    else
      match operator? unaryOperators w, rest with
      | some o, t :: rest => .ok (.unary o t, rest)
      | _, _ => .ok (.notEmpty w, rest)

end

def read (ws : List Octets) : Except Fault Condition :=
  let whole := do
    let (c, rest) ← readOr (4 * (ws.length + 2)) ws
    if rest = [] then .ok c
    else
      let last := (ws.take (ws.length - rest.length)).getLastD []
      .error (String.ofList last ++ ": unexpected operator")
  match ws with
  | [['('], w, [')']] => .ok (.notEmpty w)
  | [['!'], a, o, b] =>
    match operator? binaryOperators o with
    | some o => .ok (.not (.binary o a b))
    | none => whole
  | _ => whole

variable {ι : Type}

/-- What a path leads to, if to anything. -/
def found? (t : Octets) (followLast : Bool) : Running ι (Option FileStatus) := do
  let path : Path := ⟨Octets.toBytes t⟩
  let found ← if followLast then Running.request (.file (.status path))
    else Running.request (.file (.linkStatus path))
  return found.toOption

/-- Whether a test of one text holds. The tests are made for somebody who may read and write
everything, and execute what anybody may execute. -/
def holdsFor (o : String) (t : Octets) : Running ι Bool := do
  match o with
  | "-n" => return t ≠ []
  | "-z" => return t = []
  | "-h" | "-L" =>
    return match ← found? t false with
      | some ⟨_, .link _⟩ => true
      | _ => false
  | _ =>
    match ← found? t true with
    | none => return false
    | some s =>
      return match o with
        | "-d" => s.entry.isDirectory
        | "-f" => s.entry.isFile
        | "-s" =>
          match s.entry with
          | .file content _ => content ≠ []
          | _ => true
        | "-x" => s.entry.mode &&& 0o111 ≠ 0
        | "-u" => s.entry.mode &&& 0o4000 ≠ 0
        | "-g" => s.entry.mode &&& 0o2000 ≠ 0
        | "-k" => s.entry.mode &&& 0o1000 ≠ 0
        | "-e" | "-r" | "-w" | "-O" | "-G" => true
        | _ => false

def integer (t : Octets) : Except Fault Int :=
  let digits := (t.dropWhile Char.isWhitespace).reverse.dropWhile Char.isWhitespace |>.reverse
  let read (ds : Octets) : Option Nat := if ds.all Char.isDigit ∧ ds ≠ [] then
      some (ds.foldl (fun n c => n * 10 + (c.toNat - '0'.toNat)) 0)
    else none
  let value : Option Int := match digits with
    | '-' :: ds => (read ds).map fun n => -(n : Int)
    | '+' :: ds => (read ds).map Int.ofNat
    | ds => (read ds).map Int.ofNat
  match value.filter fun n => -Int.pow 2 63 ≤ n && n < Int.pow 2 63 with
  | some n => .ok n
  | none => .error ("Illegal number: " ++ String.ofList t)

def holdsBetween (o : String) (a b : Octets) : Running ι (Except Fault Bool) := do
  let compare (p : Int → Int → Bool) : Except Fault Bool := do
    return p (← integer a) (← integer b)
  match o with
  | "=" | "==" => return .ok (a = b)
  | "!=" => return .ok (a ≠ b)
  | "<" => return .ok (decide (a < b))
  | ">" => return .ok (decide (b < a))
  | "-eq" => return compare (· == ·)
  | "-ne" => return compare (· != ·)
  | "-gt" => return compare fun x y => decide (y < x)
  | "-ge" => return compare fun x y => decide (y ≤ x)
  | "-lt" => return compare fun x y => decide (x < y)
  | "-le" => return compare fun x y => decide (x ≤ y)
  | "-ef" =>
    match ← found? a true, ← found? b true with
    | some x, some y => return .ok (x.location = y.location)
    | _, _ => return .ok false
  | _ => return .ok false

def holds : Condition → Running ι (Except Fault Bool)
  | .never => return .ok false
  | .notEmpty t => return .ok (t ≠ [])
  | .unary o t => return .ok (← holdsFor o t)
  | .binary o a b => holdsBetween o a b
  | .not c => return (← c.holds).map (!·)
  | .and a b => do
    match ← a.holds with
    | .ok true => b.holds
    | r => return r
  | .or a b => do
    match ← a.holds with
    | .ok false => b.holds
    | r => return r

def test (ws : List Octets) : Running ι (Except Fault Bool) :=
  match read ws with
  | .ok c => c.holds
  | .error e => return .error e

example : (read ["-n".toList, "=".toList, "x".toList]).toOption
    = some (.binary "=" "-n".toList "x".toList) := by decide +kernel

end Condition

end KernelTrace.Shell
