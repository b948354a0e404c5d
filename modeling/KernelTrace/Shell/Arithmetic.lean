import KernelTrace.Text.Octets

/-!
# Arithmetic of the shell

An expression is a text of integers of 64 bits, names of variables and operators. It is evaluated
while it is read; a part whose value does not matter is read without consequences.
-/

namespace KernelTrace.Shell.Arithmetic

/-- The number that a whole text is, in decimal, octal or hexadecimal digits. -/
def number? (t : Octets) : Option Nat :=
  let hex (c : Char) : Option Nat :=
    if c.isDigit then some (c.toNat - '0'.toNat)
    else if 'a' ≤ c ∧ c ≤ 'f' then some (c.toNat - 'a'.toNat + 10)
    else if 'A' ≤ c ∧ c ≤ 'F' then some (c.toNat - 'A'.toNat + 10)
    else none
  let read (base : Nat) (ds : Octets) : Option Nat :=
    if ds = [] then none
    else ds.foldlM (fun n c => ((hex c).filter (· < base)).map (n * base + ·)) 0
  match t with
  | '0' :: 'x' :: ds => read 16 ds
  | '0' :: 'X' :: ds => read 16 ds
  | '0' :: d :: ds => read 8 (d :: ds)
  | ds => read 10 ds

/-- The integer of 64 bits that an integer stands for. -/
def wrap (n : Int) : Int := n.bmod (Nat.pow 2 64)

/-- The integer that the value of a variable is. -/
def ofValue? (t : Octets) : Option Int :=
  let t := ((t.dropWhile Char.isWhitespace).reverse.dropWhile Char.isWhitespace).reverse
  match t with
  | [] => some 0
  | '-' :: ds => (number? ds).map fun n => wrap (-(n : Int))
  | '+' :: ds => (number? ds).map fun n => wrap n
  | ds => (number? ds).map fun n => wrap n

/-- Where evaluation has got to. -/
structure State where
  rest : Octets
  assigned : List (Octets × Int)

/-- Steps of an evaluation, which may fail with a message. -/
abbrev Steps := ExceptT String (StateM State)

/-- The operators that take two operands, longest first, with how tightly they bind. -/
def binaryOperators : List (String × Nat) :=
  [("<<", 8), (">>", 8), ("<=", 7), (">=", 7), ("==", 6), ("!=", 6), ("&&", 2), ("||", 1),
   ("*", 10), ("/", 10), ("%", 10), ("+", 9), ("-", 9), ("<", 7), (">", 7), ("&", 5), ("^", 4),
   ("|", 3)]

/-- The operators that may come before the sign of an assignment. -/
def assigningOperators : List String := ["<<", ">>", "*", "/", "%", "+", "-", "&", "^", "|", ""]

def apply (o : String) (a b : Int) : Except String Int :=
  let truth (p : Bool) : Except String Int := .ok (if p then 1 else 0)
  match o with
  | "+" => .ok (wrap (a + b))
  | "-" => .ok (wrap (a - b))
  | "*" => .ok (wrap (a * b))
  | "/" => if b = 0 then .error "division by zero" else .ok (wrap (a.tdiv b))
  | "%" => if b = 0 then .error "division by zero" else .ok (wrap (a.tmod b))
  | "<<" => .ok (wrap (a * Int.pow 2 (b % 64).toNat))
  | ">>" => .ok (a.fdiv (Int.pow 2 (b % 64).toNat))
  | "<" => truth (a < b)
  | "<=" => truth (a ≤ b)
  | ">" => truth (b < a)
  | ">=" => truth (b ≤ a)
  | "==" => truth (a = b)
  | "!=" => truth (a ≠ b)
  | "&" => .ok (BitVec.ofInt 64 a &&& BitVec.ofInt 64 b).toInt
  | "^" => .ok (BitVec.ofInt 64 a ^^^ BitVec.ofInt 64 b).toInt
  | "|" => .ok (BitVec.ofInt 64 a ||| BitVec.ofInt 64 b).toInt
  | "&&" => truth (a ≠ 0 ∧ b ≠ 0)
  | "||" => truth (a ≠ 0 ∨ b ≠ 0)
  | _ => .ok b

def skip : Steps Octets :=
  modifyGet fun s =>
    let rest := s.rest.dropWhile Char.isWhitespace
    (rest, { s with rest })

def advance (n : Nat) : Steps Unit := modify fun s => { s with rest := s.rest.drop n }

/-- The operator between two operands at the start of characters. A sign of assignment after it
makes it another operator. -/
def binaryOperator? (rest : Octets) : Option (String × Nat) :=
  binaryOperators.find? fun o =>
    o.1.toList.isPrefixOf rest
      && (["<=", ">=", "==", "!=", "&&", "||"].contains o.1
        || (rest.drop o.1.length).head? != some '=')

/-- The operator of an assignment at the start of characters. -/
def assigningOperator? (rest : Octets) : Option String :=
  assigningOperators.find? fun o =>
    (o.toList ++ ['=']).isPrefixOf rest && (rest.drop (o.length + 1)).head? != some '='

def valueOf (lookup : Octets → Octets) (name : Octets) : Steps Int := do
  match (← get).assigned.lookup name with
  | some n => return n
  | none =>
    match ofValue? (lookup name) with
    | some n => return n
    | none => throw ("Illegal number: " ++ String.ofList (lookup name))

mutual

/-- Evaluates an expression with the values of variables. Nothing is assigned and nothing is an
error of the operands unless `live`. -/
def expression (lookup : Octets → Octets) : (fuel : Nat) → (live : Bool) → Steps Int
  | 0, _ => throw "too deep"
  | fuel + 1, live => do
    let rest ← skip
    let name := if (rest.head?.map Octets.isNameStart).getD false
      then rest.takeWhile Octets.isNameChar else []
    let after := (rest.drop name.length).dropWhile Char.isWhitespace
    match if name = [] then none else assigningOperator? after with
    | some o =>
      modify fun s => { s with rest := after.drop (o.length + 1) }
      let right ← expression lookup fuel live
      if live then
        let value ← if o = "" then pure right else do
          let left ← valueOf lookup name
          match apply o left right with
          | .ok v => pure v
          | .error e => throw e
        modify fun s => { s with assigned := (name, value) :: s.assigned }
        return value
      else return 0
    | none =>
      let condition ← binary lookup fuel live 1
      match ← skip with
      | '?' :: _ =>
        advance 1
        let yes ← expression lookup fuel (live && condition ≠ 0)
        match ← skip with
        | ':' :: _ =>
          advance 1
          let no ← expression lookup fuel (live && condition = 0)
          return if condition ≠ 0 then yes else no
        | _ => throw "expecting ':'"
      | _ => return condition

/-- Evaluates operands joined by operators that bind at least so tightly. -/
def binary (lookup : Octets → Octets) : (fuel : Nat) → (live : Bool) → (least : Nat) → Steps Int
  | 0, _, _ => throw "too deep"
  | fuel + 1, live, least => do
    let first ← unary lookup fuel live
    binaryRest lookup fuel live least first

/-- Evaluates the operators and operands after a first operand. -/
def binaryRest (lookup : Octets → Octets) : (fuel : Nat) → (live : Bool) → (least : Nat) →
    (first : Int) → Steps Int
  | 0, _, _, _ => throw "too deep"
  | fuel + 1, live, least, first => do
    match binaryOperator? (← skip) with
    | none => return first
    | some (o, strength) =>
      if strength < least then return first
      else
        advance o.length
        let isLive := live && !(o = "&&" && first = 0) && !(o = "||" && first ≠ 0)
        let second ← binary lookup fuel isLive (strength + 1)
        let value ← if !live then pure 0 else match apply o first second with
          | .ok v => pure v
          | .error e => if isLive then throw e else pure 0
        binaryRest lookup fuel live least value

/-- Evaluates an operand with the operators before it. -/
def unary (lookup : Octets → Octets) : (fuel : Nat) → (live : Bool) → Steps Int
  | 0, _ => throw "too deep"
  | fuel + 1, live => do
    match ← skip with
    | '-' :: _ =>
      advance 1
      return wrap (-(← unary lookup fuel live))
    | '+' :: _ =>
      advance 1
      unary lookup fuel live
    | '!' :: _ =>
      advance 1
      return if (← unary lookup fuel live) = 0 then 1 else 0
    | '~' :: _ =>
      advance 1
      return -(← unary lookup fuel live) - 1
    | '(' :: _ =>
      advance 1
      let value ← expression lookup fuel live
      match ← skip with
      | ')' :: _ =>
        advance 1
        return value
      | _ => throw "expecting ')'"
    | c :: rest =>
      let word := (c :: rest).takeWhile Octets.isNameChar
      if word = [] then throw "expecting primary"
      else
        advance word.length
        if c.isDigit then
          match number? word with
          | some n => return wrap n
          | none => throw "expecting EOF"
        else if live then valueOf lookup word
        else return 0
    | [] => throw "expecting primary"

end

/-- The value of a whole text with the values of variables, and the variables it assigns, earliest
first. -/
def evaluate (lookup : Octets → Octets) (text : Octets) :
    Except String Int × List (Octets × Int) :=
  let whole : Steps Int := do
    if (← skip) = [] then return 0
    let value ← expression lookup (20 * (text.length + 10)) true
    if (← skip) = [] then return value else throw "expecting EOF"
  let (result, s) := whole.run.run ⟨text, []⟩
  (result, s.assigned.reverse)

end KernelTrace.Shell.Arithmetic
