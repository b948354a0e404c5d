import KernelTrace.Shell.Arithmetic

/-!
# Escapes and formats

Text that is written may hold escapes, and a format places arguments in a text. A format is used
again as long as there are arguments that it has not placed.
-/

namespace KernelTrace.Shell.Format

def isOctal (c : Char) : Bool := '0' ≤ c && c ≤ '7'

/-- The character whose number is given by up to three octal digits, and what follows them. -/
def octal (s : Octets) : Octets × Octets :=
  let ds := (s.take 3).takeWhile isOctal
  let n := ds.foldl (fun n c => n * 8 + (c.toNat - '0'.toNat)) 0
  ([Char.ofNat (n % 256)], s.drop ds.length)

/-- The character of an escape of one letter. -/
def letter? : Char → Option Char
  | 'a' => some '\x07'
  | 'b' => some '\x08'
  | 'f' => some '\x0c'
  | 'n' => some '\n'
  | 'r' => some '\r'
  | 't' => some '\t'
  | 'v' => some '\x0b'
  | '\\' => some '\\'
  | _ => none

/-- What a backslash and the characters after it stand for, and what follows them. -/
def escape (s : Octets) : Octets × Octets :=
  match s with
  | [] => (['\\'], [])
  | c :: rest =>
    match letter? c with
    | some d => ([d], rest)
    | none => if isOctal c then octal s else (['\\'], s)

/-- What a text with escapes stands for, and whether an escape in it stops all output. `fuel` bounds
the number of its characters. -/
def unescapeFrom : (fuel : Nat) → Octets → Octets × Bool
  | 0, _ => ([], false)
  | _, [] => ([], false)
  | fuel + 1, '\\' :: rest =>
    match rest with
    | 'c' :: _ => ([], true)
    | '0' :: d :: more =>
      let (t, after) := if isOctal d then octal (d :: more) else escape rest
      let (u, stops) := unescapeFrom fuel after
      (t ++ u, stops)
    | _ =>
      let (t, after) := escape rest
      let (u, stops) := unescapeFrom fuel after
      (t ++ u, stops)
  | fuel + 1, c :: rest =>
    let (u, stops) := unescapeFrom fuel rest
    (c :: u, stops)

/-- What a text with escapes stands for, and whether an escape in it stops all output. -/
def unescape (s : Octets) : Octets × Bool := unescapeFrom s.length s

/-- How an argument is placed in a text. -/
structure Directive where
  isLeft : Bool
  isZeroed : Bool
  /-- Numbers that are not negative have a plus sign. -/
  isSigned : Bool
  /-- Numbers that are not negative have a blank before them. -/
  isSpaced : Bool
  isMarked : Bool
  width : Nat
  precision : Option Nat
  deriving Inhabited

/-- A text filled up to the width of a directive. -/
def Directive.pad (d : Directive) (t : Octets) : Octets :=
  let fill := List.replicate (d.width - t.length) ' '
  if d.isLeft then t ++ fill else fill ++ t

/-- A number with a sign, filled up to the width of a directive. -/
def Directive.padNumber (d : Directive) (sign digits : Octets) : Octets :=
  let digits := match d.precision with
    | some p => List.replicate (p - digits.length) '0' ++ digits
    | none =>
      if d.isZeroed && !d.isLeft then
        List.replicate (d.width - sign.length - digits.length) '0' ++ digits
      else digits
  d.pad (sign ++ digits)

/-- What placing arguments has come to. -/
structure Placing where
  text : Octets
  args : List Octets
  asked : Bool
  stopped : Bool
  errors : List String

namespace Placing

def add (p : Placing) (t : Octets) : Placing := { p with text := p.text ++ t }

def next (p : Placing) : Option Octets × Placing :=
  match p.args with
  | [] => (none, { p with asked := true })
  | a :: rest => (some a, { p with args := rest, asked := true })

def nextInteger (p : Placing) : Int × Placing :=
  match p.next with
  | (none, p) => (0, p)
  | (some t, p) =>
    match t with
    | '\x22' :: c :: _ | '\x27' :: c :: _ => (c.toNat, p)
    | _ =>
      let t' := t.dropWhile Char.isWhitespace
      let (sign, digits) := match t' with
        | '-' :: ds => (['-'], ds)
        | '+' :: ds => ([], ds)
        | ds => ([], ds)
      let lengths := (List.range (digits.length + 1)).reverse
      let best := lengths.findSome? fun n =>
        if n = 0 then none
        else (Arithmetic.ofValue? (sign ++ digits.take n)).map (n, ·)
      match best with
      | some (n, value) =>
        if n = digits.length then (value, p)
        else (value, { p with
          errors := p.errors ++ [String.ofList t ++ ": not completely converted"] })
      | none =>
        (0, { p with errors := p.errors ++ [String.ofList t ++ ": expected numeric value"] })

end Placing

/-- Takes digits off characters, or an argument if there is an asterisk. -/
def size (p : Placing) (s : Octets) : Option Int × Placing × Octets :=
  match s with
  | '*' :: rest =>
    let (n, p) := p.nextInteger
    (some n, p, rest)
  | _ =>
    let ds := s.takeWhile Char.isDigit
    ((Arithmetic.ofValue? (('0' :: ds).dropWhile (· = '0'))).filter fun _ => ds ≠ [],
      p, s.drop ds.length)

/-- Places an argument as a conversion says, or leaves things as they are if there is no such
conversion. -/
def convert (d : Directive) (p : Placing) (conversion : Char) : Option Placing :=
  let cut (t : Octets) : Octets := match d.precision with
    | some n => t.take n
    | none => t
  let natural (base : Nat) (upper : Bool) (mark : Octets) : Placing :=
    let (n, p) := p.nextInteger
    let n := (n % Int.pow 2 64).toNat
    let ds := Nat.toDigits base n
    let ds := if upper then ds.map Char.toUpper else ds
    p.add (d.padNumber (if d.isMarked && n ≠ 0 then mark else []) ds)
  match conversion with
  | 's' =>
    let (a, p) := p.next
    some (p.add (d.pad (cut (a.getD []))))
  | 'b' =>
    let (a, p) := p.next
    let (t, stops) := unescape (a.getD [])
    some { p.add (d.pad (cut t)) with stopped := stops }
  | 'c' =>
    let (a, p) := p.next
    some (p.add (d.pad ((a.getD []).take 1)))
  | 'd' | 'i' =>
    let (n, p) := p.nextInteger
    let sign : Octets := if n < 0 then ['-'] else if d.isSigned then ['+']
      else if d.isSpaced then [' '] else []
    some (p.add (d.padNumber sign (Octets.ofNat n.natAbs)))
  | 'u' => some (natural 10 false [])
  | 'o' => some (natural 8 false ['0'])
  | 'x' => some (natural 16 false ['0', 'x'])
  | 'X' => some (natural 16 true ['0', 'X'])
  | _ => none

/-- Places arguments in a format once. `fuel` bounds the number of its characters. -/
def placeOnce : (fuel : Nat) → Octets → Placing → Placing
  | 0, _, p => p
  | _, [], p => p
  | fuel + 1, '\\' :: rest, p =>
    match rest with
    | 'c' :: _ => { p with stopped := true }
    | _ =>
      let (t, after) := escape rest
      placeOnce fuel after (p.add t)
  | fuel + 1, '%' :: rest, p =>
    match rest with
    | '%' :: after => placeOnce fuel after (p.add ['%'])
    | _ =>
      let flags := rest.takeWhile fun c => "#-+ 0".toList.contains c
      let s := rest.drop flags.length
      let (width, p, s) := size p s
      let (precision, p, s) := match s with
        | '.' :: s =>
          let (n, p, s) := size p s
          (some ((n.getD 0).toNat), p, s)
        | _ => (none, p, s)
      let d : Directive :=
        { isLeft := flags.contains '-' || decide (width.getD 0 < 0)
          isZeroed := flags.contains '0', isSigned := flags.contains '+'
          isSpaced := flags.contains ' ', isMarked := flags.contains '#'
          width := (width.getD 0).natAbs, precision }
      match s with
      | [] => { p with errors := p.errors ++ ["%" ++ String.ofList rest ++ ": invalid directive"]
                       stopped := true }
      | c :: after =>
        match convert d p c with
        | some p => if p.stopped then p else placeOnce fuel after p
        | none =>
          let shown := "%" ++ String.ofList (rest.take (rest.length - after.length))
          { p with errors := p.errors ++ [shown ++ ": invalid directive"], stopped := true }
  | fuel + 1, c :: rest, p => placeOnce fuel rest (p.add [c])

/-- Places arguments in a format until none is left, `fuel` times at most. -/
def placeAll (format : Octets) : (fuel : Nat) → Placing → Placing
  | 0, p => p
  | fuel + 1, p =>
    let p := placeOnce format.length format { p with asked := false }
    if p.stopped || p.args = [] || !p.asked then p else placeAll format fuel p

/-- The text of arguments placed in a format, and what is wrong with them. -/
def format (format : Octets) (args : List Octets) : Octets × List String :=
  let p := placeAll format (args.length + 1) ⟨[], args, false, false, []⟩
  (p.text, p.errors)

/-- What is written for words, one after the other, and a line end. Escapes in them count. -/
def line (words : List Octets) (ends : Bool) : Octets :=
  let (t, stops) := unescape ([' '].intercalate words)
  if ends && !stops then t ++ ['\n'] else t

example : line ["a\\tb".toList, "\\0101\\x".toList] true = "a\tb A\\x\n".toList
    ∧ line ["a\\cb".toList] true = "a".toList := by decide +kernel

example : (format "%s-%03d|".toList ["x".toList, "7".toList, "y".toList]).1
    = "x-007|y-000|".toList := by decide +kernel

end KernelTrace.Shell.Format
