/-!
# Integers in text

An integer is written as an optional sign and at least one digit, and must fit the width of the
field it is read for. A plus sign is allowed everywhere, a minus sign only where the field is
signed; blanks and separators are allowed nowhere.
-/

namespace KernelTrace.Number

/-- The value of a digit, where `base` is at most ten. -/
def digit? (base : Nat) (c : Char) : Option Nat :=
  let v := c.toNat - '0'.toNat
  if '0'.toNat ≤ c.toNat ∧ v < base then some v else none

/-- The value of a string of digits read after `acc`. -/
def digitsFrom? (base : Nat) : Nat → List Char → Option Nat
  | acc, [] => some acc
  | acc, c :: rest => (digit? base c).bind fun d => digitsFrom? base (acc * base + d) rest

/-- The value of a string of at least one digit. -/
def digits? (base : Nat) : List Char → Option Nat
  | [] => none
  | cs => digitsFrom? base 0 cs

/-- A number below `bound`, written with an optional plus sign. -/
def unsigned? (base bound : Nat) (cs : List Char) : Option Nat :=
  let ds := match cs with
    | '+' :: rest => rest
    | _ => cs
  (digits? base ds).filter (· < bound)

def natural? (bits : Nat) (cs : List Char) : Option Nat := unsigned? 10 (Nat.pow 2 bits) cs

/-- A decimal integer that fits `bits` bits in two's complement, written with an optional sign. -/
def integer? (bits : Nat) (cs : List Char) : Option Int :=
  match cs with
  | '-' :: rest => ((digits? 10 rest).filter (· ≤ Nat.pow 2 (bits - 1))).map fun n => -(n : Int)
  | _ => (unsigned? 10 (Nat.pow 2 (bits - 1)) cs).map Int.ofNat

example : integer? 8 "-128".toList = some (-128) ∧ integer? 8 "128".toList = none
    ∧ integer? 8 "+7".toList = some 7 ∧ integer? 8 "+-7".toList = none
    ∧ natural? 8 "-0".toList = none ∧ unsigned? 8 256 "+17".toList = some 15 := by decide

end KernelTrace.Number
