import KernelTrace.Text.Utf8

/-!
# Bytes as characters

What reads bytes as commands, patterns or numbers looks at them one by one and gives a meaning only
to some of the ASCII ones. It is written over characters whose numbers are those of the bytes, so
that what is not ASCII passes through it unchanged, whether it is text or not.
-/

namespace KernelTrace

/-- Bytes seen as characters: the number of each is that of the byte. -/
abbrev Octets := List Char

namespace Octets

def ofBytes (b : Bytes) : Octets := b.map fun x => Char.ofNat x.toNat

def toBytes (o : Octets) : Bytes := o.map fun c => UInt8.ofNat c.toNat

def ofString (s : String) : Octets := ofBytes (Utf8.encode s)

@[simp] theorem toBytes_ofBytes (b : Bytes) : toBytes (ofBytes b) = b := by
  have one (x : UInt8) : UInt8.ofNat (Char.ofNat x.toNat).toNat = x := by
    have h : x.toNat.isValidChar := Or.inl (by have := x.toNat_lt; omega)
    have hchar : (Char.ofNat x.toNat).toNat = x.toNat := by
      rw [Char.ofNat, dif_pos h]
      rfl
    rw [hchar, UInt8.ofNat_toNat]
  simp only [toBytes, ofBytes, List.map_map, Function.comp_def, one, List.map_id']

/-- Whether a character is a letter or the underscore, as names of variables start. -/
def isNameStart (c : Char) : Bool := c.isAlpha || c = '_'

/-- Whether a character may stand in the name of a variable. -/
def isNameChar (c : Char) : Bool := c.isAlphanum || c = '_'

/-- Whether characters are the name of a variable. -/
def isName : Octets → Bool
  | [] => false
  | c :: rest => isNameStart c && rest.all isNameChar

/-- Whether characters come before others or are the same, by their numbers. -/
def le : Octets → Octets → Bool
  | [], _ => true
  | _ :: _, [] => false
  | c :: rest, c' :: rest' => c.toNat < c'.toNat || c = c' && le rest rest'

def ofNat (n : Nat) : Octets := (toString n).toList

def ofInt (n : Int) : Octets := (toString n).toList

end Octets

end KernelTrace
