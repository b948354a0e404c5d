/-!
# Bytes and text

Paths, file contents and the output of hooks are bytes; names, arguments and messages are text.
Two readings connect them. The strict one (`decode?`) accepts exactly the encodings of texts and is
used where a text is required, as for a line of the mount table. The lossy one (`decodeLossy`) is
used for display and for records that must be read whatever they hold: every maximal piece that
cannot be continued to a character becomes one U+FFFD, and every character that is there is kept.

An ASCII byte never belongs to a longer character, so the lossy reading can be cut at any of them;
that is what keeps a record's separators where they are.
-/

namespace KernelTrace

abbrev Bytes := List UInt8

namespace Utf8

def encode (s : String) : Bytes := s.toByteArray.data.toList

/-- The text whose bytes are given, if there is one. -/
def decode? (b : Bytes) : Option String := String.fromUTF8? ⟨b.toArray⟩

/-- Reading back what was written gives the text. -/
@[simp] theorem decode?_encode (s : String) : decode? (encode s) = some s := by
  have valid : (⟨s.toByteArray.data⟩ : ByteArray).IsValidUTF8 := s.isValidUTF8
  simp only [decode?, encode, Array.toArray_toList, String.fromUTF8?]
  exact dif_pos valid

theorem encode_injective {a b : String} (h : encode a = encode b) : a = b := by
  have hdecode := congrArg decode? h
  rw [decode?_encode, decode?_encode] at hdecode
  exact Option.some.inj hdecode

theorem decode?_eq_some {b : Bytes} {s : String} : decode? b = some s ↔ encode s = b := by
  constructor
  · intro h
    rw [decode?, String.fromUTF8?] at h
    split at h
    · obtain rfl := Option.some.inj h
      rfl
    · cases h
  · rintro rfl
    exact decode?_encode s

/-- The number of bytes that follow the lead byte of a longer character, and the range of the
first of them. No other byte starts such a character. -/
def continuation? (lead : UInt8) : Option (Nat × UInt8 × UInt8) :=
  if 0xC2 ≤ lead ∧ lead ≤ 0xDF then some (1, 0x80, 0xBF)
  else if lead = 0xE0 then some (2, 0xA0, 0xBF)
  else if lead = 0xED then some (2, 0x80, 0x9F)
  else if 0xE1 ≤ lead ∧ lead ≤ 0xEF then some (2, 0x80, 0xBF)
  else if lead = 0xF0 then some (3, 0x90, 0xBF)
  else if 0xF1 ≤ lead ∧ lead ≤ 0xF3 then some (3, 0x80, 0xBF)
  else if lead = 0xF4 then some (3, 0x80, 0x8F)
  else none

/-- The longest run of at most `n` continuation bytes, the first of them in `low` to `high`. -/
def tail : Nat → UInt8 → UInt8 → Bytes → Bytes
  | 0, _, _, _ => []
  | _ + 1, _, _, [] => []
  | n + 1, low, high, b :: rest =>
    if low ≤ b ∧ b ≤ high then b :: tail n 0x80 0xBF rest else []

/-- The code point of a lead byte followed by `more`. -/
def codePoint (lead : UInt8) (more : Bytes) : Nat :=
  let bits := match more.length with
    | 1 => lead.toNat % 32
    | 2 => lead.toNat % 16
    | _ => lead.toNat % 8
  more.foldl (fun acc b => acc * 64 + b.toNat % 64) bits

/-- The characters of a byte string, with U+FFFD for every piece that is none. -/
def lossyChars : Bytes → List Char
  | [] => []
  | b :: rest =>
    if b < 0x80 then Char.ofNat b.toNat :: lossyChars rest
    else match continuation? b with
      | none => '\ufffd' :: lossyChars rest
      | some (n, low, high) =>
        let more := tail n low high rest
        let c := if more.length = n then Char.ofNat (codePoint b more) else '\ufffd'
        c :: lossyChars (rest.drop more.length)
termination_by b => b.length
decreasing_by all_goals (simp only [List.length_cons, List.length_drop]; omega)

/-- The text of a byte string, with U+FFFD for every piece that is no character. -/
def decodeLossy (b : Bytes) : String := String.ofList (lossyChars b)

end Utf8

end KernelTrace
