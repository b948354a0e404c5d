/-!
# White space

The fields of a mount table line and of an argument string are separated by white space as Unicode
defines it, which is more than the ASCII blanks: a no-break space separates too.
-/

namespace KernelTrace.Blank

/-- Whether a character has the Unicode property White_Space. -/
def isBlank (c : Char) : Bool :=
  let n := c.toNat
  (9 ≤ n && n ≤ 13) || n = 0x20 || n = 0x85 || n = 0xA0 || n = 0x1680
    || (0x2000 ≤ n && n ≤ 0x200A) || n = 0x2028 || n = 0x2029 || n = 0x202F || n = 0x205F
    || n = 0x3000

/-- The maximal runs of characters that are not blank, in order. -/
def fieldsOf : List Char → List (List Char)
  | [] => []
  | c :: rest =>
    if isBlank c then fieldsOf rest
    else match rest with
      | [] => [[c]]
      | d :: _ =>
        if isBlank d then [c] :: fieldsOf rest
        else match fieldsOf rest with
          | [] => [[c]]
          | f :: fs => (c :: f) :: fs

/-- The fields of a text: its maximal runs of characters that are not blank, in order. -/
def fields (s : String) : List String := (fieldsOf s.toList).map String.ofList

/-- The characters between the first and the last one that is not blank. -/
def trim (cs : List Char) : List Char :=
  ((cs.dropWhile isBlank).reverse.dropWhile isBlank).reverse

theorem isBlank_of_isWhitespace {c : Char} (h : c.isWhitespace = true) : isBlank c = true := by
  simp only [Char.isWhitespace, Bool.or_eq_true, decide_eq_true_eq] at h
  rcases h with ((h | h) | h) | h <;> subst h <;> decide

example : fields " a\u00a0b \u3000c\n" = ["a", "b", "c"] := by decide +kernel

end KernelTrace.Blank
