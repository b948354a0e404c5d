import Mathlib
import KernelTrace.Text.Number

/-!
# Decimal numerals

Numbers are written in decimal into filters, status lines and paths, and read back from there. What
is written is never anything but digits and perhaps a minus sign (`mem_toString`), so it can stand
between blanks, and within the bits that it is read for it is read back (`integer?_toString`).
-/

namespace KernelTrace.Number

theorem digit?_digitChar {d : Nat} (h : d < 10) : digit? 10 d.digitChar = some d := by
  have hvalue : d.digitChar.toNat = '0'.toNat + d := Nat.toNat_digitChar_of_lt_ten h
  rw [digit?, hvalue, Nat.add_sub_cancel_left]
  exact if_pos ⟨Nat.le_add_right .., h⟩

theorem digitsFrom?_concat (base acc : Nat) (cs : List Char) (c : Char) :
    digitsFrom? base acc (cs ++ [c]) =
      (digitsFrom? base acc cs).bind fun v => (digit? base c).map fun d => v * base + d := by
  induction cs generalizing acc with
  | nil =>
      rw [List.nil_append, digitsFrom?, digitsFrom?]
      cases digit? base c <;> rfl
  | cons c' rest ih =>
      rw [List.cons_append, digitsFrom?, digitsFrom?]
      cases digit? base c' with
      | none => rfl
      | some d => exact ih (acc * base + d)

theorem digitsFrom?_toDigits (n : Nat) : digitsFrom? 10 0 (Nat.toDigits 10 n) = some n := by
  induction n using Nat.strongRecOn with
  | ind n ih =>
      obtain h | h := Nat.lt_or_ge n 10
      · rw [Nat.toDigits_of_lt_base h, digitsFrom?, digit?_digitChar h]
        simp [digitsFrom?]
      · have hlast : digit? 10 (n % 10).digitChar = some (n % 10) :=
          digit?_digitChar (Nat.mod_lt n (by decide))
        rw [Nat.toDigits_of_base_le (by decide) h, digitsFrom?_concat, ih (n / 10) (by omega), hlast]
        simp only [Option.bind_some, Option.map_some, Option.some.injEq]
        omega

theorem toList_toString (n : Nat) : (toString n).toList = Nat.toDigits 10 n := by
  rw [Nat.toString_eq_repr, Nat.repr_eq_ofList_toDigits, String.toList_ofList]

theorem isDigit_of_mem_toString {n : Nat} {c : Char} (h : c ∈ (toString n).toList) :
    c.isDigit = true := by
  rw [toList_toString] at h
  exact Nat.isDigit_of_mem_toDigits (by decide) (Nat.le_refl 10) h

theorem digits?_toString (n : Nat) : digits? 10 (toString n).toList = some n := by
  rw [toList_toString]
  cases hdigits : Nat.toDigits 10 n with
  | nil => exact absurd hdigits Nat.toDigits_ne_nil
  | cons c rest =>
      rw [digits?, ← hdigits, digitsFrom?_toDigits]
      exact nofun

theorem unsigned?_toString {bound n : Nat} (h : n < bound) :
    unsigned? 10 bound (toString n).toList = some n := by
  have hplain : ∀ rest, (toString n).toList ≠ '+' :: rest := fun rest heq => by
    have hplus := isDigit_of_mem_toString (n := n) (c := '+') (heq ▸ List.mem_cons_self)
    exact absurd hplus (by decide)
  rw [unsigned?, digits?_toString, Option.filter_some, if_pos (decide_eq_true h)]
  exact hplain

theorem two_pow (k : Nat) : (2 : Int) ^ k = (2 ^ k : Nat) := (Int.natCast_pow 2 k).symm

theorem integer?_toString {bits : Nat} {n : Int} (hlow : -2 ^ (bits - 1) ≤ n)
    (hhigh : n < 2 ^ (bits - 1)) : integer? bits (toString n).toList = some n := by
  rw [two_pow] at hlow hhigh
  cases n with
  | ofNat m =>
      have hm : m < Nat.pow 2 (bits - 1) := Int.ofNat_lt.1 hhigh
      have hplain : ∀ rest, (toString m).toList ≠ '-' :: rest := fun rest heq => by
        have hminus := isDigit_of_mem_toString (n := m) (c := '-') (heq ▸ List.mem_cons_self)
        exact absurd hminus (by decide)
      change integer? bits (toString m).toList = _
      rw [integer?, unsigned?_toString hm]
      · rfl
      · exact hplain
  | negSucc m =>
      have hm : m + 1 ≤ Nat.pow 2 (bits - 1) := by
        change m + 1 ≤ 2 ^ (bits - 1)
        omega
      have htext : (toString (Int.negSucc m)).toList = '-' :: (toString (m + 1)).toList :=
        String.toList_append
      rw [htext, integer?, digits?_toString, Option.filter_some, if_pos (decide_eq_true hm)]
      rfl

/-- A number is written with digits and perhaps a minus sign, and with at least one of them. -/
theorem mem_toString {n : Int} {c : Char} (h : c ∈ (toString n).toList) :
    c.isDigit = true ∨ c = '-' := by
  cases n with
  | ofNat m => exact .inl (isDigit_of_mem_toString (n := m) h)
  | negSucc m =>
      have htext : (toString (Int.negSucc m)).toList = '-' :: (toString (m + 1)).toList :=
        String.toList_append
      rw [htext] at h
      obtain rfl | h := List.mem_cons.1 h
      · exact .inr rfl
      · exact .inl (isDigit_of_mem_toString h)

end KernelTrace.Number
