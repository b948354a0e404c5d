import KernelTrace.Proofs.MountTable

/-!
# Escapes wherever they stand

A mount point may hold any bytes, and how many of them are written as escapes is up to whoever has
written the table. Undoing the escapes does not depend on that choice: whatever is escaped besides
the backslashes, the bytes come back (`unescape_of_writes`).

What it does to a field that nobody has written in this way is told position by position. An escape
starts with a backslash and has no other in it, so two of them never overlap, and which positions
start one can be read off the field before anything is replaced. Each of them gives its byte, what
is behind it in the escape gives nothing, and every other position gives the byte that is there
(`replaced`).

Reading the digits takes more for an escape than the three octal digits that the kernel writes. A
plus sign in the place of the first digit is a sign, and the number behind it is taken, so a field
with `\+oo` in it is changed although it has no escape (`unescape_replaces`).
-/

namespace KernelTrace.MountTable

/-! ## Three digits -/

/-- Whether a byte is a digit from `0` to `7`. -/
def IsOctalDigit (d : UInt8) : Prop := 0x30 ≤ d ∧ d ≤ 0x37

instance (d : UInt8) : Decidable (IsOctalDigit d) := inferInstanceAs (Decidable (_ ∧ _))

def AreOctal (ds : Bytes) : Prop := ∀ d ∈ ds, IsOctalDigit d

instance (ds : Bytes) : Decidable (AreOctal ds) := List.decidableBAll IsOctalDigit ds

theorem areOctal_cons {d : UInt8} {ds : Bytes} :
    AreOctal (d :: ds) ↔ IsOctalDigit d ∧ AreOctal ds :=
  List.forall_mem_cons

/-- The number that octal digits write. -/
def octalNumber (ds : Bytes) : Nat := ds.foldl (fun n d => n * 8 + (d.toNat - 0x30)) 0

/-- The byte of the octal escape at the front, if there is one: a backslash and three octal digits,
whose number fits a byte. -/
def octal? : Bytes → Option UInt8
  | b :: d₁ :: d₂ :: d₃ :: _ =>
    if b = 0x5C ∧ AreOctal [d₁, d₂, d₃] ∧ octalNumber [d₁, d₂, d₃] < 256 then
      some (.ofNat (octalNumber [d₁, d₂, d₃]))
    else none
  | _ => none

/-- The byte of the signed escape at the front, if there is one: a backslash, a plus sign and two
octal digits. -/
def signed? : Bytes → Option UInt8
  | b :: sign :: d₁ :: d₂ :: _ =>
    if b = 0x5C ∧ sign = 0x2B ∧ AreOctal [d₁, d₂] then
      some (.ofNat (octalNumber [d₁, d₂]))
    else none
  | _ => none

/-- The byte of the escape of either kind at the front. -/
def escape? (s : Bytes) : Option UInt8 := (octal? s).or (signed? s)

theorem toNat_byteChar (d : UInt8) : (Char.ofNat d.toNat).toNat = d.toNat := by
  have hvalid : d.toNat.isValidChar := .inl (Nat.lt_trans d.toNat_lt (by decide))
  rw [Char.ofNat, dif_pos hvalid]
  rfl

theorem digit?_byte (d : UInt8) : Number.digit? 8 (Char.ofNat d.toNat) =
    if IsOctalDigit d then some (d.toNat - 0x30) else none := by
  have hdigit : IsOctalDigit d ↔ '0'.toNat ≤ d.toNat ∧ d.toNat - '0'.toNat < 8 := by
    rw [IsOctalDigit, UInt8.le_iff_toNat_le, UInt8.le_iff_toNat_le]
    change 48 ≤ d.toNat ∧ d.toNat ≤ 55 ↔ 48 ≤ d.toNat ∧ d.toNat - 48 < 8
    omega
  rw [Number.digit?, toNat_byteChar]
  simp only [hdigit]
  rfl

theorem digitsFrom?_bytes (acc : Nat) (ds : Bytes) :
    Number.digitsFrom? 8 acc (ds.map fun d => Char.ofNat d.toNat) =
      if AreOctal ds then some (ds.foldl (fun n d => n * 8 + (d.toNat - 0x30)) acc)
      else none := by
  induction ds generalizing acc with
  | nil => rw [if_pos nofun]; rfl
  | cons d ds ih =>
      rw [List.map_cons, Number.digitsFrom?, digit?_byte]
      by_cases hd : IsOctalDigit d
      · rw [if_pos hd, Option.bind_some, ih]
        simp only [areOctal_cons, hd, true_and, List.foldl_cons]
      · rw [if_neg hd, if_neg fun hall => hd (hall d List.mem_cons_self)]
        rfl

theorem unsigned?_digits (ds : Bytes) : ((Number.digitsFrom? 8 0
      (ds.map fun d => Char.ofNat d.toNat)).filter (· < 256)).map UInt8.ofNat =
    if AreOctal ds ∧ octalNumber ds < 256 then some (.ofNat (octalNumber ds))
    else none := by
  rw [digitsFrom?_bytes, ← octalNumber]
  by_cases hall : AreOctal ds
  · by_cases hfits : octalNumber ds < 256
    · rw [if_pos hall, if_pos ⟨hall, hfits⟩, Option.filter_some, if_pos (decide_eq_true hfits)]
      rfl
    · rw [if_pos hall, if_neg fun h => hfits h.2, Option.filter_some, if_neg (by simpa using hfits)]
      rfl
  · rw [if_neg hall, if_neg fun h => hall h.1]
    rfl

/-- Three digits that are not signed are an escape if they are octal and their number fits. -/
theorem escaped?_octal {d₁ : UInt8} (h : d₁ ≠ 0x2B) (d₂ d₃ : UInt8) (rest : Bytes) :
    escaped? 0x5C d₁ d₂ d₃ = octal? (0x5C :: d₁ :: d₂ :: d₃ :: rest) := by
  have hplus : Char.ofNat d₁.toNat ≠ '+' := fun heq =>
    h (UInt8.toNat_inj.1 (toNat_byteChar d₁ ▸ congrArg Char.toNat heq))
  have hunsigned : Number.unsigned? 8 256 ([d₁, d₂, d₃].map fun d => Char.ofNat d.toNat) =
      (Number.digitsFrom? 8 0 ([d₁, d₂, d₃].map fun d => Char.ofNat d.toNat)).filter (· < 256) := by
    rw [List.map_cons, Number.unsigned?, Number.digits?]
    · exact nofun
    · exact fun rest heq => hplus (List.cons.inj heq).1
  rw [escaped?, if_pos rfl, hunsigned, unsigned?_digits, octal?]
  simp only [true_and]

/-- Behind a plus sign two digits are enough, and what they write fits. -/
theorem escaped?_signed (d₁ d₂ : UInt8) (rest : Bytes) :
    escaped? 0x5C 0x2B d₁ d₂ = signed? (0x5C :: 0x2B :: d₁ :: d₂ :: rest) := by
  have hfits : AreOctal [d₁, d₂] → octalNumber [d₁, d₂] < 256 := by
    intro hall
    have h₁ : d₁.toNat ≤ 55 := UInt8.le_iff_toNat_le.1 (hall d₁ (by simp)).2
    have h₂ : d₂.toNat ≤ 55 := UInt8.le_iff_toNat_le.1 (hall d₂ (by simp)).2
    rw [octalNumber, List.foldl_cons, List.foldl_cons, List.foldl_nil]
    omega
  refine (unsigned?_digits [d₁, d₂]).trans ?_
  rw [signed?]
  simp only [true_and, and_iff_left_of_imp hfits]

theorem escaped?_eq (b d₁ d₂ d₃ : UInt8) (rest : Bytes) :
    escaped? b d₁ d₂ d₃ = escape? (b :: d₁ :: d₂ :: d₃ :: rest) := by
  rw [escape?]
  by_cases hb : b = 0x5C
  · subst hb
    by_cases hsign : d₁ = 0x2B
    · subst hsign
      have hoctal : octal? (0x5C :: 0x2B :: d₂ :: d₃ :: rest) = none := by
        rw [octal?, if_neg]
        exact fun h => absurd (h.2.1 0x2B List.mem_cons_self) (by decide)
      rw [escaped?_signed d₂ d₃ rest, hoctal, Option.none_or]
    · have hsigned : signed? (0x5C :: d₁ :: d₂ :: d₃ :: rest) = none := by
        rw [signed?, if_neg fun h => hsign h.2.1]
      rw [escaped?_octal hsign d₂ d₃ rest, hsigned, Option.or_none]
  · rw [escaped?, if_neg hb, octal?, if_neg fun h => hb h.1, signed?, if_neg fun h => hb h.1,
      Option.or_none]

/-! ## Position by position -/

/-- What the position `i` of a byte string gives if every escape is replaced by its byte: the byte
of the escape that starts there, nothing if it is behind such a start, and else what is there. -/
def byteAt? (escape? : Bytes → Option UInt8) (s : Bytes) (i : Nat) : Option UInt8 :=
  (escape? (s.drop i)).or
    (if ∃ j < i, i < j + 4 ∧ (escape? (s.drop j)).isSome then none else s[i]?)

/-- A byte string with every escape in it replaced by its byte. -/
def replaced (escape? : Bytes → Option UInt8) (s : Bytes) : Bytes :=
  (List.range s.length).filterMap (byteAt? escape? s)

/-- An escape is a backslash and three bytes that are none. -/
def Marked (escape? : Bytes → Option UInt8) : Prop :=
  ∀ s, (escape? s).isSome → ∃ d₁ d₂ d₃ rest, s = 0x5C :: d₁ :: d₂ :: d₃ :: rest ∧
    ∀ d ∈ [d₁, d₂, d₃], d ≠ 0x5C

section Marked

variable {e : Bytes → Option UInt8} {s : Bytes} {i j : Nat}

theorem Marked.eq_none (he : Marked e) {b : UInt8} (hb : b ≠ 0x5C) (rest : Bytes) :
    e (b :: rest) = none := by
  rw [Option.eq_none_iff_forall_ne_some]
  intro v hv
  obtain ⟨d₁, d₂, d₃, more, heq, -⟩ := he _ (Option.isSome_of_mem hv)
  exact hb (List.cons.inj heq).1

/-- No escape starts in another one. -/
theorem Marked.apart (he : Marked e) (hi : (e (s.drop i)).isSome) (hj : (e (s.drop j)).isSome)
    (hlt : i < j) : i + 4 ≤ j := by
  obtain ⟨d₁, d₂, d₃, rest, hs, hd⟩ := he _ hi
  simp only [List.forall_mem_cons] at hd
  have hnone : ∀ {b more}, b ≠ 0x5C → s.drop j ≠ b :: more := fun hb heq => by
    rw [heq, he.eq_none hb] at hj
    cases hj
  have hdrop : ∀ k, s.drop (i + k) = (0x5C :: d₁ :: d₂ :: d₃ :: rest).drop k := fun k => by
    rw [← hs, List.drop_drop]
  obtain h | h | h | h : j = i + 1 ∨ j = i + 2 ∨ j = i + 3 ∨ i + 4 ≤ j := by omega
  · exact absurd (h ▸ hdrop 1) (hnone hd.1)
  · exact absurd (h ▸ hdrop 2) (hnone hd.2.1)
  · exact absurd (h ▸ hdrop 3) (hnone hd.2.2.1)
  · exact h

/-- Bytes are nothing, or one that starts no escape in front of others, or an escape in front of
others. -/
@[elab_as_elim]
theorem Marked.induction (he : Marked e) {P : Bytes → Prop} (nil : P [])
    (copied : ∀ b rest, e (b :: rest) = none → P rest → P (b :: rest))
    (escaped : ∀ v d₁ d₂ d₃ rest, e (0x5C :: d₁ :: d₂ :: d₃ :: rest) = some v →
      (∀ d ∈ [d₁, d₂, d₃], d ≠ 0x5C) → P rest → P (0x5C :: d₁ :: d₂ :: d₃ :: rest))
    (s : Bytes) : P s := by
  induction hlen : s.length using Nat.strongRecOn generalizing s with
  | ind n ih =>
      subst hlen
      cases s with
      | nil => exact nil
      | cons b rest =>
          cases hv : e (b :: rest) with
          | none => exact copied b rest hv (ih _ (Nat.lt_succ_self _) rest rfl)
          | some v =>
              obtain ⟨d₁, d₂, d₃, more, heq, hd⟩ := he _ (Option.isSome_of_mem hv)
              rw [heq] at hv ih ⊢
              exact escaped v d₁ d₂ d₃ more hv hd
                (ih _ (by simp only [List.length_cons]; omega) more rfl)

/-- Behind bytes whose escapes end in them, nothing depends on them. -/
theorem byteAt?_append {front rest : Bytes}
    (h : ∀ j < front.length, (e ((front ++ rest).drop j)).isSome → j + 4 ≤ front.length) (i : Nat) :
    byteAt? e (front ++ rest) (front.length + i) = byteAt? e rest i := by
  have hcovered : (∃ j < front.length + i, front.length + i < j + 4 ∧
      (e ((front ++ rest).drop j)).isSome) ↔ ∃ j < i, i < j + 4 ∧ (e (rest.drop j)).isSome := by
    constructor
    · rintro ⟨j, hj, hlt, hsome⟩
      have hout : front.length ≤ j := by
        refine Nat.le_of_not_lt fun hin => ?_
        have hend := h j hin hsome
        omega
      obtain ⟨k, rfl⟩ := Nat.exists_eq_add_of_le hout
      rw [List.drop_length_add_append] at hsome
      exact ⟨k, by omega, by omega, hsome⟩
    · rintro ⟨j, hj, hlt, hsome⟩
      refine ⟨front.length + j, by omega, by omega, ?_⟩
      rwa [List.drop_length_add_append]
  have hget : (front ++ rest)[front.length + i]? = rest[i]? := by
    rw [List.getElem?_append_right (Nat.le_add_right ..), Nat.add_sub_cancel_left]
  rw [byteAt?, byteAt?, List.drop_length_add_append, hget]
  simp only [hcovered]

theorem replaced_append {front rest : Bytes}
    (h : ∀ j < front.length, (e ((front ++ rest).drop j)).isSome → j + 4 ≤ front.length) :
    replaced e (front ++ rest) =
      (List.range front.length).filterMap (byteAt? e (front ++ rest)) ++ replaced e rest := by
  have hback : (byteAt? e (front ++ rest) ∘ fun i => front.length + i) = byteAt? e rest :=
    funext (byteAt?_append h)
  rw [replaced, List.length_append, List.range_add, List.filterMap_append, List.filterMap_map,
    hback, ← replaced]

theorem replaced_copied {b : UInt8} {rest : Bytes} (h : e (b :: rest) = none) :
    replaced e (b :: rest) = b :: replaced e rest := by
  have hnone : ∀ j < [b].length, (e (([b] ++ rest).drop j)).isSome → j + 4 ≤ [b].length := by
    intro j hj hsome
    obtain rfl : j = 0 := by simpa using hj
    rw [List.drop_zero, List.singleton_append, h] at hsome
    cases hsome
  have hfirst : byteAt? e (b :: rest) 0 = some b := by
    simp [byteAt?, h]
  refine (replaced_append hnone).trans ?_
  simp [List.range_succ, hfirst]

theorem byteAt?_behind (he : Marked e) (hstart : (e (s.drop j)).isSome) (hlt : j < i)
    (hin : i < j + 4) : byteAt? e s i = none := by
  have hnone : e (s.drop i) = none := by
    rw [← Option.not_isSome_iff_eq_none]
    exact fun hsome => absurd (he.apart hstart hsome hlt) (Nat.not_le.2 hin)
  rw [byteAt?, hnone, Option.none_or, if_pos ⟨j, hlt, hin, hstart⟩]

theorem replaced_escaped (he : Marked e) {v d₁ d₂ d₃ : UInt8} {rest : Bytes}
    (h : e (0x5C :: d₁ :: d₂ :: d₃ :: rest) = some v) :
    replaced e (0x5C :: d₁ :: d₂ :: d₃ :: rest) = v :: replaced e rest := by
  have hstart : (e ((0x5C :: d₁ :: d₂ :: d₃ :: rest).drop 0)).isSome := Option.isSome_of_mem h
  have hends : ∀ j < [0x5C, d₁, d₂, d₃].length,
      (e (([0x5C, d₁, d₂, d₃] ++ rest).drop j)).isSome → j + 4 ≤ [0x5C, d₁, d₂, d₃].length := by
    intro j hj hsome
    obtain rfl | hpos := Nat.eq_zero_or_pos j
    · exact Nat.le_refl 4
    · exact absurd hj (Nat.not_lt.2 (he.apart hstart hsome hpos))
  have hfirst : byteAt? e (0x5C :: d₁ :: d₂ :: d₃ :: rest) 0 = some v := by
    rw [byteAt?, List.drop_zero, h, Option.some_or]
  have hbehind := fun i => byteAt?_behind he (i := i) hstart
  refine (replaced_append hends).trans ?_
  simp [List.range_succ, hfirst, hbehind]

theorem replaced_of_forall_none (h : ∀ i, e (s.drop i) = none) : replaced e s = s := by
  induction s with
  | nil => rfl
  | cons b rest ih => rw [replaced_copied (h 0), ih fun i => h (i + 1)]

theorem forall_drop_cons {b : UInt8} {rest : Bytes} :
    (∀ i, e ((b :: rest).drop i) = none) ↔ e (b :: rest) = none ∧ ∀ i, e (rest.drop i) = none := by
  refine ⟨fun h => ⟨h 0, fun i => h (i + 1)⟩, fun h i => ?_⟩
  cases i with
  | zero => exact h.1
  | succ i => exact h.2 i

end Marked

/-! ## The two kinds of escapes -/

theorem marked_octal : Marked octal? := by
  intro s hsome
  unfold octal? at hsome
  split at hsome
  · next b d₁ d₂ d₃ rest =>
      split at hsome
      · next h =>
          refine ⟨d₁, d₂, d₃, rest, by rw [h.1], fun d hd heq => ?_⟩
          exact absurd (h.2.1 d hd) (heq ▸ by decide)
      · cases hsome
  · cases hsome

theorem marked_signed : Marked signed? := by
  intro s hsome
  unfold signed? at hsome
  split at hsome
  · next b sign d₁ d₂ rest =>
      split at hsome
      · next h =>
          obtain ⟨hb, hsign, hdigits⟩ := h
          have hne : ∀ d ∈ [d₁, d₂], d ≠ 0x5C := fun d hd heq =>
            absurd (hdigits d hd) (heq ▸ by decide)
          exact ⟨sign, d₁, d₂, rest, by rw [hb],
            List.forall_mem_cons.2 ⟨hsign ▸ by decide, hne⟩⟩
      · cases hsome
  · cases hsome

theorem marked_escape : Marked escape? := by
  intro s hsome
  rw [escape?, Option.isSome_or, Bool.or_eq_true] at hsome
  exact hsome.elim (marked_octal s) (marked_signed s)

theorem unescape_copied {b : UInt8} {rest : Bytes} (h : escape? (b :: rest) = none) :
    unescape (b :: rest) = b :: unescape rest := by
  match rest with
  | [] | [_] | [_, _] => rfl
  | d₁ :: d₂ :: d₃ :: rest => rw [unescape, escaped?_eq b d₁ d₂ d₃ rest, h]

theorem unescape_escaped {v b d₁ d₂ d₃ : UInt8} {rest : Bytes}
    (h : escape? (b :: d₁ :: d₂ :: d₃ :: rest) = some v) :
    unescape (b :: d₁ :: d₂ :: d₃ :: rest) = v :: unescape rest := by
  rw [unescape, escaped?_eq b d₁ d₂ d₃ rest, h]

theorem unescape_eq_replaced (s : Bytes) : unescape s = replaced escape? s := by
  induction s using marked_escape.induction with
  | nil => rfl
  | copied b rest h ih => rw [unescape_copied h, replaced_copied h, ih]
  | escaped v d₁ d₂ d₃ rest h hd ih =>
      rw [unescape_escaped h, replaced_escaped marked_escape h, ih]

theorem signed?_of_octal {s : Bytes} (h : (octal? s).isSome) : signed? s = none := by
  unfold octal? at h
  split at h
  · next b d₁ d₂ d₃ rest =>
      split at h
      · next hoctal =>
          rw [signed?, if_neg]
          exact fun hsigned => absurd (hoctal.2.1 d₁ List.mem_cons_self) (hsigned.2.1 ▸ by decide)
      · cases h
  · cases h

theorem Marked.forall_drop {e : Bytes → Option UInt8} (he : Marked e) {b d₁ d₂ d₃ : UInt8}
    (hd : ∀ d ∈ [d₁, d₂, d₃], d ≠ 0x5C) (rest : Bytes) :
    (∀ i, e ((b :: d₁ :: d₂ :: d₃ :: rest).drop i) = none) ↔
      e (b :: d₁ :: d₂ :: d₃ :: rest) = none ∧ ∀ i, e (rest.drop i) = none := by
  simp only [List.forall_mem_cons] at hd
  simp only [forall_drop_cons, he.eq_none hd.1, he.eq_none hd.2.1, he.eq_none hd.2.2.1, true_and]

theorem Marked.replaced_plain {e : Bytes → Option UInt8} (he : Marked e) {ds : Bytes}
    (hd : ∀ d ∈ ds, d ≠ 0x5C) (rest : Bytes) : replaced e (ds ++ rest) = ds ++ replaced e rest := by
  induction ds with
  | nil => rfl
  | cons d ds ih =>
      obtain ⟨hfirst, hds⟩ := List.forall_mem_cons.1 hd
      rw [List.cons_append, replaced_copied (he.eq_none hfirst _), ih hds, List.cons_append]

/-- A signed escape that is replaced takes three bytes off, and nothing later can make up for it. -/
theorem replaced_escape_eq_iff (s : Bytes) :
    (replaced escape? s).length ≤ (replaced octal? s).length ∧
      (replaced escape? s = replaced octal? s ↔ ∀ i, signed? (s.drop i) = none) := by
  induction s using marked_escape.induction with
  | nil => exact ⟨Nat.le_refl 0, fun _ i => by rw [List.drop_nil]; rfl, fun _ => rfl⟩
  | copied b rest h ih =>
      obtain ⟨hoctal, hsigned⟩ := Option.or_eq_none_iff.1 h
      rw [replaced_copied h, replaced_copied hoctal, forall_drop_cons]
      exact ⟨Nat.succ_le_succ ih.1, by simp only [List.cons.injEq, hsigned, true_and, ih.2]⟩
  | escaped v d₁ d₂ d₃ rest h hd ih =>
      rw [replaced_escaped marked_escape h, marked_signed.forall_drop hd]
      obtain hoctal | ⟨hoctal, hsigned⟩ := Option.or_eq_some_iff.1 h
      · have hsigned := signed?_of_octal (Option.isSome_of_mem hoctal)
        rw [replaced_escaped marked_octal hoctal]
        exact ⟨Nat.succ_le_succ ih.1, by simp only [List.cons.injEq, hsigned, true_and, ih.2]⟩
      · have hcopied : replaced octal? (0x5C :: d₁ :: d₂ :: d₃ :: rest) =
            0x5C :: d₁ :: d₂ :: d₃ :: replaced octal? rest :=
          (replaced_copied hoctal).trans (congrArg (0x5C :: ·) (marked_octal.replaced_plain hd rest))
        have hlt : (v :: replaced escape? rest).length <
            (0x5C :: d₁ :: d₂ :: d₃ :: replaced octal? rest).length := by
          have hle := ih.1
          simp only [List.length_cons]
          omega
        rw [hcopied]
        refine ⟨Nat.le_of_lt hlt, fun heq => ?_, fun hnone => ?_⟩
        · rw [heq] at hlt
          exact absurd hlt (Nat.lt_irrefl _)
        · rw [hsigned] at hnone
          cases hnone.1

/-! ## What undoing the escapes comes to -/

/-- Undoing the escapes of a field replaces each of them by its byte and copies every other byte.
Escapes do not overlap, so which is replaced does not depend on the others. Only the octal ones are
replaced exactly if there is no signed one, and a field without octal ones is left as it is exactly
if there is no signed one either. -/
theorem unescape_replaces (field : Bytes) :
    unescape field = replaced escape? field ∧
      (∀ i j, i < j → (escape? (field.drop i)).isSome → (escape? (field.drop j)).isSome →
        i + 4 ≤ j) ∧
      (unescape field = replaced octal? field ↔ ∀ i, signed? (field.drop i) = none) ∧
      ((∀ i, octal? (field.drop i) = none) →
        (unescape field = field ↔ ∀ i, signed? (field.drop i) = none)) := by
  have hoctal : unescape field = replaced octal? field ↔ ∀ i, signed? (field.drop i) = none := by
    rw [unescape_eq_replaced]
    exact (replaced_escape_eq_iff field).2
  refine ⟨unescape_eq_replaced field, fun i j hlt hi hj => marked_escape.apart hi hj hlt, hoctal,
    fun hnone => ?_⟩
  rwa [replaced_of_forall_none hnone] at hoctal

example : replaced octal? (Utf8.encode "\\040\\400é\\+12\\134040\\04") =
    Utf8.encode " \\400é\\+12\\040\\04" := by decide +kernel

/-- A backslash in front of a plus sign and two digits is taken for a line break, though nothing in
the field is escaped. -/
theorem unescape_replaces_signed :
    let field := Utf8.encode "/mnt/a\\+12b"
    replaced octal? field = field ∧ unescape field = Utf8.encode "/mnt/a\nb" ∧
      unescape field ≠ replaced octal? field := by
  decide +kernel

/-! ## Fields written with escapes -/

/-- A byte as a backslash and three octal digits. -/
def octalOf (b : UInt8) : Bytes := [0x5C, 0x30 + b / 64, 0x30 + b / 8 % 8, 0x30 + b % 8]

/-- `Writes p field`: the field writes the bytes of `p` one after the other, every backslash and
some of the other bytes as octal escapes, and the rest as they are. -/
inductive Writes : Bytes → Bytes → Prop where
  | nil : Writes [] []
  | escaped {p field : Bytes} (b : UInt8) (rest : Writes p field) :
      Writes (b :: p) (octalOf b ++ field)
  | copied {p field : Bytes} {b : UInt8} (plain : b ≠ 0x5C) (rest : Writes p field) :
      Writes (b :: p) (b :: field)

theorem isOctalDigit_add {d : UInt8} (h : d.toNat < 8) :
    IsOctalDigit (0x30 + d) ∧ (0x30 + d).toNat - 0x30 = d.toNat := by
  have hvalue : (0x30 + d).toNat = 0x30 + d.toNat := by
    rw [UInt8.toNat_add]
    exact Nat.mod_eq_of_lt (by simp only [UInt8.toNat_ofNat]; omega)
  rw [IsOctalDigit, UInt8.le_iff_toNat_le, UInt8.le_iff_toNat_le, hvalue]
  refine ⟨⟨Nat.le_add_right .., ?_⟩, Nat.add_sub_cancel_left ..⟩
  exact Nat.add_le_add_left (Nat.le_of_lt_succ h) 0x30

theorem octal?_octalOf (b : UInt8) (rest : Bytes) : octal? (octalOf b ++ rest) = some b := by
  have hb : b.toNat < 256 := b.toNat_lt
  have h₁ : (b / 64).toNat = b.toNat / 64 := UInt8.toNat_div ..
  have h₂ : (b / 8 % 8).toNat = b.toNat / 8 % 8 := by rw [UInt8.toNat_mod, UInt8.toNat_div]; rfl
  have h₃ : (b % 8).toNat = b.toNat % 8 := UInt8.toNat_mod ..
  obtain ⟨hdigit₁, hvalue₁⟩ := isOctalDigit_add (d := b / 64) (by omega)
  obtain ⟨hdigit₂, hvalue₂⟩ := isOctalDigit_add (d := b / 8 % 8) (by omega)
  obtain ⟨hdigit₃, hvalue₃⟩ := isOctalDigit_add (d := b % 8) (by omega)
  have hnumber : octalNumber [0x30 + b / 64, 0x30 + b / 8 % 8, 0x30 + b % 8] = b.toNat := by
    simp only [octalNumber, List.foldl_cons, List.foldl_nil, hvalue₁, hvalue₂, hvalue₃]
    omega
  have hdigits : ∀ d ∈ [0x30 + b / 64, 0x30 + b / 8 % 8, 0x30 + b % 8], IsOctalDigit d := by
    simp only [List.forall_mem_cons]
    exact ⟨hdigit₁, hdigit₂, hdigit₃, nofun⟩
  rw [octalOf, List.cons_append, List.cons_append, List.cons_append, List.cons_append, octal?,
    hnumber, if_pos ⟨rfl, hdigits, hb⟩, UInt8.ofNat_toNat]

/-- Undoing the escapes gives the bytes that were written, whichever of them are escaped and whether
or not the whole is a text. -/
theorem unescape_of_writes {p field : Bytes} (h : Writes p field) : unescape field = p := by
  induction h with
  | nil => rfl
  | @escaped p field b _ ih =>
      have hescape : escape? (octalOf b ++ field) = some b := by
        rw [escape?, octal?_octalOf, Option.some_or]
      exact (unescape_escaped hescape).trans (congrArg (b :: ·) ih)
  | copied plain _ ih => rw [unescape_cons plain, ih]

/-- A path that is no text, written with escapes beside each other, in front of a digit and around a
character of two bytes. -/
theorem unescape_of_writes_latin :
    let field := Utf8.encode "/\\377\\134é\\0400"
    Writes [0x2F, 0xFF, 0x5C, 0xC3, 0xA9, 0x20, 0x30] field ∧
      unescape field = [0x2F, 0xFF, 0x5C, 0xC3, 0xA9, 0x20, 0x30] := by
  intro field
  have hfield : field = 0x2F :: (octalOf 0xFF ++ (octalOf 0x5C ++
      (0xC3 :: 0xA9 :: (octalOf 0x20 ++ [0x30])))) := by decide +kernel
  have hwrites : Writes [0x2F, 0xFF, 0x5C, 0xC3, 0xA9, 0x20, 0x30] field := by
    rw [hfield]
    exact .copied (by decide) (.escaped _ (.escaped _ (.copied (by decide) (.copied (by decide)
      (.escaped _ (.copied (by decide) .nil))))))
  exact ⟨hwrites, unescape_of_writes hwrites⟩

end KernelTrace.MountTable
