import KernelTrace.Proofs.TextPieces

/-!
# Texts among bytes that need not be text

What the lossy reading of bytes makes of them can be cut at every ASCII byte (`lossyChars_append`),
and a text comes out of it as it went in (`decodeLossy_encode`). So writing down again what was read
gives the same bytes exactly if they were a text (`encode_decodeLossy_eq_iff`): everything else has
become something else on the way.

A text is read back character by character. For a character that is not ASCII the lead byte says how
many bytes follow and in which range the first of them lies, and that range is never too narrow: the
bytes it excludes are those of characters that have a shorter form and of the surrogates, which are
no characters (`longForm_of_char`).
-/

namespace KernelTrace.Utf8

/-! ## Where the reading can be cut -/

/-- ASCII bytes are read one by one. -/
theorem lossyChars_of_ascii {b : Bytes} (h : ∀ x ∈ b, x < 0x80) :
    lossyChars b = b.map fun x => Char.ofNat x.toNat := by
  induction b with
  | nil => rw [lossyChars, List.map_nil]
  | cons x rest ih =>
      rw [lossyChars, if_pos (h x List.mem_cons_self), List.map_cons,
        ih fun y hy => h y (List.mem_cons_of_mem x hy)]

theorem length_tail_le (n : Nat) (low high : UInt8) (b : Bytes) :
    (tail n low high b).length ≤ b.length := by
  fun_induction tail n low high b with
  | case1 => exact Nat.zero_le _
  | case2 => exact Nat.le_refl 0
  | case3 n low high x rest hx ih => exact Nat.succ_le_succ ih
  | case4 => exact Nat.zero_le _

/-- A run of continuation bytes ends at an ASCII byte. -/
theorem tail_append {x : UInt8} (hx : x < 0x80) (n : Nat) {low : UInt8} (hlow : 0x80 ≤ low)
    (high : UInt8) (b s : Bytes) : tail n low high (b ++ x :: s) = tail n low high b := by
  induction b generalizing n low high with
  | nil =>
      cases n with
      | zero => rfl
      | succ n =>
          have hbelow : ¬ low ≤ x := UInt8.not_le.2 (UInt8.lt_of_lt_of_le hx hlow)
          rw [List.nil_append, tail, tail, if_neg fun h => hbelow h.1]
  | cons y rest ih =>
      cases n with
      | zero => rfl
      | succ n => rw [List.cons_append, tail, tail, ih n (UInt8.le_refl _)]

theorem le_of_continuation? {b : UInt8} {n : Nat} {low high : UInt8}
    (h : continuation? b = some (n, low, high)) : 0x80 ≤ low := by
  rw [continuation?] at h
  (repeat' split at h) <;> cases h <;> decide

/-- What is read can be cut at every ASCII byte. -/
theorem lossyChars_append {x : UInt8} (hx : x < 0x80) (b s : Bytes) :
    lossyChars (b ++ x :: s) = lossyChars b ++ Char.ofNat x.toNat :: lossyChars s := by
  fun_induction lossyChars b with
  | case1 => rw [List.nil_append, lossyChars, if_pos hx, List.nil_append]
  | case2 b rest hb ih => rw [List.cons_append, lossyChars, if_pos hb, ih, List.cons_append]
  | case3 b rest hb hnone ih =>
      rw [List.cons_append, lossyChars, if_neg hb, hnone, List.cons_append, ← ih]
  | case4 b rest hb n low high hsome more c ih =>
      have hmore : tail n low high (rest ++ x :: s) = more :=
        tail_append hx n (le_of_continuation? hsome) high rest s
      have hdrop : (rest ++ x :: s).drop more.length = rest.drop more.length ++ x :: s :=
        List.drop_append_of_le_length (length_tail_le n low high rest)
      rw [List.cons_append, lossyChars, if_neg hb, hsome]
      dsimp only
      rw [hmore, hdrop, ih]
      rfl

/-! ## Reading back a text -/

/-- What follows a lead byte is taken whole if it is as long as it should be. -/
theorem tail_of_range {low high b : UInt8} (hlow : low ≤ b) (hhigh : b ≤ high) {more : Bytes}
    (hmore : ∀ x ∈ more, 0x80 ≤ x ∧ x ≤ 0xBF) (rest : Bytes) :
    tail (more.length + 1) low high (b :: (more ++ rest)) = b :: more := by
  rw [tail, if_pos ⟨hlow, hhigh⟩]
  congr 1
  induction more with
  | nil => rfl
  | cons x more ih =>
      obtain ⟨hx, hmore⟩ := List.forall_mem_cons.1 hmore
      rw [List.length_cons, List.cons_append, tail, if_pos hx, ih hmore]

/-- `LongForm lead second more v`: a lead byte and what follows it are read as the character of the
number `v`. -/
structure LongForm (lead second : UInt8) (more : Bytes) (v : Nat) : Prop where
  lead_ge : 0x80 ≤ lead
  continues : ∃ low high, continuation? lead = some (more.length + 1, low, high) ∧
    low ≤ second ∧ second ≤ high
  range : ∀ x ∈ more, 0x80 ≤ x ∧ x ≤ 0xBF
  value : codePoint lead (second :: more) = v

theorem LongForm.lossyChars_append {lead second : UInt8} {more : Bytes} {v : Nat}
    (h : LongForm lead second more v) (rest : Bytes) :
    lossyChars (lead :: second :: (more ++ rest)) = Char.ofNat v :: lossyChars rest := by
  obtain ⟨low, high, hcont, hlow, hhigh⟩ := h.continues
  rw [lossyChars, if_neg (UInt8.not_lt.2 h.lead_ge), hcont]
  dsimp only
  rw [tail_of_range hlow hhigh h.range, List.length_cons, if_pos rfl, h.value,
    List.drop_succ_cons, List.drop_left]

/-- The lead bytes of three bytes. After the first of them the shorter forms are left out, and after
`0xED` the surrogates. -/
theorem continuation?_three {lead : UInt8} (hlow : 0xE0 ≤ lead) (hhigh : lead ≤ 0xEF) :
    continuation? lead =
      some (2, if lead = 0xE0 then 0xA0 else 0x80, if lead = 0xED then 0x9F else 0xBF) := by
  simp only [UInt8.le_iff_toNat_le, UInt8.reduceToNat] at hlow hhigh
  simp only [continuation?, UInt8.le_iff_toNat_le, ← UInt8.toNat_inj, UInt8.reduceToNat]
  rw [if_neg (by omega)]
  split
  · rw [if_neg (by omega)]
  · split
    · rfl
    · rw [if_pos (by omega)]

/-- The lead bytes of four bytes. After the first of them the shorter forms are left out, and after
the last what is greater than any character. -/
theorem continuation?_four {lead : UInt8} (hlow : 0xF0 ≤ lead) (hhigh : lead ≤ 0xF4) :
    continuation? lead =
      some (3, if lead = 0xF0 then 0x90 else 0x80, if lead = 0xF4 then 0x8F else 0xBF) := by
  simp only [UInt8.le_iff_toNat_le, UInt8.reduceToNat] at hlow hhigh
  simp only [continuation?, UInt8.le_iff_toNat_le, ← UInt8.toNat_inj, UInt8.reduceToNat]
  rw [if_neg (by omega), if_neg (by omega), if_neg (by omega), if_neg (by omega)]
  split
  · rw [if_neg (by omega)]
  · split
    · rw [if_neg (by omega)]
    · rw [if_pos (by omega), if_pos (by omega)]

theorem longForm_of_char {c : Char} (hc : 0x80 ≤ c.toNat) :
    ∃ lead second more, String.utf8EncodeChar c = lead :: second :: more ∧
      LongForm lead second more c.toNat := by
  have hvalid : c.toNat < 0xD800 ∨ 0xDFFF < c.toNat ∧ c.toNat < 0x110000 := c.valid
  have hbyte : ∀ n, n < 256 → (UInt8.ofNat n).toNat = n := fun n hn => UInt8.toNat_ofNat_of_lt' hn
  rw [String.utf8EncodeChar, if_neg (show ¬ c.val.toNat ≤ 0x7F from Nat.not_le.2 hc), Char.toNat_val]
  generalize c.toNat = v at hc hvalid
  -- one case for each length, and in each of them arithmetic on the digits of the number
  split
  · refine ⟨_, _, [], rfl, ?_, ⟨0x80, 0xBF, ?_, ?_, ?_⟩, nofun, ?_⟩
    all_goals
      simp (disch := omega) [continuation?, codePoint, UInt8.le_iff_toNat_le, ← UInt8.toNat_inj, hbyte]
      omega
  · split
    · refine ⟨_, _, [_], rfl, ?_, ⟨_, _, continuation?_three ?_ ?_, ?low, ?high⟩, ?_, ?_⟩
      all_goals
        simp (disch := omega) [codePoint, UInt8.le_iff_toNat_le, ← UInt8.toNat_inj, hbyte,
          apply_ite UInt8.toNat]
      case low | high => split <;> omega
      all_goals omega
    · refine ⟨_, _, [_, _], rfl, ?_, ⟨_, _, continuation?_four ?_ ?_, ?low, ?high⟩, ?_, ?_⟩
      all_goals
        simp (disch := omega) [codePoint, UInt8.le_iff_toNat_le, ← UInt8.toNat_inj, hbyte,
          apply_ite UInt8.toNat]
      case low | high => split <;> omega
      all_goals omega

/-- Whatever follows, a character is read as it was written. -/
theorem lossyChars_utf8EncodeChar_append (c : Char) (rest : Bytes) :
    lossyChars (String.utf8EncodeChar c ++ rest) = c :: lossyChars rest := by
  rcases Nat.lt_or_ge c.toNat 0x80 with hc | hc
  · have hbyte : (UInt8.ofNat c.toNat).toNat = c.toNat :=
      UInt8.toNat_ofNat_of_lt' (Nat.lt_trans hc (by decide))
    rw [utf8EncodeChar_ascii hc, List.singleton_append, lossyChars,
      if_pos (UInt8.lt_iff_toNat_lt.2 (hbyte.symm ▸ hc)), hbyte, Char.ofNat_toNat]
  · obtain ⟨lead, second, more, hform, hlong⟩ := longForm_of_char hc
    rw [hform, List.cons_append, List.cons_append, hlong.lossyChars_append, Char.ofNat_toNat]

/-- A text is read as it was written. -/
theorem lossyChars_encode (s : String) : lossyChars (encode s) = s.toList := by
  rw [encode_eq_flatMap]
  induction s.toList with
  | nil => rw [List.flatMap_nil, lossyChars]
  | cons c rest ih => rw [List.flatMap_cons, lossyChars_utf8EncodeChar_append, ih]

theorem decodeLossy_encode (s : String) : decodeLossy (encode s) = s := by
  rw [decodeLossy, lossyChars_encode, String.ofList_toList]

/-- Bytes survive being shown exactly if they are a text. -/
theorem encode_decodeLossy_eq_iff {b : Bytes} : encode (decodeLossy b) = b ↔ IsText b := by
  rw [isText_iff]
  constructor
  · intro h
    exact ⟨_, h⟩
  · rintro ⟨s, rfl⟩
    rw [decodeLossy_encode]

end KernelTrace.Utf8
