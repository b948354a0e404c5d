import KernelTrace.Data.Pieces
import KernelTrace.Text.Blank
import KernelTrace.Text.Utf8

/-!
# Pieces of texts

A table is cut into lines as bytes and a line into fields as text, so what a table says is settled
only once the two fit together. They do because an ASCII character is one byte and every byte of
another character has its high bit set: cutting an encoded text at an ASCII byte gives the encoded
pieces of the text (`Utf8.pieces_encode`), and bytes are a text exactly if all their pieces are
(`Utf8.isText_iff_pieces`). Texts also come in the order of their bytes (`Utf8.encode_lt_iff`), so
names are sorted alike whether they are texts or bytes.

What is in front of a character and what follows from it on are told apart by that character alone
(`takeWhile_ne_append`, `dropWhile_ne_append`). Fields are cut at every blank of Unicode. What a
field is followed by does not matter as long as that starts with a blank (`Blank.fieldsOf_append`),
and no field has a blank in it.
-/

namespace KernelTrace

namespace Utf8

/-! ## Characters and their bytes -/

theorem encode_ofList (l : List Char) : encode (.ofList l) = l.flatMap String.utf8EncodeChar := by
  rw [encode, String.toByteArray_ofList, List.utf8Encode, List.toList_data_toByteArray]

theorem encode_eq_flatMap (s : String) : encode s = s.toList.flatMap String.utf8EncodeChar := by
  rw [← encode_ofList, String.ofList_toList]

theorem encode_append (s t : String) : encode (s ++ t) = encode s ++ encode t := by
  rw [encode_eq_flatMap, String.toList_append, List.flatMap_append, ← encode_eq_flatMap,
    ← encode_eq_flatMap]

theorem utf8EncodeChar_ascii {a : Char} (ha : a.toNat < 0x80) :
    String.utf8EncodeChar a = [.ofNat a.toNat] :=
  if_pos (Nat.le_of_lt_succ ha)

theorem le_of_mem_utf8EncodeChar {c : Char} (hc : 0x80 ≤ c.toNat) {b : UInt8}
    (hb : b ∈ String.utf8EncodeChar c) : 0x80 ≤ b.toNat := by
  -- a lead byte or a continuation byte, whatever the length
  have hhigh : ∀ {n k : Nat}, 0x80 ≤ k → n + k < UInt8.size → 0x80 ≤ (UInt8.ofNat (n + k)).toNat := by
    intro n k hk hlt
    rw [UInt8.toNat_ofNat_of_lt' hlt]
    exact Nat.le_add_left_of_le hk
  rw [String.utf8EncodeChar, if_neg (show ¬ c.val.toNat ≤ 0x7f from Nat.not_le.2 hc)] at hb
  split at hb
  · simp only [List.mem_cons, List.not_mem_nil, or_false] at hb
    rcases hb with rfl | rfl <;> exact hhigh (by decide) (by simp only [UInt8.size]; omega)
  · split at hb
    · simp only [List.mem_cons, List.not_mem_nil, or_false] at hb
      rcases hb with rfl | rfl | rfl <;> exact hhigh (by decide) (by simp only [UInt8.size]; omega)
    · simp only [List.mem_cons, List.not_mem_nil, or_false] at hb
      rcases hb with rfl | rfl | rfl | rfl <;>
        exact hhigh (by decide) (by simp only [UInt8.size]; omega)

theorem notMem_utf8EncodeChar {a c : Char} (ha : a.toNat < 0x80) (h : c ≠ a) :
    UInt8.ofNat a.toNat ∉ String.utf8EncodeChar c := by
  intro hmem
  have hbyte : ∀ {d : Char}, d.toNat < 0x80 → (UInt8.ofNat d.toNat).toNat = d.toNat := fun hd =>
    UInt8.toNat_ofNat_of_lt' (Nat.lt_trans hd (by decide))
  rcases Nat.lt_or_ge c.toNat 0x80 with hc | hc
  · rw [utf8EncodeChar_ascii hc, List.mem_singleton, ← UInt8.toNat_inj, hbyte ha, hbyte hc] at hmem
    exact h (Char.toNat_inj.1 hmem.symm)
  · exact absurd (hbyte ha ▸ le_of_mem_utf8EncodeChar hc hmem) (Nat.not_le.2 ha)

theorem mem_encode_ascii {a : Char} (ha : a.toNat < 0x80) {s : String} :
    UInt8.ofNat a.toNat ∈ encode s ↔ a ∈ s.toList := by
  rw [encode_eq_flatMap, List.mem_flatMap]
  constructor
  · rintro ⟨c, hc, hmem⟩
    by_cases h : c = a
    · exact h ▸ hc
    · exact absurd hmem (notMem_utf8EncodeChar ha h)
  · intro h
    refine ⟨a, h, ?_⟩
    rw [utf8EncodeChar_ascii ha]
    exact List.mem_singleton_self _

theorem lt_of_mem_encode {s : String} (h : ∀ c ∈ s.toList, c.toNat < 0x80) :
    ∀ b ∈ encode s, b < 0x80 := by
  intro b hb
  rw [encode_eq_flatMap] at hb
  obtain ⟨c, hc, hb⟩ := List.mem_flatMap.1 hb
  rw [utf8EncodeChar_ascii (h c hc), List.mem_singleton] at hb
  rw [hb, UInt8.lt_iff_toNat_lt, UInt8.toNat_ofNat_of_lt' (Nat.lt_trans (h c hc) (by decide))]
  exact h c hc

/-! ## The order of texts -/

/-- The digits of two numbers in the base of a continuation byte, first those of the greatest
weight, compare like the numbers. -/
theorem digits_lt {v w : Nat} (h : v < w) (hw : w < 0x110000) :
    v / 262144 % 8 < w / 262144 % 8 ∨ v / 262144 % 8 = w / 262144 % 8 ∧
      (v / 4096 % 64 < w / 4096 % 64 ∨ v / 4096 % 64 = w / 4096 % 64 ∧
        (v / 64 % 64 < w / 64 % 64 ∨ v / 64 % 64 = w / 64 % 64 ∧ v % 64 < w % 64)) := by
  rw [Nat.mod_eq_of_lt (show v / 262144 < 8 by omega),
    Nat.mod_eq_of_lt (show w / 262144 < 8 by omega)]
  omega

/-- Whatever follows, the bytes of a character come before those of a greater one. -/
theorem utf8EncodeChar_append_lt {c d : Char} (h : c < d) (x y : Bytes) :
    String.utf8EncodeChar c ++ x < String.utf8EncodeChar d ++ y := by
  have hlt : c.val.toNat < d.val.toNat := UInt32.lt_iff_toNat_lt.1 h
  have hmax : d.val.toNat < 0x110000 := by
    have hvalid := d.valid
    simp only [UInt32.isValidChar, Nat.isValidChar] at hvalid
    omega
  have hdigits := digits_lt hlt hmax
  have hbyte : ∀ n, n < 256 → (UInt8.ofNat n).toNat = n := fun n hn => UInt8.toNat_ofNat_of_lt' hn
  rw [String.utf8EncodeChar, String.utf8EncodeChar]
  -- one case for each length of the one and of the other
  split <;> split <;> (try split) <;> (try split) <;> (try split) <;> (try split) <;>
    simp (disch := omega) only [List.cons_append, List.cons_lt_cons_iff, UInt8.lt_iff_toNat_lt,
      ← UInt8.toNat_inj, hbyte] <;>
    omega

theorem encode_lt {a b : String} (h : a < b) : encode a < encode b := by
  rw [encode_eq_flatMap, encode_eq_flatMap]
  have hlex : List.Lex (· < ·) a.toList b.toList := h
  generalize a.toList = l, b.toList = l' at hlex ⊢
  induction hlex with
  | @nil d l =>
      obtain ⟨x, rest, hbytes⟩ := List.exists_cons_of_ne_nil (String.utf8EncodeChar_ne_nil (c := d))
      rw [List.flatMap_nil, List.flatMap_cons, hbytes]
      exact List.nil_lt_cons ..
  | rel hchar =>
      rw [List.flatMap_cons, List.flatMap_cons]
      exact utf8EncodeChar_append_lt hchar _ _
  | cons _ ih =>
      rw [List.flatMap_cons, List.flatMap_cons]
      exact List.append_left_lt ih

/-- Texts compare like their bytes. -/
theorem encode_lt_iff {a b : String} : encode a < encode b ↔ a < b := by
  refine ⟨fun h => ?_, encode_lt⟩
  obtain hlt | rfl | hgt := Std.lt_trichotomy a b
  · exact hlt
  · exact absurd h Std.lt_irrefl
  · exact absurd (Std.lt_trans h (encode_lt hgt)) Std.lt_irrefl

/-! ## Cutting at an ASCII byte -/

theorem pieces_encode {a : Char} (ha : a.toNat < 0x80) (s : String) :
    pieces (.ofNat a.toNat) (encode s) = (pieces a s.toList).map fun l => encode (.ofList l) := by
  rw [encode_eq_flatMap,
    pieces_flatMap (utf8EncodeChar_ascii ha) fun c hc => notMem_utf8EncodeChar ha hc]
  exact List.map_congr_left fun l _ => (encode_ofList l).symm

def IsText (b : Bytes) : Prop := ∃ s, decode? b = some s

theorem isText_iff {b : Bytes} : IsText b ↔ ∃ s, encode s = b := by
  simp only [IsText, decode?_eq_some]

theorem isText_intercalate {a : Char} (ha : a.toNat < 0x80) {ps : List Bytes}
    (h : ∀ p ∈ ps, IsText p) : IsText ([.ofNat a.toNat].intercalate ps) := by
  simp only [isText_iff] at h ⊢
  induction ps with
  | nil => exact ⟨"", rfl⟩
  | cons p ps ih =>
      obtain ⟨s, rfl⟩ := h p List.mem_cons_self
      obtain ⟨t, ht⟩ := ih fun q hq => h q (List.mem_cons_of_mem _ hq)
      cases ps with
      | nil => exact ⟨s, (List.intercalate_singleton).symm⟩
      | cons q ps =>
          refine ⟨s ++ .ofList [a] ++ t, ?_⟩
          rw [encode_append, encode_append, ht, encode_ofList, List.flatMap_singleton,
            utf8EncodeChar_ascii ha, List.intercalate_cons_cons]

/-- Bytes are a text exactly if all that is between the occurrences of an ASCII byte is. -/
theorem isText_iff_pieces {a : Char} (ha : a.toNat < 0x80) {b : Bytes} :
    IsText b ↔ ∀ p ∈ pieces (.ofNat a.toNat) b, IsText p := by
  constructor
  · rw [isText_iff]
    rintro ⟨s, rfl⟩ p hp
    rw [pieces_encode ha] at hp
    obtain ⟨l, -, rfl⟩ := List.mem_map.1 hp
    exact ⟨_, decode?_encode _⟩
  · intro h
    have hwhole := isText_intercalate ha h
    rwa [intercalate_pieces] at hwhole

end Utf8

/-! ## In front of a character -/

section Front

variable {c : Char} {cs rest : List Char} (hcs : c ∉ cs) (hrest : ∀ d ∈ rest.head?, d = c)

include hcs hrest

/-- What is in front of the first occurrence of a character, or everything if there is none. -/
theorem takeWhile_ne_append : (cs ++ rest).takeWhile (· ≠ c) = cs := by
  have hpass : ∀ d ∈ cs, decide (d ≠ c) = true :=
    fun d hd => decide_eq_true fun heq => hcs (heq ▸ hd)
  rw [List.takeWhile_append_of_pos hpass]
  match rest with
  | [] => exact List.append_nil cs
  | d :: more =>
      rw [hrest d rfl, List.takeWhile_cons_of_neg (by simp), List.append_nil]

theorem dropWhile_ne_append : (cs ++ rest).dropWhile (· ≠ c) = rest := by
  have hwhole := List.takeWhile_append_dropWhile (p := fun d => decide (d ≠ c)) (l := cs ++ rest)
  rw [takeWhile_ne_append hcs hrest] at hwhole
  exact List.append_cancel_left hwhole

end Front

/-! ## Fields -/

namespace Blank

theorem fieldsOf_cons_blank {c : Char} (h : isBlank c = true) (rest : List Char) :
    fieldsOf (c :: rest) = fieldsOf rest := by
  rw [fieldsOf.eq_def]
  exact if_pos h

/-- A run of characters that are not blank is a field if a blank follows it. -/
theorem fieldsOf_append {f : List Char} {b : Char} (hne : f ≠ [])
    (hf : ∀ c ∈ f, isBlank c = false) (hb : isBlank b = true) (rest : List Char) :
    fieldsOf (f ++ b :: rest) = f :: fieldsOf rest := by
  induction f with
  | nil => exact absurd rfl hne
  | cons c f ih =>
      have hc : ¬ isBlank c = true := ne_true_of_eq_false (hf c List.mem_cons_self)
      cases f with
      | nil =>
          rw [List.singleton_append, fieldsOf.eq_def]
          dsimp only
          rw [if_neg hc, if_pos hb, fieldsOf_cons_blank hb]
      | cons d f =>
          have hrest := ih (List.cons_ne_nil d f) fun c hc => hf c (List.mem_cons_of_mem _ hc)
          have hd : ¬ isBlank d = true :=
            ne_true_of_eq_false (hf d (List.mem_cons_of_mem _ List.mem_cons_self))
          rw [List.cons_append] at hrest
          rw [List.cons_append, List.cons_append, fieldsOf.eq_def]
          dsimp only
          rw [if_neg hc, if_neg hd, hrest]

theorem isBlank_of_mem_fieldsOf {l f : List Char} (h : f ∈ fieldsOf l) :
    ∀ c ∈ f, isBlank c = false := by
  have hone : ∀ {c : Char}, ¬ isBlank c = true → ∀ c' ∈ [c], isBlank c' = false := by
    rintro c hc c' hmem
    obtain rfl := List.mem_singleton.1 hmem
    exact eq_false_of_ne_true hc
  fun_induction fieldsOf l generalizing f with
  | case1 => cases h
  | case2 c rest hc ih => exact ih h
  | case3 c hc =>
      obtain rfl := List.mem_singleton.1 h
      exact hone hc
  | case4 c hc d rest hd ih =>
      rcases List.mem_cons.1 h with rfl | h
      · exact hone hc
      · exact ih h
  | case5 c hc d rest hd hnone ih =>
      rw [hnone] at h
      obtain rfl := List.mem_singleton.1 h
      exact hone hc
  | case6 c hc d rest hd g gs hsome ih =>
      rw [hsome] at h ih
      rcases List.mem_cons.1 h with rfl | h
      · intro c' hc'
        rcases List.mem_cons.1 hc' with rfl | hc'
        · exact eq_false_of_ne_true hc
        · exact ih List.mem_cons_self c' hc'
      · exact ih (List.mem_cons_of_mem _ h)

theorem dropWhile_of_head? {cs : List Char} (h : ∀ c ∈ cs.head?, isBlank c = false) :
    cs.dropWhile isBlank = cs := by
  cases cs with
  | nil => rfl
  | cons c rest => rw [List.dropWhile_cons, if_neg (ne_true_of_eq_false (h c rfl))]

/-- Blanks after a text without blanks at its ends are taken off it. -/
theorem trim_append {cs blanks : List Char} (hne : cs ≠ [])
    (hfirst : ∀ c ∈ cs.head?, isBlank c = false) (hlast : ∀ c ∈ cs.getLast?, isBlank c = false)
    (hblanks : ∀ c ∈ blanks, isBlank c = true) : trim (cs ++ blanks) = cs := by
  have hfront : (cs ++ blanks).dropWhile isBlank = cs ++ blanks :=
    dropWhile_of_head? fun c hc => hfirst c <| by
      obtain ⟨first, rest, rfl⟩ := List.exists_cons_of_ne_nil hne
      exact hc
  have hback : cs.reverse.dropWhile isBlank = cs.reverse :=
    dropWhile_of_head? fun c hc => hlast c <| by rwa [List.head?_reverse] at hc
  rw [trim, hfront, List.reverse_append,
    List.dropWhile_append_of_pos fun c hc => hblanks c (List.mem_reverse.1 hc), hback,
    List.reverse_reverse]

end Blank

end KernelTrace
