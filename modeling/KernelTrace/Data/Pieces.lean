/-!
# Pieces between separators

Paths, mount tables and status lines are strings of pieces with a separator between them. A string
with `n` separators has `n + 1` pieces, empty ones included, so putting the separators back gives
the string.
-/

namespace KernelTrace

variable {α : Type} [DecidableEq α]

/-- The pieces of a string between separators, at least one. -/
def pieces (sep : α) : List α → List (List α)
  | [] => [[]]
  | a :: rest =>
    if a = sep then [] :: pieces sep rest
    else match pieces sep rest with
      | [] => [[a]]
      | p :: ps => (a :: p) :: ps

theorem pieces_ne_nil (sep : α) (l : List α) : pieces sep l ≠ [] := by
  cases l with
  | nil => simp [pieces]
  | cons a rest =>
    unfold pieces
    split
    · simp
    · split <;> simp

theorem intercalate_pieces (sep : α) (l : List α) : [sep].intercalate (pieces sep l) = l := by
  induction l with
  | nil => rfl
  | cons a rest ih =>
    unfold pieces
    split
    · next h =>
      subst h
      cases hp : pieces a rest with
      | nil => exact absurd hp (pieces_ne_nil a rest)
      | cons p ps => rw [hp] at ih; simpa [List.intercalate] using ih
    · next h =>
      cases hp : pieces sep rest with
      | nil => exact absurd hp (pieces_ne_nil sep rest)
      | cons p ps =>
        rw [hp] at ih
        cases ps with
        | nil => simpa [List.intercalate] using ih
        | cons q qs => simpa [List.intercalate] using ih

theorem sep_notMem_of_mem_pieces (sep : α) {l p : List α} (h : p ∈ pieces sep l) : sep ∉ p := by
  induction l generalizing p with
  | nil => simp [pieces] at h; simp [h]
  | cons a rest ih =>
    unfold pieces at h
    split at h
    · rcases List.mem_cons.1 h with rfl | h
      · exact List.not_mem_nil
      · exact ih h
    · next hne =>
      cases hp : pieces sep rest with
      | nil => exact absurd hp (pieces_ne_nil sep rest)
      | cons q qs =>
        rw [hp] at h
        rcases List.mem_cons.1 h with rfl | h
        · intro hm
          rcases List.mem_cons.1 hm with rfl | hm
          · exact hne rfl
          · exact ih (by rw [hp]; exact List.mem_cons_self) hm
        · exact ih (by rw [hp]; exact List.mem_cons_of_mem _ h)

theorem pieces_of_notMem {sep : α} {l : List α} (h : sep ∉ l) : pieces sep l = [l] := by
  induction l with
  | nil => rfl
  | cons a rest ih =>
    have hne : a ≠ sep := fun heq => h (heq ▸ List.mem_cons_self)
    rw [pieces, if_neg hne, ih fun hmem => h (List.mem_cons_of_mem a hmem)]

theorem pieces_append {sep : α} (l l' : List α) :
    pieces sep (l ++ sep :: l') = pieces sep l ++ pieces sep l' := by
  induction l with
  | nil =>
    rw [List.nil_append, pieces.eq_def sep (sep :: l')]
    exact if_pos rfl
  | cons a rest ih =>
    rw [List.cons_append, pieces, pieces, ih]
    split
    · rfl
    · cases hp : pieces sep rest with
      | nil => exact absurd hp (pieces_ne_nil sep rest)
      | cons p ps => rfl

theorem pieces_intercalate {sep : α} {ps : List (List α)} (h : ∀ p ∈ ps, sep ∉ p) (hne : ps ≠ []) :
    pieces sep ([sep].intercalate ps) = ps := by
  induction ps with
  | nil => exact absurd rfl hne
  | cons p rest ih =>
    have hp := pieces_of_notMem (h p List.mem_cons_self)
    cases rest with
    | nil => rw [List.intercalate_singleton, hp]
    | cons q more =>
      rw [List.intercalate_cons_cons, List.append_assoc, List.singleton_append, pieces_append, hp,
        ih (fun r hr => h r (List.mem_cons_of_mem p hr)) (List.cons_ne_nil q more)]
      rfl

theorem pieces_append_of_notMem {sep : α} {l l' p : List α} {ps : List (List α)} (h : sep ∉ l)
    (hp : pieces sep l' = p :: ps) : pieces sep (l ++ l') = (l ++ p) :: ps := by
  induction l with
  | nil => exact hp
  | cons a rest ih =>
    have hne : a ≠ sep := fun heq => h (heq ▸ List.mem_cons_self)
    rw [List.cons_append, pieces, if_neg hne, ih fun hmem => h (List.mem_cons_of_mem a hmem)]
    rfl

/-- Pieces survive a translation that gives the separator, and nothing else, as the separator. -/
theorem pieces_flatMap {β : Type} [DecidableEq β] {f : α → List β} {a : α} {b : β}
    (hsep : f a = [b]) (hother : ∀ c, c ≠ a → b ∉ f c) (l : List α) :
    pieces b (l.flatMap f) = (pieces a l).map (·.flatMap f) := by
  induction l with
  | nil => rfl
  | cons c rest ih =>
    rw [List.flatMap_cons, pieces]
    split
    · next h =>
      rw [h, hsep, List.singleton_append, pieces, if_pos rfl, ih]
      rfl
    · next h =>
      cases hp : pieces a rest with
      | nil => exact absurd hp (pieces_ne_nil a rest)
      | cons p ps =>
        rw [hp] at ih
        rw [pieces_append_of_notMem (hother c h) ih]
        rfl

end KernelTrace
