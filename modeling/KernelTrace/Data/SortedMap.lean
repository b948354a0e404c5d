/-!
# Finite maps in the order of their keys

Three things in this library are finite maps whose order is visible to a reader: the systems of an
event set, the live instances of a recorded backend and the entries of a directory. All are held
as a list of entries with strictly increasing keys. Strictness makes the list canonical, which is
the point of the choice: two maps that answer every lookup alike are equal (`SortedMap.ext_get?`),
so "the tree is as it was before" is an equation and not an equivalence.

Each operation is described by what it does to `get?`; nothing else needs the list.
-/

set_option linter.unusedSectionVars false

namespace KernelTrace

/-- A finite map, stored as its entries in strictly increasing order of their keys. -/
structure SortedMap (κ : Type) (ν : Type) [LT κ] where
  entries : List (κ × ν)
  /-- Keys strictly increase, so no key occurs twice. -/
  ordered : entries.Pairwise (fun a b => a.1 < b.1)

namespace SortedMap

variable {κ ν : Type} [LT κ]

def empty : SortedMap κ ν := ⟨[], List.Pairwise.nil⟩

instance : Inhabited (SortedMap κ ν) := ⟨empty⟩

def keys (m : SortedMap κ ν) : List κ := m.entries.map (·.1)

def isEmpty (m : SortedMap κ ν) : Bool := m.entries.isEmpty

instance [DecidableEq κ] [DecidableEq ν] : DecidableEq (SortedMap κ ν) := fun a b =>
  decidable_of_iff (a.entries = b.entries)
    ⟨fun h => by cases a; cases b; cases h; rfl, fun h => h ▸ rfl⟩

def mapValues {μ : Type} (f : κ → ν → μ) (m : SortedMap κ ν) : SortedMap κ μ where
  entries := m.entries.map fun e => (e.1, f e.1 e.2)
  ordered := m.ordered.map _ fun _ _ h => h

def filter (p : κ → ν → Bool) (m : SortedMap κ ν) : SortedMap κ ν where
  entries := m.entries.filter fun e => p e.1 e.2
  ordered := m.ordered.sublist List.filter_sublist

section Lookup

variable [DecidableEq κ]

/-- The value of the first entry with key `k`. -/
def lookup (k : κ) : List (κ × ν) → Option ν
  | [] => none
  | e :: rest => if k = e.1 then some e.2 else lookup k rest

def get? (m : SortedMap κ ν) (k : κ) : Option ν := lookup k m.entries

def contains (m : SortedMap κ ν) (k : κ) : Bool := (m.get? k).isSome

def erase (m : SortedMap κ ν) (k : κ) : SortedMap κ ν :=
  m.filter fun k' _ => k' ≠ k

end Lookup

section Order

variable [LE κ] [Std.IsLinearOrder κ] [Std.LawfulOrderLT κ] [DecidableLT κ] [DecidableEq κ]

/-- Puts `(k, v)` at its place among entries with increasing keys, replacing the entry of `k`. -/
def insertEntry (k : κ) (v : ν) : List (κ × ν) → List (κ × ν)
  | [] => [(k, v)]
  | e :: rest =>
    if k < e.1 then (k, v) :: e :: rest
    else if k = e.1 then (k, v) :: rest
    else e :: insertEntry k v rest

theorem mem_insertEntry {k : κ} {v : ν} {l : List (κ × ν)} {a : κ × ν}
    (h : a ∈ insertEntry k v l) : a = (k, v) ∨ a ∈ l := by
  induction l with
  | nil => exact Or.inl (by simpa [insertEntry] using h)
  | cons e rest ih =>
    unfold insertEntry at h
    split at h
    · simpa using h
    · split at h
      · rcases List.mem_cons.1 h with h | h
        · exact Or.inl h
        · exact Or.inr (List.mem_cons_of_mem _ h)
      · rcases List.mem_cons.1 h with h | h
        · exact Or.inr (h ▸ List.mem_cons_self)
        · exact (ih h).imp_right (List.mem_cons_of_mem _)

theorem insertEntry_ordered {k : κ} {v : ν} {l : List (κ × ν)}
    (h : l.Pairwise (fun a b => a.1 < b.1)) :
    (insertEntry k v l).Pairwise (fun a b => a.1 < b.1) := by
  induction l with
  | nil => simp [insertEntry]
  | cons e rest ih =>
    have hrest := h.of_cons
    have hhead := (List.pairwise_cons.1 h).1
    unfold insertEntry
    split
    · next hlt =>
      refine List.pairwise_cons.2 ⟨?_, h⟩
      intro a ha
      rcases List.mem_cons.1 ha with rfl | ha
      · exact hlt
      · exact Std.lt_trans hlt (hhead a ha)
    · next hnot =>
      split
      · next heq =>
        refine List.pairwise_cons.2 ⟨?_, hrest⟩
        intro a ha
        exact heq ▸ hhead a ha
      · next hne =>
        refine List.pairwise_cons.2 ⟨?_, ih hrest⟩
        intro a ha
        rcases mem_insertEntry ha with rfl | ha
        · exact Std.lt_of_le_of_ne (Std.not_lt.1 hnot) (Ne.symm hne)
        · exact hhead a ha

def insert (m : SortedMap κ ν) (k : κ) (v : ν) : SortedMap κ ν :=
  ⟨insertEntry k v m.entries, insertEntry_ordered m.ordered⟩

/-- The map of a list of entries; of two entries with one key the later one counts. -/
def ofList (l : List (κ × ν)) : SortedMap κ ν :=
  l.foldl (fun m e => m.insert e.1 e.2) empty

/-! ## What each operation does to lookups -/

@[simp] theorem get?_empty (k : κ) : (empty : SortedMap κ ν).get? k = none := rfl

theorem lookup_insertEntry (k k' : κ) (v : ν) (l : List (κ × ν)) :
    lookup k' (insertEntry k v l) = if k' = k then some v else lookup k' l := by
  induction l with
  | nil => simp [insertEntry, lookup]
  | cons e rest ih =>
    unfold insertEntry
    split
    · simp [lookup]
    · split
      · next heq =>
        by_cases hk : k' = k
        · simp [lookup, hk]
        · simp [lookup, hk, ← heq]
      · next hne =>
        simp only [lookup, ih]
        by_cases hk : k' = k
        · simp [hk, hne]
        · simp [hk]

@[simp] theorem get?_insert (m : SortedMap κ ν) (k k' : κ) (v : ν) :
    (m.insert k v).get? k' = if k' = k then some v else m.get? k' :=
  lookup_insertEntry k k' v m.entries

theorem get?_insert_self (m : SortedMap κ ν) (k : κ) (v : ν) :
    (m.insert k v).get? k = some v := by simp

theorem get?_insert_of_ne (m : SortedMap κ ν) {k k' : κ} (v : ν) (h : k' ≠ k) :
    (m.insert k v).get? k' = m.get? k' := by simp [h]

theorem lookup_filter (p : κ → Bool) (k : κ) (l : List (κ × ν)) :
    lookup k (l.filter fun e => p e.1) = if p k then lookup k l else none := by
  induction l with
  | nil => simp [lookup]
  | cons e rest ih =>
    rw [List.filter_cons]
    cases he : p e.1 with
    | true =>
      rw [if_pos rfl, lookup, lookup, ih]
      split
      · next hk => rw [hk, he, if_pos rfl]
      · rfl
    | false =>
      rw [if_neg Bool.false_ne_true, lookup, ih]
      split
      · next hp =>
        have hk : k ≠ e.1 := fun hk => by simp [hk, he] at hp
        rw [if_neg hk]
      · rfl

/-- Filtering by the key keeps what is found under the keys that pass. -/
theorem get?_filter (m : SortedMap κ ν) (p : κ → Bool) (k : κ) :
    (m.filter fun k _ => p k).get? k = if p k then m.get? k else none :=
  lookup_filter p k m.entries

@[simp] theorem get?_erase (m : SortedMap κ ν) (k k' : κ) :
    (m.erase k).get? k' = if k' = k then none else m.get? k' := by
  rw [erase, get?_filter]
  by_cases hk : k' = k <;> simp [hk]

@[simp] theorem get?_mapValues {μ : Type} (f : κ → ν → μ) (m : SortedMap κ ν) (k : κ) :
    (m.mapValues f).get? k = (m.get? k).map (f k) := by
  show lookup k (m.entries.map fun e => (e.1, f e.1 e.2)) = (lookup k m.entries).map (f k)
  induction m.entries with
  | nil => rfl
  | cons e rest ih =>
    by_cases h : k = e.1
    · simp [lookup, h]
    · simp [lookup, h, ih]

/-! ## A map is its lookups -/

theorem nodup_keys (m : SortedMap κ ν) : m.keys.Nodup := by
  refine List.pairwise_map.2 (m.ordered.imp fun {a b} hlt heq => ?_)
  rw [heq] at hlt
  exact Std.lt_irrefl hlt

theorem mem_keys_of_lookup {k : κ} {v : ν} {l : List (κ × ν)} (h : lookup k l = some v) :
    (k, v) ∈ l := by
  induction l with
  | nil => simp [lookup] at h
  | cons e rest ih =>
    unfold lookup at h
    split at h
    · next hk => cases h; exact hk ▸ List.mem_cons_self
    · exact List.mem_cons_of_mem _ (ih h)

theorem lookup_of_mem {k : κ} {v : ν} {l : List (κ × ν)}
    (hl : l.Pairwise (fun a b => a.1 < b.1)) (h : (k, v) ∈ l) : lookup k l = some v := by
  induction l with
  | nil => simp at h
  | cons e rest ih =>
    unfold lookup
    rcases List.mem_cons.1 h with rfl | h
    · simp
    · have hlt := (List.pairwise_cons.1 hl).1 _ h
      have hne : k ≠ e.1 := fun heq => Std.lt_irrefl (heq ▸ hlt)
      simp [hne, ih hl.of_cons h]

/-- An entry of the map is found under its key, and only entries are found. -/
theorem get?_eq_some_iff (m : SortedMap κ ν) (k : κ) (v : ν) :
    m.get? k = some v ↔ (k, v) ∈ m.entries :=
  ⟨mem_keys_of_lookup, lookup_of_mem m.ordered⟩

theorem eq_of_mem_iff {l₁ l₂ : List (κ × ν)} (h₁ : l₁.Pairwise (fun a b => a.1 < b.1))
    (h₂ : l₂.Pairwise (fun a b => a.1 < b.1)) (h : ∀ a, a ∈ l₁ ↔ a ∈ l₂) : l₁ = l₂ := by
  induction l₁ generalizing l₂ with
  | nil =>
    cases l₂ with
    | nil => rfl
    | cons b _ => exact absurd ((h b).2 List.mem_cons_self) (by simp)
  | cons a r₁ ih =>
    cases l₂ with
    | nil => exact absurd ((h a).1 List.mem_cons_self) (by simp)
    | cons b r₂ =>
      have p₁ := List.pairwise_cons.1 h₁
      have p₂ := List.pairwise_cons.1 h₂
      have hab : a = b := by
        rcases List.mem_cons.1 ((h a).1 List.mem_cons_self) with hab | hab
        · exact hab
        · rcases List.mem_cons.1 ((h b).2 List.mem_cons_self) with hba | hba
          · exact hba.symm
          · exact absurd (Std.lt_trans (p₂.1 a hab) (p₁.1 b hba)) (Std.lt_irrefl)
      subst hab
      congr 1
      refine ih p₁.2 p₂.2 fun c => ⟨fun hc => ?_, fun hc => ?_⟩
      · rcases List.mem_cons.1 ((h c).1 (List.mem_cons_of_mem _ hc)) with rfl | hc'
        · exact absurd (p₁.1 _ hc) (Std.lt_irrefl)
        · exact hc'
      · rcases List.mem_cons.1 ((h c).2 (List.mem_cons_of_mem _ hc)) with rfl | hc'
        · exact absurd (p₂.1 _ hc) (Std.lt_irrefl)
        · exact hc'

theorem mem_keys {m : SortedMap κ ν} {k : κ} : k ∈ m.keys ↔ m.get? k ≠ none := by
  rw [keys, List.mem_map, Option.ne_none_iff_exists']
  constructor
  · rintro ⟨⟨k, v⟩, he, rfl⟩
    exact ⟨v, (m.get?_eq_some_iff k v).2 he⟩
  · rintro ⟨v, hv⟩
    exact ⟨(k, v), (m.get?_eq_some_iff k v).1 hv, rfl⟩

theorem keys_filter (m : SortedMap κ ν) (p : κ → Bool) :
    (m.filter fun k _ => p k).keys = m.keys.filter p := by
  rw [keys, keys, filter, List.filter_map]
  rfl

/-- Two maps that answer every lookup alike are equal. -/
theorem ext_get? {m₁ m₂ : SortedMap κ ν} (h : ∀ k, m₁.get? k = m₂.get? k) : m₁ = m₂ := by
  have hmem : ∀ a, a ∈ m₁.entries ↔ a ∈ m₂.entries := fun a => by
    rw [← get?_eq_some_iff, ← get?_eq_some_iff, h]
  have := eq_of_mem_iff m₁.ordered m₂.ordered hmem
  cases m₁; cases m₂; cases this; rfl

end Order

end SortedMap

end KernelTrace
