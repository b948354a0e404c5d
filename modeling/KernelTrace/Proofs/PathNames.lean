import KernelTrace.Files.Lookup

/-!
# Names at the end of a path

The control files of an instance are all reached in one way: from some directory, by a name. What a
statement about them needs is that the name survives. However the path to the directory is written,
with separators at its end or none, and even if it is empty, joining a name adds that name to the
names that are followed and changes none of them (`Path.steps_join`). So the last thing that is
looked up is the name, and in a tree without links a walk that gets to a file ends in a location of
that name (`FileTree.getLast?_of_walk`).
-/

namespace KernelTrace

namespace Path

/-- A name that stands for something in a directory. -/
def IsName (n : Bytes) : Prop := n ≠ [] ∧ separator ∉ n ∧ n ≠ dot ∧ n ≠ dotDot

instance (n : Bytes) : Decidable (IsName n) :=
  inferInstanceAs (Decidable (n ≠ [] ∧ separator ∉ n ∧ n ≠ dot ∧ n ≠ dotDot))

def names (p : Path) : List Bytes := (pieces p.bytes).filter (· ≠ [])

theorem IsName.isAbsolute {n : Bytes} (h : IsName n) : (⟨n⟩ : Path).isAbsolute = false := by
  cases n with
  | nil => exact absurd rfl h.1
  | cons b rest =>
      have hb : b ≠ separator := fun heq => h.2.1 (heq ▸ List.mem_cons_self)
      simpa [Path.isAbsolute] using hb

/-- Joining a name puts it at the end, after a separator unless there is one. -/
theorem bytes_join {n : Bytes} (h : IsName n) {q : Path} (hq : q.bytes ≠ []) :
    ∃ sep, (sep = [] ∨ sep = [separator]) ∧ (q.join ⟨n⟩).bytes = q.bytes ++ sep ++ n := by
  rw [join, h.isAbsolute, if_neg Bool.false_ne_true]
  cases hlast : q.bytes.getLast? with
  | none => exact absurd (List.getLast?_eq_none_iff.1 hlast) hq
  | some b =>
      dsimp only
      split
      · exact ⟨[], .inl rfl, by simp⟩
      · exact ⟨[separator], .inr rfl, by simp⟩

theorem bytes_join_ne_nil {n : Bytes} (h : IsName n) (q : Path) : (q.join ⟨n⟩).bytes ≠ [] := by
  by_cases hq : q.bytes = []
  · rw [join, h.isAbsolute, if_neg Bool.false_ne_true, hq]
    exact h.1
  · obtain ⟨sep, -, hbytes⟩ := bytes_join h hq
    rw [hbytes]
    exact List.append_ne_nil_of_right_ne_nil _ h.1

/-- Joining what is no absolute path puts it at the end, after a separator where one is needed. -/
theorem bytes_join_relative {p q : Path} (h : q.isAbsolute = false) :
    (p.bytes = [] ∧ p.join q = q) ∨
      (∃ init, p.bytes = init ++ [separator] ∧ (p.join q).bytes = init ++ separator :: q.bytes) ∨
      (p.bytes ≠ [] ∧ (p.join q).bytes = p.bytes ++ separator :: q.bytes) := by
  rw [join, h, if_neg Bool.false_ne_true]
  cases hlast : p.bytes.getLast? with
  | none => exact .inl ⟨List.getLast?_eq_none_iff.1 hlast, rfl⟩
  | some b =>
      obtain ⟨init, heq⟩ := List.getLast?_eq_some_iff.1 hlast
      dsimp only
      split
      · next hb =>
          subst hb
          exact .inr (.inl ⟨init, heq, by rw [heq, List.append_assoc]; rfl⟩)
      · exact .inr (.inr ⟨by simp [heq], rfl⟩)

theorem isAbsolute_join_relative {p q : Path} (h : q.isAbsolute = false) :
    (p.join q).isAbsolute = p.isAbsolute := by
  have hhead : ∀ b b' : Bytes, b.head? = b'.head? →
      (⟨b⟩ : Path).isAbsolute = (⟨b'⟩ : Path).isAbsolute :=
    fun b b' heq => by rw [isAbsolute, isAbsolute, heq]
  obtain ⟨hp, heq⟩ | ⟨init, hp, heq⟩ | ⟨hp, heq⟩ := bytes_join_relative (p := p) h
  · rw [heq, h, isAbsolute, hp]
    rfl
  · refine hhead (p.join q).bytes p.bytes ?_
    rw [heq, hp]
    cases init <;> rfl
  · refine hhead (p.join q).bytes p.bytes ?_
    rw [heq]
    obtain ⟨b, rest, hp⟩ := List.exists_cons_of_ne_nil hp
    rw [hp]
    rfl

theorem names_join_relative {p q : Path} (h : q.isAbsolute = false) :
    (p.join q).names = p.names ++ q.names := by
  obtain ⟨hp, heq⟩ | ⟨init, hp, heq⟩ | ⟨-, heq⟩ := bytes_join_relative (p := p) h
  · rw [heq, names, names, hp]
    rfl
  · have hsplit : pieces (p.join q).bytes = pieces init ++ pieces q.bytes := by
      rw [heq]
      exact pieces_append init q.bytes
    have hsplit' : pieces p.bytes = pieces init ++ [[]] := by
      rw [hp]
      exact pieces_append init []
    rw [names, names, names, hsplit, hsplit', List.filter_append, List.filter_append]
    simp
  · have hsplit : pieces (p.join q).bytes = pieces p.bytes ++ pieces q.bytes := by
      rw [heq]
      exact pieces_append p.bytes q.bytes
    rw [names, names, names, hsplit, List.filter_append]

theorem getLast?_pieces_join {n : Bytes} (h : IsName n) (q : Path) :
    (pieces (q.join ⟨n⟩).bytes).getLast? = some n := by
  have hone : pieces n = [n] := pieces_of_notMem h.2.1
  have hback : ∀ b : Bytes, (pieces (b ++ separator :: n)).getLast? = some n := by
    intro b
    have hsplit : pieces (b ++ separator :: n) = pieces b ++ [n] :=
      (pieces_append b n).trans (congrArg _ hone)
    rw [hsplit, List.getLast?_concat]
  obtain ⟨-, heq⟩ | ⟨init, -, heq⟩ | ⟨-, heq⟩ := bytes_join_relative (p := q) h.isAbsolute
  · rw [heq, hone]
    rfl
  · rw [heq, hback]
  · rw [heq, hback]

theorem names_join {n : Bytes} (h : IsName n) (q : Path) : (q.join ⟨n⟩).names = q.names ++ [n] := by
  have hone : names ⟨n⟩ = [n] := by
    rw [names, pieces, pieces_of_notMem h.2.1]
    simp [h.1]
  rw [names_join_relative h.isAbsolute, hone]

theorem names_separators (k : Nat) : names ⟨List.replicate k separator⟩ = [] := by
  induction k with
  | zero => rfl
  | succ k ih =>
      have hpieces : pieces (List.replicate (k + 1) separator) =
          [] :: pieces (List.replicate k separator) := by
        exact pieces_append [] (List.replicate k separator)
      rw [names, hpieces, List.filter_cons_of_neg (by simp)]
      exact ih

/-- What is followed are the names, and at most a dot after them. -/
theorem steps_eq (q : Path) : q.steps = q.names ∨ q.steps = q.names ++ [dot] := by
  rw [steps]
  split
  · exact .inr rfl
  · exact .inl rfl

/-- Joining a name adds it to the names that are followed. -/
theorem steps_join {n : Bytes} (h : IsName n) (q : Path) : (q.join ⟨n⟩).steps = q.names ++ [n] := by
  rw [steps, getLast?_pieces_join h, if_neg fun hdot => h.1 (Option.some.inj hdot.2)]
  exact names_join h q

/-- What the names of a path stand for. -/
def nameComponents (names : List Bytes) : List Component :=
  (names.filter (· ≠ dot)).map fun n => if n = dotDot then .up else .name n

theorem bodyComponents_eq (ps : List Bytes) :
    bodyComponents ps = nameComponents (ps.filter (· ≠ [])) := by
  rw [bodyComponents, nameComponents, List.filter_filter]
  congr 2
  funext n
  simp [isVoid, Bool.and_comm]

theorem components_name {n : Bytes} (h : IsName n) : (⟨n⟩ : Path).components = [.name n] := by
  rw [components, h.isAbsolute, pieces, pieces_of_notMem h.2.1]
  simp [bodyComponents, isVoid, h.1, h.2.2.1, h.2.2.2]

theorem head?_pieces_join {p q : Path} (h : q.isAbsolute = false) (hp : p.bytes ≠ []) :
    (pieces (p.join q).bytes).head? = (pieces p.bytes).head? := by
  have hfront : ∀ b b' : Bytes, (pieces (b ++ separator :: b')).head? = (pieces b).head? := by
    intro b b'
    obtain ⟨first, more, hfirst⟩ := List.exists_cons_of_ne_nil (pieces_ne_nil separator b)
    rw [pieces, pieces, pieces_append, hfirst]
    rfl
  obtain ⟨hnil, -⟩ | ⟨init, hp, heq⟩ | ⟨-, heq⟩ := bytes_join_relative (p := p) h
  · exact absurd hnil hp
  · rw [heq, hp, hfront, hfront]
  · rw [heq, hfront]

/-- Joining what begins with no dot adds its components, however the two are written. -/
theorem components_join_relative {p q : Path} (h : q.isAbsolute = false)
    (hdot : (pieces q.bytes).head? ≠ some dot) :
    (p.join q).components = p.components ++ q.components := by
  by_cases hp : p.bytes = []
  · obtain ⟨bytes⟩ := p
    subst hp
    rw [join, h, if_neg Bool.false_ne_true]
    rfl
  · have hbody : bodyComponents (pieces (p.join q).bytes) =
        bodyComponents (pieces p.bytes) ++ bodyComponents (pieces q.bytes) := by
      rw [bodyComponents_eq, bodyComponents_eq, bodyComponents_eq, ← names, ← names, ← names,
        names_join_relative h, nameComponents, nameComponents, nameComponents, List.filter_append,
        List.map_append]
    rw [components, components, components, hbody, isAbsolute_join_relative h,
      head?_pieces_join h hp, h, if_neg Bool.false_ne_true, if_neg hdot]
    split
    · rfl
    · split <;> rfl

theorem components_join {n : Bytes} (h : IsName n) (q : Path) :
    (q.join ⟨n⟩).components = q.components ++ [.name n] := by
  have hdot : (pieces n).head? ≠ some dot := by
    rw [pieces, pieces_of_notMem h.2.1]
    exact fun heq => h.2.2.1 (Option.some.inj heq)
  rw [components_join_relative h.isAbsolute hdot, components_name h]

/-- The path one gets to by following names one after the other. -/
def joinNames (dir : Path) (names : List Bytes) : Path := names.foldl (fun q n => q.join ⟨n⟩) dir

/-- Whether a path is got from `dir` by following names. -/
def IsAbove (dir p : Path) : Prop :=
  ∃ names : List Bytes, (∀ n ∈ names, IsName n) ∧ p = dir.joinNames names

theorem isAbove_self (dir : Path) : dir.IsAbove dir := ⟨[], nofun, rfl⟩

theorem components_joinNames {names : List Bytes} (h : ∀ n ∈ names, IsName n) (dir : Path) :
    (dir.joinNames names).components = dir.components ++ names.map .name := by
  induction names generalizing dir with
  | nil => exact (List.append_nil _).symm
  | cons n rest ih =>
      rw [List.map_cons, List.append_cons, ← components_join (h n List.mem_cons_self)]
      exact ih (fun m hm => h m (List.mem_cons_of_mem n hm)) _

/-- `q.LeadsTo p`: following `p` begins with following `q`. -/
structure LeadsTo (q p : Path) : Prop where
  bytes : q.bytes <+: p.bytes
  isAbsolute : p.isAbsolute = q.isAbsolute
  names : q.names <+: p.names

theorem LeadsTo.refl (q : Path) : q.LeadsTo q :=
  ⟨List.prefix_refl _, rfl, List.prefix_refl _⟩

theorem LeadsTo.join {p q r : Path} (h : q.LeadsTo p) (hr : r.isAbsolute = false) :
    q.LeadsTo (p.join r) where
  bytes := by
    obtain ⟨hp, heq⟩ | ⟨init, hp, heq⟩ | ⟨-, heq⟩ := bytes_join_relative (p := p) hr
    · obtain ⟨q⟩ := q
      obtain rfl : q = [] := List.prefix_nil.1 (hp ▸ h.bytes)
      exact List.nil_prefix
    · rw [heq, List.append_cons, ← hp]
      exact h.bytes.trans (List.prefix_append ..)
    · rw [heq]
      exact h.bytes.trans (List.prefix_append ..)
  isAbsolute := (isAbsolute_join_relative hr).trans h.isAbsolute
  names := by
    rw [names_join_relative hr]
    exact h.names.trans (List.prefix_append ..)

end Path

namespace FileTree

def NoLinks (t : FileTree) : Prop := ∀ loc target, t.get? loc ≠ some (.link target)

/-- Whether a tree has links can be read off its entries. -/
theorem noLinks_of_entries {t : FileTree}
    (h : ∀ x ∈ t.entries.entries, (x.2.isDirectory || x.2.isFile) = true) : t.NoLinks := by
  intro loc target hlink
  rw [get?] at hlink
  split at hlink
  · cases hlink
  · cases h _ ((t.entries.get?_eq_some_iff _ _).1 hlink)

theorem get?_of_walk {t : FileTree} {followLast : Bool} {links : Nat} {loc l : Location}
    {names : List Bytes} {content : Bytes} {mode : Nat}
    (h : t.walk followLast links loc names = .ok (.present l (.file content mode))) :
    t.get? l = some (.file content mode) := by
  fun_induction walk t followLast links loc names <;> simp_all

theorem walk_nil {t : FileTree} {followLast : Bool} {links : Nat} {loc : Location} :
    t.walk followLast links loc [] = .ok (.present loc .directory) := by
  rw [walk]

/-- Names that lead through directories to something other than a link lead there. -/
theorem walk_of_get? {t : FileTree} {followLast : Bool} {links : Nat} {loc : Location}
    {names : List Bytes} {e : Entry} (hnames : ∀ n ∈ names, Path.IsName n ∧ n.length ≤ maxName)
    (hdirs : ∀ k, k < names.length → t.get? (loc ++ names.take k) = some .directory)
    (hlast : t.get? (loc ++ names) = some e) (hlink : ∀ target, e ≠ .link target)
    (hne : names ≠ []) : t.walk followLast links loc names = .ok (.present (loc ++ names) e) := by
  induction names generalizing loc with
  | nil => exact absurd rfl hne
  | cons n rest ih =>
      obtain ⟨⟨-, -, hdot, hup⟩, hlen⟩ := hnames n List.mem_cons_self
      rw [walk, if_neg hdot, if_neg hup, if_neg (Nat.not_lt.2 hlen)]
      by_cases hrest : rest = []
      · subst hrest
        rw [hlast]
        cases e with
        | directory => exact walk_nil
        | file content mode => rfl
        | link target => exact absurd rfl (hlink target)
      · have hdir := hdirs 1 (Nat.succ_lt_succ (List.length_pos_iff.2 hrest))
        rw [List.take_succ_cons, List.take_zero] at hdir
        rw [hdir]
        rw [List.append_cons loc n rest] at hlast ⊢
        refine ih (fun m hm => hnames m (List.mem_cons_of_mem n hm)) (fun k hk => ?_) hlast hrest
        rw [← List.append_cons]
        exact hdirs (k + 1) (Nat.succ_lt_succ hk)

/-- A walk ends where there is nothing of the next name. -/
theorem walk_of_get?_eq_none {t : FileTree} (followLast : Bool) (links : Nat) {loc : Location}
    {names : List Bytes} (k : Nat) (hnames : ∀ n ∈ names, Path.IsName n ∧ n.length ≤ maxName)
    (hk : k < names.length)
    (hdirs : ∀ j, j < k → t.get? (loc ++ names.take (j + 1)) = some .directory)
    (hnone : t.get? (loc ++ names.take (k + 1)) = none) :
    t.walk followLast links loc names = .error .notFound ∨
      ∃ dir n, t.walk followLast links loc names = .ok (.vacant dir n) := by
  induction k generalizing loc names with
  | zero =>
      cases names with
      | nil => exact absurd hk (Nat.not_lt_zero 0)
      | cons n rest =>
          obtain ⟨⟨-, -, hdot, hup⟩, hlen⟩ := hnames n List.mem_cons_self
          rw [List.take_succ_cons, List.take_zero] at hnone
          rw [walk, if_neg hdot, if_neg hup, if_neg (Nat.not_lt.2 hlen), hnone]
          by_cases hrest : rest = []
          · exact .inr ⟨loc, n, if_pos hrest⟩
          · exact .inl (if_neg hrest)
  | succ k ih =>
      cases names with
      | nil => exact absurd hk (Nat.not_lt_zero (k + 1))
      | cons n rest =>
          obtain ⟨⟨-, -, hdot, hup⟩, hlen⟩ := hnames n List.mem_cons_self
          have hdir := hdirs 0 (Nat.succ_pos k)
          rw [List.take_succ_cons, List.take_zero] at hdir
          rw [walk, if_neg hdot, if_neg hup, if_neg (Nat.not_lt.2 hlen), hdir]
          rw [List.take_succ_cons, List.append_cons] at hnone
          refine ih (fun m hm => hnames m (List.mem_cons_of_mem n hm)) (Nat.lt_of_succ_lt_succ hk)
            (fun j hj => ?_) hnone
          rw [← List.append_cons]
          exact hdirs (j + 1) (Nat.succ_lt_succ hj)

/-- Without links, a walk that gets to a file ends in a location of the last name. -/
theorem getLast?_of_walk {t : FileTree} (ht : t.NoLinks) {followLast : Bool} {links : Nat}
    {loc l : Location} {names : List Bytes} {n content : Bytes} {mode : Nat}
    (hlast : names.getLast? = some n)
    (h : t.walk followLast links loc names = .ok (.present l (.file content mode))) :
    l.getLast? = some n := by
  -- a walk that has no names left has not come to a file
  have htail : ∀ {m : Bytes} {rest : List Bytes} {links : Nat} {loc : Location},
      (m :: rest).getLast? = some n →
      t.walk followLast links loc rest = .ok (.present l (.file content mode)) →
      rest.getLast? = some n := by
    intro m rest links loc hm hrest
    cases rest with
    | nil =>
        rw [walk_nil] at hrest
        cases hrest
    | cons m' rest => rwa [List.getLast?_cons_cons] at hm
  fun_induction walk t followLast links loc names with
  | case2 links loc rest ih => exact ih (htail hlast h) h
  | case3 links loc rest _ ih => exact ih (htail hlast h) h
  | case7 links loc m rest _ _ _ _ ih => exact ih (htail hlast h) h
  | case8 links loc m _ _ _ content' mode' _ =>
      cases h
      rw [List.getLast?_concat]
      exact hlast
  | case10 links loc m rest _ _ _ target hlink => exact absurd hlink (ht _ _)
  | case12 loc m rest _ _ _ target hlink => exact absurd hlink (ht _ _)
  | _ => cases h

end FileTree

end KernelTrace
