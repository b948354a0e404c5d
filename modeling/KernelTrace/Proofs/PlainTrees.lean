import KernelTrace.Proofs.FileContents

/-!
# Plain trees

A tree is plain if it is what a file system without links can hold: every entry is in a directory,
under a name that means something there. Most of what makes paths hard is gone in such a tree. The
names of a path lead to one directory, whatever is looked up after them, or they lead nowhere
(`enters_or`), and so the three operations that a creation consists of depend on one location, that
of the last name in that directory.

A directory that was made where nothing had been is empty, for nothing can have been below it. So it
can be removed again, and then the tree is the one before (`erase_put`).
-/

namespace KernelTrace

namespace FileTree

structure Plain (t : FileTree) : Prop where
  noLinks : t.NoLinks
  parent : ∀ {loc n e}, t.get? (loc ++ [n]) = some e → t.get? loc = some .directory
  isName : ∀ {loc n e}, t.get? (loc ++ [n]) = some e → Path.IsName n

variable {t t' : FileTree} {cwd loc l : Location} {n : Bytes}

/-- Whether a tree is plain can be read off its entries. -/
theorem plain_of_entries (h : ∀ x ∈ t.entries.entries, (x.2.isDirectory || x.2.isFile) = true ∧
    ∀ n ∈ x.1.getLast?, Path.IsName n ∧ t.get? x.1.dropLast = some .directory) : t.Plain := by
  have hentry : ∀ {loc n e}, t.get? (loc ++ [n]) = some e →
      Path.IsName n ∧ t.get? loc = some .directory := by
    intro loc n e hget
    rw [get?, if_neg (List.append_ne_nil_of_right_ne_nil _ (List.cons_ne_nil _ _))] at hget
    have hlast := (h _ ((t.entries.get?_eq_some_iff _ _).1 hget)).2 n
    rw [List.getLast?_concat, List.dropLast_concat] at hlast
    exact hlast rfl
  exact ⟨noLinks_of_entries fun x hx => (h x hx).1, fun hget => (hentry hget).2, fun hget =>
    (hentry hget).1⟩

theorem Plain.below (ht : t.Plain) (h : t.get? loc = none) (n : Bytes) :
    t.get? (loc ++ [n]) = none := by
  cases hget : t.get? (loc ++ [n]) with
  | none => rfl
  | some e =>
      rw [ht.parent hget] at h
      cases h

theorem children_sublist (t : FileTree) (loc : Location) :
    ((t.children loc).map fun c => (loc ++ [c.1], c.2)).Sublist t.entries.entries := by
  rw [children]
  induction t.entries.entries with
  | nil => exact .slnil
  | cons x rest ih =>
      obtain ⟨l, e⟩ := x
      rw [List.filterMap_cons]
      split
      · exact ih.cons _
      · next c hchild =>
          dsimp only at hchild
          split at hchild
          · next n hlast =>
              obtain ⟨init, rfl⟩ := List.getLast?_eq_some_iff.1 hlast
              rw [List.dropLast_concat] at hchild
              split at hchild
              · next hdir =>
                  subst hdir
                  cases hchild
                  exact ih.cons_cons _
              · cases hchild
          · cases hchild

theorem mem_children {e : Entry} : (n, e) ∈ t.children loc ↔ t.get? (loc ++ [n]) = some e := by
  have hne : loc ++ [n] ≠ [] := List.append_ne_nil_of_right_ne_nil _ (List.cons_ne_nil _ _)
  rw [get?, if_neg hne, SortedMap.get?_eq_some_iff]
  constructor
  · intro h
    exact (t.children_sublist loc).subset (List.mem_map.2 ⟨(n, e), h, rfl⟩)
  · intro h
    refine List.mem_filterMap.2 ⟨_, h, ?_⟩
    simp only [List.getLast?_concat, List.dropLast_concat, if_true]

/-- The names in a directory are listed in byte order. -/
theorem children_ordered (t : FileTree) (loc : Location) :
    (t.children loc).Pairwise fun a b => a.1 < b.1 := by
  refine (List.pairwise_map.1 (t.entries.ordered.sublist (t.children_sublist loc))).imp ?_
  intro a b hlt
  obtain h | heq | h := Std.lt_trichotomy a.1 b.1
  · exact h
  · rw [heq] at hlt
    exact absurd hlt Std.lt_irrefl
  · have hgt : loc ++ [b.1] < loc ++ [a.1] :=
      List.append_left_lt (List.cons_lt_cons_iff.2 (.inl h))
    exact absurd (Std.lt_trans hlt hgt) Std.lt_irrefl

theorem children_eq_nil_iff : t.children loc = [] ↔ ∀ n, t.get? (loc ++ [n]) = none := by
  simp only [List.eq_nil_iff_forall_not_mem, Prod.forall, mem_children,
    Option.eq_none_iff_forall_ne_some, ne_eq]

/-- What was put where nothing had been can be taken away again. -/
theorem erase_put {e : Entry} (h : t.get? loc = none) : (t.put loc e).erase loc = t := by
  have hne : loc ≠ [] := by
    rintro rfl
    cases h
  rw [get?, if_neg hne] at h
  rw [put, if_neg hne, erase]
  congr 1
  refine SortedMap.ext_get? fun k => ?_
  rw [SortedMap.get?_erase, SortedMap.get?_insert]
  split
  · next heq => rw [heq, h]
  · rfl

/-! ## Going through names -/

/-- Names lead to a directory from which whatever comes after them is looked up, or nothing can be
looked up behind them. -/
theorem walk_through (ht : t.NoLinks) (followLast : Bool) (links : Nat) (loc : Location)
    (names : List Bytes) :
    (∃ l, ∀ more, t.walk followLast links loc (names ++ more) = t.walk followLast links l more) ∨
      ∃ e, e ≠ .exists ∧
        (∀ more, more ≠ [] → t.walk followLast links loc (names ++ more) = .error e) ∧
        ∀ l, t.walk followLast links loc names ≠ .ok (.present l .directory) := by
  induction names generalizing loc with
  | nil => exact .inl ⟨loc, fun _ => rfl⟩
  | cons n rest ih =>
      simp only [List.cons_append]
      by_cases hdot : n = Path.dot
      · simp only [walk.eq_2 t followLast links loc n, if_pos hdot]
        exact ih loc
      by_cases hup : n = Path.dotDot
      · simp only [walk.eq_2 t followLast links loc n, if_neg hdot, if_pos hup]
        exact ih loc.dropLast
      by_cases hlong : maxName < n.length
      · simp only [walk.eq_2 t followLast links loc n, if_neg hdot, if_neg hup, if_pos hlong]
        exact .inr ⟨_, by decide, fun _ _ => rfl, nofun⟩
      simp only [walk.eq_2 t followLast links loc n, if_neg hdot, if_neg hup, if_neg hlong]
      cases hget : t.get? (loc ++ [n]) with
      | none =>
          refine .inr ⟨.notFound, by decide, fun more hmore => ?_, fun l => ?_⟩
          · simp [hmore]
          · dsimp only
            split <;> simp
      | some e =>
          match e with
          | .directory => exact ih _
          | .file content mode =>
              refine .inr ⟨.notDirectory, by decide, fun more hmore => ?_, fun l => ?_⟩
              · simp [hmore]
              · dsimp only
                split <;> simp
          | .link target => exact absurd hget (ht _ _)

/-- What a walk has come upon is there in every tree that holds at least as much. -/
theorem walk_mono {followLast : Bool} {links : Nat} {names : List Bytes} {e : Entry}
    (hle : ∀ loc e, t.get? loc = some e → t'.get? loc = some e)
    (h : t.walk followLast links loc names = .ok (.present l e)) :
    t'.walk followLast links loc names = .ok (.present l e) := by
  fun_induction walk t followLast links loc names with
  | case1 => rwa [walk_nil]
  | case2 links loc rest ih =>
      rw [walk.eq_2, if_pos rfl]
      exact ih h
  | case3 links loc rest hdot ih =>
      rw [walk.eq_2, if_neg hdot, if_pos rfl]
      exact ih h
  | case7 links loc n rest hdot hup hlong hget ih =>
      rw [walk.eq_2, if_neg hdot, if_neg hup, if_neg hlong, hle _ _ hget]
      exact ih h
  | case8 links loc n hdot hup hlong content mode hget =>
      rw [walk.eq_2, if_neg hdot, if_neg hup, if_neg hlong, hle _ _ hget]
      exact h
  | case10 links loc n rest hdot hup hlong target hget hend =>
      rw [walk.eq_2, if_neg hdot, if_neg hup, if_neg hlong, hle _ _ hget]
      exact (if_pos hend).trans h
  | case12 loc n rest hdot hup hlong target hget hend left ih =>
      simp only [dite_eq_ite] at ih
      rw [walk.eq_2, if_neg hdot, if_neg hup, if_neg hlong, hle _ _ hget]
      exact (if_neg hend).trans (ih h)
  | case4 | case5 | case6 | case9 | case11 => cases h

/-! ## The directory that a path leads to -/

/-- `t.Enters cwd q l`: whatever follows the names of `q` is looked up from the directory `l`. -/
def Enters (t : FileTree) (cwd : Location) (q : Path) (l : Location) : Prop :=
  ∀ more, t.walk true maxLinks (startOf cwd q) (q.names ++ more) = t.walk true maxLinks l more

variable {q : Path}

theorem walk_dot (t : FileTree) (followLast : Bool) (links : Nat) (l : Location) :
    t.walk followLast links l [Path.dot] = .ok (.present l .directory) := by
  rw [walk.eq_2, if_pos rfl, walk_nil]

theorem checkPath_eq_ok {p : Path} :
    checkPath p = .ok () ↔ 0 ∉ p.bytes ∧ p.bytes ≠ [] ∧ p.bytes.length ≤ maxPath := by
  rw [checkPath]
  by_cases hnul : 0 ∈ p.bytes <;> by_cases hempty : p.bytes = [] <;>
    by_cases hlong : maxPath < p.bytes.length <;> simp_all

theorem checkPath_of_leadsTo {p : Path} (h : q.LeadsTo p) (hq : q.bytes ≠ [])
    (hp : checkPath p = .ok ()) : checkPath q = .ok () := by
  obtain ⟨hnul, -, hlen⟩ := checkPath_eq_ok.1 hp
  exact checkPath_eq_ok.2
    ⟨fun hmem => hnul (h.bytes.subset hmem), hq, Nat.le_trans h.bytes.length_le hlen⟩

theorem walk_of_isDirectory (h : t.isDirectory cwd q = true) :
    checkPath q = .ok () ∧ ∃ l, t.walk true maxLinks (startOf cwd q) q.steps =
      .ok (.present l .directory) := by
  rw [isDirectory] at h
  split at h
  · next l hfind =>
      refine ⟨?_, l, walk_of_find hfind⟩
      cases hcheck : checkPath q with
      | error e =>
          rw [find, resolve, hcheck] at hfind
          cases hfind
      | ok _ => rfl
  · cases h

theorem Enters.isDirectory (h : t.Enters cwd q l) (hcheck : checkPath q = .ok ()) :
    t.isDirectory cwd q = true := by
  have hsteps : t.walk true maxLinks (startOf cwd q) q.steps = .ok (.present l .directory) := by
    obtain heq | heq := q.steps_eq
    · rw [heq, ← List.append_nil q.names, h, walk_nil]
    · rw [heq, h, walk_dot]
  rw [FileTree.isDirectory, find, resolve, hcheck]
  simp only [bind, Except.bind]
  rw [hsteps]
  rfl

/-- The names of a path lead to one directory, or the path is that of none. -/
theorem enters_or (ht : t.NoLinks) (cwd : Location) (q : Path) :
    (∃ l, t.Enters cwd q l) ∨
      (∃ e, e ≠ .exists ∧ ∀ more, more ≠ [] →
        t.walk true maxLinks (startOf cwd q) (q.names ++ more) = .error e) ∧
        t.isDirectory cwd q = false := by
  obtain hdir | ⟨e, he, hblocked, hnone⟩ := walk_through ht true maxLinks (startOf cwd q) q.names
  · exact .inl hdir
  · refine .inr ⟨⟨e, he, hblocked⟩, Bool.not_eq_true _ ▸ fun hdir => ?_⟩
    obtain ⟨-, l, hwalk⟩ := walk_of_isDirectory hdir
    obtain heq | heq := q.steps_eq
    · rw [heq] at hwalk
      exact hnone l hwalk
    · rw [heq, hblocked _ (List.cons_ne_nil _ _)] at hwalk
      cases hwalk

/-- A path to a directory enters that directory. -/
theorem enters_of_find (ht : t.NoLinks) (h : t.find cwd q = .ok (l, .directory)) :
    t.Enters cwd q l := by
  obtain ⟨l', hl'⟩ | ⟨-, hnone⟩ := enters_or ht cwd q
  · have hwalk := walk_of_find h
    obtain heq | heq := q.steps_eq
    · rw [heq, ← List.append_nil q.names, hl', walk_nil] at hwalk
      cases hwalk
      exact hl'
    · rw [heq, hl', walk_dot] at hwalk
      cases hwalk
      exact hl'
  · rw [isDirectory, h] at hnone
    cases hnone

theorem enters_of_names_eq_nil (t : FileTree) (cwd : Location) (h : q.names = []) :
    t.Enters cwd q (startOf cwd q) := by
  intro more
  rw [h, List.nil_append]

/-- A tree that holds more leads the same way. -/
theorem Enters.mono (ht' : t'.NoLinks) (hle : ∀ loc e, t.get? loc = some e → t'.get? loc = some e)
    (h : t.Enters cwd q l) : t'.Enters cwd q l := by
  have hdot := walk_mono hle ((h [Path.dot]).trans (walk_dot ..))
  obtain ⟨l', hl'⟩ | ⟨⟨e, -, hblocked⟩, -⟩ := enters_or ht' cwd q
  · have heq := (hl' [Path.dot]).symm.trans hdot
    rw [walk_dot] at heq
    cases heq
    exact hl'
  · rw [hblocked _ (List.cons_ne_nil _ _)] at hdot
    cases hdot

/-! ## Putting a directory where nothing had been -/

theorem noLinks_put (ht : t.NoLinks) (loc : Location) : (t.put loc .directory).NoLinks := by
  intro loc' target hget
  by_cases hloc : loc = []
  · rw [put, if_pos hloc] at hget
    exact ht _ _ hget
  · rw [get?_put t loc' _ hloc] at hget
    split at hget
    · cases hget
    · exact ht _ _ hget

theorem get?_put_of_none {e e' : Entry} (hfree : t.get? loc = none) (loc' : Location)
    (h : t.get? loc' = some e') : (t.put loc e).get? loc' = some e' := by
  have hloc : loc ≠ [] := by
    rintro rfl
    cases hfree
  rw [get?_put t loc' _ hloc, if_neg, h]
  rintro rfl
  rw [hfree] at h
  cases h

theorem get?_put_self (t : FileTree) (l : Location) (n : Bytes) (e : Entry) :
    (t.put (l ++ [n]) e).get? (l ++ [n]) = some e := by
  rw [get?_put t _ _ (List.append_ne_nil_of_right_ne_nil _ (List.cons_ne_nil _ _)), if_pos rfl]

theorem get?_put_below (ht : t.Plain) (hfree : t.get? (l ++ [n]) = none) (m : Bytes) :
    (t.put (l ++ [n]) .directory).get? (l ++ [n] ++ [m]) = none := by
  rw [get?_put t _ _ (List.append_ne_nil_of_right_ne_nil _ (List.cons_ne_nil _ _)),
    if_neg (by simp), ht.below hfree]

theorem Enters.put (ht : t.NoLinks) (hl : t.Enters cwd q l) (hfree : t.get? (l ++ [n]) = none) :
    (t.put (l ++ [n]) .directory).Enters cwd q l :=
  hl.mono (noLinks_put ht _) fun loc' _ h => get?_put_of_none hfree loc' h

/-! ## One name more -/

theorem resolveParent_of_walk {p : Path} {init : List Bytes} {e : Entry}
    (hcheck : checkPath p = .ok ()) (hnames : p.names = init ++ [n]) (hn : Path.IsName n)
    (hlen : n.length ≤ maxName)
    (hwalk : t.walk true maxLinks (startOf cwd p) (init ++ [Path.dot]) = .ok (.present l e)) :
    t.resolveParent cwd p = .ok (l, .name n) := by
  rw [Path.names] at hnames
  rw [resolveParent, hcheck]
  simp only [bind, Except.bind, hnames, List.getLast?_concat, List.dropLast_concat]
  rw [hwalk]
  exact (if_neg hn.2.2.1).trans ((if_neg hn.2.2.2).trans (if_neg (Nat.not_lt.2 hlen)))

theorem startOf_join {p : Path} (h : p.isAbsolute = false) (q : Path) (cwd : Location) :
    startOf cwd (q.join p) = startOf cwd q := by
  rw [startOf, startOf, Path.isAbsolute_join_relative h]

section Join

variable (hn : Path.IsName n)

include hn

theorem Enters.join (hlen : n.length ≤ maxName) (h : t.Enters cwd q l)
    (hdir : t.get? (l ++ [n]) = some .directory) : t.Enters cwd (q.join ⟨n⟩) (l ++ [n]) := by
  intro more
  rw [startOf_join hn.isAbsolute, Path.names_join hn, List.append_assoc, h, List.singleton_append,
    walk.eq_2, if_neg hn.2.2.1, if_neg hn.2.2.2, if_neg (Nat.not_lt.2 hlen), hdir]

theorem resolveParent_join (hlen : n.length ≤ maxName) (h : t.Enters cwd q l)
    (hcheck : checkPath (q.join ⟨n⟩) = .ok ()) :
    t.resolveParent cwd (q.join ⟨n⟩) = .ok (l, .name n) := by
  refine resolveParent_of_walk hcheck (Path.names_join hn q) hn hlen (e := .directory) ?_
  rw [startOf_join hn.isAbsolute, h, walk_dot]

theorem find_join (ht : t.NoLinks) (hlen : n.length ≤ maxName) (h : t.Enters cwd q l)
    (hcheck : checkPath (q.join ⟨n⟩) = .ok ()) :
    t.find cwd (q.join ⟨n⟩) =
      match t.get? (l ++ [n]) with
      | none => .error (.os .notFound)
      | some e => .ok (l ++ [n], e) := by
  rw [find, resolve, hcheck]
  simp only [bind, Except.bind]
  rw [startOf_join hn.isAbsolute, Path.steps_join hn, h, walk.eq_2, if_neg hn.2.2.1,
    if_neg hn.2.2.2, if_neg (Nat.not_lt.2 hlen)]
  cases hget : t.get? (l ++ [n]) with
  | none => rfl
  | some e =>
      cases e with
      | directory =>
          dsimp only
          rw [walk_nil]
          rfl
      | file content mode => rfl
      | link target => exact absurd hget (ht _ _)

theorem isDirectory_join (ht : t.NoLinks) (hlen : n.length ≤ maxName) (h : t.Enters cwd q l) :
    t.isDirectory cwd (q.join ⟨n⟩) = true ↔
      checkPath (q.join ⟨n⟩) = .ok () ∧ t.get? (l ++ [n]) = some .directory := by
  constructor
  · intro hdir
    obtain ⟨hcheck, -⟩ := walk_of_isDirectory hdir
    rw [isDirectory, find_join hn ht hlen h hcheck] at hdir
    refine ⟨hcheck, ?_⟩
    revert hdir
    match t.get? (l ++ [n]) with
    | some .directory => exact fun _ => rfl
    | none | some (.file ..) | some (.link _) => exact fun hdir => nomatch hdir
  · rintro ⟨hcheck, hget⟩
    exact (h.join hn hlen hget).isDirectory hcheck

end Join

/-! ## Making a directory and taking it back -/

/-- Whether something is there at a path. -/
def Occupied (t : FileTree) (cwd : Location) (p : Path) : Prop := ∃ found, t.find cwd p = .ok found

theorem not_occupied_of_checkPath {p : Path} {e : IoError} (h : checkPath p = .error e) :
    ¬ t.Occupied cwd p := by
  rintro ⟨found, hfind⟩
  rw [find, resolve, h] at hfind
  cases hfind

theorem not_occupied_join (hn : Path.IsName n) (ht : t.NoLinks) (hlen : n.length ≤ maxName)
    (h : t.Enters cwd q l) (hnone : t.get? (l ++ [n]) = none) : ¬ t.Occupied cwd (q.join ⟨n⟩) := by
  cases hcheck : checkPath (q.join ⟨n⟩) with
  | error e => exact not_occupied_of_checkPath hcheck
  | ok _ =>
      rintro ⟨found, hfind⟩
      rw [find_join hn ht hlen h hcheck, hnone] at hfind
      cases hfind

section Join

variable (hn : Path.IsName n) (hq : q.bytes ≠ [])

include hn hq

/-- A path with a name at its end is refused at sight only if so is the path to the directory, or
because the name makes it too long. -/
theorem isDirectory_of_checkPath (t : FileTree) (cwd : Location) (hzero : 0 ∉ n) {e : IoError}
    (h : checkPath (q.join ⟨n⟩) = .error e) :
    e ≠ .os .exists ∧
      (t.isDirectory cwd q = false ∨ maxPath < (q.join ⟨n⟩).bytes.length) := by
  obtain ⟨sep, hsep, hbytes⟩ := Path.bytes_join hn hq
  rw [checkPath] at h
  split at h
  · next hnul =>
      cases h
      refine ⟨nofun, .inl (Bool.not_eq_true _ ▸ fun hdir => ?_)⟩
      refine (checkPath_eq_ok.1 (walk_of_isDirectory hdir).1).1 ?_
      rw [List.contains_eq_mem, decide_eq_true_eq, hbytes, List.mem_append, List.mem_append] at hnul
      obtain (hmem | hmem) | hmem := hnul
      · exact hmem
      · obtain rfl | rfl := hsep
        · cases hmem
        · exact absurd hmem (by decide)
      · exact absurd hmem hzero
  · split at h
    · next hempty =>
        rw [hbytes] at hempty
        exact absurd (List.append_eq_nil_iff.1 hempty).2 hn.1
    · split at h
      · next hlong =>
          cases h
          exact ⟨nofun, .inr hlong⟩
      · cases h

/-- Making a directory fails because something is there, because the way there is blocked or the
path too long, or else nothing had been at the place where the directory is put. -/
theorem makeDir_cases (cwd : Location) (ht : t.NoLinks) (hzero : 0 ∉ n)
    (hlen : n.length ≤ maxName) :
    (t.Occupied cwd (q.join ⟨n⟩) ∧ t.makeDir cwd (q.join ⟨n⟩) = .error (.os .exists)) ∨
      (¬ t.Occupied cwd (q.join ⟨n⟩) ∧
        (t.isDirectory cwd q = false ∨ maxPath < (q.join ⟨n⟩).bytes.length) ∧
        ∃ e, e ≠ .os .exists ∧ t.makeDir cwd (q.join ⟨n⟩) = .error e) ∨
      (¬ t.Occupied cwd (q.join ⟨n⟩) ∧ t.isDirectory cwd q = true ∧
        checkPath (q.join ⟨n⟩) = .ok () ∧ ∃ l, t.Enters cwd q l ∧ t.get? (l ++ [n]) = none ∧
          t.makeDir cwd (q.join ⟨n⟩) = .ok (t.put (l ++ [n]) .directory)) := by
  cases hcheck : checkPath (q.join ⟨n⟩) with
  | error e =>
      obtain ⟨he, hwhy⟩ := isDirectory_of_checkPath hn hq t cwd hzero hcheck
      refine .inr (.inl ⟨not_occupied_of_checkPath hcheck, hwhy, e, he, ?_⟩)
      rw [makeDir, resolveParent, hcheck]
      rfl
  | ok _ =>
      obtain ⟨l, hl⟩ | ⟨⟨e, he, hblocked⟩, hdir⟩ := enters_or ht cwd q
      · have hparent := resolveParent_join hn hlen hl hcheck
        cases hget : t.get? (l ++ [n]) with
        | some entry =>
            have hfind := find_join hn ht hlen hl hcheck
            rw [hget] at hfind
            refine .inl ⟨⟨_, hfind⟩, ?_⟩
            rw [makeDir, hparent]
            simp only [bind, Except.bind, hget]
        | none =>
            refine .inr (.inr ⟨not_occupied_join hn ht hlen hl hget,
              hl.isDirectory (checkPath_of_leadsTo ((Path.LeadsTo.refl q).join hn.isAbsolute) hq
                hcheck), rfl, l, hl, hget, ?_⟩)
            rw [makeDir, hparent]
            simp only [bind, Except.bind, hget]
      · refine .inr (.inl ⟨?_, .inl hdir, .os e, fun heq => he (IoError.os.inj heq), ?_⟩)
        · rintro ⟨found, hfind⟩
          have hwalk := walk_of_find hfind
          rw [startOf_join hn.isAbsolute, Path.steps_join hn,
            hblocked _ (List.cons_ne_nil _ _)] at hwalk
          cases hwalk
        · have hnames := Path.names_join hn q
          rw [Path.names] at hnames
          rw [makeDir, resolveParent, hcheck]
          simp only [bind, Except.bind, hnames, List.getLast?_concat, List.dropLast_concat]
          rw [startOf_join hn.isAbsolute, hblocked _ (List.cons_ne_nil _ _)]
          rfl

end Join

theorem removeDir_of_empty {p : Path} (hparent : t.resolveParent cwd p = .ok (l, .name n))
    (hdir : t.get? (l ++ [n]) = some .directory) (hempty : t.children (l ++ [n]) = []) :
    t.removeDir cwd p = .ok (t.erase (l ++ [n])) := by
  rw [removeDir, hparent]
  simp only [bind, Except.bind, hdir]
  exact if_pos hempty

section Taking

variable (hn : Path.IsName n) (ht : t.Plain) (hlen : n.length ≤ maxName) (hl : t.Enters cwd q l)
  (hfree : t.get? (l ++ [n]) = none)

include hn ht hlen hl hfree

/-- A directory that was made where nothing had been has no file that could be written. -/
theorem overwrite_in_put {m : Bytes} (hm : Path.IsName m) (hmlen : m.length ≤ maxName)
    (content : Bytes) : ∃ e,
      (t.put (l ++ [n]) .directory).overwrite cwd ((q.join ⟨n⟩).join ⟨m⟩) content = .error e := by
  have hplain := noLinks_put ht.noLinks (l ++ [n])
  have henters := (hl.put ht.noLinks hfree).join hn hlen (get?_put_self ..)
  rw [overwrite]
  cases hcheck : checkPath ((q.join ⟨n⟩).join ⟨m⟩) with
  | error e =>
      rw [find, resolve, hcheck]
      exact ⟨e, rfl⟩
  | ok _ =>
      rw [find_join hm hplain hmlen henters hcheck,
        get?_put_below ht hfree]
      exact ⟨_, rfl⟩

theorem removeDir_put (hcheck : checkPath (q.join ⟨n⟩) = .ok ()) :
    (t.put (l ++ [n]) .directory).removeDir cwd (q.join ⟨n⟩) = .ok t := by
  have hparent := resolveParent_join hn hlen (hl.put ht.noLinks hfree) hcheck
  have hempty := children_eq_nil_iff.2 (get?_put_below ht hfree)
  rw [removeDir_of_empty hparent (get?_put_self ..) hempty, erase_put hfree]

end Taking

end FileTree

end KernelTrace
