import KernelTrace.Files.Operation
import KernelTrace.Proofs.PathNames

/-!
# Rewriting the content of files

Switching a knob replaces the content of a file and does nothing else to a tree. So no path leads to
another place than before, however often files are rewritten: where there was a file there is one,
and where an attempt to write has failed the next one fails in the same way. That two loops over
the same files stop at the same place is nothing but this.

`Filled` says what rewriting does to a tree, `SameShape` what it leaves alone, and `fileAt` is what
of a lookup depends on the shape only.
-/

namespace KernelTrace

namespace Entry

def blank : Entry → Entry
  | file _ mode => file [] mode
  | entry => entry

def fill (content : Bytes) : Entry → Entry
  | file _ mode => file content mode
  | entry => entry

@[simp] theorem blank_fill (content : Bytes) (e : Entry) : (e.fill content).blank = e.blank := by
  cases e <;> rfl

@[simp] theorem fill_fill (content content' : Bytes) (e : Entry) :
    (e.fill content).fill content' = e.fill content' := by
  cases e <;> rfl

end Entry

/-- Where a walk ended, but for the content of a file. -/
def Found.blank : Found → Found
  | present loc entry => present loc entry.blank
  | vacant dir name => vacant dir name

namespace FileTree

/-- Two trees with the same directories, the same links and, but for their contents, the same
files. -/
def SameShape (t t' : FileTree) : Prop :=
  ∀ loc, (t.get? loc).map Entry.blank = (t'.get? loc).map Entry.blank

theorem SameShape.refl (t : FileTree) : SameShape t t := fun _ => rfl

theorem SameShape.trans {t t' t'' : FileTree} (h : SameShape t t') (h' : SameShape t' t'') :
    SameShape t t'' := fun loc => (h loc).trans (h' loc)

/-- What a location holds in the one tree, it holds in the other but for the content of a file. -/
theorem SameShape.get? {t t' : FileTree} (h : SameShape t t') (loc : Location) :
    t'.get? loc = t.get? loc ∨
      ∃ content content' mode, t.get? loc = some (.file content mode) ∧
        t'.get? loc = some (.file content' mode) := by
  have hloc := h loc
  revert hloc
  match t.get? loc, t'.get? loc with
  | none, none => exact fun _ => Or.inl rfl
  | some (.file content mode), some (.file content' mode') =>
      intro hloc
      cases hloc
      exact Or.inr ⟨content, content', mode, rfl, rfl⟩
  | some .directory, some .directory => exact fun _ => Or.inl rfl
  | some (.link target), some (.link target') =>
      intro hloc
      cases hloc
      exact Or.inl rfl
  | none, some _ | some _, none | some (.file ..), some .directory | some (.file ..), some (.link _)
  | some .directory, some (.file ..) | some .directory, some (.link _)
  | some (.link _), some .directory | some (.link _), some (.file ..) => exact fun hloc => nomatch hloc

theorem SameShape.get?_eq {t t' : FileTree} (h : SameShape t t') (loc : Location)
    (hfile : ∀ content mode, t.get? loc ≠ some (.file content mode)) :
    t'.get? loc = t.get? loc := by
  obtain heq | ⟨content, _, mode, hget, -⟩ := h.get? loc
  · exact heq
  · exact absurd hget (hfile content mode)

theorem SameShape.get?_file {t t' : FileTree} (h : SameShape t t') {loc : Location}
    {content : Bytes} {mode : Nat} (hfile : t.get? loc = some (.file content mode)) :
    ∃ content', t'.get? loc = some (.file content' mode) := by
  obtain heq | ⟨_, content', mode', hget, hget'⟩ := h.get? loc
  · exact ⟨content, heq.trans hfile⟩
  · rw [hfile] at hget
    cases hget
    exact ⟨content', hget'⟩

theorem SameShape.get?_directory {t t' : FileTree} (h : SameShape t t') {loc : Location} :
    t'.get? loc = some .directory ↔ t.get? loc = some .directory := by
  obtain heq | ⟨_, _, _, hget, hget'⟩ := h.get? loc
  · rw [heq]
  · simp only [hget, hget', Option.some.injEq, reduceCtorEq]

theorem walk_blank {t t' : FileTree} (h : SameShape t t') (followLast : Bool) (links : Nat)
    (loc : Location) (names : List Bytes) :
    (t.walk followLast links loc names).map Found.blank =
      (t'.walk followLast links loc names).map Found.blank := by
  fun_induction walk t followLast links loc names with
  | case1 => rw [walk_nil]
  | case2 links loc rest ih => rw [ih, walk.eq_2, if_pos rfl]
  | case3 links loc rest hdot ih => rw [ih, walk.eq_2, if_neg hdot, if_pos rfl]
  | case4 links loc n rest hdot hup hlong => rw [walk.eq_2, if_neg hdot, if_neg hup, if_pos hlong]
  | case5 links loc n hdot hup hlong hget =>
      have hget' := h.get?_eq (loc ++ [n]) (by simp [hget])
      rw [walk.eq_2, if_neg hdot, if_neg hup, if_neg hlong, hget', hget]
      rfl
  | case6 links loc n rest hdot hup hlong hget hrest =>
      have hget' := h.get?_eq (loc ++ [n]) (by simp [hget])
      rw [walk.eq_2, if_neg hdot, if_neg hup, if_neg hlong, hget', hget]
      exact (congrArg _ (if_neg hrest)).symm
  | case7 links loc n rest hdot hup hlong hget ih =>
      have hget' := h.get?_eq (loc ++ [n]) (by simp [hget])
      rw [ih, walk.eq_2, if_neg hdot, if_neg hup, if_neg hlong, hget', hget]
  | case8 links loc n hdot hup hlong content mode hget =>
      obtain ⟨content', hget'⟩ := h.get?_file hget
      rw [walk.eq_2, if_neg hdot, if_neg hup, if_neg hlong, hget']
      rfl
  | case9 links loc n rest hdot hup hlong content mode hget hrest =>
      obtain ⟨content', hget'⟩ := h.get?_file hget
      rw [walk.eq_2, if_neg hdot, if_neg hup, if_neg hlong, hget']
      exact (congrArg _ (if_neg hrest)).symm
  | case10 links loc n rest hdot hup hlong target hget hend =>
      have hget' := h.get?_eq (loc ++ [n]) (by simp [hget])
      rw [walk.eq_2, if_neg hdot, if_neg hup, if_neg hlong, hget', hget]
      exact (congrArg _ (if_pos hend)).symm
  | case11 loc n rest hdot hup hlong target hget hend =>
      have hget' := h.get?_eq (loc ++ [n]) (by simp [hget])
      rw [walk.eq_2, if_neg hdot, if_neg hup, if_neg hlong, hget', hget]
      exact (congrArg _ (if_neg hend)).symm
  | case12 loc n rest hdot hup hlong target hget hend left ih =>
      have hget' := h.get?_eq (loc ++ [n]) (by simp [hget])
      simp only [dite_eq_ite] at ih
      rw [ih, walk.eq_2, if_neg hdot, if_neg hup, if_neg hlong, hget', hget]
      exact (congrArg _ (if_neg hend)).symm

/-! ## Where a path leads to a file -/

/-- Where the file is that a path leads to, or why it cannot be written. -/
def fileAt (t : FileTree) (cwd : Location) (p : Path) : Except IoError Location :=
  match t.find cwd p with
  | .ok (loc, .file ..) => .ok loc
  | .ok (_, .directory) => .error (.os .isDirectory)
  | .ok (_, .link _) => .error (.os .tooManyLinks)
  | .error e => .error e

theorem find_blank {t t' : FileTree} (h : SameShape t t') (cwd : Location) (p : Path) :
    (t.find cwd p).map (fun e => (e.1, e.2.blank)) =
      (t'.find cwd p).map fun e => (e.1, e.2.blank) := by
  have hwalk := walk_blank h true maxLinks (startOf cwd p) p.steps
  unfold find resolve
  cases checkPath p with
  | error e => rfl
  | ok _ =>
      revert hwalk
      match t.walk true maxLinks (startOf cwd p) p.steps,
        t'.walk true maxLinks (startOf cwd p) p.steps with
      | .error e, .error e' =>
          rintro ⟨⟩
          rfl
      | .ok (.present loc e), .ok (.present loc' e') =>
          intro hwalk
          injection hwalk with hwalk
          injection hwalk with hloc hentry
          exact congrArg Except.ok (Prod.ext hloc hentry)
      | .ok (.vacant dir n), .ok (.vacant dir' n') => exact fun _ => rfl
      | .error _, .ok (.present ..) | .error _, .ok (.vacant ..) | .ok (.present ..), .error _
      | .ok (.vacant ..), .error _ | .ok (.present ..), .ok (.vacant ..)
      | .ok (.vacant ..), .ok (.present ..) => exact fun hwalk => nomatch hwalk

/-- Rewriting files moves none of them. -/
theorem fileAt_congr {t t' : FileTree} (h : SameShape t t') (cwd : Location) (p : Path) :
    t.fileAt cwd p = t'.fileAt cwd p := by
  have hfind := find_blank h cwd p
  unfold fileAt
  revert hfind
  match t.find cwd p, t'.find cwd p with
  | .error e, .error e' =>
      rintro ⟨⟩
      rfl
  | .ok (loc, e), .ok (loc', e') =>
      intro hfind
      injection hfind with hfind
      injection hfind with hloc hentry
      subst hloc
      match e, e' with
      | .file .., .file .. | .directory, .directory | .link _, .link _ => rfl
      | .file .., .directory | .file .., .link _ | .directory, .file .. | .directory, .link _
      | .link _, .file .. | .link _, .directory => cases hentry
  | .error _, .ok _ | .ok _, .error _ => exact fun hfind => nomatch hfind

theorem SameShape.find_directory {t t' : FileTree} (h : t.SameShape t') {cwd loc : Location}
    {p : Path} (hfind : t.find cwd p = .ok (loc, .directory)) :
    t'.find cwd p = .ok (loc, .directory) := by
  have hblank := find_blank h cwd p
  rw [hfind] at hblank
  cases hfind' : t'.find cwd p with
  | error e =>
      rw [hfind'] at hblank
      cases hblank
  | ok found =>
      obtain ⟨loc', e⟩ := found
      rw [hfind'] at hblank
      cases e with
      | directory =>
          injection hblank with hblank
          injection hblank with hloc
          exact congrArg (fun l => Except.ok (l, Entry.directory)) hloc.symm
      | file content mode => cases hblank
      | link target => cases hblank

theorem fileAt_eq_ok {t : FileTree} {cwd loc : Location} {p : Path} :
    t.fileAt cwd p = .ok loc ↔ ∃ content mode, t.find cwd p = .ok (loc, .file content mode) := by
  unfold fileAt
  constructor
  · intro h
    split at h
    · next content mode hfind =>
        cases h
        exact ⟨content, mode, hfind⟩
    all_goals cases h
  · rintro ⟨content, mode, hfind⟩
    rw [hfind]

theorem walk_of_find {t : FileTree} {cwd loc : Location} {p : Path} {e : Entry}
    (h : t.find cwd p = .ok (loc, e)) :
    t.walk true maxLinks (startOf cwd p) p.steps = .ok (.present loc e) := by
  unfold find resolve at h
  cases hcheck : checkPath p with
  | error e => rw [hcheck] at h; cases h
  | ok _ =>
      rw [hcheck] at h
      revert h
      match t.walk true maxLinks (startOf cwd p) p.steps with
      | .error e => exact fun h => nomatch h
      | .ok (.vacant ..) => exact fun h => nomatch h
      | .ok (.present loc' e') =>
          rintro ⟨⟩
          rfl

theorem get?_of_find {t : FileTree} {cwd loc : Location} {p : Path} {content : Bytes} {mode : Nat}
    (h : t.find cwd p = .ok (loc, .file content mode)) : t.get? loc = some (.file content mode) :=
  get?_of_walk (walk_of_find h)

/-- A path of names that go through directories leads to what the tree holds there. -/
theorem find_of_get? {t : FileTree} {cwd : Location} {p : Path} {e : Entry}
    (hcheck : checkPath p = .ok ())
    (hnames : ∀ n ∈ p.steps, Path.IsName n ∧ n.length ≤ maxName)
    (hdirs : ∀ k, k < p.steps.length →
      t.get? (startOf cwd p ++ p.steps.take k) = some .directory)
    (hget : t.get? (startOf cwd p ++ p.steps) = some e) (hlink : ∀ target, e ≠ .link target)
    (hne : p.steps ≠ []) : t.find cwd p = .ok (startOf cwd p ++ p.steps, e) := by
  unfold find resolve
  rw [hcheck, walk_of_get? hnames hdirs hget hlink hne]
  rfl

/-- A path of names that go through directories to one that is not there leads nowhere. -/
theorem find_of_get?_eq_none {t : FileTree} {cwd : Location} {p : Path} (k : Nat)
    (hcheck : checkPath p = .ok ())
    (h : (∀ n ∈ p.steps, Path.IsName n ∧ n.length ≤ maxName) ∧ k < p.steps.length ∧
      (∀ j, j < k → t.get? (startOf cwd p ++ p.steps.take (j + 1)) = some .directory) ∧
      t.get? (startOf cwd p ++ p.steps.take (k + 1)) = none) :
    t.find cwd p = .error (.os .notFound) := by
  obtain ⟨hnames, hk, hdirs, hnone⟩ := h
  unfold find resolve
  rw [hcheck]
  obtain hwalk | ⟨dir, n, hwalk⟩ :=
    walk_of_get?_eq_none true maxLinks k hnames hk hdirs hnone
  all_goals
    rw [hwalk]
    rfl

theorem status_of_find {t : FileTree} {cwd loc : Location} {p : Path} {e : Entry}
    (h : t.find cwd p = .ok (loc, e)) : t.status cwd true p = .ok ⟨loc, e⟩ := by
  rw [find] at h
  rw [status]
  cases hfound : t.resolve cwd true p with
  | error f =>
      rw [hfound] at h
      cases h
  | ok found =>
      rw [hfound] at h
      cases found with
      | vacant dir n => cases h
      | present =>
          cases h
          rfl

/-- Without links, a file that a path with a name at its end leads to has that name. -/
theorem getLast?_of_fileAt {t : FileTree} (ht : t.NoLinks) {cwd loc : Location} {q : Path}
    {n : Bytes} (hn : Path.IsName n) (h : t.fileAt cwd (q.join ⟨n⟩) = .ok loc) :
    loc.getLast? = some n := by
  obtain ⟨content, mode, hfind⟩ := fileAt_eq_ok.1 h
  have hwalk := walk_of_find hfind
  rw [Path.steps_join hn] at hwalk
  exact getLast?_of_walk ht List.getLast?_concat hwalk

/-! ## Rewriting one file and several -/

/-- `t.Filled locs content t'`: `t'` is `t` with the content of the files at `locs` replaced. -/
structure Filled (t : FileTree) (locs : List Location) (content : Bytes) (t' : FileTree) :
    Prop where
  inside : ∀ loc ∈ locs, t'.get? loc = (t.get? loc).map (Entry.fill content)
  outside : ∀ loc, loc ∉ locs → t'.get? loc = t.get? loc

theorem filled_nil (t : FileTree) (content : Bytes) : t.Filled [] content t where
  inside _ hloc := absurd hloc List.not_mem_nil
  outside _ _ := rfl

theorem Filled.sameShape {t t' : FileTree} {locs : List Location} {content : Bytes}
    (h : t.Filled locs content t') : SameShape t t' := by
  intro loc
  by_cases hloc : loc ∈ locs
  · rw [h.inside loc hloc, Option.map_map]
    exact congrArg (Option.map · (t.get? loc)) (funext fun e => (e.blank_fill content).symm)
  · rw [h.outside loc hloc]

theorem Filled.append {t t' t'' : FileTree} {locs locs' : List Location} {content : Bytes}
    (h : t.Filled locs content t') (h' : t'.Filled locs' content t'') :
    t.Filled (locs ++ locs') content t'' := by
  refine ⟨fun loc hloc => ?_, fun loc hloc => ?_⟩
  · by_cases hmem : loc ∈ locs <;> by_cases hmem' : loc ∈ locs'
    · rw [h'.inside loc hmem', h.inside loc hmem, Option.map_map]
      exact congrArg (Option.map · (t.get? loc)) (funext fun e => e.fill_fill content content)
    · rw [h'.outside loc hmem', h.inside loc hmem]
    · rw [h'.inside loc hmem', h.outside loc hmem]
    · exact absurd hloc (List.not_mem_append hmem hmem')
  · have hmem : loc ∉ locs := fun hmem => hloc (List.mem_append_left _ hmem)
    have hmem' : loc ∉ locs' := fun hmem' => hloc (List.mem_append_right _ hmem')
    rw [h'.outside loc hmem', h.outside loc hmem]

/-- A path that leads to a file still leads there once some files have been rewritten. -/
theorem Filled.find {t t' : FileTree} {locs : List Location} {content old : Bytes}
    (h : t.Filled locs content t') {cwd loc : Location} {p : Path} {mode : Nat}
    (hfind : t.find cwd p = .ok (loc, .file old mode)) :
    t'.find cwd p = .ok (loc, .file (if loc ∈ locs then content else old) mode) := by
  have hat := fileAt_congr h.sameShape cwd p
  rw [fileAt_eq_ok.2 ⟨old, mode, hfind⟩] at hat
  obtain ⟨content', mode', hfind'⟩ := fileAt_eq_ok.1 hat.symm
  have hget := get?_of_find hfind
  have hget' := get?_of_find hfind'
  by_cases hloc : loc ∈ locs
  · rw [h.inside loc hloc, hget] at hget'
    cases hget'
    rw [if_pos hloc, hfind']
  · rw [h.outside loc hloc, hget] at hget'
    cases hget'
    rw [if_neg hloc, hfind']

/-- Overwriting a path replaces the content of the file that it leads to, or it fails because it
leads to none. -/
theorem perform_overwrite (t : FileTree) (cwd : Location) (p : Path) (content : Bytes) :
    (∃ loc t', t.fileAt cwd p = .ok loc ∧ t.perform cwd (.overwrite p content) = (.ok (), t') ∧
        t.Filled [loc] content t') ∨
      ∃ e, t.fileAt cwd p = .error e ∧ t.perform cwd (.overwrite p content) = (.error e, t) := by
  rw [perform, overwrite]
  cases hat : t.fileAt cwd p with
  | ok loc =>
      obtain ⟨content', mode, hfind⟩ := fileAt_eq_ok.1 hat
      have hget := get?_of_find hfind
      have hroot : loc ≠ [] := by
        rintro rfl
        cases hget
      rw [hfind]
      refine Or.inl ⟨loc, t.put loc (.file content mode), rfl, rfl, ?_, fun loc' hloc => ?_⟩
      · intro loc' hloc
        obtain rfl := List.mem_singleton.1 hloc
        rw [get?_put t loc' _ hroot, if_pos rfl, hget]
        rfl
      · rw [get?_put t loc' _ hroot, if_neg fun heq => hloc (List.mem_singleton.2 heq)]
  | error e =>
      refine Or.inr ⟨e, rfl, ?_⟩
      unfold fileAt at hat
      split at hat
      · cases hat
      · next hfind => cases hat; rw [hfind]; rfl
      · next hfind => cases hat; rw [hfind]; rfl
      · next hfind => cases hat; rw [hfind]; rfl

/-- Where the files are that are rewritten if one path after the other is overwritten up to the
first that leads to no file, and that path with the reason. -/
def rewritable (t : FileTree) (cwd : Location) :
    List Path → List Location × Option (Path × IoError)
  | [] => ([], none)
  | p :: ps =>
    match t.fileAt cwd p with
    | .ok loc => (loc :: (t.rewritable cwd ps).1, (t.rewritable cwd ps).2)
    | .error e => ([], some (p, e))

theorem rewritable_cons_of_ok {t : FileTree} {cwd loc : Location} {p : Path}
    (hat : t.fileAt cwd p = .ok loc) (ps : List Path) :
    t.rewritable cwd (p :: ps) = (loc :: (t.rewritable cwd ps).1, (t.rewritable cwd ps).2) := by
  rw [rewritable, hat]

theorem rewritable_cons_of_error {t : FileTree} {cwd : Location} {p : Path} {e : IoError}
    (hat : t.fileAt cwd p = .error e) (ps : List Path) :
    t.rewritable cwd (p :: ps) = ([], some (p, e)) := by
  rw [rewritable, hat]

theorem rewritable_congr {t t' : FileTree} (h : SameShape t t') (cwd : Location) (ps : List Path) :
    t.rewritable cwd ps = t'.rewritable cwd ps := by
  induction ps with
  | nil => rfl
  | cons p ps ih => rw [rewritable, rewritable, fileAt_congr h, ih]

theorem exists_of_mem_rewritable {t : FileTree} {cwd loc : Location} {ps : List Path}
    (h : loc ∈ (t.rewritable cwd ps).1) : ∃ p ∈ ps, t.fileAt cwd p = .ok loc := by
  induction ps with
  | nil => exact absurd h List.not_mem_nil
  | cons p ps ih =>
      rw [rewritable] at h
      split at h
      · next loc' hat =>
          rcases List.mem_cons.1 h with rfl | h
          · exact ⟨p, List.mem_cons_self, hat⟩
          · obtain ⟨q, hq, hat⟩ := ih h
            exact ⟨q, List.mem_cons_of_mem p hq, hat⟩
      · exact absurd h List.not_mem_nil

end FileTree

end KernelTrace
