import KernelTrace.Proofs.HookNames
import KernelTrace.Proofs.LinkedPaths

/-!
# The hooks of a directory

What is executed as root is decided by a look at a directory, so the look has to be exact. Each entry
is judged by itself: by its name, which is text and has the mark and a stem in front of its first
dot, and by what its path leads to. Whatever the path of one entry leads to, nowhere or round in a
circle, the others are judged all the same, and their order is that of the listing.

The entry and its path are asked for one after the other. That they agree rests on the walk along
the path, which goes through the directory: what is no link leads to itself (`own_of_find`).
-/

namespace KernelTrace

open Program Actions

/-! ## The names of the files -/

namespace Hook

variable {n : Bytes} {name name' : String}

/-- Whether a file is named as one of the variants of a hook: the mark, the name, and at most a dot
with anything behind it. -/
def IsVariant (n : Bytes) (name : String) : Prop :=
  n = Utf8.encode (mark ++ name) ∨ ∃ more, n = Utf8.encode (mark ++ name ++ "." ++ more)

theorem isVariant_iff : IsVariant n name ↔ ∃ text tail, n = Utf8.encode text ∧
    text.toList = mark.toList ++ (name.toList ++ tail) ∧ ∀ c ∈ tail.head?, c = '.' := by
  constructor
  · rintro (rfl | ⟨more, rfl⟩)
    · exact ⟨_, [], rfl, by simp, by simp⟩
    · exact ⟨_, '.' :: more.toList, rfl, by simp, by simp⟩
  · rintro ⟨text, tail, rfl, htext, hdot⟩
    match tail with
    | [] =>
        left
        congr 1
        rw [← String.toList_inj, htext, String.toList_append, List.append_nil]
    | c :: more =>
        obtain rfl := hdot c rfl
        refine .inr ⟨.ofList more, ?_⟩
        congr 1
        rw [← String.toList_inj, htext]
        simp

/-- Names without a dot can be told from the file. -/
theorem IsVariant.unique (h : IsVariant n name) (h' : IsVariant n name')
    (hdot : '.' ∉ name.toList) (hdot' : '.' ∉ name'.toList) : name = name' := by
  obtain ⟨text, tail, rfl, htext, htail⟩ := isVariant_iff.1 h
  obtain ⟨text', tail', heq, htext', htail'⟩ := isVariant_iff.1 h'
  obtain rfl := Utf8.encode_injective heq
  have hrest : name.toList ++ tail = name'.toList ++ tail' :=
    List.append_cancel_left (htext.symm.trans htext')
  rw [← String.toList_inj, ← takeWhile_ne_append hdot htail, hrest, takeWhile_ne_append hdot' htail']

/-- The logical name of a file is read off its name exactly if the file is a variant of a hook of
that name. -/
theorem bind_logicalName?_eq_some : (Utf8.decode? n).bind logicalName? = some name ↔
    name ≠ "" ∧ '.' ∉ name.toList ∧ IsVariant n name := by
  rw [Option.bind_eq_some_iff]
  constructor
  · rintro ⟨text, htext, hname⟩
    rw [logicalName?] at hname
    split at hname
    · cases hname
    · next rest hrest =>
        dsimp only at hname
        split at hname
        · cases hname
        · next hstem =>
            cases hname
            refine ⟨by simpa using hstem, fun hmem => ?_, isVariant_iff.2 ⟨text,
              rest.dropWhile (· ≠ '.'), (Utf8.decode?_eq_some.1 htext).symm, ?_, fun c hc => ?_⟩⟩
            · rw [String.toList_ofList] at hmem
              simpa using List.mem_takeWhile_imp hmem
            · rw [String.toList_ofList, List.takeWhile_append_dropWhile]
              exact afterMark?_eq_some.1 hrest
            · have hstop := List.head?_dropWhile_not (· ≠ '.') rest
              rw [hc] at hstop
              simpa using hstop
  · rintro ⟨hne, hdot, hvariant⟩
    obtain ⟨text, tail, rfl, htext, htail⟩ := isVariant_iff.1 hvariant
    refine ⟨text, Utf8.decode?_eq_some.2 rfl, ?_⟩
    rw [logicalName?, afterMark?_eq_some.2 htext]
    dsimp only
    rw [takeWhile_ne_append hdot htail, if_neg (by simpa using hne), String.ofList_toList]

end Hook

/-! ## What is in the directory -/

namespace FileTree

variable {t : FileTree} {cwd loc l home : Location} {dir p : Path} {n : Bytes} {e : Entry}

/-- Whether the directories of a tree hold what a file system can hold: what has a name that means
something and is not too long. -/
def IsNamed (t : FileTree) : Prop :=
  ∀ loc n e, t.get? (loc ++ [n]) = some e → Path.IsName n ∧ 0 ∉ n ∧ n.length ≤ maxName

theorem isNamed_of_entries (h : ∀ x ∈ t.entries.entries, ∀ n ∈ x.1.getLast?,
    Path.IsName n ∧ 0 ∉ n ∧ n.length ≤ maxName) : t.IsNamed := by
  intro loc n e hget
  rw [get?, if_neg (List.append_ne_nil_of_right_ne_nil _ (List.cons_ne_nil _ _))] at hget
  exact h _ ((t.entries.get?_eq_some_iff _ _).1 hget) n List.getLast?_concat

/-- Whether a path leads to a file that somebody may execute. -/
def isExecutable (t : FileTree) (cwd : Location) (p : Path) : Bool :=
  match t.find cwd p with
  | .ok (_, e) => e.isFile && (e.mode &&& 0o111 ≠ 0)
  | .error _ => false

/-- Whether an entry of a directory, with at most so many links followed, is a file that somebody may
execute. -/
def Runnable (t : FileTree) (links : Nat) (loc : Location) (n : Bytes) : Prop :=
  ∃ l content mode, t.walk true links loc [n] = .ok (.present l (.file content mode)) ∧
    mode &&& 0o111 ≠ 0

theorem isExecutable_eq_true : t.isExecutable cwd p = true ↔
    ∃ l content mode, t.find cwd p = .ok (l, .file content mode) ∧ mode &&& 0o111 ≠ 0 := by
  rw [isExecutable]
  match t.find cwd p with
  | .error _ | .ok (l, .directory) | .ok (l, .link _) => simp [Entry.isFile]
  | .ok (l, .file content mode) =>
      change (true && decide (mode &&& 0o111 ≠ 0)) = true ↔ _
      rw [Bool.true_and, decide_eq_true_eq]
      simp

theorem isExecutable_join {left : Nat} (hdir : t.Continues cwd dir home left)
    (hn : Path.IsName n) : t.isExecutable cwd (dir.join ⟨n⟩) = true ↔
      checkPath (dir.join ⟨n⟩) = .ok () ∧ t.Runnable left home n := by
  simp only [isExecutable_eq_true, hdir.find_join hn, Runnable, and_assoc, exists_and_left]

/-- A path to a directory with a name at its end is refused at sight only for its length. -/
theorem checkPath_join (hn : Path.IsName n) (hzero : 0 ∉ n) (hdir : checkPath dir = .ok ()) :
    checkPath (dir.join ⟨n⟩) = .ok () ↔ (dir.join ⟨n⟩).bytes.length ≤ maxPath := by
  obtain ⟨hnul, hne, -⟩ := checkPath_eq_ok.1 hdir
  obtain ⟨sep, hsep, hbytes⟩ := Path.bytes_join hn hne
  have hsepZero : 0 ∉ sep := by
    obtain rfl | rfl := hsep
    · exact List.not_mem_nil
    · decide
  have hjoin : 0 ∉ (dir.join ⟨n⟩).bytes := by simp [hbytes, hnul, hsepZero, hzero]
  rw [checkPath_eq_ok]
  exact ⟨fun h => h.2.2, fun h => ⟨hjoin, Path.bytes_join_ne_nil hn dir, h⟩⟩

/-- `t.Owns cwd dir x`: the path of an entry leads to that entry, if it leads anywhere and the entry
is no link. -/
def Owns (t : FileTree) (cwd : Location) (dir : Path) (x : Bytes × Entry) : Prop :=
  (∀ target, x.2 ≠ .link target) → ∀ l e, t.find cwd (dir.join ⟨x.1⟩) = .ok (l, e) → e = x.2

theorem own_of_find (ht : t.IsNamed) (hdir : t.find cwd dir = .ok (home, .directory)) :
    ∀ x ∈ t.children home, t.Owns cwd dir x := by
  rintro ⟨n, e⟩ hmem hlink l e' hfind
  have hget := mem_children.1 hmem
  obtain ⟨hn, -, hlen⟩ := ht home n e hget
  obtain ⟨left, -, hcontinues⟩ := continues_of_find hdir
  have hwalk := ((hcontinues.find_join hn).1 hfind).2
  rw [walk_name hn hlen hget hlink] at hwalk
  cases hwalk
  rfl

end FileTree

/-! ## The search -/

namespace HookSearch

variable {t t' : FileTree} {cwd home : Location} {dir path : Path} {n : Bytes} {e : Entry}
  {es : List (Event (Actions FileSystem))}

/-- The logical name of the hook that the entry of a name is, if it is one. -/
def nameIn? (t : FileTree) (cwd : Location) (dir : Path) (n : Bytes) : Option String :=
  ((Utf8.decode? n).bind Hook.logicalName?).filter fun _ => t.isExecutable cwd (dir.join ⟨n⟩)

/-- The hook that the entry of a name is. -/
def hookIn? (t : FileTree) (cwd : Location) (dir : Path) (n : Bytes) : Option Hook :=
  (nameIn? t cwd dir n).map fun name => ⟨name, dir.join ⟨n⟩⟩

theorem hookIn?_eq_none (h : t.isExecutable cwd (dir.join ⟨n⟩) = false) :
    hookIn? t cwd dir n = none := by
  rw [hookIn?, nameIn?, h, Option.map_eq_none_iff, Option.filter_eq_none_iff]
  exact fun _ _ => Bool.false_ne_true

theorem hookIn?_of_unnamed (h : (Utf8.decode? n).bind Hook.logicalName? = none) :
    hookIn? t cwd dir n = none := by
  rw [hookIn?, nameIn?, h]
  rfl

theorem hookIn?_of_named {name : String}
    (h : (Utf8.decode? n).bind Hook.logicalName? = some name)
    (hexec : t.isExecutable cwd (dir.join ⟨n⟩) = true) :
    hookIn? t cwd dir n = some ⟨name, dir.join ⟨n⟩⟩ := by
  rw [hookIn?, nameIn?, h, hexec]
  rfl

theorem runsOn_isExecutable {b : Bool}
    (hown : ∀ l x, t.find cwd path = .ok (l, x) → x = e)
    (h : RunsOn (FileTree.responder cwd) (isExecutable path e) t es b t') :
    t' = t ∧ b = t.isExecutable cwd path := by
  rw [isExecutable] at h
  rw [FileTree.isExecutable]
  split at h
  · next hfile =>
      obtain ⟨status, rest, t₁, rfl, hstep, hend⟩ := h.after_backend
      cases hstep
      rw [FileTree.status_eq] at hend
      cases hfind : t.find cwd path with
      | error f =>
          rw [hfind] at hend
          obtain ⟨rfl, rfl, rfl⟩ := runsOn_pure.1 hend
          exact ⟨rfl, rfl⟩
      | ok found =>
          rw [hfind] at hend
          obtain ⟨rfl, rfl, rfl⟩ := runsOn_pure.1 hend
          obtain rfl := hown _ _ hfind
          exact ⟨rfl, by simp [hfile]⟩
  · next hfile =>
      obtain ⟨-, rfl, rfl⟩ := runsOn_pure.1 h
      refine ⟨rfl, ?_⟩
      cases hfind : FileTree.find _ cwd path with
      | error f => rfl
      | ok found =>
          obtain rfl := hown _ _ hfind
          simp [hfile]

/-- What is followed is what the path leads to. What is not followed is no executable file. -/
theorem runsOn_follow {followed : Except WalkFault Entry}
    (hown : (∀ target, e ≠ .link target) → ∀ l x, t.find cwd path = .ok (l, x) → x = e)
    (h : RunsOn (FileTree.responder cwd) (follow dir path home e) t es followed t') :
    t' = t ∧ (∀ fault, followed = .error fault → t.isExecutable cwd path = false) ∧
      ∀ entry, followed = .ok entry → ∀ l x, t.find cwd path = .ok (l, x) → x = entry := by
  match e with
  | .directory | .file .. =>
      obtain ⟨-, rfl, rfl⟩ := runsOn_pure.1 h
      exact ⟨rfl, nofun, fun entry heq => Except.ok.inj heq ▸ hown nofun⟩
  | .link target =>
      obtain ⟨status, rest, t₁, rfl, hstep, hend⟩ := h.after_backend
      cases hstep
      rw [FileTree.status_eq] at hend
      rw [FileTree.isExecutable]
      cases hfind : t.find cwd path with
      | error f =>
          rw [hfind] at hend
          obtain ⟨-, rfl, rfl⟩ := runsOn_pure.1 hend
          exact ⟨rfl, fun _ _ => rfl, nofun⟩
      | ok found =>
          rw [hfind] at hend
          simp only [Except.map] at hend
          split at hend
          · next hloop =>
              obtain ⟨-, rfl, rfl⟩ := runsOn_pure.1 hend
              match found, hloop.1 with
              | (_, .directory), _ => exact ⟨rfl, fun _ _ => rfl, nofun⟩
          · obtain ⟨-, rfl, rfl⟩ := runsOn_pure.1 hend
            refine ⟨rfl, nofun, fun entry hentry l x heq => ?_⟩
            cases hentry
            cases heq
            rfl

theorem runsOn_candidate {hook : Option Hook} (hown : t.Owns cwd dir (n, e))
    (h : RunsOn (FileTree.responder cwd) (candidate dir home n e) t es hook t') :
    t' = t ∧ hook = hookIn? t cwd dir n := by
  obtain ⟨es₁, es₂, followed, t₁, rfl, hfollow, h₁⟩ := runsOn_bind.1 h
  obtain ⟨rfl, hfault, hentry⟩ := runsOn_follow hown hfollow
  match followed with
  | .error fault =>
      obtain ⟨rest, rfl, hend⟩ := h₁.after_log
      obtain ⟨-, rfl, rfl⟩ := runsOn_pure.1 hend
      exact ⟨rfl, (hookIn?_eq_none (hfault fault rfl)).symm⟩
  | .ok entry =>
      dsimp only at h₁
      cases hname : (Utf8.decode? n).bind Hook.logicalName? with
      | none =>
          rw [hname] at h₁
          obtain ⟨-, rfl, rfl⟩ := runsOn_pure.1 h₁
          exact ⟨rfl, (hookIn?_of_unnamed hname).symm⟩
      | some name =>
          rw [hname] at h₁
          obtain ⟨es₂, es₃, runnable, t₂, rfl, hrunnable, h₂⟩ := runsOn_bind.1 h₁
          obtain ⟨rfl, rfl⟩ := runsOn_isExecutable (hentry entry rfl) hrunnable
          split at h₂
          · next hexec =>
              obtain ⟨-, rfl, rfl⟩ := runsOn_pure.1 h₂
              exact ⟨rfl, (hookIn?_of_named hname hexec).symm⟩
          · next hexec =>
              obtain ⟨rest, rfl, hend⟩ := h₂.after_log
              obtain ⟨-, rfl, rfl⟩ := runsOn_pure.1 hend
              exact ⟨rfl, (hookIn?_eq_none (Bool.not_eq_true _ ▸ hexec)).symm⟩

/-- Every entry is judged by itself. -/
theorem runsOn_candidates {entries : List (Bytes × Entry)} {hooks : List Hook}
    (hown : ∀ x ∈ entries, t.Owns cwd dir x)
    (h : RunsOn (FileTree.responder cwd) (candidates dir home entries) t es hooks t') :
    t' = t ∧ hooks = entries.filterMap fun x => hookIn? t cwd dir x.1 := by
  induction entries generalizing es hooks with
  | nil =>
      obtain ⟨rfl, rfl, rfl⟩ := runsOn_pure.1 h
      exact ⟨rfl, rfl⟩
  | cons x rest ih =>
      obtain ⟨n, e⟩ := x
      obtain ⟨hfirst, hothers⟩ := List.forall_mem_cons.1 hown
      obtain ⟨es₁, es₂, hook, t₁, rfl, hcandidate, h₁⟩ := runsOn_bind.1 h
      obtain ⟨rfl, rfl⟩ := runsOn_candidate hfirst hcandidate
      obtain ⟨es₂, es₃, others, t₂, rfl, hrest, hend⟩ := runsOn_bind.1 h₁
      obtain ⟨-, rfl, rfl⟩ := runsOn_pure.1 hend
      obtain ⟨rfl, rfl⟩ := ih hothers hrest
      refine ⟨rfl, ?_⟩
      rw [List.filterMap_cons]
      dsimp only
      cases hookIn? _ cwd dir n <;> rfl

end HookSearch

namespace HookRegistry

open HookSearch

variable {t t' : FileTree} {cwd home : Location} {dir : Path}
  {es : List (Event (Actions FileSystem))} {result : Except WalkFault HookRegistry}

theorem runsOn_found {hooks : List Hook}
    (h : RunsOn (FileTree.responder cwd) (found dir hooks) t es result t') :
    t' = t ∧ result = .ok ⟨dir, hooks⟩ := by
  obtain ⟨rest, rfl, hend⟩ := h.after_log
  obtain ⟨-, rfl, rfl⟩ := runsOn_pure.1 hend
  exact ⟨rfl, rfl⟩

/-- What there is to be found in a tree. -/
def discoveredIn (t : FileTree) (cwd : Location) (dir : Path) : Except WalkFault HookRegistry :=
  match t.find cwd dir with
  | .error source => .error (.io dir source)
  | .ok (home, .directory) => .ok ⟨dir, (t.children home).filterMap fun x => hookIn? t cwd dir x.1⟩
  | .ok _ => .ok ⟨dir, []⟩

theorem runsOn_discover (ht : t.IsNamed)
    (h : RunsOn (FileTree.responder cwd) (discover dir) t es result t') :
    t' = t ∧ result = discoveredIn t cwd dir := by
  rw [discoveredIn]
  obtain ⟨linked, rest, t₁, rfl, hstep, h₁⟩ := h.after_backend
  cases hstep
  cases hlink : t.status cwd false dir with
  | error f =>
      rw [hlink] at h₁
      obtain ⟨-, rfl, rfl⟩ := runsOn_pure.1 h₁
      exact ⟨rfl, by rw [FileTree.find_of_status hlink]⟩
  | ok _ =>
      rw [hlink] at h₁
      obtain ⟨status, rest, t₁, rfl, hstep, h₂⟩ := h₁.after_backend
      cases hstep
      rw [FileTree.status_eq] at h₂
      cases hfind : t.find cwd dir with
      | error f =>
          rw [hfind] at h₂
          obtain ⟨-, rfl, rfl⟩ := runsOn_pure.1 h₂
          exact ⟨rfl, rfl⟩
      | ok found =>
          rw [hfind] at h₂
          match found with
          | (_, .file ..) | (_, .link _) => exact runsOn_found h₂
          | (home, .directory) =>
              obtain ⟨listed, rest, t₁, rfl, hstep, h₃⟩ := h₂.after_backend
              have hlisted : t.perform cwd (.list dir) = (.ok (t.children home), t) := by
                rw [FileTree.perform, FileTree.list, hfind]
                rfl
              cases hlisted.symm.trans hstep
              obtain ⟨es₁, es₂, hooks, t₁, rfl, hcandidates, hend⟩ := runsOn_bind.1 h₃
              obtain ⟨rfl, rfl⟩ := runsOn_candidates (FileTree.own_of_find ht hfind) hcandidates
              exact runsOn_found hend

/-- The files of a directory that are hooks, with their logical names. -/
def filesIn (t : FileTree) (cwd : Location) (dir : Path) (home : Location) : List (Bytes × String) :=
  (t.children home).filterMap fun x => (nameIn? t cwd dir x.1).map fun name => (x.1, name)

/-- The hook that a file with a logical name is. -/
def hookOf (dir : Path) (file : Bytes × String) : Hook := ⟨file.2, dir.join ⟨file.1⟩⟩

theorem map_filesIn : (filesIn t cwd dir home).map (hookOf dir) =
    (t.children home).filterMap fun x => hookIn? t cwd dir x.1 := by
  simp only [filesIn, List.map_filterMap, Option.map_map]
  rfl

theorem filesIn_ordered (t : FileTree) (cwd : Location) (dir : Path) (home : Location) :
    (filesIn t cwd dir home).Pairwise fun a b => a.1 < b.1 := by
  refine (t.children_ordered home).filterMap _ fun x y hlt a ha b hb => ?_
  obtain ⟨name, -, rfl⟩ := Option.map_eq_some_iff.1 ha
  obtain ⟨name', -, rfl⟩ := Option.map_eq_some_iff.1 hb
  exact hlt

theorem mem_filesIn {n : Bytes} {name : String} : (n, name) ∈ filesIn t cwd dir home ↔
    (∃ e, t.get? (home ++ [n]) = some e) ∧ nameIn? t cwd dir n = some name := by
  constructor
  · intro h
    obtain ⟨⟨n', e⟩, hmem, hname⟩ := List.mem_filterMap.1 h
    obtain ⟨name', hname', heq⟩ := Option.map_eq_some_iff.1 hname
    cases heq
    exact ⟨⟨e, FileTree.mem_children.1 hmem⟩, hname'⟩
  · rintro ⟨⟨e, hget⟩, hname⟩
    exact List.mem_filterMap.2 ⟨(n, e), FileTree.mem_children.2 hget, by rw [hname]; rfl⟩

/-- A file of a directory is a hook just if it has the name of one, its path is not too long and what
it leads to may be executed. -/
theorem mem_filesIn_iff (ht : t.IsNamed) {left : Nat} (hdir : FileTree.checkPath dir = .ok ())
    (hleft : t.Continues cwd dir home left) (n : Bytes) (name : String) :
    (n, name) ∈ filesIn t cwd dir home ↔
      (∃ e, t.get? (home ++ [n]) = some e) ∧
      (name ≠ "" ∧ '.' ∉ name.toList ∧ Hook.IsVariant n name) ∧
      (dir.join ⟨n⟩).bytes.length ≤ FileTree.maxPath ∧ t.Runnable left home n := by
  rw [mem_filesIn]
  refine and_congr_right fun ⟨e, hget⟩ => ?_
  obtain ⟨hn, hzero, -⟩ := ht home n e hget
  rw [nameIn?, Option.filter_eq_some_iff, Hook.bind_logicalName?_eq_some,
    FileTree.isExecutable_join hleft hn, FileTree.checkPath_join hn hzero hdir]

/-- Whatever a tree holds, a path that leads to a directory gives the hooks in it: the entries with
the name of a hook that, links followed, are files that somebody may execute, unless the path to such
an entry is longer than the system takes. They are listed in byte order of the file names, each
once, and every other entry is passed over. A path that leads to something else has no hooks, and
one that leads nowhere is an error. -/
theorem discover_finds (ht : t.IsNamed) (cwd : Location) (dir : Path) :
    Ensures (FileTree.responder cwd) (discover dir) t fun _ result t' => t' = t ∧
      (∀ source, t.find cwd dir = .error source → result = .error (.io dir source)) ∧
      (∀ loc e, t.find cwd dir = .ok (loc, e) → e.isDirectory = false → result = .ok ⟨dir, []⟩) ∧
      ∀ home, t.find cwd dir = .ok (home, .directory) →
        ∃ left ≤ FileTree.maxLinks, t.Continues cwd dir home left ∧
          ∃ files : List (Bytes × String), ∃ reg : HookRegistry,
            result = .ok reg ∧ reg.dir = dir ∧ reg.hooks = files.map (hookOf dir) ∧
            files.Pairwise (fun a b => a.1 < b.1) ∧
            (∀ n name, (n, name) ∈ files ↔
              (∃ e, t.get? (home ++ [n]) = some e) ∧
              (name ≠ "" ∧ '.' ∉ name.toList ∧ Hook.IsVariant n name) ∧
              (dir.join ⟨n⟩).bytes.length ≤ FileTree.maxPath ∧ t.Runnable left home n) ∧
            reg.names = (files.map (·.2)).eraseDups ∧
            ∀ name, '.' ∉ name.toList → ∀ file ∈ files,
              (file.2 = name ↔ Hook.IsVariant file.1 name) := by
  refine ⟨FileTree.exists_runsOn _ t cwd, fun es result t' h => ?_⟩
  obtain ⟨rfl, rfl⟩ := runsOn_discover ht h
  refine ⟨rfl, fun source hfind => ?_, fun loc e hfind hother => ?_, fun home hfind => ?_⟩
  · rw [discoveredIn, hfind]
  · rw [discoveredIn, hfind]
    match e, hother with
    | .file .., _ | .link _, _ => rfl
  · obtain ⟨left, hle, hleft⟩ := FileTree.continues_of_find hfind
    have hmem := mem_filesIn_iff ht (FileTree.find_eq_ok.1 hfind).1 hleft
    refine ⟨left, hle, hleft, filesIn _ cwd dir home, ⟨dir, _⟩, ?_, rfl, rfl,
      filesIn_ordered _ cwd dir home, hmem, ?_, fun name hdot file hfile => ?_⟩
    · rw [discoveredIn, hfind, map_filesIn]
    · rw [names_eq, List.map_map]
      rfl
    · obtain ⟨-, ⟨-, hdot', hvariant⟩, -⟩ := (hmem file.1 file.2).1 hfile
      exact ⟨fun heq => heq ▸ hvariant, fun h => hvariant.unique h hdot' hdot⟩

/-- A directory of hooks, a link to it, and a link in it. -/
def linkedTree : FileTree :=
  let hooks := Utf8.encode "hooks"
  (FileTree.empty.put [hooks] .directory)
    |>.put [hooks, Utf8.encode "trace_a-b"] (.file [] 0o755)
    |>.put [hooks, Utf8.encode "trace_a.b"] (.file [] 0o711)
    |>.put [hooks, Utf8.encode "trace_loop"] (.link "trace_loop")
    |>.put [hooks, Utf8.encode "trace_read"] (.file [] 0o644)
    |>.put [Utf8.encode "link"] (.link "hooks")

/-- Behind the link there are two hooks, of which the one with the shorter name comes second. -/
theorem discover_finds_linked : linkedTree.IsNamed ∧ ∃ es reg,
    RunsOn (FileTree.responder []) (discover "/link") linkedTree es (.ok reg) linkedTree ∧
      ∃ files : List (Bytes × String), reg.hooks = files.map (hookOf "/link") ∧
        files.Pairwise (fun a b => a.1 < b.1) ∧
        (Utf8.encode "trace_a-b", "a-b") ∈ files ∧ (Utf8.encode "trace_a.b", "a") ∈ files ∧
        (Utf8.encode "trace_read", "read") ∉ files := by
  have hnamed : linkedTree.IsNamed := FileTree.isNamed_of_entries (by decide)
  have hfind : linkedTree.find [] "/link" = .ok ([Utf8.encode "hooks"], .directory) := by cbv
  obtain ⟨⟨es, result, t', hrun⟩, hall⟩ := discover_finds hnamed [] "/link"
  obtain ⟨rfl, -, -, hdir⟩ := hall es result t' hrun
  obtain ⟨left, -, -, files, reg, rfl, -, hhooks, hordered, hmem, -⟩ := hdir _ hfind
  -- no link is followed at the end, so it does not matter how many may be
  have hleads : ∀ n content mode,
      linkedTree.get? [Utf8.encode "hooks", n] = some (.file content mode) →
        linkedTree.walk true left [Utf8.encode "hooks"] [n] =
          .ok (.present [Utf8.encode "hooks", n] (.file content mode)) := fun n content mode hget =>
    FileTree.walk_name (hnamed [_] n _ hget).1 (hnamed [_] n _ hget).2.2 hget (by simp)
  refine ⟨hnamed, es, reg, hrun, files, hhooks, hordered, (hmem _ _).2 ?_, (hmem _ _).2 ?_,
    fun hread => ?_⟩
  · exact ⟨⟨.file [] 0o755, by decide⟩, ⟨by decide, by decide, .inl (by decide)⟩, by decide,
      _, _, _, hleads _ [] 0o755 (by decide), by decide⟩
  · exact ⟨⟨.file [] 0o711, by decide⟩, ⟨by decide, by decide, .inr ⟨"b", by decide⟩⟩, by decide,
      _, _, _, hleads _ [] 0o711 (by decide), by decide⟩
  · obtain ⟨-, -, -, l, content, mode, hwalk, hmode⟩ := (hmem _ _).1 hread
    rw [hleads _ [] 0o644 (by decide)] at hwalk
    cases hwalk
    exact absurd hmode (by decide)

/-- A directory with one hook. -/
def oneHookTree : FileTree :=
  let hooks := Utf8.encode "hooks"
  (FileTree.empty.put [hooks] .directory).put [hooks, Utf8.encode "trace_x"] (.file [] 0o755)

/-- A file that may be executed is no hook where the path to it is longer than the system takes,
although the directory can be listed. -/
theorem discover_longPath :
    let dir := (⟨List.replicate 4087 Path.separator⟩ : Path).join "hooks"
    oneHookTree.IsNamed ∧ oneHookTree.find [] dir = .ok ([Utf8.encode "hooks"], .directory) ∧
      oneHookTree.get? [Utf8.encode "hooks", Utf8.encode "trace_x"] = some (.file [] 0o755) ∧
      Hook.IsVariant (Utf8.encode "trace_x") "x" ∧
      ∃ es, RunsOn (FileTree.responder []) (discover dir) oneHookTree es (.ok ⟨dir, []⟩)
        oneHookTree := by
  intro dir
  have hnamed : oneHookTree.IsNamed := FileTree.isNamed_of_entries (by decide)
  have hroot : oneHookTree.Continues [] ⟨List.replicate 4087 Path.separator⟩ []
      FileTree.maxLinks := fun more => by
    rw [Path.names_separators, List.nil_append]
    rfl
  have hfind : oneHookTree.find [] dir = .ok ([Utf8.encode "hooks"], .directory) :=
    (hroot.find_join (by decide)).2 ⟨by decide +kernel,
      FileTree.walk_name (by decide) (by decide) (by decide) nofun⟩
  have hlong : FileTree.checkPath (dir.join ⟨Utf8.encode "trace_x"⟩) = .error (.os .nameTooLong) := by
    decide +kernel
  clear_value dir
  have hnone : hookIn? oneHookTree [] dir (Utf8.encode "trace_x") = none := hookIn?_eq_none <| by
    rw [FileTree.isExecutable, FileTree.find, FileTree.resolve, hlong]
    rfl
  obtain ⟨es, result, t', hrun⟩ := FileTree.exists_runsOn (discover dir) oneHookTree []
  obtain ⟨rfl, rfl⟩ := runsOn_discover hnamed hrun
  refine ⟨hnamed, hfind, by decide, .inl (by decide), es, ?_⟩
  have hempty : discoveredIn oneHookTree [] dir = .ok ⟨dir, []⟩ := by
    have hchildren : oneHookTree.children [Utf8.encode "hooks"] =
        [(Utf8.encode "trace_x", .file [] 0o755)] := by decide
    rw [discoveredIn, hfind]
    dsimp only
    rw [hchildren, List.filterMap_cons]
    dsimp only
    rw [hnone, List.filterMap_nil]
  rwa [hempty] at hrun

end HookRegistry

end KernelTrace
