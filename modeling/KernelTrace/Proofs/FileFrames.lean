import KernelTrace.Proofs.ControlFilesSteps
import KernelTrace.Proofs.PlainTrees

/-!
# What an operation on files leaves alone

An operation changes what is at the end of its path and nothing else, and most operations change
nothing. In a tree without links the end of a path does not depend on the tree: it is got by going
along the names (`FileTree.place`). So of a list of operations, however many and whatever they are
answered, it is known in advance which locations they can change.
-/

namespace KernelTrace

open Actions
open Program (Event)

/-- The path that an operation makes, removes or writes. -/
def FileOp.changed? : FileOp → Option Path
  | .makeDir p | .removeDir p | .overwrite p _ => some p
  | .read _ | .readIn .. | .list _ | .status _ | .linkStatus _ => none

variable {cwd loc : Location} {t t' : FileTree} {es fs : List (Event (Actions FileSystem))}

theorem FileTree.perform_of_changed?_eq_none {op : FileOp} (h : op.changed? = none) :
    (t.perform cwd op).2 = t := by
  cases op with
  | makeDir | removeDir | overwrite => cases h
  | _ => rfl

/-! ## Reading -/

/-- Nothing has been made, removed or written. -/
def Reads (es : List (Event (Actions FileSystem))) : Prop := ∀ e ∈ calls es, e.1.changed? = none

theorem Reads.append (h : Reads es) (h' : Reads fs) : Reads (es ++ fs) := by
  intro e he
  rw [calls_append] at he
  exact (List.mem_append.1 he).elim (h e) (h' e)

theorem reads_of_calls (h : calls es = []) : Reads es := fun e he => by
  rw [h] at he
  cases he

theorem same_of_reads (h : (FileTree.responder cwd).Serves t (calls es) t') (hreads : Reads es) :
    t' = t := by
  refine h.invariant (P := fun u => u = t) (Q := fun e : Event FileSystem => e.1.changed? = none) ?_
    hreads rfl
  rintro u v e hreads hstep rfl
  exact (congrArg Prod.snd hstep).symm.trans (FileTree.perform_of_changed?_eq_none hreads)

/-! ## Where a path leads -/

namespace FileTree

/-- The location one name further. -/
def follow (loc : Location) (n : Bytes) : Location :=
  if n = Path.dot then loc else if n = Path.dotDot then loc.dropLast else loc ++ [n]

/-- Where a path leads if there are no links. -/
def place (cwd : Location) (p : Path) : Location := p.names.foldl follow (startOf cwd p)

theorem follow_of_isName {n : Bytes} (h : Path.IsName n) (loc : Location) :
    follow loc n = loc ++ [n] := by
  rw [follow, if_neg h.2.2.1, if_neg h.2.2.2]

theorem place_join {n : Bytes} (h : Path.IsName n) (q : Path) (cwd : Location) :
    place cwd (q.join ⟨n⟩) = place cwd q ++ [n] := by
  rw [place, place, startOf_join h.isAbsolute, Path.names_join h, List.foldl_append,
    List.foldl_cons, List.foldl_nil, follow_of_isName h]

theorem place_joinNames {names : List Bytes} (h : ∀ n ∈ names, Path.IsName n) (q : Path)
    (cwd : Location) : place cwd (q.joinNames names) = place cwd q ++ names := by
  induction names generalizing q with
  | nil => exact (List.append_nil _).symm
  | cons n rest ih =>
      rw [List.append_cons, ← place_join (h n List.mem_cons_self)]
      exact ih (fun m hm => h m (List.mem_cons_of_mem n hm)) _

/-- Nothing is below two names of one directory. -/
theorem eq_of_prefix_place {m n : Bytes} (hm : Path.IsName m) (hn : Path.IsName n) {dir : Path}
    {cwd loc : Location} (h : place cwd (dir.join ⟨m⟩) <+: loc)
    (h' : place cwd (dir.join ⟨n⟩) <+: loc) : m = n := by
  rw [place_join hm] at h
  rw [place_join hn] at h'
  have heq := (List.prefix_of_prefix_length_le h h' (by simp)).eq_of_length (by simp)
  exact List.singleton_inj.1 (List.append_cancel_left heq)

theorem prefix_place {dir p : Path} (h : dir.IsAbove p) (cwd : Location) :
    place cwd dir <+: place cwd p := by
  obtain ⟨names, hnames, rfl⟩ := h
  rw [place_joinNames hnames]
  exact List.prefix_append _ _

theorem walk_follow (ht : t.NoLinks) {followLast : Bool} {links : Nat} {names : List Bytes}
    {l : Location} {e : Entry} (h : t.walk followLast links loc names = .ok (.present l e)) :
    l = names.foldl follow loc := by
  fun_induction walk t followLast links loc names with
  | case1 =>
      cases h
      rfl
  | case2 links loc rest ih =>
      rw [List.foldl_cons, follow, if_pos rfl]
      exact ih h
  | case3 links loc rest hdot ih =>
      rw [List.foldl_cons, follow, if_neg hdot, if_pos rfl]
      exact ih h
  | case7 links loc n rest hdot hup hlong hget ih =>
      rw [List.foldl_cons, follow, if_neg hdot, if_neg hup]
      exact ih h
  | case8 links loc n hdot hup =>
      cases h
      rw [List.foldl_cons, List.foldl_nil, follow, if_neg hdot, if_neg hup]
  | case10 links loc n rest hdot hup hlong target hget hend => exact absurd hget (ht _ _)
  | case12 loc n rest hdot hup hlong target hget hend left ih => exact absurd hget (ht _ _)
  | case4 | case5 | case6 | case9 | case11 => cases h

theorem eq_place_of_find (ht : t.NoLinks) {p : Path} {e : Entry}
    (h : t.find cwd p = .ok (loc, e)) : loc = place cwd p := by
  have hloc := walk_follow ht (walk_of_find h)
  obtain heq | heq := p.steps_eq
  · rw [heq] at hloc
    exact hloc
  · rw [heq, List.foldl_append, List.foldl_cons, List.foldl_nil, follow, if_pos rfl] at hloc
    exact hloc

theorem resolveParent_eq_ok {p : Path} {n : Bytes}
    (h : t.resolveParent cwd p = .ok (loc, .name n)) :
    checkPath p = .ok () ∧ n ≠ Path.dot ∧ n ≠ Path.dotDot ∧ ∃ init e, p.names = init ++ [n] ∧
      t.walk true maxLinks (startOf cwd p) (init ++ [Path.dot]) = .ok (.present loc e) := by
  rw [resolveParent] at h
  cases hcheck : checkPath p with
  | error e =>
      rw [hcheck] at h
      cases h
  | ok _ =>
      rw [hcheck] at h
      simp only [bind, Except.bind] at h
      rw [← Path.names] at h
      cases hlast : p.names.getLast? with
      | none =>
          rw [hlast] at h
          cases h
      | some last =>
          rw [hlast] at h
          obtain ⟨init, hnames⟩ := List.getLast?_eq_some_iff.1 hlast
          rw [hnames, List.dropLast_concat] at h
          cases hwalk : t.walk true maxLinks (startOf cwd p) (init ++ [Path.dot]) with
          | error e =>
              rw [hwalk] at h
              cases h
          | ok found =>
              rw [hwalk] at h
              cases found with
              | vacant => cases h
              | present l e =>
                  change (if last = Path.dot then _ else _) = _ at h
                  split at h
                  · cases h
                  split at h
                  · cases h
                  split at h
                  · cases h
                  · next hdot hup _ =>
                      cases h
                      exact ⟨rfl, hdot, hup, init, e, hnames, hwalk⟩

theorem eq_place_of_resolveParent (ht : t.NoLinks) {p : Path} {n : Bytes}
    (h : t.resolveParent cwd p = .ok (loc, .name n)) : loc ++ [n] = place cwd p := by
  obtain ⟨-, hdot, hup, init, e, hnames, hwalk⟩ := resolveParent_eq_ok h
  have hloc := walk_follow ht hwalk
  rw [List.foldl_append, List.foldl_cons, List.foldl_nil, follow, if_pos rfl] at hloc
  rw [place, hnames, List.foldl_append, List.foldl_cons, List.foldl_nil, ← hloc, follow,
    if_neg hdot, if_neg hup]

theorem makeDir_eq_ok {p : Path} (h : t.makeDir cwd p = .ok t') :
    ∃ dir n, t.resolveParent cwd p = .ok (dir, .name n) ∧ t' = t.put (dir ++ [n]) .directory := by
  rw [makeDir] at h
  cases hparent : t.resolveParent cwd p with
  | error e =>
      rw [hparent] at h
      cases h
  | ok found =>
      rw [hparent] at h
      obtain ⟨dir, last⟩ := found
      cases last with
      | name n =>
          simp only [bind, Except.bind] at h
          split at h
          · cases h
          · cases h
            exact ⟨dir, n, rfl, rfl⟩
      | root | here | up => cases h

theorem removeDir_eq_ok {p : Path} (h : t.removeDir cwd p = .ok t') :
    ∃ dir n, t.resolveParent cwd p = .ok (dir, .name n) ∧
      t.get? (dir ++ [n]) = some .directory ∧ t.children (dir ++ [n]) = [] ∧
      t' = t.erase (dir ++ [n]) := by
  rw [removeDir] at h
  cases hparent : t.resolveParent cwd p with
  | error e =>
      rw [hparent] at h
      cases h
  | ok found =>
      rw [hparent] at h
      obtain ⟨dir, last⟩ := found
      cases last with
      | name n =>
          simp only [bind, Except.bind] at h
          split at h
          · cases h
          · next hdir =>
              split at h
              · next hempty =>
                  cases h
                  exact ⟨dir, n, rfl, hdir, hempty, rfl⟩
              · cases h
          · cases h
      | root | here | up => cases h

theorem SameShape.noLinks (h : SameShape t t') (ht : t.NoLinks) : t'.NoLinks := by
  intro loc target hlink
  obtain heq | ⟨_, _, _, -, hfile⟩ := h.get? loc
  · exact ht loc target (heq ▸ hlink)
  · rw [hfile] at hlink
    cases hlink

/-- An operation makes no link, and changes nothing but what is at the end of its path. -/
theorem perform_frame (ht : t.NoLinks) (cwd : Location) (op : FileOp) :
    (t.perform cwd op).2.NoLinks ∧ ∀ loc, (∀ p, op.changed? = some p → loc ≠ place cwd p) →
      (t.perform cwd op).2.get? loc = t.get? loc := by
  cases op with
  | makeDir p =>
      rw [perform]
      cases hmake : t.makeDir cwd p with
      | error e => exact ⟨ht, fun _ _ => rfl⟩
      | ok made =>
          obtain ⟨dir, n, hparent, rfl⟩ := makeDir_eq_ok hmake
          refine ⟨noLinks_put ht _, fun loc hloc => ?_⟩
          rw [attempt, get?_put t loc _ (by simp), if_neg]
          rw [eq_place_of_resolveParent ht hparent]
          exact hloc p rfl
  | removeDir p =>
      rw [perform]
      cases hremove : t.removeDir cwd p with
      | error e => exact ⟨ht, fun _ _ => rfl⟩
      | ok removed =>
          obtain ⟨dir, n, hparent, -, -, rfl⟩ := removeDir_eq_ok hremove
          have hne : dir ++ [n] ≠ [] := by simp
          have hget := fun loc => get?_erase t loc hne
          refine ⟨fun loc target hlink => ?_, fun loc hloc => ?_⟩
          · rw [attempt, hget] at hlink
            split at hlink
            · cases hlink
            · exact ht _ _ hlink
          · rw [attempt, hget, if_neg]
            rw [eq_place_of_resolveParent ht hparent]
            exact hloc p rfl
  | overwrite p content =>
      obtain ⟨loc, t', hat, hperform, hfilled⟩ | ⟨e, -, hperform⟩ :=
        t.perform_overwrite cwd p content
      · obtain ⟨_, _, hfind⟩ := fileAt_eq_ok.1 hat
        rw [hperform]
        refine ⟨hfilled.sameShape.noLinks ht, fun loc' hloc => hfilled.outside loc' ?_⟩
        rw [List.mem_singleton, eq_place_of_find ht hfind]
        exact hloc p rfl
      · rw [hperform]
        exact ⟨ht, fun _ _ => rfl⟩
  | _ => exact ⟨ht, fun _ _ => rfl⟩

/-- A list of operations changes nothing but what is at the ends of their paths. -/
theorem serves_frame {fs : List (Event FileSystem)} (ht : t.NoLinks)
    (h : (responder cwd).Serves t fs t')
    (hloc : ∀ e ∈ fs, ∀ p, e.1.changed? = some p → loc ≠ place cwd p) :
    t'.get? loc = t.get? loc := by
  induction h with
  | nil => rfl
  | @cons t u t' op a fs step _ ih =>
      have hu : (t.perform cwd op).2 = u := congrArg Prod.snd step
      obtain ⟨hlinks, hframe⟩ := perform_frame ht cwd op
      rw [hu] at hlinks hframe
      rw [ih hlinks fun e he => hloc e (List.mem_cons_of_mem _ he),
        hframe loc (hloc _ List.mem_cons_self)]

end FileTree

end KernelTrace
