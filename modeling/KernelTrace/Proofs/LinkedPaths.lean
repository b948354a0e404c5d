import KernelTrace.Proofs.PlainTrees

/-!
# Paths through links

Where a tree has links, the names of a path do not say where it leads, and a walk can end in other
ways than by coming upon nothing: it may follow one link too many, or have been refused for its
length before it began. What is still true is that a walk that gets to a directory can be taken up
again there. It has followed some of the links that it may follow, so what comes after is looked up
with those that are left (`walk_append`).
-/

namespace KernelTrace

namespace FileTree

variable {t : FileTree} {cwd loc l : Location} {links : Nat} {names : List Bytes} {n : Bytes}
  {e : Entry} {q p : Path}

/-! ## Walks -/

/-- What follows the names of a directory is looked up in it. -/
theorem walk_append (h : t.walk true links loc names = .ok (.present l .directory)) :
    ∃ left ≤ links, ∀ more,
      t.walk true links loc (names ++ more) = t.walk true left l more := by
  fun_induction walk t true links loc names with
  | case1 links loc =>
      cases h
      exact ⟨links, Nat.le_refl links, fun _ => rfl⟩
  | case2 links loc rest ih =>
      simp only [List.cons_append, walk.eq_2, if_true]
      exact ih h
  | case3 links loc rest hdot ih =>
      simp only [List.cons_append, walk.eq_2 t true links loc, if_neg hdot, if_true]
      exact ih h
  | case7 links loc n rest hdot hup hlong hget ih =>
      simp only [List.cons_append, walk.eq_2 t true links loc, if_neg hdot, if_neg hup,
        if_neg hlong, hget]
      exact ih h
  | case12 loc n rest hdot hup hlong target hget hend left ih =>
      simp only [dite_eq_ite] at ih
      obtain ⟨left', hle, hmore⟩ := ih h
      refine ⟨left', Nat.le_succ_of_le hle, fun more => ?_⟩
      rw [List.cons_append, walk.eq_2, if_neg hdot, if_neg hup, if_neg hlong, hget,
        ← hmore, List.append_assoc]
      simp
  | case10 links loc n rest hdot hup hlong target hget hend => cases hend.2
  | case4 | case5 | case6 | case8 | case9 | case11 => cases h

/-- A dot at the end asks for a directory and changes nothing else. -/
theorem walk_concat_dot {links : Nat} {names : List Bytes} {e : Entry} :
    t.walk true links loc (names ++ [Path.dot]) = .ok (.present l e) ↔
      e = .directory ∧ t.walk true links loc names = .ok (.present l .directory) := by
  fun_induction walk t true links loc names with
  | case1 links loc =>
      rw [List.nil_append, walk_dot]
      constructor
      · rintro ⟨⟩
        exact ⟨rfl, rfl⟩
      · rintro ⟨rfl, h⟩
        exact h
  | case2 links loc rest ih =>
      rw [List.cons_append, walk.eq_2, if_pos rfl]
      exact ih
  | case3 links loc rest hdot ih =>
      rw [List.cons_append, walk.eq_2, if_neg hdot, if_pos rfl]
      exact ih
  | case4 links loc n rest hdot hup hlong =>
      rw [List.cons_append, walk.eq_2, if_neg hdot, if_neg hup, if_pos hlong]
      simp
  | case5 links loc n hdot hup hlong hget | case6 links loc n rest hdot hup hlong hget hrest =>
      rw [List.cons_append, walk.eq_2, if_neg hdot, if_neg hup, if_neg hlong, hget]
      simp
  | case7 links loc n rest hdot hup hlong hget ih =>
      rw [List.cons_append, walk.eq_2, if_neg hdot, if_neg hup, if_neg hlong, hget]
      exact ih
  | case8 links loc n hdot hup hlong content mode hget
  | case9 links loc n rest hdot hup hlong content mode hget hrest =>
      rw [List.cons_append, walk.eq_2, if_neg hdot, if_neg hup, if_neg hlong, hget]
      simp
  | case10 links loc n rest hdot hup hlong target hget hend => cases hend.2
  | case11 loc n rest hdot hup hlong target hget hend =>
      rw [List.cons_append, walk.eq_2, if_neg hdot, if_neg hup, if_neg hlong, hget]
      simp
  | case12 loc n rest hdot hup hlong target hget hend left ih =>
      simp only [dite_eq_ite] at ih
      rw [List.cons_append, walk.eq_2, if_neg hdot, if_neg hup, if_neg hlong, hget]
      rw [List.append_assoc] at ih
      simpa using ih

/-- Not following a link at the end makes a difference only if there is one. -/
theorem walk_unfollowed (t : FileTree) (links : Nat) (loc : Location) (names : List Bytes) :
    (∃ l target, t.walk false links loc names = .ok (.present l (.link target))) ∨
      t.walk false links loc names = t.walk true links loc names := by
  fun_induction walk t false links loc names with
  | case1 links loc => exact .inr (walk_nil ..).symm
  | case2 links loc rest ih =>
      rw [walk.eq_2 t true, if_pos rfl]
      exact ih
  | case3 links loc rest hdot ih =>
      rw [walk.eq_2 t true, if_neg hdot, if_pos rfl]
      exact ih
  | case4 links loc n rest hdot hup hlong =>
      rw [walk.eq_2 t true, if_neg hdot, if_neg hup, if_pos hlong]
      exact .inr rfl
  | case5 links loc n hdot hup hlong hget | case6 links loc n rest hdot hup hlong hget hrest =>
      rw [walk.eq_2 t true, if_neg hdot, if_neg hup, if_neg hlong, hget]
      simp [*]
  | case7 links loc n rest hdot hup hlong hget ih =>
      rw [walk.eq_2 t true, if_neg hdot, if_neg hup, if_neg hlong, hget]
      exact ih
  | case8 links loc n hdot hup hlong content mode hget
  | case9 links loc n rest hdot hup hlong content mode hget hrest =>
      rw [walk.eq_2 t true, if_neg hdot, if_neg hup, if_neg hlong, hget]
      simp [*]
  | case10 links loc n rest hdot hup hlong target hget hend => exact .inl ⟨_, _, rfl⟩
  | case11 loc n rest hdot hup hlong target hget hend =>
      rw [walk.eq_2 t true, if_neg hdot, if_neg hup, if_neg hlong, hget]
      simp
  | case12 loc n rest hdot hup hlong target hget hend left ih =>
      simp only [dite_eq_ite] at ih
      rw [walk.eq_2 t true, if_neg hdot, if_neg hup, if_neg hlong, hget]
      simpa using ih

/-- The only entry that a name does not lead to itself is a link. -/
theorem walk_name (hn : Path.IsName n) (hlen : n.length ≤ maxName)
    (hget : t.get? (loc ++ [n]) = some e) (hlink : ∀ target, e ≠ .link target) :
    t.walk true links loc [n] = .ok (.present (loc ++ [n]) e) := by
  rw [walk.eq_2, if_neg hn.2.2.1, if_neg hn.2.2.2, if_neg (Nat.not_lt.2 hlen), hget]
  cases e with
  | directory => exact walk_nil
  | file content mode => rfl
  | link target => exact absurd rfl (hlink target)

/-! ## Paths -/

theorem find_eq_ok : t.find cwd p = .ok (l, e) ↔
    checkPath p = .ok () ∧ t.walk true maxLinks (startOf cwd p) p.steps = .ok (.present l e) := by
  constructor
  · intro h
    refine ⟨?_, walk_of_find h⟩
    cases hcheck : checkPath p with
    | error f =>
        rw [find, resolve, hcheck] at h
        cases h
    | ok _ => rfl
  · rintro ⟨hcheck, hwalk⟩
    rw [find, resolve, hcheck]
    simp only [bind, Except.bind]
    rw [hwalk]
    rfl

theorem status_eq (t : FileTree) (cwd : Location) (p : Path) :
    t.status cwd true p = (t.find cwd p).map fun x => ⟨x.1, x.2⟩ := by
  rw [status, find]
  cases t.resolve cwd true p with
  | error f => rfl
  | ok found => cases found <;> rfl

/-- What cannot be looked at even without following a link at the end leads nowhere, and for the same
reason. -/
theorem find_of_status {f : IoError} (h : t.status cwd false p = .error f) :
    t.find cwd p = .error f := by
  rw [status, resolve] at h
  rw [find, resolve]
  cases hcheck : checkPath p with
  | error e =>
      rw [hcheck] at h
      cases h
      rfl
  | ok _ =>
      rw [hcheck] at h
      simp only [bind, Except.bind] at h ⊢
      obtain ⟨l, target, hwalk⟩ | hwalk := walk_unfollowed t maxLinks (startOf cwd p) p.steps
      · rw [hwalk] at h
        cases h
      · rw [hwalk] at h
        cases hfound : t.walk true maxLinks (startOf cwd p) p.steps with
        | error e =>
            rw [hfound] at h
            cases h
            rfl
        | ok found =>
            rw [hfound] at h
            cases found <;> cases h
            rfl

/-- `t.Continues cwd q l left`: what follows the path of the directory `l` is looked up in it, with
`left` links that may still be followed. -/
def Continues (t : FileTree) (cwd : Location) (q : Path) (l : Location) (left : Nat) : Prop :=
  ∀ more, t.walk true maxLinks (startOf cwd q) (q.names ++ more) = t.walk true left l more

theorem continues_of_find (h : t.find cwd q = .ok (l, .directory)) :
    ∃ left ≤ maxLinks, t.Continues cwd q l left := by
  have hwalk := walk_of_find h
  obtain heq | heq := q.steps_eq
  · rw [heq] at hwalk
    exact walk_append hwalk
  · rw [heq] at hwalk
    exact walk_append (walk_concat_dot.1 hwalk).2

theorem Continues.find_join {left : Nat} (hq : t.Continues cwd q loc left) (hn : Path.IsName n) :
    t.find cwd (q.join ⟨n⟩) = .ok (l, e) ↔
      checkPath (q.join ⟨n⟩) = .ok () ∧ t.walk true left loc [n] = .ok (.present l e) := by
  rw [find_eq_ok, startOf_join hn.isAbsolute, Path.steps_join hn, hq]

end FileTree

end KernelTrace
