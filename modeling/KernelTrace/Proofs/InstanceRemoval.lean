import KernelTrace.Instances
import KernelTrace.Proofs.FileFrames
import KernelTrace.Proofs.LinkedPaths

/-!
# What removing an instance removes

An instance is removed by its name, and nobody checks the name: what is removed is the directory at
the path that the name makes when it is joined to the directory of the instances. The operation on
files is careful, so this is one empty directory and nothing else, in every tree, links included, or
the tree is left as it was (`destroy_removes`). Where it is depends on the name. One that stands for
a single piece leads to a child of the directory of the instances, for the walk to that child goes
through this directory (`walk_concat_dot`). The empty name leads to the directory of the instances
itself.
-/

namespace KernelTrace

open Program Actions

namespace FileTree

variable {t t' : FileTree} {cwd loc l : Location}

/-- `t.Removes loc t'`: `t'` is `t` without the empty directory at `loc`. -/
structure Removes (t : FileTree) (loc : Location) (t' : FileTree) : Prop where
  directory : t.get? loc = some .directory
  empty : ∀ n, t.get? (loc ++ [n]) = none
  gone : t'.get? loc = none
  others : ∀ loc', loc' ≠ loc → t'.get? loc' = t.get? loc'

theorem removes_of_removeDir {p : Path} (h : t.removeDir cwd p = .ok t') :
    ∃ dir n, t.resolveParent cwd p = .ok (dir, .name n) ∧ t.Removes (dir ++ [n]) t' := by
  obtain ⟨dir, n, hparent, hdir, hempty, rfl⟩ := removeDir_eq_ok h
  have hne : dir ++ [n] ≠ [] := by simp
  refine ⟨dir, n, hparent, hdir, children_eq_nil_iff.1 hempty, ?_, fun loc' hloc => ?_⟩
  · rw [get?_erase t _ hne, if_pos rfl]
  · rw [get?_erase t _ hne, if_neg hloc]

/-- What is looked up last in a directory is in that directory if it is a single piece. -/
theorem find_of_resolveParent_join {q r : Path} {piece n : Bytes} (hr : r.isAbsolute = false)
    (hpiece : r.names = [piece]) (hq : q.bytes ≠ [])
    (h : t.resolveParent cwd (q.join r) = .ok (loc, .name n)) :
    n = piece ∧ t.find cwd q = .ok (loc, .directory) := by
  obtain ⟨hcheck, -, -, init, e, hnames, hwalk⟩ := resolveParent_eq_ok h
  rw [Path.names_join_relative hr, hpiece] at hnames
  obtain ⟨rfl, hlast⟩ := List.append_inj' hnames rfl
  rw [startOf_join hr] at hwalk
  obtain ⟨rfl, hdir⟩ := walk_concat_dot.1 hwalk
  refine ⟨(List.cons.inj hlast).1.symm, ?_⟩
  unfold find resolve
  rw [checkPath_of_leadsTo ((Path.LeadsTo.refl q).join hr) hq hcheck]
  obtain hsteps | hsteps := q.steps_eq
  · rw [hsteps, hdir]
    rfl
  · rw [hsteps, hwalk]
    rfl

end FileTree

namespace ControlFiles

variable {t t' : FileTree} {cwd : Location} {root : TracingRoot} {name : String}
  {es : List (Event (Actions FileSystem))} {a : Except TracingError Unit}

/-- How the removal of an instance ends: the tree is as it was, or an empty directory is gone, and
if the name stands for a single piece that was a child of the directory of the instances. -/
inductive Destroyed (t : FileTree) (cwd : Location) (root : TracingRoot) (name : String) :
    Except TracingError Unit → FileTree → Prop
  | refused (e : TracingError) : Destroyed t cwd root name (.error e) t
  | removed {dir : Location} {n : Bytes} {t' : FileTree}
      (parent : t.resolveParent cwd (root.instanceDir name) = .ok (dir, .name n))
      (removes : t.Removes (dir ++ [n]) t')
      (child : ∀ piece, (Path.ofString name).isAbsolute = false →
        (Path.ofString name).names = [piece] →
        n = piece ∧ t.find cwd root.instancesDir = .ok (dir, .directory)) :
      Destroyed t cwd root name (.ok ()) t'

theorem runsOn_destroy (h : RunsOn (FileTree.responder cwd) (destroy root name) t es a t') :
    match t.removeDir cwd (root.instanceDir name) with
    | .error _ => (∃ e, a = .error e) ∧ t' = t
    | .ok removed => a = .ok () ∧ t' = removed := by
  obtain ⟨answer, rest, t₁, rfl, hstep, h₁⟩ := h.after_backend
  change t.perform cwd (.removeDir (root.instanceDir name)) = (answer, t₁) at hstep
  rw [FileTree.perform] at hstep
  cases hremove : t.removeDir cwd (root.instanceDir name) with
  | error e =>
      rw [hremove] at hstep
      cases hstep
      split at h₁
      · obtain ⟨rfl, rfl, rfl⟩ := runsOn_pure.1 h₁
        exact ⟨⟨_, rfl⟩, rfl⟩
      · obtain ⟨rfl, rfl, rfl⟩ := runsOn_pure.1 h₁
        exact ⟨⟨_, rfl⟩, rfl⟩
      · next heq => cases heq
  | ok removed =>
      rw [hremove] at hstep
      cases hstep
      obtain ⟨rest, rfl, h₂⟩ := h₁.after_log
      obtain ⟨rfl, rfl, rfl⟩ := runsOn_pure.1 h₂
      exact ⟨rfl, rfl⟩

theorem destroyed_of_runsOn (h : RunsOn (FileTree.responder cwd) (destroy root name) t es a t') :
    Destroyed t cwd root name a t' := by
  have hend := runsOn_destroy h
  cases hremove : t.removeDir cwd (root.instanceDir name) with
  | error e =>
      rw [hremove] at hend
      obtain ⟨⟨e', rfl⟩, rfl⟩ := hend
      exact .refused e'
  | ok removed =>
      rw [hremove] at hend
      obtain ⟨rfl, rfl⟩ := hend
      obtain ⟨dir, n, hparent, hremoves⟩ := FileTree.removes_of_removeDir hremove
      have hinstances : root.instancesDir.bytes ≠ [] := Path.bytes_join_ne_nil (by decide) _
      exact .removed hparent hremoves fun piece hrelative hpiece =>
        FileTree.find_of_resolveParent_join hrelative hpiece hinstances hparent

/-- Removing an instance, whatever the name, removes one empty directory or leaves the tree as it
was. -/
theorem destroy_removes (t : FileTree) (cwd : Location) (root : TracingRoot) (name : String) :
    Ensures (FileTree.responder cwd) (destroy root name) t
        (fun _ a t' => Destroyed t cwd root name a t') ∧
      Ensures (FileTree.responder cwd) (realize root (Instances.destroy name)) t
        (fun _ a t' => Destroyed t cwd root name a t') := by
  refine ⟨⟨FileTree.exists_runsOn _ t cwd, fun es a t' h => destroyed_of_runsOn h⟩,
    FileTree.exists_runsOn _ t cwd, fun es a t' h => ?_⟩
  obtain ⟨own, rest, answered, mid, rfl, hown, hend⟩ := after_call h
  have hdestroyed := destroyed_of_runsOn hown
  match answered with
  | .error e =>
      obtain ⟨rfl, rfl, rfl⟩ := runsOn_pure.1 hend
      exact hdestroyed
  | .ok () =>
      obtain ⟨_, rfl, hlast⟩ := hend.after_log
      obtain ⟨rfl, rfl, rfl⟩ := runsOn_pure.1 hlast
      exact hdestroyed

/-- A tracing root that has no instance. -/
def noInstances : FileTree :=
  [["t"], ["t", "instances"]].foldl (fun t names => t.put (names.map Utf8.encode) .directory) .empty

/-- The empty name stands for no piece, and removing it removes the directory of the instances. -/
theorem destroy_removes_instances :
    let root : TracingRoot := ⟨"/t", .tracefs⟩
    let loc : Location := ["t", "instances"].map Utf8.encode
    noInstances.find [] root.instancesDir = .ok (loc, .directory) ∧
      Ensures (FileTree.responder []) (destroy root "") noInstances fun _ a t' =>
        a = .ok () ∧ t'.get? loc = none := by
  intro root loc
  have hfind : noInstances.find [] root.instancesDir = .ok (loc, .directory) :=
    FileTree.find_of_get? rfl (by decide) (by decide) (by decide) nofun (by decide)
  refine ⟨hfind, FileTree.exists_runsOn _ _ _, fun es a t' h => ?_⟩
  have hwalk : noInstances.walk true FileTree.maxLinks [] [Utf8.encode "t"] =
      .ok (.present [Utf8.encode "t"] .directory) :=
    FileTree.walk_of_get? (by decide) (by decide) (by decide) nofun (by decide)
  have hparent : noInstances.resolveParent [] (root.instanceDir "") =
      .ok ([Utf8.encode "t"], .name (Utf8.encode "instances")) :=
    FileTree.resolveParent_of_walk rfl (by decide) (by decide) (by decide)
      (FileTree.walk_concat_dot.2 ⟨rfl, hwalk⟩)
  have hend := runsOn_destroy h
  rw [FileTree.removeDir_of_empty hparent (by decide) (by decide)] at hend
  obtain ⟨rfl, rfl⟩ := hend
  refine ⟨rfl, ?_⟩
  decide

end ControlFiles

end KernelTrace
