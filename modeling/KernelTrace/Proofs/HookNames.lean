import Mathlib
import KernelTrace.Proofs.ControlFilesSteps
import KernelTrace.Proofs.DispatchCourse
import KernelTrace.Proofs.FirstOccurrences
import KernelTrace.Proofs.TextPieces

/-!
# The names under which hooks are found

A registry lists logical names, and a dispatcher takes a name with or without the mark. The mark is
taken off once when a file is found and once more when its name is asked for, so a logical name that
starts with the mark itself, as that of `trace_trace_x` does, is not asked for by itself: the
dispatcher looks for `x`. With a mark put in front every listed name leads to its own hooks
(`lookup_listed`).

That the two lists of hooks differ and not only their names rests on the directory. The paths in it
have the file names at their end, and a logical name is read off the file name, so hooks of different
names have different paths.
-/

namespace KernelTrace

open Program Actions

/-- What is joined to a directory can be read off the result, unless it replaces the directory. -/
theorem Path.join_left_cancel {dir p q : Path} (hp : p.isAbsolute = false)
    (hq : q.isAbsolute = false) (h : dir.join p = dir.join q) : p = q := by
  rw [join, join, hp, hq, if_neg Bool.false_ne_true, if_neg Bool.false_ne_true] at h
  have hbytes := congrArg bytes h
  have : p.bytes = q.bytes := by
    split at hbytes
    · exact hbytes
    · split at hbytes
      · exact List.append_cancel_left hbytes
      · exact (List.cons.inj (List.append_cancel_left hbytes)).2
  cases p
  cases q
  exact congrArg Path.mk this

namespace Hook

variable {name fileName : String}

theorem afterMark?_eq_some {s : String} {rest : List Char} :
    afterMark? s = some rest ↔ s.toList = mark.toList ++ rest := by
  rw [afterMark?]
  constructor
  · intro h
    split at h
    · next hmark =>
        obtain ⟨tail, htail⟩ := List.isPrefixOf_iff_prefix.1 hmark
        rw [← htail] at h ⊢
        obtain rfl := Option.some.inj h
        rfl
    · cases h
  · intro h
    rw [h, if_pos (List.isPrefixOf_iff_prefix.2 (List.prefix_append ..))]
    rfl

theorem wanted_mark_append (name : String) : wanted (mark ++ name) = name := by
  have hmark : afterMark? (mark ++ name) = some name.toList :=
    afterMark?_eq_some.2 String.toList_append
  rw [wanted, hmark]
  exact String.ofList_toList

theorem wanted_of_unmarked (h : ¬ mark.toList <+: name.toList) : wanted name = name := by
  rw [wanted, afterMark?, if_neg fun hmark => h (List.isPrefixOf_iff_prefix.1 hmark)]
  rfl

theorem mark_prefix_iff : mark.toList <+: name.toList ↔ ∃ rest, name = mark ++ rest := by
  constructor
  · rintro ⟨rest, hrest⟩
    refine ⟨.ofList rest, ?_⟩
    rw [← String.toList_inj, String.toList_append, String.toList_ofList, hrest]
  · rintro ⟨rest, rfl⟩
    rw [String.toList_append]
    exact List.prefix_append ..

theorem isAbsolute_of_logicalName? (h : logicalName? fileName = some name) :
    (Path.ofString fileName).isAbsolute = false := by
  rw [logicalName?] at h
  split at h
  · cases h
  · next rest hrest =>
      rw [Path.isAbsolute, Path.ofString, Utf8.encode_eq_flatMap, afterMark?_eq_some.1 hrest]
      rfl

/-- Whether the hook is a file in the directory and has the name that the file's name says. -/
def IsIn (dir : Path) (h : Hook) : Prop :=
  ∃ fileName, logicalName? fileName = some h.name ∧ h.path = dir.join (Path.ofString fileName)

theorem IsIn.name_eq {dir : Path} {h h' : Hook} (hin : h.IsIn dir) (hin' : h'.IsIn dir)
    (hpath : h.path = h'.path) : h.name = h'.name := by
  obtain ⟨fileName, hname, heq⟩ := hin
  obtain ⟨fileName', hname', heq'⟩ := hin'
  rw [heq, heq'] at hpath
  have hfile := Path.join_left_cancel (isAbsolute_of_logicalName? hname)
    (isAbsolute_of_logicalName? hname') hpath
  rw [Utf8.encode_injective (congrArg Path.bytes hfile), hname'] at hname
  exact (Option.some.inj hname).symm

end Hook

/-! ## Looking for hooks -/

namespace HookSearch

variable {dir : Path} {home : Location}

theorem runs_candidate {fileName : Bytes} {e : Entry} {es : List (Event (Actions FileSystem))}
    {hook : Hook} (h : Runs (candidate dir home fileName e) es (some hook)) : hook.IsIn dir := by
  obtain ⟨es₁, es₂, followed, rfl, -, h₁⟩ := runs_bind.1 h
  match followed with
  | .error fault =>
      obtain ⟨_, rest, rfl, hend⟩ := runs_perform_bind.1 h₁
      cases (runs_pure.1 hend).2
  | .ok entry =>
      dsimp only at h₁
      split at h₁
      · cases (runs_pure.1 h₁).2
      · next logical hlogical =>
          obtain ⟨text, htext, hname⟩ := Option.bind_eq_some_iff.1 hlogical
          obtain ⟨es₂, es₃, runnable, rfl, -, h₂⟩ := runs_bind.1 h₁
          split at h₂
          · obtain ⟨-, heq⟩ := runs_pure.1 h₂
            cases heq
            exact ⟨text, hname, by rw [Path.ofString, Utf8.decode?_eq_some.1 htext]⟩
          · obtain ⟨_, rest, rfl, hend⟩ := runs_perform_bind.1 h₂
            cases (runs_pure.1 hend).2

theorem runs_candidates {entries : List (Bytes × Entry)} {es : List (Event (Actions FileSystem))}
    {hooks : List Hook} (h : Runs (candidates dir home entries) es hooks) :
    ∀ hook ∈ hooks, hook.IsIn dir := by
  induction entries generalizing es hooks with
  | nil =>
      obtain ⟨-, rfl⟩ := runs_pure.1 h
      exact fun hook hmem => absurd hmem List.not_mem_nil
  | cons entry entries ih =>
      obtain ⟨fileName, e⟩ := entry
      obtain ⟨es₁, es₂, first, rfl, hfirst, h₁⟩ := runs_bind.1 h
      obtain ⟨es₂, es₃, others, rfl, hothers, hend⟩ := runs_bind.1 h₁
      obtain ⟨-, rfl⟩ := runs_pure.1 hend
      intro hook hmem
      rcases List.mem_append.1 hmem with hmem | hmem
      · obtain rfl := Option.mem_toList.1 hmem
        exact runs_candidate hfirst
      · exact ih hothers hook hmem

end HookSearch

namespace HookRegistry

variable {dir : Path} {es : List (Event (Actions FileSystem))} {reg : HookRegistry}

theorem runs_found {hooks : List Hook} {result : Except WalkFault HookRegistry}
    (h : Runs (found dir hooks) es result) : result = .ok ⟨dir, hooks⟩ := by
  obtain ⟨_, rest, rfl, hend⟩ := runs_perform_bind.1 h
  exact (runs_pure.1 hend).2

/-- Whatever the files are like, the hooks that are found are files of the directory. -/
theorem isIn_of_discover (h : Runs (discover dir) es (.ok reg)) : ∀ hook ∈ reg.hooks, hook.IsIn dir := by
  obtain ⟨link, rest, rfl, h₁⟩ := runs_perform_bind.1 h
  match link with
  | .error e => cases (runs_pure.1 h₁).2
  | .ok _ =>
      obtain ⟨status, rest, rfl, h₂⟩ := runs_perform_bind.1 h₁
      match status with
      | .error e => cases (runs_pure.1 h₂).2
      | .ok s =>
          dsimp only at h₂
          split at h₂
          · obtain ⟨listed, rest, rfl, h₃⟩ := runs_perform_bind.1 h₂
            match listed with
            | .error e => cases (runs_pure.1 h₃).2
            | .ok entries =>
                obtain ⟨es₁, es₂, hooks, rfl, hcandidates, hfound⟩ := runs_bind.1 h₃
                cases runs_found hfound
                exact HookSearch.runs_candidates hcandidates
          · cases runs_found h₂
            exact fun hook hmem => absurd hmem List.not_mem_nil

/-- The paths of the hooks with a logical name, in the order in which they were found. -/
def pathsOf (reg : HookRegistry) (name : String) : List Path :=
  (reg.hooks.filter (·.name = name)).map (·.path)

theorem mem_pathsOf {name : String} {path : Path} :
    path ∈ reg.pathsOf name ↔ ∃ h ∈ reg.hooks, h.name = name ∧ h.path = path := by
  simp [pathsOf, and_assoc]

theorem pathsOf_eq_nil {name : String} : reg.pathsOf name = [] ↔ name ∉ reg.names := by
  simp [pathsOf, mem_names]

theorem pathsOf_ne {name name' : String} (hin : ∀ h ∈ reg.hooks, h.IsIn dir)
    (hlisted : name ∈ reg.names) (hne : name ≠ name') : reg.pathsOf name ≠ reg.pathsOf name' := by
  intro heq
  obtain ⟨h, hmem, rfl⟩ := mem_names.1 hlisted
  have hpath : h.path ∈ reg.pathsOf name' := heq ▸ mem_pathsOf.2 ⟨h, hmem, rfl, rfl⟩
  obtain ⟨h', hmem', rfl, hsame⟩ := mem_pathsOf.1 hpath
  exact hne ((hin h hmem).name_eq (hin h' hmem') hsame.symm)

end HookRegistry

namespace Dispatcher

variable {dir : Path} {es : List (Event (Actions FileSystem))} {reg : HookRegistry}

theorem lookup_eq (d : Dispatcher) (name : String) :
    d.lookup name =
      if Hook.wanted name ∈ d.registry.names then .ok (d.registry.pathsOf (Hook.wanted name))
      else .error (.notFound name) := by
  rw [lookup, show d.registry.lookup name = d.registry.pathsOf (Hook.wanted name) from rfl]
  split
  · next hnil => rw [if_neg (HookRegistry.pathsOf_eq_nil.1 hnil)]
  · next paths hne => rw [if_pos (Decidable.not_not.1 fun hnot => hne (HookRegistry.pathsOf_eq_nil.2 hnot))]

/-- A name that a registry lists, with the mark in front, leads to the hooks of that name, in the
order in which they were found. By itself it does so exactly if it does not start with the mark. If
it does, it leads to the hooks of what follows the mark, if there are any. -/
theorem lookup_listed (env : List (String × Path))
    (h : Runs (HookRegistry.discover dir) es (.ok reg)) {name : String}
    (hlisted : name ∈ reg.names) :
    (⟨reg, env⟩ : Dispatcher).lookup (Hook.mark ++ name) = .ok (reg.pathsOf name) ∧
      ((⟨reg, env⟩ : Dispatcher).lookup name = .ok (reg.pathsOf name) ↔
        ¬ Hook.mark.toList <+: name.toList) ∧
      ∀ rest, name = Hook.mark ++ rest → (⟨reg, env⟩ : Dispatcher).lookup name =
        if rest ∈ reg.names then .ok (reg.pathsOf rest) else .error (.notFound name) := by
  have hmarked : ∀ rest, name = Hook.mark ++ rest → (⟨reg, env⟩ : Dispatcher).lookup name =
      if rest ∈ reg.names then .ok (reg.pathsOf rest) else .error (.notFound name) := by
    rintro rest rfl
    rw [lookup_eq, Hook.wanted_mark_append]
  refine ⟨?_, ⟨?_, ?_⟩, hmarked⟩
  · rw [lookup_eq, Hook.wanted_mark_append, if_pos hlisted]
  · intro hlookup hmark
    obtain ⟨rest, heq⟩ := Hook.mark_prefix_iff.1 hmark
    have hne : name ≠ rest := fun hsame => by
      have hlength := congrArg String.length (heq.symm.trans hsame)
      simp [Hook.mark] at hlength
    rw [hmarked rest heq] at hlookup
    split at hlookup
    · exact HookRegistry.pathsOf_ne (HookRegistry.isIn_of_discover h) hlisted hne
        (Except.ok.inj hlookup).symm
    · cases hlookup
  · intro hunmarked
    rw [lookup_eq, Hook.wanted_of_unmarked hunmarked, if_pos hlisted]

/-- A directory with two hooks, one of which has a logical name that starts with the mark. -/
def nestedTree : FileTree :=
  let hooks := Utf8.encode "hooks"
  (FileTree.empty.put [hooks] .directory)
    |>.put [hooks, Utf8.encode "trace_trace_x"] (.file [] 0o755)
    |>.put [hooks, Utf8.encode "trace_x"] (.file [] 0o755)

def nestedHooks : HookRegistry :=
  ⟨"/hooks", [⟨"trace_x", "/hooks/trace_trace_x"⟩, ⟨"x", "/hooks/trace_x"⟩]⟩

theorem discover_nestedTree : ∃ es, RunsOn (FileTree.responder [])
    (HookRegistry.discover "/hooks") nestedTree es (.ok nestedHooks) nestedTree := by
  let scan := drive (fun t op => t.perform [] op) ⟨0, .deadline, fun _ => .ok ⟨.code 0, [], []⟩⟩
    (HookRegistry.discover "/hooks") nestedTree
  have hrun : RunsOn (FileTree.responder []) (HookRegistry.discover "/hooks") nestedTree scan.1
    scan.2.1 scan.2.2 := runsOn_drive ..
  have hfound : scan.2.1 = .ok nestedHooks := by cbv
  have hsame : scan.2.2 = nestedTree := by cbv
  rw [hfound, hsame] at hrun
  exact ⟨_, hrun⟩

theorem lookup_listed_nested : ∃ es,
    Runs (HookRegistry.discover "/hooks") es (.ok nestedHooks) ∧ "trace_x" ∈ nestedHooks.names ∧
      (⟨nestedHooks, []⟩ : Dispatcher).lookup "trace_trace_x" = .ok ["/hooks/trace_trace_x"] := by
  obtain ⟨es, hrun⟩ := discover_nestedTree
  have hlisted : "trace_x" ∈ nestedHooks.names := by decide
  exact ⟨es, hrun.runs, hlisted, (lookup_listed [] hrun.runs hlisted).1⟩

/-- The name is listed for one hook and leads to the other. -/
theorem lookup_nested_other : ∃ es,
    RunsOn (FileTree.responder []) (HookRegistry.discover "/hooks") nestedTree es
        (.ok nestedHooks) nestedTree ∧
      "trace_x" ∈ nestedHooks.names ∧
      nestedHooks.pathsOf "trace_x" = (["/hooks/trace_trace_x"] : List Path) ∧
      (⟨nestedHooks, []⟩ : Dispatcher).lookup "trace_x" = .ok ["/hooks/trace_x"] := by
  obtain ⟨es, hrun⟩ := discover_nestedTree
  exact ⟨es, hrun, by decide, by decide, rfl⟩

end Dispatcher

end KernelTrace
