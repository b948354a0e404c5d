import KernelTrace.Proofs.FileFrames
import KernelTrace.Proofs.SessionFiles

/-!
# What the answer to a setting says

Whoever makes a setting learns nothing but whether it was made. On the control files this is settled
by the shape of the tree before anything is written: a setting is answered with the fault of the
first of its files that has one (`Setting.verdict_eq`), and what has a fault depends on the knob and
not on the value. A file that can be written never has a fault, one that is missing has none if the
kernel may be without the knob.

So an answer without a failure means that every file of the setting holds the value, but for knobs
the kernel is without (`set_applied`). Whether it is the kernel that is without them nobody asks: if
the whole instance is gone, its function filter is missing too, and setting it succeeds.

A failure says less. What comes after the first fault is left as it was, also when a set of events
is switched off, and then the events that come after it stay on (`switchOff_upTo_fault`).
-/

namespace KernelTrace

open Program Actions

/-! ## What a path shows -/

namespace FileTree

variable {t t' : FileTree} {cwd loc : Location} {p : Path}

/-- The path leads to a regular file with that content. -/
def Holds (t : FileTree) (cwd : Location) (p : Path) (content : Bytes) : Prop :=
  ∃ loc mode, t.find cwd p = .ok (loc, .file content mode)

def IsFile (t : FileTree) (cwd : Location) (p : Path) : Prop := ∃ content, t.Holds cwd p content

/-- Nothing is there at the path. -/
def IsMissing (t : FileTree) (cwd : Location) (p : Path) : Prop :=
  t.find cwd p = .error (.os .notFound)

theorem holds_of_get? {content : Bytes} (mode : Nat) (hcheck : checkPath p = .ok ())
    (h : (∀ n ∈ p.steps, Path.IsName n ∧ n.length ≤ maxName) ∧ p.steps ≠ [] ∧
      (∀ k, k < p.steps.length → t.get? (startOf cwd p ++ p.steps.take k) = some .directory) ∧
      t.get? (startOf cwd p ++ p.steps) = some (.file content mode)) : t.Holds cwd p content := by
  obtain ⟨hnames, hne, hdirs, hget⟩ := h
  exact ⟨_, mode, find_of_get? hcheck hnames hdirs hget nofun hne⟩

theorem isFile_iff : t.IsFile cwd p ↔ ∃ loc, t.fileAt cwd p = .ok loc := by
  constructor
  · rintro ⟨content, loc, mode, hfind⟩
    exact ⟨loc, fileAt_eq_ok.2 ⟨content, mode, hfind⟩⟩
  · rintro ⟨loc, hat⟩
    obtain ⟨content, mode, hfind⟩ := fileAt_eq_ok.1 hat
    exact ⟨content, loc, mode, hfind⟩

theorem isMissing_iff : t.IsMissing cwd p ↔ t.fileAt cwd p = .error (.os .notFound) := by
  rw [IsMissing, fileAt]
  match t.find cwd p with
  | .ok (_, .file ..) | .ok (_, .directory) | .ok (_, .link _) | .error _ => simp

theorem SameShape.isFile_iff (h : t.SameShape t') : t'.IsFile cwd p ↔ t.IsFile cwd p := by
  rw [FileTree.isFile_iff, FileTree.isFile_iff, fileAt_congr h]

theorem SameShape.isMissing_iff (h : t.SameShape t') :
    t'.IsMissing cwd p ↔ t.IsMissing cwd p := by
  rw [FileTree.isMissing_iff, FileTree.isMissing_iff, fileAt_congr h]

theorem Holds.eq {content content' : Bytes} (h : t.Holds cwd p content)
    (h' : t.Holds cwd p content') : content = content' := by
  obtain ⟨loc, mode, hfind⟩ := h
  obtain ⟨loc', mode', hfind'⟩ := h'
  rw [hfind] at hfind'
  cases hfind'
  rfl

section Filled

variable {locs : List Location} {content : Bytes}

theorem Filled.holds (h : t.Filled locs content t') (hat : t.fileAt cwd p = .ok loc)
    (hloc : loc ∈ locs) : t'.Holds cwd p content := by
  obtain ⟨old, mode, hfind⟩ := fileAt_eq_ok.1 hat
  have hfind' := h.find hfind
  rw [if_pos hloc] at hfind'
  exact ⟨loc, mode, hfind'⟩

/-- A path that leads to none of the rewritten files shows what it has shown. -/
theorem Filled.holds_iff (h : t.Filled locs content t')
    (hother : ∀ loc, t.fileAt cwd p = .ok loc → loc ∉ locs) (shown : Bytes) :
    t'.Holds cwd p shown ↔ t.Holds cwd p shown := by
  have hkept : ∀ {old}, t.Holds cwd p old → t'.Holds cwd p old := by
    rintro old ⟨loc, mode, hfind⟩
    have hfind' := h.find hfind
    rw [if_neg (hother loc (fileAt_eq_ok.2 ⟨old, mode, hfind⟩))] at hfind'
    exact ⟨loc, mode, hfind'⟩
  refine ⟨fun hshown => ?_, hkept⟩
  obtain ⟨old, hold⟩ := h.sameShape.isFile_iff.1 ⟨shown, hshown⟩
  exact hshown.eq (hkept hold) ▸ hold

end Filled

/-! ## Up to the first fault -/

/-- The paths that are overwritten lead to files, and the one after them does not. -/
theorem exists_upTo_fault (t : FileTree) (cwd : Location) (ps : List Path) :
    ∃ before after, ps = before ++ after ∧
      (∀ p ∈ before, ∃ loc ∈ (t.rewritable cwd ps).1, t.fileAt cwd p = .ok loc) ∧
      (∀ loc ∈ (t.rewritable cwd ps).1, ∃ p ∈ before, t.fileAt cwd p = .ok loc) ∧
      match after with
      | [] => (t.rewritable cwd ps).2 = none
      | p :: _ => ∃ e, t.fileAt cwd p = .error e ∧ (t.rewritable cwd ps).2 = some (p, e) := by
  induction ps with
  | nil => exact ⟨[], [], rfl, nofun, nofun, rfl⟩
  | cons p ps ih =>
      cases hat : t.fileAt cwd p with
      | error e =>
          rw [rewritable_cons_of_error hat]
          exact ⟨[], p :: ps, rfl, nofun, nofun, e, hat, rfl⟩
      | ok loc =>
          obtain ⟨before, after, heq, hwritten, hreached, hend⟩ := ih
          rw [rewritable_cons_of_ok hat]
          refine ⟨p :: before, after, congrArg (p :: ·) heq, ?_, ?_, hend⟩
          · refine List.forall_mem_cons.2 ⟨⟨loc, List.mem_cons_self, hat⟩, fun q hq => ?_⟩
            obtain ⟨loc', hloc, hat'⟩ := hwritten q hq
            exact ⟨loc', List.mem_cons_of_mem loc hloc, hat'⟩
          · refine List.forall_mem_cons.2 ⟨⟨p, List.mem_cons_self, hat⟩, fun loc' hloc => ?_⟩
            obtain ⟨q, hq, hat'⟩ := hreached loc' hloc
            exact ⟨q, List.mem_cons_of_mem p hq, hat'⟩

/-- If the first of the paths hold a content and the rest are as they were, it is for the rest to say
whether all of them hold it. -/
theorem forall_holds_iff (hshape : t.SameShape t') {before after : List Path} {content : Bytes}
    (hheld : ∀ p ∈ before, t'.Holds cwd p content)
    (hkept : ∀ p ∈ after, p ∉ before → (t'.Holds cwd p content ↔ t.Holds cwd p content)) :
    (∀ p ∈ before ++ after, t'.IsFile cwd p → t'.Holds cwd p content) ↔
      ∀ p ∈ after, t.IsFile cwd p → p ∈ before ∨ t.Holds cwd p content := by
  constructor
  · intro hall p hp hfile
    by_cases hnew : p ∈ before
    · exact .inl hnew
    · have hnow := hall p (List.mem_append_right before hp) (hshape.isFile_iff.2 hfile)
      exact .inr ((hkept p hp hnew).1 hnow)
  · intro hall p hp hfile
    by_cases hnew : p ∈ before
    · exact hheld p hnew
    · have hafter : p ∈ after := (List.mem_append.1 hp).resolve_left hnew
      obtain hmem | hold := hall p hafter (hshape.isFile_iff.1 hfile)
      · exact absurd hmem hnew
      · exact (hkept p hafter hnew).2 hold

end FileTree

/-! ## Faults -/

/-- A control file of a setting: what is to be written to it, and whether the kernel may be without
it. -/
structure KnobFile where
  path : Path
  value : String
  optional : Bool

namespace KnobFile

/-- What is wrong with the file, if anything is. -/
def fault? (t : FileTree) (cwd : Location) (k : KnobFile) : Option TracingError :=
  match t.fileAt cwd k.path with
  | .ok _ => none
  | .error e =>
    if k.optional = true ∧ e = .os .notFound then none else some (.writeFailed k.path k.value e)

variable {t t' : FileTree} {cwd : Location} {k : KnobFile}

theorem fault?_eq_none_iff : k.fault? t cwd = none ↔
    t.IsFile cwd k.path ∨ k.optional = true ∧ t.IsMissing cwd k.path := by
  rw [FileTree.isFile_iff, FileTree.isMissing_iff, fault?]
  cases t.fileAt cwd k.path with
  | ok loc => simp
  | error e => simp

end KnobFile

namespace Setting

variable {t t' : FileTree} {cwd : Location} {i : Instance} {s : Setting}

def knobFiles (i : Instance) (s : Setting) : List KnobFile :=
  (s.files i).map fun p => ⟨p, s.value, s.isOptional⟩

theorem exists_files_of_isOptional (hs : s.isOptional = true) (i : Instance) :
    ∃ p, s.files i = [p] := by
  match s with
  | .option .functionFork _ | .functionPids _ => exact ⟨_, rfl⟩

def fault? (t : FileTree) (cwd : Location) (i : Instance) (s : Setting) : Option TracingError :=
  (s.knobFiles i).findSome? (·.fault? t cwd)

theorem fault?_eq_none_iff : s.fault? t cwd i = none ↔
    ∀ p ∈ s.files i, t.IsFile cwd p ∨ s.isOptional = true ∧ t.IsMissing cwd p := by
  rw [fault?, List.findSome?_eq_none_iff, knobFiles, List.forall_mem_map]
  simp only [KnobFile.fault?_eq_none_iff]

theorem fault?_congr (h : t.SameShape t') (s : Setting) :
    s.fault? t' cwd i = s.fault? t cwd i := by
  rw [fault?, fault?]
  congr 1
  funext k
  rw [KnobFile.fault?, KnobFile.fault?, FileTree.fileAt_congr h cwd]

theorem fault?_of_files {p : Path} (h : s.files i = [p]) :
    s.fault? t cwd i = (⟨p, s.value, s.isOptional⟩ : KnobFile).fault? t cwd := by
  rw [fault?, knobFiles, h, List.map_singleton, List.findSome?_singleton]

/-- A setting is answered with the fault of the first of its files that has one. -/
theorem verdict_eq (t : FileTree) (cwd : Location) (i : Instance) (s : Setting) :
    s.verdict (t.rewritable cwd (s.files i)).2 =
      match s.fault? t cwd i with
      | none => .ok ()
      | some e => .error e := by
  cases hs : s.isOptional with
  | true =>
      obtain ⟨p, hfiles⟩ := exists_files_of_isOptional hs i
      rw [fault?_of_files hfiles, hs, hfiles, KnobFile.fault?]
      cases hat : t.fileAt cwd p with
      | ok loc =>
          rw [FileTree.rewritable_cons_of_ok hat]
          rfl
      | error e =>
          rw [FileTree.rewritable_cons_of_error hat, verdict, hs]
          dsimp only
          split <;> rfl
  | false =>
      -- a knob that the kernel has to have is at fault wherever it cannot be written
      rw [ControlFiles.verdict_of_required hs, fault?, knobFiles, hs]
      induction s.files i with
      | nil => rfl
      | cons p ps ih =>
          rw [List.map_cons, List.findSome?_cons, KnobFile.fault?]
          cases hat : t.fileAt cwd p with
          | ok loc =>
              rw [FileTree.rewritable_cons_of_ok hat]
              exact ih
          | error e =>
              rw [FileTree.rewritable_cons_of_error hat]
              rfl

theorem verdict_eq_ok_iff : s.verdict (t.rewritable cwd (s.files i)).2 = .ok () ↔
    ∀ p ∈ s.files i, t.IsFile cwd p ∨ s.isOptional = true ∧ t.IsMissing cwd p := by
  rw [← fault?_eq_none_iff, verdict_eq]
  cases s.fault? t cwd i <;> simp

end Setting

/-! ## Below what is no directory -/

namespace FileTree

variable {t : FileTree} {cwd : Location} {p q : Path} {n : Bytes}

theorem not_isFile_of_leadsTo (ht : t.NoLinks) (hdir : t.isDirectory cwd q = false)
    (hq : q.bytes ≠ []) (h : q.LeadsTo p) (hn : Path.IsName n) :
    ¬ t.IsFile cwd (p.join ⟨n⟩) := by
  rintro ⟨content, loc, mode, hfind⟩
  have hjoin := h.join hn.isAbsolute
  obtain ⟨l, hl⟩ | ⟨⟨e, -, hblocked⟩, -⟩ := enters_or ht cwd q
  · have hcheck : checkPath (p.join ⟨n⟩) = .ok () := by
      cases hcheck : checkPath (p.join ⟨n⟩) with
      | ok _ => rfl
      | error e =>
          rw [find, resolve, hcheck] at hfind
          cases hfind
    rw [hl.isDirectory (checkPath_of_leadsTo hjoin hq hcheck)] at hdir
    cases hdir
  · obtain ⟨more, hmore⟩ := h.names
    have hstart : startOf cwd (p.join ⟨n⟩) = startOf cwd q := by
      rw [startOf, startOf, hjoin.isAbsolute]
    have hwalk := walk_of_find hfind
    rw [Path.steps_join hn, hstart, ← hmore, List.append_assoc, hblocked _ (by simp)] at hwalk
    cases hwalk

end FileTree

namespace Setting

variable {i : Instance} {s : Setting} {p : Path}

/-- Events that lead on from the directory that they are looked up in. -/
def Relative (system event : String) : Prop :=
  (Path.ofString system).isAbsolute = false ∧ (Path.ofString event).isAbsolute = false

theorem leadsTo_of_mem_files (hp : p ∈ s.files i)
    (hs : ∀ chosen on, s = .events chosen on → chosen.MadeOf Relative) :
    ∃ q, i.dir.LeadsTo q ∧ p = q.join s.leaf := by
  have hrelative : (Path.ofString "options").isAbsolute = false ∧
      (Path.ofString "events").isAbsolute = false := by decide
  match s with
  | .option _ _ =>
      obtain rfl := List.mem_singleton.1 hp
      exact ⟨_, (Path.LeadsTo.refl _).join hrelative.1, rfl⟩
  | .eventPids _ | .functionPids _ | .tracing _ =>
      obtain rfl := List.mem_singleton.1 hp
      exact ⟨_, .refl _, rfl⟩
  | .events chosen on =>
      obtain ⟨⟨system, events⟩, hmem, hp⟩ := List.mem_flatMap.1 hp
      obtain ⟨hne, hevents⟩ := hs chosen on rfl system events
        ((chosen.systems.get?_eq_some_iff _ _).2 hmem)
      have hdir := (Path.LeadsTo.refl i.dir).join hrelative.2
      rw [ControlFiles.systemFiles] at hp
      split at hp
      · obtain rfl := List.mem_singleton.1 hp
        obtain ⟨event, hevent⟩ := List.exists_mem_of_ne_nil events hne
        exact ⟨_, hdir.join (hevents event hevent).1, rfl⟩
      · obtain ⟨event, hevent, rfl⟩ := List.mem_map.1 hp
        exact ⟨_, (hdir.join (hevents event hevent).1).join (hevents event hevent).2, rfl⟩

theorem eq_events_of_files_eq_nil {P : String → String → Prop} (h : s.files i = [])
    (hs : ∀ chosen on, s = .events chosen on → chosen.MadeOf P) : ∃ on, s = .events .empty on := by
  match s with
  | .option .. | .eventPids _ | .functionPids _ | .tracing _ => cases h
  | .events chosen on =>
      refine ⟨on, congrArg (fun c => Setting.events c on) (EventSet.eq_empty_of_toList ?_)⟩
      refine List.eq_nil_iff_forall_not_mem.2 fun x hmem => ?_
      obtain ⟨system, names⟩ := x
      obtain ⟨hne, -⟩ := hs chosen on rfl system names
        ((chosen.systems.get?_eq_some_iff _ _).2 hmem)
      have hnone := List.flatMap_eq_nil_iff.1 h _ hmem
      rw [ControlFiles.systemFiles] at hnone
      split at hnone
      · cases hnone
      · exact hne (List.map_eq_nil_iff.1 hnone)

end Setting

/-! ## Settings that are answered without a failure -/

namespace ControlFiles

variable {t t' : FileTree} {cwd : Location} {i : Instance} {s : Setting}
  {es : List (Event (Actions FileSystem))} {a : Except TracingError Unit}

theorem holds_of_set (h : RunsOn (FileTree.responder cwd) (set i s) t es (.ok ()) t') :
    ∀ p ∈ s.files i, t'.Holds cwd p (Utf8.encode s.value) ∨
      s.isOptional = true ∧ t'.IsMissing cwd p := by
  intro p hp
  obtain ⟨hwritten, hok⟩ := runsOn_set h
  obtain hfile | ⟨hoptional, hmissing⟩ := Setting.verdict_eq_ok_iff.1 hok.symm p hp
  · left
    obtain ⟨before, after, hfiles, hreached, -, hend⟩ := t.exists_upTo_fault cwd (s.files i)
    match after with
    | [] =>
        rw [hfiles, List.append_nil] at hp
        obtain ⟨loc, hloc, hat⟩ := hreached p hp
        exact hwritten.filled.holds hat hloc
    | q :: rest =>
        -- only a knob with a single file can have been skipped, and that file is there
        obtain ⟨e, hat, hfault⟩ := hend
        have hoptional : s.isOptional = true := by
          cases hs : s.isOptional with
          | true => rfl
          | false =>
              rw [verdict_of_required hs, hfault] at hok
              cases hok
        obtain ⟨k, hone⟩ := Setting.exists_files_of_isOptional hoptional i
        rw [hone] at hfiles hp
        obtain rfl := List.mem_singleton.1 hp
        have hq : q ∈ [p] := hfiles ▸ List.mem_append_right before List.mem_cons_self
        obtain rfl := List.mem_singleton.1 hq
        obtain ⟨loc, hloc⟩ := FileTree.isFile_iff.1 hfile
        rw [hat] at hloc
        cases hloc
  · exact .inr ⟨hoptional, hwritten.filled.sameShape.isMissing_iff.2 hmissing⟩

/-- A setting with one file that is there is made. -/
theorem ensures_holds {p : Path} {content : Bytes} (hfiles : s.files i = [p]) (hfile : t.IsFile cwd p)
    (hvalue : Utf8.encode s.value = content) :
    Ensures (FileTree.responder cwd) (set i s) t fun _ a t' =>
      a = .ok () ∧ ∀ q ∈ s.files i, t'.Holds cwd q content := by
  refine ⟨FileTree.exists_runsOn _ t cwd, fun es a t' h => ?_⟩
  obtain ⟨hwritten, rfl⟩ := runsOn_set h
  have hfilled := hwritten.filled
  obtain ⟨loc, hat⟩ := FileTree.isFile_iff.1 hfile
  rw [hvalue, hfiles, FileTree.rewritable_cons_of_ok hat] at hfilled
  rw [Setting.verdict_eq_ok_iff, hfiles, List.forall_mem_singleton, List.forall_mem_singleton]
  exact ⟨.inl hfile, hfilled.holds hat List.mem_cons_self⟩

/-- A setting is answered without a failure exactly if each of its files is there, or the kernel may
be without it and nothing is at its path. Then each of the files holds the value or is missing. On
an instance that is gone only an optional knob can be set, or no event at all. -/
theorem set_applied (ht : t.NoLinks) (cwd : Location) (i : Instance) (s : Setting) :
    Ensures (FileTree.responder cwd) (set i s) t fun _ a t' =>
      (a = .ok () ↔ ∀ p ∈ s.files i, t.IsFile cwd p ∨ s.isOptional = true ∧ t.IsMissing cwd p) ∧
      (a = .ok () → ∀ p ∈ s.files i, t'.Holds cwd p (Utf8.encode s.value) ∨
        s.isOptional = true ∧ t'.IsMissing cwd p) ∧
      (a = .ok () → t.isDirectory cwd i.dir = false → i.dir.bytes ≠ [] →
        (∀ chosen on, s = .events chosen on → chosen.MadeOf Setting.Relative) →
        s.isOptional = true ∨ ∃ on, s = .events .empty on) := by
  refine ⟨FileTree.exists_runsOn _ t cwd, fun es a t' h => ?_⟩
  obtain ⟨-, ha⟩ := runsOn_set h
  have hanswer : a = .ok () ↔
      ∀ p ∈ s.files i, t.IsFile cwd p ∨ s.isOptional = true ∧ t.IsMissing cwd p := by
    rw [ha]
    exact Setting.verdict_eq_ok_iff
  refine ⟨hanswer, ?_, fun hok hgone hdir hrelative => ?_⟩
  · rintro rfl
    exact holds_of_set h
  · cases hs : s.isOptional with
    | true => exact .inl rfl
    | false =>
        -- a file of the setting would be below a directory that there is not
        have hnone : s.files i = [] := by
          refine List.eq_nil_iff_forall_not_mem.2 fun p hp => ?_
          obtain ⟨q, hq, rfl⟩ := Setting.leadsTo_of_mem_files hp hrelative
          obtain hfile | ⟨hoptional, -⟩ := hanswer.1 hok _ hp
          · exact FileTree.not_isFile_of_leadsTo ht hgone hdir hq s.isName_leaf hfile
          · rw [hs] at hoptional
            cases hoptional
        exact .inr (Setting.eq_events_of_files_eq_nil hnone hrelative)

def wakeSwitch : Path := "/t/instances/a/events/sched/wake/enable"

def instanceOf (name : InstanceName) : Instance :=
  ⟨name, TracingRoot.instanceDir ⟨"/t", .tracefs⟩ name.text⟩

theorem holds_wakeSwitch : leftOn.Holds [] wakeSwitch (Utf8.encode "0") :=
  FileTree.holds_of_get? 0o644 rfl (by decide)

theorem set_applied_wake :
    let s : Setting := .events (.ofList [("sched", "wake")]) true
    Ensures (FileTree.responder []) (set (instanceOf ⟨"a", by decide⟩) s) leftOn fun _ a t' =>
      a = .ok () ∧ t'.Holds [] wakeSwitch (Utf8.encode "1") := by
  intro s
  obtain ⟨hends, hall⟩ := set_applied noLinks_leftOn [] (instanceOf ⟨"a", by decide⟩) s
  refine ⟨hends, fun es a t' h => ?_⟩
  obtain ⟨hanswer, hholds, -⟩ := hall es a t' h
  have hfiles : s.files (instanceOf ⟨"a", by decide⟩) = [wakeSwitch] := by decide
  rw [hfiles] at hanswer hholds
  have hok : a = .ok () := hanswer.2 (List.forall_mem_singleton.2 (.inl ⟨_, holds_wakeSwitch⟩))
  obtain hheld | ⟨hoptional, -⟩ := hholds hok wakeSwitch List.mem_cons_self
  · exact ⟨hok, hheld⟩
  · cases hoptional

/-- Of an instance that there is not, the function filter can be set. -/
theorem set_applied_gone :
    let i := instanceOf ⟨"gone", by decide⟩
    leftOn.isDirectory [] i.dir = false ∧
      Ensures (FileTree.responder []) (set i (.option .functionFork true)) leftOn fun _ a _ =>
        a = .ok () := by
  intro i
  have hgone : leftOn.find [] i.dir = .error (.os .notFound) :=
    FileTree.find_of_get?_eq_none 2 rfl (by decide)
  have hmissing : leftOn.find [] (optionFile i .functionFork) = .error (.os .notFound) :=
    FileTree.find_of_get?_eq_none 2 rfl (by decide)
  refine ⟨by rw [FileTree.isDirectory, hgone], FileTree.exists_runsOn _ _ _, fun es a t' h => ?_⟩
  rw [(runsOn_set h).2]
  exact Setting.verdict_eq_ok_iff.2 (List.forall_mem_singleton.2 (.inr ⟨rfl, hmissing⟩))

/-! ## Switching events off -/

/-- Without links, no two events of a set share a control file. -/
theorem eq_of_fileAt (ht : t.NoLinks) {events : EventSet} (hnamed : events.IsNamed) {p q : Path}
    {loc : Location} (hp : p ∈ eventFiles i events) (hq : q ∈ eventFiles i events)
    (hat : t.fileAt cwd p = .ok loc) (hat' : t.fileAt cwd q = .ok loc) : p = q := by
  have hwhere : ∀ p ∈ eventFiles i events, t.fileAt cwd p = .ok loc → ∃ names,
      loc = FileTree.place cwd i.dir ++ names ∧ p = i.dir.joinNames names := by
    intro p hp hat
    obtain ⟨names, hnames, rfl, -⟩ :=
      Setting.exists_names_of_mem_files (s := .events events true) hp fun _ _ heq => by
        cases heq
        exact hnamed
    obtain ⟨_, _, hfind⟩ := FileTree.fileAt_eq_ok.1 hat
    refine ⟨names, ?_, rfl⟩
    rw [FileTree.eq_place_of_find ht hfind, FileTree.place_joinNames hnames]
  obtain ⟨names, hloc, rfl⟩ := hwhere p hp hat
  obtain ⟨names', rfl, rfl⟩ := hwhere q hq hat'
  rw [List.append_cancel_left hloc]

/-- Switching events off gets as far as the first of them without a control file. The events before
it are off and those after it are as they were, so none of them is on in the end exactly if none of
those after the fault was. -/
theorem switchOff_upTo_fault (ht : t.NoLinks) {events : EventSet} (hnamed : events.IsNamed)
    (cwd : Location) (i : Instance) :
    Ensures (FileTree.responder cwd) (set i (.events events false)) t fun _ a t' =>
      ∃ before after, eventFiles i events = before ++ after ∧
        (∀ p ∈ before, t.IsFile cwd p ∧ t'.Holds cwd p (Utf8.encode "0")) ∧
        (∀ p ∈ after, p ∉ before → ∀ content, t'.Holds cwd p content ↔ t.Holds cwd p content) ∧
        (match after with
          | [] => a = .ok ()
          | p :: _ => ∃ e, t.fileAt cwd p = .error e ∧ a = .error (.writeFailed p "0" e)) ∧
        ((∀ p ∈ eventFiles i events, t'.IsFile cwd p → t'.Holds cwd p (Utf8.encode "0")) ↔
          ∀ p ∈ after, t.IsFile cwd p → p ∈ before ∨ t.Holds cwd p (Utf8.encode "0")) := by
  refine ⟨FileTree.exists_runsOn _ t cwd, fun es a t' h => ?_⟩
  obtain ⟨hwritten, ha⟩ := runsOn_set h
  have hfilled := hwritten.filled
  change t.Filled (t.rewritable cwd (eventFiles i events)).1 (Utf8.encode "0") t' at hfilled
  obtain ⟨before, after, hfiles, hreached, hreached', hend⟩ :=
    t.exists_upTo_fault cwd (eventFiles i events)
  have hoff : ∀ p ∈ before, t.IsFile cwd p ∧ t'.Holds cwd p (Utf8.encode "0") := by
    intro p hp
    obtain ⟨loc, hloc, hat⟩ := hreached p hp
    exact ⟨FileTree.isFile_iff.2 ⟨loc, hat⟩, hfilled.holds hat hloc⟩
  have hkept : ∀ p ∈ after, p ∉ before → ∀ content,
      t'.Holds cwd p content ↔ t.Holds cwd p content := by
    refine fun p hp hnew => hfilled.holds_iff fun loc hat hloc => hnew ?_
    obtain ⟨q, hq, hat'⟩ := hreached' loc hloc
    have heq : p = q := eq_of_fileAt ht hnamed (hfiles ▸ List.mem_append_right before hp)
      (hfiles ▸ List.mem_append_left after hq) hat hat'
    exact heq ▸ hq
  have hall := FileTree.forall_holds_iff hfilled.sameShape (fun p hp => (hoff p hp).2)
    fun p hp hnew => hkept p hp hnew _
  rw [← hfiles] at hall
  refine ⟨before, after, hfiles, hoff, hkept, ?_, hall⟩
  rw [verdict_of_required rfl] at ha
  change a = writeVerdict "0" (t.rewritable cwd (eventFiles i events)).2 at ha
  match after with
  | [] =>
      rw [ha, show (t.rewritable cwd (eventFiles i events)).2 = none from hend]
      rfl
  | p :: rest =>
      obtain ⟨e, hat, hfault⟩ := hend
      rw [hfault] at ha
      exact ⟨e, hat, ha⟩

def wakeOn : FileTree := leftOn.put wakeSwitch.steps (.file (Utf8.encode "1") 0o644)

theorem noLinks_wakeOn : wakeOn.NoLinks := FileTree.noLinks_of_entries (by decide)

theorem holds_wakeOn : wakeOn.Holds [] wakeSwitch (Utf8.encode "1") :=
  FileTree.holds_of_get? 0o644 rfl (by decide)

def goneSwitch : Path := "/t/instances/a/events/sched/gone/enable"

theorem isMissing_goneSwitch : wakeOn.IsMissing [] goneSwitch :=
  FileTree.find_of_get?_eq_none 5 rfl (by decide)

/-- Of an event that is on and one that is gone, the one is off in the end if it comes first. -/
theorem switchOff_upTo_fault_wake :
    let events : EventSet := .ofList [("sched", "wake"), ("sched", "gone")]
    Ensures (FileTree.responder []) (set (instanceOf ⟨"a", by decide⟩) (.events events false))
      wakeOn fun _ a t' => a = .error (.writeFailed goneSwitch "0" (.os .notFound)) ∧
        t'.Holds [] wakeSwitch (Utf8.encode "0") := by
  intro events
  have hnamed : events.IsNamed := EventSet.isNamed_ofList (by decide)
  have hfiles : eventFiles (instanceOf ⟨"a", by decide⟩) events = [wakeSwitch, goneSwitch] := by
    decide
  obtain ⟨hends, hall⟩ :=
    switchOff_upTo_fault noLinks_wakeOn hnamed [] (instanceOf ⟨"a", by decide⟩)
  refine ⟨hends, fun es a t' h => ?_⟩
  obtain ⟨before, after, heq, hoff, -, hend, -⟩ := hall es a t' h
  rw [hfiles] at heq
  match before with
  | [] =>
      obtain rfl : after = [wakeSwitch, goneSwitch] := heq.symm
      obtain ⟨e, hat, -⟩ := hend
      obtain ⟨loc, hloc⟩ := FileTree.isFile_iff.1 ⟨_, holds_wakeOn⟩
      rw [hat] at hloc
      cases hloc
  | [p] =>
      obtain ⟨rfl, hafter⟩ := List.cons.inj heq
      obtain rfl : after = [goneSwitch] := hafter.symm
      obtain ⟨e, hat, ha⟩ := hend
      rw [FileTree.isMissing_iff.1 isMissing_goneSwitch] at hat
      cases hat
      exact ⟨ha, (hoff _ List.mem_cons_self).2⟩
  | p :: q :: rest =>
      obtain ⟨-, heq⟩ := List.cons.inj heq
      obtain ⟨rfl, -⟩ := List.cons.inj heq
      obtain ⟨loc, hloc⟩ := FileTree.isFile_iff.1 (hoff goneSwitch (by simp)).1
      rw [FileTree.isMissing_iff.1 isMissing_goneSwitch] at hloc
      cases hloc

/-- If it comes last, it stays on. -/
theorem switchOff_upTo_fault_stays :
    let events : EventSet := .ofList [("sched", "gone"), ("sched", "wake")]
    events.IsNamed ∧ wakeSwitch ∈ eventFiles (instanceOf ⟨"a", by decide⟩) events ∧
      Ensures (FileTree.responder []) (set (instanceOf ⟨"a", by decide⟩) (.events events false))
        wakeOn fun _ _ t' => t'.Holds [] wakeSwitch (Utf8.encode "1") := by
  intro events
  have hfiles : eventFiles (instanceOf ⟨"a", by decide⟩) events = [goneSwitch, wakeSwitch] := by
    decide
  have hnamed : events.IsNamed := EventSet.isNamed_ofList (by decide)
  refine ⟨hnamed, by simp [hfiles], FileTree.exists_runsOn _ _ _, fun es a t' h => ?_⟩
  have hfilled := (runsOn_set h).1.filled
  change wakeOn.Filled (wakeOn.rewritable [] (eventFiles _ events)).1 _ t' at hfilled
  rw [hfiles, FileTree.rewritable_cons_of_error (FileTree.isMissing_iff.1 isMissing_goneSwitch)]
    at hfilled
  exact (hfilled.holds_iff (fun _ _ => List.not_mem_nil) _).2 holds_wakeOn

end ControlFiles

end KernelTrace
