import Mathlib.Data.List.Sort
import KernelTrace.Proofs.PlainBinding
import KernelTrace.Proofs.RecordingSteps

/-!
# Recordings and control files

Sessions are rehearsed on a recording, so a recording has to behave like the control files that it
stands for. The two have little in common. One is a map with a state for every instance, the other a
directory with five small files of text for every instance, and which files these are is settled by
paths.

What they share is said by `Mirrors`: the live instances are the directories, and each of the files
holds what the state says. A setting replaces one component of one state, and it rewrites one file.
Since the paths of different files lead to different places (`eq_of_find_file`), the other files
still hold what they held, and since rewriting moves nothing they are still where they were. The
other calls change nothing, so all there is to see is that they are answered alike. For the list of
the names this rests on the order of a directory being that of the map.
-/

namespace KernelTrace

open Program Actions ControlFiles

/-! ## What a control file holds -/

/-- A control file that holds one value of an instance. -/
inductive Register where
  | tracing
  | option (option : TraceOption)
  | eventPids
  | functionPids
  deriving DecidableEq

namespace Register

/-- The names that lead from the directory of an instance to the file. -/
def names : Register → List String
  | tracing => ["tracing_on"]
  | option .eventFork => ["options", "event-fork"]
  | option .functionFork => ["options", "function-fork"]
  | eventPids => ["set_event_pid"]
  | functionPids => ["set_ftrace_pid"]

def file (g : Register) (dir : Path) : Path := dir.joinNames (g.names.map Utf8.encode)

def isFlag : Register → Bool
  | tracing | option _ => true
  | eventPids | functionPids => false

/-- What the file holds in a state of the instance: a digit, or process numbers with spaces between
them. -/
def text (st : InstanceState) : Register → String
  | tracing => if st.tracingOn then "1" else "0"
  | option .eventFork => if st.eventFork then "1" else "0"
  | option .functionFork => if st.functionFork then "1" else "0"
  | eventPids => " ".intercalate (st.eventPids.map toString)
  | functionPids => " ".intercalate (st.functionPids.map toString)

theorem isName_names (g : Register) : ∀ n ∈ g.names.map Utf8.encode, Path.IsName n := by
  match g with
  | tracing | option .eventFork | option .functionFork | eventPids | functionPids => decide +kernel

theorem names_injective {g g' : Register} (h : g.names = g'.names) : g = g' := by
  rcases g with _ | ⟨_ | _⟩ | _ | _ <;> rcases g' with _ | ⟨_ | _⟩ | _ | _ <;>
    first | rfl | exact absurd h (by decide)

end Register

namespace Setting

/-- The file that a setting rewrites, unless it is about events. -/
def register? : Setting → Option Register
  | option o _ => some (.option o)
  | eventPids _ => some .eventPids
  | functionPids _ => some .functionPids
  | tracing _ => some .tracing
  | events .. => none

variable {s : Setting} {g : Register}

theorem files_of_register? (h : s.register? = some g) (i : Instance) :
    s.files i = [g.file i.dir] := by
  rcases s with ⟨_ | _, _⟩ | _ | _ | _ | _ <;> cases h <;> rfl

theorem text_apply (h : s.register? = some g) (st : InstanceState) :
    g.text (st.apply s) = s.value := by
  match s with
  | .option .eventFork _ | .option .functionFork _ | .eventPids _ | .functionPids _ | .tracing _ =>
      cases h
      rfl

theorem text_apply_of_ne (h : s.register? ≠ some g) (st : InstanceState) :
    g.text (st.apply s) = g.text st := by
  rcases s with ⟨_ | _, _⟩ | _ | _ | _ | _ <;> rcases g with _ | ⟨_ | _⟩ | _ | _ <;>
    first | rfl | exact absurd rfl h

end Setting

/-! ## Probes -/

/-- A call by which two backends can be compared. -/
inductive Probe where
  | set (name : InstanceName) (setting : Setting)
  | find (name : InstanceName)
  | names

/-- What came of a probe. Where a backend claims an instance to be is its own business. -/
inductive Outcome where
  | set (made : Except TracingError Unit)
  | find (found : Except TracingError (Option InstanceName))
  | names (listed : Except TracingError (List String))

namespace Probe

def run (root : TracingRoot) : Probe → Tracing Outcome
  | set name s => do
    return .set (← Tracing.call (.set ⟨name, root.instanceDir name.text⟩ s))
  | find name => do
    return .find ((← Tracing.call (.findInstance name)).map fun i => i.map (·.name))
  | names => do
    return .names (← Tracing.call .instanceNames)

def runAll (root : TracingRoot) : List Probe → Tracing (List Outcome)
  | [] => return []
  | p :: ps => do
    let outcome ← p.run root
    return outcome :: (← runAll root ps)

/-- Whether a setting is on a live instance, and about one of its files. -/
def IsOn (r : Recording) : Probe → Prop
  | set name s => r.instances.get? name.text ≠ none ∧ s.register? ≠ none
  | find _ | names => True

def Sets (name : String) (g : Register) : Probe → Prop
  | set n s => n.text = name ∧ s.register? = some g
  | find _ | names => False

/-- What is set on the instance of a name after the probe. -/
def apply (name : String) (st : InstanceState) : Probe → InstanceState
  | set n s => if n.text = name then st.apply s else st
  | find _ | names => st

theorem IsOn.of_map {r r' : Recording} {p : Probe} {f : String → InstanceState → InstanceState}
    (h : p.IsOn r) (hmap : ∀ name, r'.instances.get? name = (r.instances.get? name).map (f name)) :
    p.IsOn r' := by
  cases p with
  | set name s =>
      refine ⟨?_, h.2⟩
      rw [hmap, ne_eq, Option.map_eq_none_iff]
      exact h.1
  | find | names => trivial

end Probe

/-! ## What a recording and a tree have in common -/

/-- Whether `content` says the same as the state of an instance. A flag that is off may also be an
empty file, as long as no probe has set it. -/
def Register.Shows (g : Register) (past : List Probe) (name : String) (st : InstanceState)
    (content : Bytes) : Prop :=
  content = Utf8.encode (g.text st) ∨
    content = [] ∧ g.isFlag = true ∧ g.text st = "0" ∧ ∀ p ∈ past, ¬ p.Sets name g

/-- `Mirrors cwd root past r t`: after the probes of `past`, the recording `r` and the tree `t` below
`root` have the same instances, and the same is set on each of them. -/
structure Mirrors (cwd : Location) (root : TracingRoot) (past : List Probe) (r : Recording)
    (t : FileTree) : Prop where
  noLinks : t.NoLinks
  /-- The names are such as a directory can have. -/
  isName : ∀ name, r.instances.get? name ≠ none → Path.IsName (Utf8.encode name)
  directories : ∃ dir, t.find cwd (root.path.join "instances") = .ok (dir, .directory) ∧
    ∀ n, t.get? (dir ++ [n]) = some .directory ↔
      ∃ name, r.instances.get? name ≠ none ∧ Utf8.encode name = n
  files : ∀ name st, r.instances.get? name = some st → ∀ g : Register, ∃ loc content mode,
    t.find cwd (g.file ((root.path.join "instances").join name)) = .ok (loc, .file content mode) ∧
      g.Shows past name st content

variable {cwd loc : Location} {root : TracingRoot} {past : List Probe} {r r' : Recording}
  {t t' : FileTree} {g g' : Register}

theorem place_file {name : String} (hname : Path.IsName (Utf8.encode name)) (g : Register) :
    FileTree.place cwd (g.file (root.instanceDir name)) =
      FileTree.place cwd root.instancesDir ++ Utf8.encode name :: g.names.map Utf8.encode := by
  change FileTree.place cwd (root.instancesDir.joinNames (_ :: _)) = _
  exact FileTree.place_joinNames (List.forall_mem_cons.2 ⟨hname, g.isName_names⟩) _ cwd

/-- Different files of instances are at different places. -/
theorem eq_of_find_file (ht : t.NoLinks) {name name' : String} {e e' : Entry}
    (hname : Path.IsName (Utf8.encode name)) (hname' : Path.IsName (Utf8.encode name'))
    (h : t.find cwd (g.file (root.instanceDir name)) = .ok (loc, e))
    (h' : t.find cwd (g'.file (root.instanceDir name')) = .ok (loc, e')) :
    name = name' ∧ g = g' := by
  have hplace := (FileTree.eq_place_of_find ht h).symm.trans (FileTree.eq_place_of_find ht h')
  rw [place_file hname, place_file hname'] at hplace
  obtain ⟨hfirst, hrest⟩ := List.cons.inj (List.append_cancel_left hplace)
  have hinjective : Function.Injective Utf8.encode := fun _ _ => Utf8.encode_injective
  exact ⟨hinjective hfirst, Register.names_injective (hinjective.list_map hrest)⟩

theorem Register.Shows.note {name : String} {st : InstanceState} {content : Bytes} {p : Probe}
    (h : g.Shows past name st content) (hp : ¬ p.Sets name g) :
    g.Shows (past ++ [p]) name st content := by
  refine h.imp_right fun ⟨hempty, hflag, hoff, hpast⟩ => ⟨hempty, hflag, hoff, ?_⟩
  exact List.forall_mem_append.2 ⟨hpast, List.forall_mem_singleton.2 hp⟩

/-- What a setting is not about is on every instance as before. -/
theorem Probe.exists_text_eq {m : SortedMap String InstanceState} {name : InstanceName}
    {name' : String} {s : Setting} {st st' : InstanceState} (hst : m.get? name.text = some st)
    (hother : ¬ (Probe.set name s).Sets name' g)
    (h : (m.insert name.text (st.apply s)).get? name' = some st') :
    ∃ st₀, m.get? name' = some st₀ ∧ g.text st' = g.text st₀ := by
  rw [SortedMap.get?_insert] at h
  split at h
  · next heq =>
      cases h
      exact ⟨st, heq ▸ hst, Setting.text_apply_of_ne (fun hs => hother ⟨heq.symm, hs⟩) st⟩
  · exact ⟨st', h, rfl⟩

namespace Mirrors

theorem note (h : Mirrors cwd root past r t) {p : Probe} (hp : ∀ name g, ¬ p.Sets name g) :
    Mirrors cwd root (past ++ [p]) r t := by
  refine ⟨h.noLinks, h.isName, h.directories, fun name st hst g => ?_⟩
  obtain ⟨loc, content, mode, hfind, hshows⟩ := h.files name st hst g
  exact ⟨loc, content, mode, hfind, hshows.note (hp name g)⟩

/-! ### Settings -/

theorem fileAt (h : Mirrors cwd root past r t) {name : String}
    (hlive : r.instances.get? name ≠ none) (g : Register) :
    ∃ loc, t.fileAt cwd (g.file (root.instanceDir name)) = .ok loc := by
  obtain ⟨st, hst⟩ := Option.ne_none_iff_exists'.1 hlive
  obtain ⟨loc, content, mode, hfind, -⟩ := h.files name st hst g
  exact ⟨loc, FileTree.fileAt_eq_ok.2 ⟨content, mode, hfind⟩⟩

/-- The setting replaces what one of the files shows, and the others show what they have shown. -/
theorem rewrite (h : Mirrors cwd root past r t) {name : InstanceName} {s : Setting}
    {st : InstanceState} (hst : r.instances.get? name.text = some st) (hs : s.register? = some g)
    (hins : r'.instances = r.instances.insert name.text (st.apply s))
    (hat : t.fileAt cwd (g.file (root.instanceDir name.text)) = .ok loc)
    (hfilled : t.Filled [loc] (Utf8.encode s.value) t') :
    Mirrors cwd root (past ++ [.set name s]) r' t' := by
  have hlive : ∀ name', r'.instances.get? name' ≠ none ↔ r.instances.get? name' ≠ none := by
    intro name'
    rw [hins, SortedMap.get?_insert]
    split
    · next heq => simp [heq, hst]
    · exact Iff.rfl
  obtain ⟨dir, hdir, hdirs⟩ := h.directories
  obtain ⟨content, mode, hfind⟩ := FileTree.fileAt_eq_ok.1 hat
  refine ⟨hfilled.sameShape.noLinks h.noLinks,
    fun name' hname' => h.isName name' ((hlive name').1 hname'),
    ⟨dir, hfilled.sameShape.find_directory hdir, fun n => ?_⟩, fun name' st' hst' g' => ?_⟩
  · simp only [hfilled.sameShape.get?_directory, hdirs, hlive]
  rw [hins] at hst'
  -- the file that is rewritten, and any other one, which is at another place
  by_cases hsets : (Probe.set name s).Sets name' g'
  · obtain ⟨rfl, hs'⟩ := hsets
    cases hs.symm.trans hs'
    rw [SortedMap.get?_insert_self] at hst'
    cases hst'
    have hfind' := hfilled.find hfind
    rw [if_pos (List.mem_singleton_self loc)] at hfind'
    exact ⟨loc, _, mode, hfind', .inl (by rw [Setting.text_apply hs])⟩
  · obtain ⟨st₀, hst₀, htext⟩ := Probe.exists_text_eq hst hsets hst'
    obtain ⟨loc', content', mode', hfind₀, hshows⟩ := h.files name' st₀ hst₀ g'
    have hapart : loc' ∉ [loc] := by
      rw [List.mem_singleton]
      rintro rfl
      obtain ⟨rfl, rfl⟩ := eq_of_find_file h.noLinks name.isName (h.isName name' (by simp [hst₀]))
        hfind hfind₀
      exact hsets ⟨rfl, hs⟩
    have hfind' := hfilled.find hfind₀
    rw [if_neg hapart] at hfind'
    refine ⟨loc', content', mode', hfind', Register.Shows.note ?_ hsets⟩
    rw [Register.Shows, htext]
    exact hshows

/-! ### Looking for an instance -/

theorem isDirectory_iff (h : Mirrors cwd root past r t) (name : InstanceName) :
    t.isDirectory cwd (root.instanceDir name.text) = true ↔ r.instances.get? name.text ≠ none := by
  obtain ⟨dir, hdir, hdirs⟩ := h.directories
  have hjoin := FileTree.isDirectory_join name.isName h.noLinks
    name.length_le (FileTree.enters_of_find h.noLinks hdir)
  change t.isDirectory cwd ((root.path.join "instances").join ⟨Utf8.encode name.text⟩) = true ↔ _
  rw [hjoin, hdirs]
  constructor
  · rintro ⟨-, name', hlive, heq⟩
    rwa [Utf8.encode_injective heq] at hlive
  · intro hlive
    refine ⟨?_, name.text, hlive, rfl⟩
    -- the path to `tracing_on` is not too long, so the one to the directory is not either
    obtain ⟨loc, hat⟩ := h.fileAt hlive .tracing
    refine FileTree.checkPath_of_leadsTo ((Path.LeadsTo.refl _).join (r := "tracing_on") (by decide))
      (root.bytes_instanceDir name) ?_
    cases hcheck : FileTree.checkPath (Register.tracing.file (root.instanceDir name.text)) with
    | ok => exact hcheck
    | error e =>
        rw [FileTree.fileAt, FileTree.find, FileTree.resolve, hcheck] at hat
        cases hat

/-! ### Listing the instances -/

theorem directoryNames_ordered (t : FileTree) (dir : Location) :
    (directoryNames (t.children dir)).Pairwise (· < ·) := by
  rw [directoryNames]
  refine List.Pairwise.filterMap _ (fun a b hlt name hname name' hname' => ?_)
    ((t.children_ordered dir).sublist List.filter_sublist)
  rw [← Utf8.decode?_eq_some.1 hname, ← Utf8.decode?_eq_some.1 hname'] at hlt
  exact Utf8.encode_lt_iff.1 hlt

theorem mem_directoryNames {dir : Location} {name : String} :
    name ∈ directoryNames (t.children dir) ↔
      t.get? (dir ++ [Utf8.encode name]) = some .directory := by
  rw [directoryNames, List.mem_filterMap]
  constructor
  · rintro ⟨⟨n, e⟩, hmem, hname⟩
    obtain ⟨hmem, hdir⟩ := List.mem_filter.1 hmem
    rw [Utf8.decode?_eq_some.1 hname, FileTree.mem_children.1 hmem]
    cases e with
    | directory => rfl
    | file | link => cases hdir
  · intro hget
    exact ⟨_, List.mem_filter.2 ⟨FileTree.mem_children.2 hget, rfl⟩, Utf8.decode?_encode name⟩

theorem directoryNames_eq (h : Mirrors cwd root past r t) :
    (t.list cwd root.instancesDir).map directoryNames = .ok r.instances.keys := by
  obtain ⟨dir, hdir, hdirs⟩ := h.directories
  have hkeys : r.instances.keys.Pairwise (· < ·) := List.pairwise_map.2 r.instances.ordered
  have hlist : t.list cwd root.instancesDir = .ok (t.children dir) := by
    rw [FileTree.list, TracingRoot.instancesDir, hdir]
    rfl
  rw [hlist]
  refine congrArg Except.ok ((directoryNames_ordered t dir).eq_of_mem_iff hkeys fun name => ?_)
  rw [mem_directoryNames, hdirs, SortedMap.mem_keys]
  constructor
  · rintro ⟨name', hlive, heq⟩
    rwa [Utf8.encode_injective heq] at hlive
  · exact fun hlive => ⟨name, hlive, rfl⟩

end Mirrors

/-! ## One probe and many -/

variable {ps : List Probe} {p : Probe} {es : List (Event (Actions Backend))}
  {fs : List (Event (Actions FileSystem))}

namespace Mirrors

theorem step_set (h : Mirrors cwd root past r t) (hfailing : ∀ k, r.failing k = 0)
    {name : InstanceName} {s : Setting} (hp : (Probe.set name s).IsOn r) {o o' : Outcome}
    (hrec : RunsOn Recording.responder ((Probe.set name s).run Recording.root) r es o r')
    (hfiles : RunsOn (FileTree.responder cwd) (realize root ((Probe.set name s).run root)) t fs o'
      t') :
    o = .set (.ok ()) ∧ o' = .set (.ok ()) ∧ Mirrors cwd root (past ++ [.set name s]) r' t' ∧
      (∀ k, r'.failing k = 0) ∧ ∀ n, r'.instances.get? n =
        (r.instances.get? n).map fun st => (Probe.set name s).apply n st := by
  obtain ⟨hlive, hs⟩ := hp
  obtain ⟨g, hs⟩ := Option.ne_none_iff_exists'.1 hs
  obtain ⟨made, rest, r₁, rfl, hstep, hend⟩ := hrec.after_backend
  obtain ⟨-, rfl, rfl⟩ := runsOn_pure.1 hend
  obtain ⟨own, rest, written, t₁, rfl, hown, hend⟩ := after_call hfiles
  obtain ⟨-, rfl, rfl⟩ := runsOn_pure.1 hend
  obtain ⟨loc, hat⟩ := h.fileAt hlive g
  obtain ⟨hwritten, rfl⟩ := runsOn_set hown
  have hfilled := hwritten.filled
  rw [Setting.files_of_register? hs, FileTree.rewritable_cons_of_ok hat []] at hfilled ⊢
  obtain ⟨-, hless, ⟨e, -, -, hfail | hgone⟩ | ⟨st, rfl, hst, hins⟩⟩ := Recording.set_cases hstep
  · exact absurd hfail (hfailing _ ▸ Nat.lt_irrefl 0)
  · exact absurd hgone hlive
  · refine ⟨rfl, rfl, h.rewrite hst hs hins hat hfilled, fun k => ?_, fun n => ?_⟩
    · exact Nat.le_zero.1 (hfailing k ▸ hless k)
    · rw [hins, SortedMap.get?_insert]
      split
      · next heq =>
          rw [heq, hst, Option.map_some, Probe.apply, if_pos rfl]
      · next hne =>
          simp only [Probe.apply, if_neg (Ne.symm hne), Option.map_id']

theorem step_find (h : Mirrors cwd root past r t) {name : InstanceName} {o o' : Outcome}
    (hrec : RunsOn Recording.responder ((Probe.find name).run Recording.root) r es o r')
    (hfiles : RunsOn (FileTree.responder cwd) (realize root ((Probe.find name).run root)) t fs o'
      t') :
    (∃ found, o = .find found ∧ o' = .find found) ∧ r' = r ∧ t' = t := by
  obtain ⟨found, rest, r₁, rfl, hstep, hend⟩ := hrec.after_backend
  obtain ⟨-, rfl, rfl⟩ := runsOn_pure.1 hend
  obtain ⟨own, rest, found', t₁, rfl, hown, hend⟩ := after_call hfiles
  obtain ⟨-, rfl, rfl⟩ := runsOn_pure.1 hend
  obtain ⟨rfl, -, rfl⟩ := runsOn_find hown
  obtain ⟨rfl, ⟨rfl, hgone⟩ | ⟨st, rfl, hst⟩⟩ := Recording.find_cases hstep
  · rw [if_neg fun hdir => (h.isDirectory_iff name).1 hdir hgone]
    exact ⟨⟨_, rfl, rfl⟩, rfl, rfl⟩
  · rw [if_pos ((h.isDirectory_iff name).2 (by simp [hst]))]
    exact ⟨⟨_, rfl, rfl⟩, rfl, rfl⟩

theorem step_names (h : Mirrors cwd root past r t) {o o' : Outcome}
    (hrec : RunsOn Recording.responder (Probe.names.run Recording.root) r es o r')
    (hfiles : RunsOn (FileTree.responder cwd) (realize root (Probe.names.run root)) t fs o' t') :
    (∃ listed, o = .names listed ∧ o' = .names listed) ∧ r' = r ∧ t' = t := by
  obtain ⟨listed, rest, r₁, rfl, hstep, hend⟩ := hrec.after_backend
  obtain ⟨-, rfl, rfl⟩ := runsOn_pure.1 hend
  obtain ⟨own, rest, listed', t₁, rfl, hown, hend⟩ := after_call hfiles
  obtain ⟨-, rfl, rfl⟩ := runsOn_pure.1 hend
  obtain ⟨rfl, -, rfl⟩ := runsOn_subdirectories hown
  cases hstep
  rw [h.directoryNames_eq]
  exact ⟨⟨_, rfl, rfl⟩, rfl, rfl⟩

/-- A probe has the same outcome on both sides, and leaves them as much alike as they were. -/
theorem step (h : Mirrors cwd root past r t) (hfailing : ∀ k, r.failing k = 0) (hp : p.IsOn r)
    {o o' : Outcome} (hrec : RunsOn Recording.responder (p.run Recording.root) r es o r')
    (hfiles : RunsOn (FileTree.responder cwd) (realize root (p.run root)) t fs o' t') :
    (o' = o ∧ ∀ made, o = .set made → made = .ok ()) ∧ Mirrors cwd root (past ++ [p]) r' t' ∧
      (∀ k, r'.failing k = 0) ∧
      ∀ n, r'.instances.get? n = (r.instances.get? n).map fun st => p.apply n st := by
  cases p with
  | set name s =>
      obtain ⟨rfl, rfl, hmirrors, hfailing, hset⟩ := h.step_set hfailing hp hrec hfiles
      refine ⟨⟨rfl, ?_⟩, hmirrors, hfailing, hset⟩
      rintro made ⟨⟩
      rfl
  | find name =>
      obtain ⟨⟨found, rfl, rfl⟩, rfl, rfl⟩ := h.step_find hrec hfiles
      exact ⟨⟨rfl, nofun⟩, h.note fun _ _ => id, hfailing, fun n => Option.map_id'.symm⟩
  | names =>
      obtain ⟨⟨listed, rfl, rfl⟩, rfl, rfl⟩ := h.step_names hrec hfiles
      exact ⟨⟨rfl, nofun⟩, h.note fun _ _ => id, hfailing, fun n => Option.map_id'.symm⟩

theorem run (h : Mirrors cwd root past r t) (hfailing : ∀ k, r.failing k = 0)
    (hps : ∀ p ∈ ps, p.IsOn r) {outcomes outcomes' : List Outcome}
    (hrec : RunsOn Recording.responder (Probe.runAll Recording.root ps) r es outcomes r')
    (hfiles : RunsOn (FileTree.responder cwd) (realize root (Probe.runAll root ps)) t fs outcomes'
      t') :
    outcomes' = outcomes ∧ (∀ made, .set made ∈ outcomes → made = .ok ()) ∧
      (∀ name, r'.instances.get? name =
        (r.instances.get? name).map fun st => ps.foldl (Probe.apply name) st) ∧
      Mirrors cwd root (past ++ ps) r' t' := by
  induction ps generalizing past r t es fs outcomes outcomes' with
  | nil =>
      obtain ⟨-, rfl, rfl⟩ := runsOn_pure.1 hrec
      obtain ⟨-, rfl, rfl⟩ := runsOn_pure.1 hfiles
      rw [List.append_nil]
      exact ⟨rfl, fun _ => nofun, fun name => Option.map_id'.symm, h⟩
  | cons p ps ih =>
      obtain ⟨hp, hps⟩ := List.forall_mem_cons.1 hps
      obtain ⟨es₁, es₂, o, r₁, rfl, hfirst, hrest⟩ := runsOn_bind.1 hrec
      obtain ⟨es₂, es₃, os, r₂, rfl, hlater, hend⟩ := runsOn_bind.1 hrest
      obtain ⟨-, rfl, rfl⟩ := runsOn_pure.1 hend
      obtain ⟨fs₁, fs₂, o', t₁, rfl, hfirst', hrest⟩ := runsOn_realize_bind.1 hfiles
      obtain ⟨fs₂, fs₃, os', t₂, rfl, hlater', hend⟩ := runsOn_realize_bind.1 hrest
      obtain ⟨-, rfl, rfl⟩ := runsOn_pure.1 hend
      obtain ⟨⟨rfl, hmade⟩, hmirrors, hfailing, hset⟩ := h.step hfailing hp hfirst hfirst'
      obtain ⟨rfl, hmades, hsets, hmirrors⟩ :=
        ih hmirrors hfailing (fun q hq => (hps q hq).of_map hset) hlater hlater'
      refine ⟨rfl, fun made hmem => ?_, fun name => ?_, List.append_assoc past [p] ps ▸ hmirrors⟩
      · rcases List.mem_cons.1 hmem with heq | hmem
        · exact hmade made heq.symm
        · exact hmades made hmem
      · rw [hsets, hset, Option.map_map]
        rfl

end Mirrors

/-- A recording and a tree of control files that have the same instances, with the same set on each
of them, cannot be told apart by settings on these instances, by looking for instances and by
listing them. Every probe has the same outcome on both sides and every setting succeeds. Then the
recording has on each instance what was set last, and the tree has the same. -/
theorem recording_mirrors_files (h : Mirrors cwd root past r t) (hfailing : ∀ k, r.failing k = 0)
    (hps : ∀ p ∈ ps, p.IsOn r) :
    Ensures Recording.responder (Probe.runAll Recording.root ps) r fun _ outcomes r' =>
      Ensures (FileTree.responder cwd) (realize root (Probe.runAll root ps)) t fun _ outcomes' t' =>
        outcomes' = outcomes ∧ (∀ made, .set made ∈ outcomes → made = .ok ()) ∧
          (∀ name, r'.instances.get? name =
            (r.instances.get? name).map fun st => ps.foldl (Probe.apply name) st) ∧
          Mirrors cwd root (past ++ ps) r' t' := by
  refine ⟨exists_runsOn_of_answers (fun s op => ⟨_, _, rfl⟩) _ r, fun es outcomes r' hrec => ?_⟩
  refine ⟨FileTree.exists_runsOn _ t cwd, fun fs outcomes' t' hfiles => ?_⟩
  exact h.run hfailing hps hrec hfiles

/-- A tree with one instance on which nothing was ever set. -/
def untouched : FileTree :=
  [("tracing_on", "0"), ("options/event-fork", "0"), ("options/function-fork", ""),
    ("set_event_pid", ""), ("set_ftrace_pid", "")].foldl
    (fun t (name, content) =>
      let loc := ((Path.ofString "/t/instances/a").join (Path.ofString name)).steps
      (t.putParents loc).put loc (.file (Utf8.encode content) 0o644))
    .empty

theorem untouched_mirrors :
    Mirrors [] ⟨"/t", .tracefs⟩ [] (Recording.empty.withInstance "a") untouched := by
  let dir : Location := ["t", "instances"].map Utf8.encode
  have hlive : ∀ name st, (Recording.empty.withInstance "a").instances.get? name = some st →
      name = "a" ∧ st = .fresh := by
    intro name st h
    rw [Recording.withInstance, SortedMap.get?_insert] at h
    split at h
    · next heq => exact ⟨heq, (Option.some.inj h).symm⟩
    · cases h
  have honly : ∀ x ∈ untouched.entries.entries,
      x.1.dropLast = dir → x.1.getLast? = some (Utf8.encode "a") := by
    decide +kernel
  refine ⟨FileTree.noLinks_of_entries (by decide +kernel), fun name hname => ?_,
    ⟨dir, ?_, fun n => ⟨fun hget => ?_, ?_⟩⟩, fun name st hst g => ?_⟩
  · obtain ⟨st, hst⟩ := Option.ne_none_iff_exists'.1 hname
    rw [(hlive name st hst).1]
    decide
  · exact FileTree.find_of_get? rfl (by decide +kernel) (by decide +kernel) (by decide +kernel)
      (by simp) (by decide +kernel)
  · rw [FileTree.get?, if_neg (by simp)] at hget
    have hname := honly _ ((SortedMap.get?_eq_some_iff _ _ _).1 hget)
    rw [List.dropLast_concat, List.getLast?_concat] at hname
    exact ⟨"a", by decide, (Option.some.inj (hname rfl)).symm⟩
  · rintro ⟨name, hname, rfl⟩
    obtain ⟨st, hst⟩ := Option.ne_none_iff_exists'.1 hname
    rw [(hlive name st hst).1]
    decide +kernel
  · obtain ⟨rfl, rfl⟩ := hlive name st hst
    have hfind : ∀ content,
        untouched.get? (dir ++ Utf8.encode "a" :: g.names.map Utf8.encode) =
            some (.file content 0o644) →
          untouched.find [] (g.file (TracingRoot.instanceDir ⟨"/t", .tracefs⟩ "a")) =
            .ok (dir ++ Utf8.encode "a" :: g.names.map Utf8.encode, .file content 0o644) := by
      intro content hget
      rcases g with _ | ⟨_ | _⟩ | _ | _
      all_goals
        exact FileTree.find_of_get? rfl (by decide +kernel) (by decide +kernel) hget (by simp)
          (by decide +kernel)
    rcases g with _ | ⟨_ | _⟩ | _ | _
    case option.functionFork =>
      refine ⟨_, _, _, hfind [] (by decide +kernel), .inr ⟨rfl, rfl, rfl, ?_⟩⟩
      exact fun _ hp => absurd hp List.not_mem_nil
    all_goals exact ⟨_, _, _, hfind _ (by decide +kernel), .inl rfl⟩

/-- A flag whose file was empty is turned on, another one is turned on and off again, and a filter is
set. -/
theorem recording_mirrors_files_untouched :
    let root : TracingRoot := ⟨"/t", .tracefs⟩
    let r := Recording.empty.withInstance "a"
    let a : InstanceName := ⟨"a", by decide⟩
    let ps : List Probe := [.names, .find a, .set a (.option .functionFork true),
      .set a (.tracing true), .set a (.eventPids [7, 8]), .set a (.tracing false),
      .find ⟨"b", by decide⟩]
    Mirrors [] root [] r untouched ∧ (∀ k, r.failing k = 0) ∧ (∀ p ∈ ps, p.IsOn r) ∧
      ∃ es outcomes r' fs t',
        RunsOn Recording.responder (Probe.runAll Recording.root ps) r es outcomes r' ∧
        RunsOn (FileTree.responder []) (realize root (Probe.runAll root ps)) untouched fs outcomes
          t' ∧
        (∃ loc mode, t'.find [] "/t/instances/a/options/function-fork" =
          .ok (loc, .file (Utf8.encode "1") mode)) ∧
        (∃ loc mode, t'.find [] "/t/instances/a/tracing_on" =
          .ok (loc, .file (Utf8.encode "0") mode)) ∧
        ∃ loc mode, t'.find [] "/t/instances/a/set_event_pid" =
          .ok (loc, .file (Utf8.encode "7 8") mode) := by
  intro root r a ps
  have hfailing : ∀ k, r.failing k = 0 := fun _ => rfl
  have hlive : r.instances.get? "a" ≠ none := by decide
  have hon : ∀ p ∈ ps, p.IsOn r := by
    simp only [ps, List.forall_mem_cons]
    exact ⟨trivial, trivial, ⟨hlive, nofun⟩, ⟨hlive, nofun⟩, ⟨hlive, nofun⟩, ⟨hlive, nofun⟩,
      trivial, nofun⟩
  refine ⟨untouched_mirrors, hfailing, hon, ?_⟩
  obtain ⟨-, hrecording⟩ := recording_mirrors_files untouched_mirrors hfailing hon
  have hrec := runsOn_drive Recording.answer
    ⟨0, .deadline, fun _ => .error (.wait (.os .notFound))⟩ (Probe.runAll Recording.root ps) r
  obtain ⟨⟨fs, outcomes, t', hfiles⟩, hboth⟩ := hrecording _ _ _ hrec
  obtain ⟨rfl, -, hsets, hmirrors⟩ := hboth fs outcomes t' hfiles
  have hstate : r.instances.get? "a" = some .fresh := by decide
  have hshown := hmirrors.files "a" _ ((hsets "a").trans (congrArg (Option.map _) hstate))
  -- what has been set is no longer shown by an empty file
  have hheld : ∀ g : Register, (∃ p ∈ ps, p.Sets "a" g) → ∃ loc mode,
      t'.find [] (g.file "/t/instances/a") =
        .ok (loc, .file (Utf8.encode (g.text (ps.foldl (Probe.apply "a") .fresh))) mode) := by
    rintro g ⟨p, hp, hset⟩
    obtain ⟨loc, content, mode, hfind, rfl | ⟨-, -, -, hpast⟩⟩ := hshown g
    · exact ⟨loc, mode, hfind⟩
    · exact absurd hset (hpast p hp)
  refine ⟨_, _, _, fs, t', hrec, hfiles, ?_, ?_, ?_⟩
  · exact hheld (.option .functionFork)
      ⟨.set a (.option .functionFork true), by simp [ps], rfl, rfl⟩
  · exact hheld .tracing ⟨.set a (.tracing false), by simp [ps], rfl, rfl⟩
  · exact hheld .eventPids ⟨.set a (.eventPids [7, 8]), by simp [ps], rfl, rfl⟩

end KernelTrace
