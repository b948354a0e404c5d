import Mathlib
import KernelTrace.Proofs.ChosenCalls
import KernelTrace.Proofs.EventSets
import KernelTrace.Proofs.PlainBinding
import KernelTrace.Proofs.SessionFiles

/-!
# What a trace can touch

The names of system calls come from the command line and end up in paths, where a name with a
separator or two dots would lead anywhere. It does not come to that. A name counts only if it is the
name of an event, and events are the names of directories in a listing, so whatever a path is made
of has been the name of something in a directory, or is a name that is given here.

So every path that a trace changes is that of an instance with names behind it (`Within`), and the
instance is the one that was asked for or one under a random name that it has tried to make.
-/

namespace KernelTrace

open Program Actions

/-! ## The events that can be chosen -/

/-- Whether the set has events of system calls only, each of them the name of something. -/
def EventSet.OnlyCalls (s : EventSet) : Prop :=
  ∀ system events, s.systems.get? system = some events →
    system = SystemCalls.system ∧ ∀ event ∈ events, Path.IsName (Utf8.encode event)

namespace EventSet

theorem MadeOf.onlyCalls {s : EventSet}
    (h : s.MadeOf fun system event =>
      system = SystemCalls.system ∧ Path.IsName (Utf8.encode event)) : s.OnlyCalls := by
  intro system events hget
  obtain ⟨hne, hevents⟩ := h system events hget
  obtain ⟨event, hevent⟩ := List.exists_mem_of_ne_nil events hne
  exact ⟨(hevents event hevent).1, fun e he => (hevents e he).2⟩

theorem onlyCalls_ofEvents {events : List String}
    (h : ∀ event ∈ events, Path.IsName (Utf8.encode event)) :
    (SystemCalls.ofEvents events).OnlyCalls := by
  refine MadeOf.onlyCalls (madeOf_ofList fun x hx => ?_)
  obtain ⟨event, hevent, rfl⟩ := List.mem_map.1 hx
  exact ⟨rfl, h event hevent⟩

end EventSet

namespace SystemCalls

variable {available names : List String}

theorem onlyCalls_of_choose {events : EventSet}
    (h : ∀ event ∈ available, Path.IsName (Utf8.encode event))
    (hchoose : choose available names = .ok events) : events.OnlyCalls := by
  rw [choose] at hchoose
  split at hchoose
  · cases hchoose
    split
    · exact (EventSet.madeOf_empty.insert ⟨rfl, by decide⟩).onlyCalls
    · exact EventSet.onlyCalls_ofEvents fun event he => h event (List.mem_of_mem_filter he)
  · cases hresolve : resolve available names with
    | error e =>
        rw [hresolve] at hchoose
        cases hchoose
    | ok chosen =>
        rw [hresolve] at hchoose
        cases hchoose
        exact EventSet.onlyCalls_ofEvents fun event he => h event (mem_of_resolve hresolve event he)

end SystemCalls

variable {cwd : Location} {t t' : FileTree} {root : TracingRoot}

/-- What a directory is listed with are names. -/
theorem isName_of_list (ht : t.Plain) {dir : Path} {entries : List (Bytes × Entry)}
    (h : t.list cwd dir = .ok entries) : ∀ e ∈ entries, Path.IsName e.1 := by
  rw [FileTree.list] at h
  cases hfind : t.find cwd dir with
  | error e =>
      rw [hfind] at h
      cases h
  | ok found =>
      rw [hfind] at h
      match found with
      | (loc, .directory) =>
          cases h
          exact fun e he => ht.isName (FileTree.mem_children.1 he)
      | (_, .file ..) | (_, .link _) => cases h

theorem isName_of_directoryNames {entries : List (Bytes × Entry)}
    (h : ∀ e ∈ entries, Path.IsName e.1) :
    ∀ name ∈ ControlFiles.directoryNames entries, Path.IsName (Utf8.encode name) := by
  intro name hname
  obtain ⟨e, he, hdecode⟩ := List.mem_filterMap.1 hname
  rw [Utf8.decode?_eq_some.1 hdecode]
  exact h e (List.mem_of_mem_filter he)

theorem onlyCalls_of_chosenIn (ht : t.Plain) {names : List String} {events : EventSet}
    (h : SystemCalls.chosenIn t cwd root names = .ok events) : events.OnlyCalls := by
  rw [SystemCalls.chosenIn] at h
  cases hlist : t.list cwd (root.eventsDir.join SystemCalls.system) with
  | error e =>
      rw [hlist] at h
      cases h
  | ok entries =>
      rw [hlist] at h
      exact SystemCalls.onlyCalls_of_choose (isName_of_directoryNames (isName_of_list ht hlist)) h

/-! ## The paths of an instance -/

/-- Whether a path is a directory or is in it, by names alone. Behind `events` there is nothing but
the events of system calls. -/
def Within (dir p : Path) : Prop :=
  ∃ names : List Bytes, (∀ n ∈ names, Path.IsName n) ∧ p = dir.joinNames names ∧
    (names.head? = some (Utf8.encode "events") →
      ∃ more, names = Utf8.encode "events" :: Utf8.encode SystemCalls.system :: more)

theorem within_self (dir : Path) : Within dir dir := ⟨[], nofun, rfl, nofun⟩

theorem within_join {dir : Path} {n : Bytes} (hn : Path.IsName n) (h : n ≠ Utf8.encode "events") :
    Within dir (dir.join ⟨n⟩) := by
  refine ⟨[n], List.forall_mem_singleton.2 hn, rfl, fun hhead => ?_⟩
  exact absurd (Option.some.inj hhead) h

theorem EventSet.OnlyCalls.isNamed {events : EventSet} (h : events.OnlyCalls) :
    events.IsNamed := by
  intro system chosen hget
  obtain ⟨rfl, hchosen⟩ := h system chosen hget
  exact ⟨by decide, hchosen⟩

/-- The control files of what a session sets. -/
theorem within_files {r : TraceRequest} (hr : r.events.OnlyCalls) {s : Setting}
    (hs : s ∈ r.arming ∨ s = .tracing true ∨ s ∈ r.draining) {i : Instance} :
    ∀ p ∈ s.files i, Within i.dir p := by
  have hown := fun chosen on (heq : s = .events chosen on) => TraceRequest.events_of_mem hs heq
  intro p hp
  obtain ⟨names, hnames, rfl, hevents⟩ :=
    Setting.exists_names_of_mem_files hp fun chosen on heq => hown chosen on heq ▸ hr.isNamed
  refine ⟨names, hnames, rfl, fun hhead => ?_⟩
  obtain ⟨chosen, on, system, events, more, rfl, hget, rfl⟩ := hevents hhead
  obtain rfl := hown chosen on rfl
  obtain ⟨rfl, -⟩ := hr system events hget
  exact ⟨more, rfl⟩

/-! ## What a call changes -/

section Calls

variable {name : InstanceName} {es : List (Event (Actions FileSystem))}

/-- A creation starts with the directory of the instance and changes nothing outside of it. -/
theorem within_of_create {a : Except TracingError Instance}
    (h : Runs (ControlFiles.create root name) es a) :
    (∃ made, (⟨.makeDir (root.instanceDir name.text), made⟩ : Event FileSystem) ∈ calls es) ∧
      (∀ e ∈ calls es, ∀ p, e.1.changed? = some p → Within (root.instanceDir name.text) p) ∧
      ∀ i, a = .ok i → i = ⟨name, root.instanceDir name.text⟩ := by
  have hdir := within_self (root.instanceDir name.text)
  have hfile : Within (root.instanceDir name.text)
      (ControlFiles.tracingFile ⟨name, root.instanceDir name.text⟩) :=
    within_join (by decide) (by decide +kernel)
  have hcourse := ControlFiles.runs_create h
  generalize Actions.calls es = fs at hcourse ⊢
  cases hcourse with
  | refused e => exact ⟨⟨_, List.mem_cons_self⟩, by simpa [FileOp.changed?] using hdir, nofun⟩
  | undone e removed =>
      exact ⟨⟨_, List.mem_cons_self⟩, by simpa [FileOp.changed?] using ⟨hdir, hfile, hdir⟩, nofun⟩
  | created =>
      exact ⟨⟨_, List.mem_cons_self⟩, by simpa [FileOp.changed?] using ⟨hdir, hfile⟩,
        fun i hi => (Except.ok.inj hi).symm⟩

theorem reads_of_find {a : Except TracingError (Option Instance)}
    (h : Runs (ControlFiles.find root name) es a) :
    Reads es ∧ ∀ i, a = .ok (some i) → i = ⟨name, root.instanceDir name.text⟩ ∧
      ∃ status, FileStatus.isDirectory status = true ∧
        (⟨.status (root.instanceDir name.text), status⟩ : Event FileSystem) ∈ calls es := by
  obtain ⟨status, hcalls, rfl⟩ := ControlFiles.runs_find h
  rw [Reads, hcalls]
  refine ⟨List.forall_mem_singleton.2 rfl, fun i hi => ?_⟩
  have hfound := Except.ok.inj hi
  split at hfound
  · next hdir =>
      cases hfound
      exact ⟨rfl, status, hdir, List.mem_cons_self⟩
  · cases hfound

end Calls

/-! ## What a session changes -/

/-- `Owned inst root fs name`: given the name that was asked for if there was one, the instance was
bound or tried to make by what was done to the files. -/
inductive Owned (inst : Option InstanceName) (root : TracingRoot) (fs : List (Event FileSystem))
    (name : InstanceName) : Prop where
  | found {status : Except IoError FileStatus} (named : inst = some name)
      (live : FileStatus.isDirectory status = true)
      (looked : (⟨.status (root.instanceDir name.text), status⟩ : Event FileSystem) ∈ fs) :
      Owned inst root fs name
  | tried {made : Except IoError Unit}
      (named : inst = some name ∨ inst = none ∧ ∃ d, name = .random d)
      (asked : (⟨.makeDir (root.instanceDir name.text), made⟩ : Event FileSystem) ∈ fs) :
      Owned inst root fs name

theorem Owned.mono {inst : Option InstanceName} {fs fs' : List (Event FileSystem)}
    {name : InstanceName} (h : Owned inst root fs name) (hsub : ∀ e ∈ fs, e ∈ fs') :
    Owned inst root fs' name := by
  cases h with
  | found named live looked => exact .found named live (hsub _ looked)
  | tried named asked => exact .tried named (hsub _ asked)

theorem Owned.eq_of_some {fs : List (Event FileSystem)} {wanted name : InstanceName}
    (h : Owned (some wanted) root fs name) : name = wanted := by
  cases h with
  | found named => exact (Option.some.inj named).symm
  | tried named =>
      obtain hsome | ⟨hnone, -⟩ := named
      · exact (Option.some.inj hsome).symm
      · cases hnone

section Session

variable {inst : Option InstanceName} {cs : List (Event Backend)} {fs : List (Event FileSystem)}

/-- An instance whose creation was asked for by a binding is its own. -/
theorem owned_of_create {name : InstanceName} {a : Except TracingError Instance}
    (hconcerns : Instances.Concerns inst (.createInstance name))
    (h : Carries (FileTree.responder cwd) (ControlFiles.answer root) t cs fs t')
    (hmem : (⟨.createInstance name, a⟩ : Event Backend) ∈ cs) : Owned inst root fs name := by
  obtain ⟨u, own, v, hrun, hsub⟩ := h.exists_own hmem
  obtain ⟨⟨made, hmade⟩, -, -⟩ := within_of_create hrun.runs
  exact .tried hconcerns (hsub _ hmade)

/-- What a binding gives is an instance of its own. -/
theorem owned_of_gives {i : Instance} (hconcerns : ∀ e ∈ cs, Instances.Concerns inst e.1)
    (h : Carries (FileTree.responder cwd) (ControlFiles.answer root) t cs fs t')
    {e : Event Backend} (he : e ∈ cs) (hgives : Instances.Gives i e) :
    Owned inst root fs i.name ∧ i.dir = root.instanceDir i.name.text := by
  obtain ⟨name, rfl⟩ | ⟨name, rfl⟩ := hgives
  · obtain ⟨u, own, v, hrun, -⟩ := h.exists_own he
    obtain rfl := (within_of_create hrun.runs).2.2 i rfl
    exact ⟨owned_of_create (hconcerns _ he) h he, rfl⟩
  · obtain ⟨u, own, v, hrun, hsub⟩ := h.exists_own he
    obtain ⟨rfl, status, hdir, hlooked⟩ := (reads_of_find hrun.runs).2 i rfl
    exact ⟨.found (hconcerns _ he) hdir (hsub _ hlooked), rfl⟩

theorem Session.settings_of_conduct {r : TraceRequest} {i : Instance}
    {after : List (Event (Actions Backend))} {result : Except SessionError SessionReport}
    (h : Runs (Session.conduct r i) after result) {e : Event Backend} (he : e ∈ calls after) :
    ∃ s a, e = ⟨.set i s, a⟩ ∧ (s ∈ r.arming ∨ s = .tracing true ∨ s ∈ r.draining) := by
  obtain ⟨op, a⟩ := e
  have hop := h.of_asks (Session.conduct_sets r i) (mem_calls.1 he)
  match op with
  | .set j s =>
      obtain ⟨rfl, hs⟩ := hop
      exact ⟨s, a, rfl, hs⟩
  | .createInstance _ | .findInstance _ | .destroyInstance _ | .instanceNames
  | .availableEvents _ => exact hop.elim

/-- Whatever a session changes is in an instance of its own. -/
theorem within_of_execute {r : TraceRequest} (hr : r.events.OnlyCalls)
    {es : List (Event (Actions FileSystem))} {result : Except SessionError SessionReport}
    (h : RunsOn (FileTree.responder cwd) (ControlFiles.realize root (Session.execute r)) t es
      result t') {e : Event FileSystem} (he : e ∈ calls es) {p : Path}
    (hp : e.1.changed? = some p) :
    ∃ name, Owned r.inst root (calls es) name ∧ Within (root.instanceDir name.text) p := by
  obtain ⟨abstract, hruns, hcarries⟩ := exists_runs_of_expand h
  generalize Actions.calls es = fs at hcarries he ⊢
  obtain ⟨-, ⟨hquiet, -⟩, -⟩ | ⟨before, after, bound, rfl, -, hbind, hrest⟩ :=
    Session.runs_execute hruns
  · rw [hquiet] at hcarries
    cases hcarries
    cases he
  obtain ⟨hconcerns, hgives⟩ := Instances.concerns_of_bind hbind
  rw [calls_append] at hcarries
  obtain ⟨fs₁, fs₂, u, rfl, hbefore, hafter⟩ := carries_append.1 hcarries
  have hleft := fun e (he : e ∈ fs₁) => List.mem_append_left fs₂ he
  rcases List.mem_append.1 he with he | he
  · obtain ⟨earlier, op, answer, later, own, v, w, hsplit, -, hrun, hown⟩ :=
      hbefore.exists_of_mem he
    have hop : (⟨op, answer⟩ : Event Backend) ∈ calls before := by
      rw [hsplit]
      exact List.mem_append_right _ List.mem_cons_self
    have hcall := hconcerns _ hop
    cases op with
    | createInstance name =>
        exact ⟨name, (owned_of_create hcall hbefore hop).mono hleft,
          (within_of_create hrun.runs).2.1 e hown p hp⟩
    | findInstance name =>
        rw [(reads_of_find hrun.runs).1 e hown] at hp
        cases hp
    | _ => exact hcall.elim
  · match bound with
    | .error _ =>
        rw [hrest.1.1] at hafter
        cases hafter
        cases he
    | .ok i =>
        obtain ⟨given, hgiven, hgives⟩ := hgives i rfl
        obtain ⟨howned, hdir⟩ := owned_of_gives hconcerns hbefore hgiven hgives
        obtain ⟨earlier, op, answer, later, own, v, w, hsplit, -, hrun, hown⟩ :=
          hafter.exists_of_mem he
        obtain ⟨s, a, heq, hs⟩ := Session.settings_of_conduct hrest (e := ⟨op, answer⟩) <| by
          rw [hsplit]
          exact List.mem_append_right _ List.mem_cons_self
        cases heq
        obtain ⟨q, hq, _, rfl, -⟩ := (ControlFiles.runsOn_set hrun).1.overwrites e hown
        cases hp
        exact ⟨i.name, howned.mono hleft, hdir ▸ within_files hr hs p hq⟩

end Session

/-! ## What the command changes -/

theorem Within.components {name : InstanceName} {p : Path}
    (h : Within (root.instanceDir name.text) p) :
    ∃ names : List Bytes, (∀ n ∈ names, Path.IsName n) ∧
      p.components = root.path.components ++
        (Utf8.encode "instances" :: Utf8.encode name.text :: names).map .name ∧
      (names.head? = some (Utf8.encode "events") →
        ∃ more, names = Utf8.encode "events" :: Utf8.encode SystemCalls.system :: more) := by
  obtain ⟨names, hnames, rfl, hevents⟩ := h
  refine ⟨names, hnames, ?_, hevents⟩
  have hall : ∀ n ∈ Utf8.encode "instances" :: Utf8.encode name.text :: names, Path.IsName n :=
    List.forall_mem_cons.2 ⟨by decide, List.forall_mem_cons.2 ⟨name.isName, hnames⟩⟩
  exact Path.components_joinNames hall root.path

theorem Within.prefix_place {name : InstanceName} {p : Path}
    (h : Within (root.instanceDir name.text) p) (cwd : Location) :
    FileTree.place cwd (root.instanceDir name.text) <+: FileTree.place cwd p := by
  obtain ⟨names, hnames, heq, -⟩ := h
  exact FileTree.prefix_place ⟨names, hnames, heq⟩ cwd

theorem within_of_course (ht : t.Plain) {o : Commands.SyscallsOptions}
    {es : List (Event (Actions FileSystem))} {a : Except Failure Unit}
    (h : Commands.Course cwd o t es a t') {e : Event FileSystem} (he : e ∈ calls es) {p : Path}
    (hp : e.1.changed? = some p) :
    ∃ name, Owned o.inst (.seenIn t cwd o.config.overrides) (calls es) name ∧
      Within ((TracingRoot.seenIn t cwd o.config.overrides).instanceDir name.text) p := by
  cases h with
  | unchosen reads | deaf reads =>
      rw [reads e he] at hp
      cases hp
  | traced after reads chosen _ ran quiet =>
      rw [calls_append, calls_append, quiet, List.append_nil] at he ⊢
      rcases List.mem_append.1 he with he | he
      · rw [reads e he] at hp
        cases hp
      · obtain ⟨name, howned, hwithin⟩ :=
          within_of_execute (onlyCalls_of_chosenIn ht chosen) ran he hp
        exact ⟨name, howned.mono fun e he => List.mem_append_right _ he, hwithin⟩

/-- Whatever the command makes, removes or writes, whatever its command line and however it ends, is
the directory of an instance of its own or is below that directory, and the control file of an event
is that of a system call. So nothing else in the tree has changed in the end. -/
theorem traceSyscalls_confined (ht : t.Plain) {env : Environment} {args : List String}
    {es : List (Event (Actions FileSystem))} {code : Nat}
    (h : RunsOn (FileTree.responder cwd) (Commands.traceSyscalls env args) t es code t') :
    (∀ e ∈ calls es, ∀ p, e.1.changed? = some p →
      ∃ o, Commands.SyscallsOptions.read env args = .ok o ∧
        let root := TracingRoot.seenIn t cwd o.config.overrides
        ∃ name, Owned o.inst root (calls es) name ∧
          ∃ names : List Bytes, (∀ n ∈ names, Path.IsName n) ∧
            p.components = root.path.components ++
              (Utf8.encode "instances" :: Utf8.encode name.text :: names).map .name ∧
            (names.head? = some (Utf8.encode "events") →
              ∃ more, names = Utf8.encode "events" :: Utf8.encode "syscalls" :: more)) ∧
    ∀ loc, t'.get? loc ≠ t.get? loc →
      ∃ o, Commands.SyscallsOptions.read env args = .ok o ∧
        let root := TracingRoot.seenIn t cwd o.config.overrides
        ∃ name, Owned o.inst root (calls es) name ∧
          FileTree.place cwd (root.instanceDir name.text) <+: loc := by
  have hwithin : ∀ e ∈ calls es, ∀ p, e.1.changed? = some p →
      ∃ o, Commands.SyscallsOptions.read env args = .ok o ∧
        ∃ name, Owned o.inst (.seenIn t cwd o.config.overrides) (calls es) name ∧
          Within ((TracingRoot.seenIn t cwd o.config.overrides).instanceDir name.text) p := by
    obtain ⟨-, hnone, -⟩ | ⟨o, full, a, hread, -, hcourse, hcalls, -⟩ :=
      Commands.runsOn_traceSyscalls h
    · rw [hnone]
      exact nofun
    · rw [hcalls]
      exact fun e he p hp => ⟨o, hread, within_of_course ht hcourse he hp⟩
  refine ⟨fun e he p hp => ?_, fun loc hchanged => ?_⟩
  · obtain ⟨o, hread, name, howned, hin⟩ := hwithin e he p hp
    exact ⟨o, hread, name, howned, hin.components⟩
  · -- a location that is at the end of no changed path is as it was
    by_contra hother
    refine hchanged (FileTree.serves_frame ht.noLinks h.served fun e he p hp hloc => ?_)
    obtain ⟨o, hread, name, howned, hin⟩ := hwithin e he p hp
    exact hother ⟨o, hread, name, howned, hloc ▸ hin.prefix_place cwd⟩

/-- A tree with an instance that was left with tracing on. -/
def watched : FileTree :=
  let tracing := ["sys", "kernel", "tracing"].map Utf8.encode
  let on := tracing ++ ["instances", "a", "tracing_on"].map Utf8.encode
  let switch := tracing ++ ["events", "syscalls", "sys_enter_read", "enable"].map Utf8.encode
  ((FileTree.empty.putParents on).put on (.file (Utf8.encode "1") 0o644)).putParents switch

theorem plain_watched : watched.Plain := FileTree.plain_of_entries (by decide)

/-- Over a file tree a program comes to an end without having been refused a signal. -/
theorem exists_runsOn_listening {α : Type} (p : Program (Actions FileSystem) α) (t : FileTree)
    (cwd : Location) : ∃ es a t', RunsOn (FileTree.responder cwd) p t es a t' ∧
      ∀ heard, (⟨.listen, heard⟩ : Event (Actions FileSystem)) ∈ es → heard = .ok () :=
  ⟨_, _, _, runsOn_drive _ ⟨0, .deadline, fun _ => .error (.wait (.os .notFound))⟩ p t,
    fun _ => listen_of_drive⟩

/-- After a session in a live instance nothing is traced there. -/
theorem silent_of_execute (ht : t.NoLinks) {r : TraceRequest} {name : InstanceName}
    {es : List (Event (Actions FileSystem))} {result : Except SessionError SessionReport}
    (htarget : ¬ (r.pids = [] ∧ r.parents = [])) (hname : r.inst = some name)
    (hlive : t.isDirectory cwd (root.instanceDir name.text) = true) {loc : Location}
    {content : Bytes} {mode : Nat}
    (hfind : t.find cwd (ControlFiles.tracingFile ⟨name, root.instanceDir name.text⟩) =
      .ok (loc, .file content mode))
    (h : RunsOn (FileTree.responder cwd) (ControlFiles.realize root (Session.execute r)) t es
      result t') : t'.get? loc = some (.file (Utf8.encode "0") mode) := by
  obtain ⟨after, fs, hconduct, hcarries, -⟩ := exists_conduct htarget hname hlive h
  have hoff : .tracing false ∈ r.draining := TraceRequest.mem_draining.2 (by simp)
  exact get?_of_knob ht hconduct hcarries hoff rfl hfind

/-- The trace is switched off in that instance, and nothing is changed elsewhere. -/
theorem traceSyscalls_confined_watched :
    let a := ["sys", "kernel", "tracing", "instances", "a"].map Utf8.encode
    let on := a ++ [Utf8.encode "tracing_on"]
    watched.Plain ∧ watched.get? on = some (.file (Utf8.encode "1") 0o644) ∧
      ∃ es code t', RunsOn (FileTree.responder [])
          (Commands.traceSyscalls .empty ["-p", "42", "-i", "a"]) watched es code t' ∧
        t'.get? on = some (.file (Utf8.encode "0") 0o644) ∧
        ∀ loc, t'.get? loc ≠ watched.get? loc → a <+: loc := by
  intro a on
  have hread : Commands.SyscallsOptions.read .empty ["-p", "42", "-i", "a"] =
      .ok ⟨[42], [], some ⟨"a", by decide⟩, 0, false, [], ⟨none, none, false⟩⟩ := by
    decide
  have hroot : TracingRoot.seenIn watched [] ⟨none, none⟩ = ⟨"/sys/kernel/tracing", .assumed⟩ := by
    cbv
  obtain ⟨es, code, t', hrun, hlistens⟩ := exists_runsOn_listening
    (Commands.traceSyscalls .empty ["-p", "42", "-i", "a"]) watched []
  refine ⟨plain_watched, by decide, es, code, t', hrun, ?_, fun loc hchanged => ?_⟩
  · obtain ⟨-, -, hdescribe⟩ | ⟨o, full, a, ho, -, hcourse, -, -, hlisten⟩ :=
      Commands.runsOn_traceSyscalls hrun
    · cases hdescribe _ hread
    rw [hread] at ho
    cases ho
    cases hcourse with
    | unchosen _ unknown =>
        have hchosen : (SystemCalls.chosenIn watched [] ⟨"/sys/kernel/tracing", .assumed⟩ []).isOk =
            true := by cbv
        change SystemCalls.chosenIn watched [] (.seenIn watched [] ⟨none, none⟩) [] = _ at unknown
        rw [← hroot, unknown] at hchosen
        cases hchosen
    | deaf _ refused => cases hlistens _ (hlisten _ refused)
    | traced after reads chosen listening ran =>
        change RunsOn _ (ControlFiles.realize (.seenIn watched [] ⟨none, none⟩) _) _ _ _ _ at ran
        rw [hroot] at ran
        exact silent_of_execute plain_watched.noLinks
          (by simp [Commands.SyscallsOptions.request]) rfl (by cbv) (by cbv) ran
  · obtain ⟨o, ho, name, howned, hplace⟩ :=
      (traceSyscalls_confined plain_watched hrun).2 loc hchanged
    rw [hread] at ho
    cases ho
    obtain rfl := howned.eq_of_some
    change FileTree.place []
      ((TracingRoot.seenIn watched [] ⟨none, none⟩).instanceDir "a") <+: loc at hplace
    rw [hroot] at hplace
    exact hplace

end KernelTrace
