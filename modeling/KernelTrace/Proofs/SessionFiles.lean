import KernelTrace.Proofs.ControlFilesSteps
import KernelTrace.Proofs.EventSets
import KernelTrace.Proofs.SessionAtRest

/-!
# A session cleans up its control files

On the control files a session can be stopped anywhere. Any of the files may be missing or be a
directory, so arming stops in the middle of its settings, and switching the events on stops in the
middle of the events. Draining goes through the same files, and switching the events off stops in
the middle as well. That it nevertheless undoes what was done rests on one fact: where a path leads
does not depend on what was written (`FileTree.rewritable_congr`), so the loop that switches the
events off gets exactly as far as the one that switched them on.

The other half is that no knob undoes another. Each knob is a file of a name of its own, and in a
tree without links a file has one name, so the last setting to reach a file is always the reset of
its own knob (`Setting.IsReset.value_of_mem`).
-/

namespace KernelTrace

open Program Actions

/-- Whether every system and every event of the set can be the name of a file. -/
def EventSet.IsNamed (s : EventSet) : Prop :=
  ∀ system events, s.systems.get? system = some events →
    Path.IsName (Utf8.encode system) ∧ ∀ event ∈ events, Path.IsName (Utf8.encode event)

theorem EventSet.isNamed_ofList {l : List (String × String)}
    (h : ∀ x ∈ l, Path.IsName (Utf8.encode x.1) ∧ Path.IsName (Utf8.encode x.2)) :
    (ofList l).IsNamed := by
  intro system events hget
  obtain ⟨hne, hevents⟩ := madeOf_ofList
    (P := fun system event => Path.IsName (Utf8.encode system) ∧ Path.IsName (Utf8.encode event))
    h system events hget
  obtain ⟨event, hmem⟩ := List.exists_mem_of_ne_nil events hne
  exact ⟨(hevents event hmem).1, fun event hmem => (hevents event hmem).2⟩

namespace Setting

/-- The name that all the control files of a setting have. -/
def leaf : Setting → String
  | .option o _ => o.fileName
  | .eventPids _ => "set_event_pid"
  | .functionPids _ => "set_ftrace_pid"
  | .tracing _ => "tracing_on"
  | .events .. => "enable"

theorem isName_leaf (s : Setting) : Path.IsName (Utf8.encode s.leaf) := by
  have hall : ∀ leaf ∈ ["event-fork", "function-fork", "set_event_pid", "set_ftrace_pid",
      "tracing_on", "enable"], Path.IsName (Utf8.encode leaf) := by decide +kernel
  refine hall s.leaf ?_
  match s with
  | .option .eventFork _ | .option .functionFork _ | .eventPids _ | .functionPids _ | .tracing _
  | .events .. => simp [leaf, TraceOption.fileName]

theorem exists_join_of_mem_eventFiles {i : Instance} {events : EventSet} {p : Path}
    (h : p ∈ ControlFiles.eventFiles i events) : ∃ q : Path, p = q.join "enable" := by
  obtain ⟨⟨system, chosen⟩, -, hp⟩ := List.mem_flatMap.1 h
  rw [ControlFiles.systemFiles] at hp
  split at hp
  · exact ⟨_, List.mem_singleton.1 hp⟩
  · obtain ⟨event, -, rfl⟩ := List.mem_map.1 hp
    exact ⟨_, rfl⟩

theorem exists_join_of_mem_files {i : Instance} {s : Setting} {p : Path} (h : p ∈ s.files i) :
    ∃ q : Path, p = q.join s.leaf := by
  match s with
  | .option .. | .eventPids _ | .functionPids _ | .tracing _ => exact ⟨_, List.mem_singleton.1 h⟩
  | .events .. => exact exists_join_of_mem_eventFiles h

/-- The names that lead from an instance to a control file. Behind `events` comes a system that is
to be switched. -/
theorem exists_names_of_mem_files {i : Instance} {s : Setting} {p : Path} (h : p ∈ s.files i)
    (hs : ∀ chosen on, s = .events chosen on → chosen.IsNamed) :
    ∃ names : List Bytes, (∀ n ∈ names, Path.IsName n) ∧ p = i.dir.joinNames names ∧
      (names.head? = some (Utf8.encode "events") → ∃ chosen on system events more,
        s = .events chosen on ∧ chosen.systems.get? system = some events ∧
          names = Utf8.encode "events" :: Utf8.encode system :: more) := by
  have hnames : ∀ leaf ∈ ["set_event_pid", "set_ftrace_pid", "tracing_on", "options",
      "event-fork", "function-fork", "events", "enable"], Path.IsName (Utf8.encode leaf) := by
    decide +kernel
  have hother {leaf : String} {rest : List Bytes} (hne : leaf ≠ "events")
      (hhead : (Utf8.encode leaf :: rest).head? = some (Utf8.encode "events")) : False :=
    hne (Utf8.encode_injective (Option.some.inj hhead))
  have hone {leaf : String} (hname : Path.IsName (Utf8.encode leaf)) (hne : leaf ≠ "events") :
      ∃ names : List Bytes, (∀ n ∈ names, Path.IsName n) ∧
        i.dir.join (Path.ofString leaf) = i.dir.joinNames names ∧
        (names.head? = some (Utf8.encode "events") → ∃ chosen on system events more,
          s = .events chosen on ∧ chosen.systems.get? system = some events ∧
            names = Utf8.encode "events" :: Utf8.encode system :: more) :=
    ⟨[Utf8.encode leaf], List.forall_mem_singleton.2 hname, rfl, fun hhead =>
      (hother hne hhead).elim⟩
  match s with
  | .option o _ =>
      obtain rfl := List.mem_singleton.1 h
      refine ⟨[Utf8.encode "options", Utf8.encode o.fileName], ?_, rfl, fun hhead =>
        (hother (by decide) hhead).elim⟩
      refine List.forall_mem_cons.2 ⟨hnames _ (by simp), List.forall_mem_singleton.2 ?_⟩
      exact hnames _ (by cases o <;> simp [TraceOption.fileName])
  | .eventPids _ =>
      obtain rfl := List.mem_singleton.1 h
      exact hone (hnames "set_event_pid" (by simp)) (by decide)
  | .functionPids _ =>
      obtain rfl := List.mem_singleton.1 h
      exact hone (hnames "set_ftrace_pid" (by simp)) (by decide)
  | .tracing _ =>
      obtain rfl := List.mem_singleton.1 h
      exact hone (hnames "tracing_on" (by simp)) (by decide)
  | .events chosen on =>
      obtain ⟨⟨system, events⟩, hmem, hp⟩ := List.mem_flatMap.1 h
      have hget := (chosen.systems.get?_eq_some_iff _ _).2 hmem
      obtain ⟨hsystem, hevents⟩ := hs chosen on rfl system events hget
      have hfirst := hnames "events" (by simp)
      have hlast := hnames "enable" (by simp)
      rw [ControlFiles.systemFiles] at hp
      split at hp
      · obtain rfl := List.mem_singleton.1 hp
        refine ⟨[Utf8.encode "events", Utf8.encode system, Utf8.encode "enable"], ?_, rfl,
          fun _ => ⟨chosen, on, system, events, _, rfl, hget, rfl⟩⟩
        simp only [List.forall_mem_cons]
        exact ⟨hfirst, hsystem, hlast, nofun⟩
      · obtain ⟨event, hevent, rfl⟩ := List.mem_map.1 hp
        refine ⟨[Utf8.encode "events", Utf8.encode system, Utf8.encode event,
          Utf8.encode "enable"], ?_, rfl, fun _ => ⟨chosen, on, system, events, _, rfl, hget, rfl⟩⟩
        simp only [List.forall_mem_cons]
        exact ⟨hfirst, hsystem, hevents event hevent, hlast, nofun⟩

variable {t : FileTree} {cwd loc : Location} {i : Instance} {s : Setting}

theorem getLast?_of_mem (ht : t.NoLinks) (h : loc ∈ (t.rewritable cwd (s.files i)).1) :
    loc.getLast? = some (Utf8.encode s.leaf) := by
  obtain ⟨p, hp, hat⟩ := FileTree.exists_of_mem_rewritable h
  obtain ⟨q, rfl⟩ := exists_join_of_mem_files hp
  exact FileTree.getLast?_of_fileAt ht s.isName_leaf hat

/-- Nothing but the switching of events reaches the control file of an event. -/
theorem leaf_eq_enable {events : EventSet} {p : Path} (ht : t.NoLinks)
    (hp : p ∈ ControlFiles.eventFiles i events) (hat : t.fileAt cwd p = .ok loc)
    (h : loc ∈ (t.rewritable cwd (s.files i)).1) :
    s.leaf = "enable" := by
  obtain ⟨q, rfl⟩ := exists_join_of_mem_eventFiles hp
  have hlast := FileTree.getLast?_of_fileAt ht (isName_leaf (.events .empty true)) hat
  rw [getLast?_of_mem ht h] at hlast
  exact Utf8.encode_injective (Option.some.inj hlast)

def restValue (leaf : String) : String :=
  if leaf = "set_event_pid" ∨ leaf = "set_ftrace_pid" then "" else "0"

theorem IsReset.value_eq {s : Setting} (h : s.IsReset) : s.value = restValue s.leaf := by
  match s with
  | .option .eventFork _ | .option .functionFork _ | .eventPids _ | .functionPids _ | .tracing _
  | .events .. =>
      cases h
      rfl

/-- What a reset writes to a file is what is at rest in files of that name. -/
theorem IsReset.value_of_mem (ht : t.NoLinks) (hs : s.IsReset)
    (h : loc ∈ (t.rewritable cwd (s.files i)).1) {leaf : String}
    (hleaf : loc.getLast? = some (Utf8.encode leaf)) : s.value = restValue leaf := by
  have hlast := getLast?_of_mem ht h
  rw [hleaf] at hlast
  rw [hs.value_eq, Utf8.encode_injective (Option.some.inj hlast)]

end Setting

/-- What the last of some settings to be written to the file at `loc` has left there. -/
def lastValue? (t : FileTree) (cwd : Location) (i : Instance) (loc : Location) :
    List Setting → Option String
  | [] => none
  | s :: ss =>
    (lastValue? t cwd i loc ss).or
      (if loc ∈ (t.rewritable cwd (s.files i)).1 then some s.value else none)

variable {t t' : FileTree} {cwd loc : Location} {i : Instance}

theorem lastValue?_congr (h : t.SameShape t') (ss : List Setting) :
    lastValue? t cwd i loc ss = lastValue? t' cwd i loc ss := by
  induction ss with
  | nil => rfl
  | cons s ss ih => rw [lastValue?, lastValue?, ih, FileTree.rewritable_congr h]

theorem lastValue?_append (ss ss' : List Setting) :
    lastValue? t cwd i loc (ss ++ ss') =
      (lastValue? t cwd i loc ss').or (lastValue? t cwd i loc ss) := by
  induction ss with
  | nil => rw [List.nil_append, lastValue?, Option.or_none]
  | cons s ss ih => rw [List.cons_append, lastValue?, lastValue?, ih, Option.or_assoc]

theorem lastValue?_eq_none {ss : List Setting}
    (h : ∀ s ∈ ss, loc ∉ (t.rewritable cwd (s.files i)).1) : lastValue? t cwd i loc ss = none := by
  induction ss with
  | nil => rfl
  | cons s ss ih =>
      rw [lastValue?, ih fun s' hs' => h s' (List.mem_cons_of_mem s hs'),
        if_neg (h s List.mem_cons_self)]
      rfl

/-- Where all the settings that reach a file write the same, that is what is left there. -/
theorem lastValue?_eq_some {ss : List Setting} {value : String}
    (hsome : ∃ s ∈ ss, loc ∈ (t.rewritable cwd (s.files i)).1)
    (hall : ∀ s ∈ ss, loc ∈ (t.rewritable cwd (s.files i)).1 → s.value = value) :
    lastValue? t cwd i loc ss = some value := by
  induction ss with
  | nil =>
      obtain ⟨s, hs, -⟩ := hsome
      exact absurd hs List.not_mem_nil
  | cons s ss ih =>
      rw [lastValue?]
      by_cases hrest : ∃ s' ∈ ss, loc ∈ (t.rewritable cwd (s'.files i)).1
      · rw [ih hrest fun s' hs' => hall s' (List.mem_cons_of_mem s hs')]
        rfl
      · have hnone : lastValue? t cwd i loc ss = none :=
          lastValue?_eq_none fun s' hs' hmem => hrest ⟨s', hs', hmem⟩
        obtain ⟨s', hs', hmem⟩ := hsome
        rcases List.mem_cons.1 hs' with rfl | hs'
        · rw [hnone, if_pos hmem, hall s' List.mem_cons_self hmem]
          rfl
        · exact absurd ⟨s', hs', hmem⟩ hrest

/-! ## The settings of a session, carried out -/

section Carries

variable {root : TracingRoot} {es : List (Event Backend)} {fs : List (Event FileSystem)}

/-- The backend of control files below `root`, over a file tree. -/
abbrev filesBackend (cwd : Location) (root : TracingRoot) : Responder Backend FileTree :=
  through (FileTree.responder cwd) (ControlFiles.answer root)

theorem sameShape_of_set {s : Setting} {a : Except TracingError Unit}
    (h : filesBackend cwd root t (.set i s) a t') : t.SameShape t' := by
  obtain ⟨own, hrun⟩ := h
  exact (ControlFiles.runsOn_set hrun).1.filled.sameShape

theorem sameShape_of_serves (h : (filesBackend cwd root).Serves t es t')
    (hes : ∀ e ∈ es, ∃ s a, e = ⟨.set i s, a⟩) : t.SameShape t' := by
  refine h.invariant (P := fun u => t.SameShape u)
    (Q := fun e : Event Backend => ∃ s a, e = ⟨.set i s, a⟩) ?_ hes (.refl t)
  rintro u v _ ⟨s, a, rfl⟩ hstep hu
  exact hu.trans (sameShape_of_set hstep)

/-- After some settings, a file holds what the last of them to reach it has written. -/
theorem get?_of_carries (hes : ∀ e ∈ es, ∃ s a, e = ⟨.set i s, a⟩)
    (h : Carries (FileTree.responder cwd) (ControlFiles.answer root) t es fs t') (loc : Location) :
    t'.get? loc =
      match lastValue? t cwd i loc ((settingCalls es).map SettingCall.setting) with
      | none => t.get? loc
      | some value => (t.get? loc).map (Entry.fill (Utf8.encode value)) := by
  induction h with
  | nil t => rfl
  | @cons t u t' op answer es own fs first _ ih =>
      obtain ⟨s, a, heq⟩ := hes _ List.mem_cons_self
      cases heq
      have hrest := ih fun e he => hes e (List.mem_cons_of_mem _ he)
      have hfilled := (ControlFiles.runsOn_set first).1.filled
      rw [← lastValue?_congr hfilled.sameShape] at hrest
      rw [settingCalls_set, List.map_cons, lastValue?, hrest]
      by_cases hmem : loc ∈ (t.rewritable cwd (s.files i)).1
      · rw [if_pos hmem, hfilled.inside loc hmem]
        cases lastValue? t cwd i loc ((settingCalls es).map SettingCall.setting) with
        | none => rfl
        | some value => simp only [Option.some_or, Option.map_map, Function.comp_def, Entry.fill_fill]
      · rw [if_neg hmem, hfilled.outside loc hmem, Option.or_none]

/-- A session for an instance that is there binds it, and binding writes nothing. -/
theorem carries_findOrCreate {name : InstanceName}
    (hlive : t.isDirectory cwd (root.instanceDir name.text) = true)
    {before : List (Event (Actions Backend))} {bound : Except TracingError Instance}
    (hbind : Runs (Instances.findOrCreate name) before bound)
    (h : Carries (FileTree.responder cwd) (ControlFiles.answer root) t (calls before ++ es) fs t') :
    bound = .ok ⟨name, root.instanceDir name.text⟩ ∧
      ∃ later, fs = ⟨.status (root.instanceDir name.text),
          t.status cwd true (root.instanceDir name.text)⟩ :: later ∧
        Carries (FileTree.responder cwd) (ControlFiles.answer root) t es later t' := by
  obtain ⟨found, rest, rfl, h₁⟩ := runs_perform_bind.1 hbind
  cases h with
  | @cons _ u _ _ _ _ own later first rest' =>
      obtain ⟨rfl, hown, rfl⟩ := ControlFiles.runsOn_find first
      rw [hlive, if_pos rfl] at h₁
      obtain ⟨_, rest, rfl, hend⟩ := runs_perform_bind.1 h₁
      obtain ⟨rfl, rfl⟩ := runs_pure.1 hend
      rw [hown]
      exact ⟨rfl, later, rfl, rest'⟩

end Carries

/-! ## The whole session -/

namespace TraceRequest

/-- Whatever a session sets before it drains, draining resets in the same files. -/
theorem exists_reset {r : TraceRequest} {s : Setting} (hs : s ∈ r.arming ∨ s = .tracing true)
    (i : Instance) : ∃ s' ∈ r.draining, s'.files i = s.files i := by
  rcases hs with hs | rfl
  · obtain rfl | rfl | rfl | rfl | ⟨hevents, rfl⟩ := mem_arming.1 hs
    · exact ⟨.option .eventFork false, mem_draining.2 (by simp), rfl⟩
    · exact ⟨.option .functionFork false, mem_draining.2 (by simp), rfl⟩
    · exact ⟨.eventPids [], mem_draining.2 (by simp), rfl⟩
    · exact ⟨.functionPids [], mem_draining.2 (by simp), rfl⟩
    · exact ⟨.events r.events false, mem_draining.2 (by simp [hevents]), rfl⟩
  · exact ⟨.tracing false, mem_draining.2 (by simp), rfl⟩

theorem mem_files_of_mem_draining {r : TraceRequest} {s : Setting} (hs : s ∈ r.draining)
    {i : Instance} {p : Path} (hp : p ∈ s.files i) :
    p ∈ [ControlFiles.tracingFile i, ControlFiles.optionFile i .eventFork,
        ControlFiles.optionFile i .functionFork] ++
      [ControlFiles.eventPidFile i, ControlFiles.functionPidFile i] ++
      ControlFiles.eventFiles i r.events := by
  obtain rfl | rfl | rfl | rfl | rfl | ⟨-, rfl⟩ := mem_draining.1 hs
  case inr.inr.inr.inr.inr => exact List.mem_append_right _ hp
  all_goals
    obtain rfl := List.mem_singleton.1 hp
    simp

end TraceRequest

section Drained

variable {r : TraceRequest} {root : TracingRoot} {after : List (Event (Actions Backend))}
  {fs : List (Event FileSystem)} {result : Except SessionError SessionReport}

/-- A file of a bound session holds in the end what some reset of the draining has written there, or
it is as it was and none of the session's settings reaches it. -/
theorem get?_of_conduct (ht : t.NoLinks) (h : Runs (Session.conduct r i) after result)
    (hcarries : Carries (FileTree.responder cwd) (ControlFiles.answer root) t (calls after) fs t')
    (loc : Location) :
    (t'.get? loc = t.get? loc ∧
        ∀ s ∈ r.draining, loc ∉ (t.rewritable cwd (s.files i)).1) ∨
      ∃ s ∈ r.draining, loc ∈ (t.rewritable cwd (s.files i)).1 ∧
        t'.get? loc = (t.get? loc).map (Entry.fill (Utf8.encode s.value)) := by
  have hvalue := get?_of_carries (i := i) (Session.calls_of_conduct h) hcarries loc
  obtain ⟨armed, drained, hset, hdrained, harmed⟩ := (Session.runs_conduct h).exists_drained
  have hsettings : (settingCalls (calls after)).map SettingCall.setting =
      armed.map SettingCall.setting ++ r.draining := by
    rw [← hdrained.map_setting, ← List.map_append]
    exact congrArg _ hset
  rw [hsettings, lastValue?_append] at hvalue
  by_cases hreached : ∃ s ∈ r.draining, loc ∈ (t.rewritable cwd (s.files i)).1
  · obtain ⟨s, hs, hmem⟩ := hreached
    have hlast := Setting.getLast?_of_mem ht hmem
    have hsome : lastValue? t cwd i loc r.draining = some s.value := by
      refine lastValue?_eq_some ⟨s, hs, hmem⟩ fun s' hs' hmem' => ?_
      rw [(r.draining_isReset s hs).value_eq]
      exact (r.draining_isReset s' hs').value_of_mem ht hmem' hlast
    rw [hsome] at hvalue
    exact Or.inr ⟨s, hs, hmem, hvalue⟩
  · have hnone : ∀ s ∈ r.draining, loc ∉ (t.rewritable cwd (s.files i)).1 :=
      fun s hs hmem => hreached ⟨s, hs, hmem⟩
    have hunarmed : lastValue? t cwd i loc (armed.map SettingCall.setting) = none := by
      refine lastValue?_eq_none fun s hs => ?_
      obtain ⟨c, hc, rfl⟩ := List.mem_map.1 hs
      obtain ⟨s', hs', hfiles⟩ := TraceRequest.exists_reset (harmed c hc).2 i
      rw [← hfiles]
      exact hnone s' hs'
    rw [lastValue?_eq_none hnone, hunarmed] at hvalue
    exact Or.inl ⟨hvalue, hnone⟩

/-- What a session has written, a reset of the draining writes as well. -/
theorem exists_reset_of_overwrite (h : Runs (Session.conduct r i) after result)
    (hcarries : Carries (FileTree.responder cwd) (ControlFiles.answer root) t (calls after) fs t')
    {p : Path} {content : Bytes} (hp : (⟨.overwrite p content, .ok ()⟩ : Event FileSystem) ∈ fs) :
    ∃ s ∈ r.draining, ∃ loc ∈ (t.rewritable cwd (s.files i)).1, t.fileAt cwd p = .ok loc := by
  obtain ⟨earlier, op, answer, later, own, u, v, hsplit, hserves, hrun, hown⟩ :=
    hcarries.exists_of_mem hp
  have hcalls := Session.calls_of_conduct h
  have hop : (⟨op, answer⟩ : Event Backend) ∈ calls after := by
    rw [hsplit]
    exact List.mem_append_right _ List.mem_cons_self
  obtain ⟨s, a, heq⟩ := hcalls _ hop
  cases heq
  have hshape := sameShape_of_serves hserves fun e he => hcalls e <| by
    rw [hsplit]
    exact List.mem_append_left _ he
  obtain ⟨q, -, a', heq, hok⟩ := (ControlFiles.runsOn_set hrun).1.overwrites _ hown
  cases heq
  obtain ⟨loc, hloc, hat⟩ := hok rfl
  rw [← FileTree.rewritable_congr hshape] at hloc
  rw [← FileTree.fileAt_congr hshape] at hat
  obtain ⟨armed, drained, hset, hdrained, harmed⟩ := (Session.runs_conduct h).exists_drained
  have hc : (⟨i, s, a⟩ : SettingCall) ∈ settingsOf after := mem_settingCalls.2 hop
  rw [hset] at hc
  rcases List.mem_append.1 hc with hc | hc
  · obtain ⟨s', hs', hfiles⟩ := TraceRequest.exists_reset (harmed _ hc).2 i
    rw [← hfiles] at hloc
    exact ⟨s', hs', loc, hloc, hat⟩
  · exact ⟨s, (hdrained.mem hc).2, loc, hloc, hat⟩

/-- A file that the draining reaches by a path with the name `leaf` at its end is at rest in the
end. -/
theorem get?_of_reached (ht : t.NoLinks) (h : Runs (Session.conduct r i) after result)
    (hcarries : Carries (FileTree.responder cwd) (ControlFiles.answer root) t (calls after) fs t')
    {s : Setting} (hs : s ∈ r.draining) (hmem : loc ∈ (t.rewritable cwd (s.files i)).1)
    {content : Bytes} {mode : Nat} (hfile : t.get? loc = some (.file content mode)) :
    t'.get? loc = some (.file (Utf8.encode (Setting.restValue s.leaf)) mode) := by
  obtain ⟨-, hnone⟩ | ⟨s', hs', hmem', hget⟩ := get?_of_conduct ht h hcarries loc
  · exact absurd hmem (hnone s hs)
  · rw [hget, hfile,
      (r.draining_isReset s' hs').value_of_mem ht hmem' (Setting.getLast?_of_mem ht hmem)]
    rfl

theorem get?_of_knob (ht : t.NoLinks) (h : Runs (Session.conduct r i) after result)
    (hcarries : Carries (FileTree.responder cwd) (ControlFiles.answer root) t (calls after) fs t')
    {s : Setting} (hs : s ∈ r.draining) {p : Path} (hfiles : s.files i = [p]) {content : Bytes}
    {mode : Nat} (hfind : t.find cwd p = .ok (loc, .file content mode)) :
    t'.get? loc = some (.file (Utf8.encode (Setting.restValue s.leaf)) mode) := by
  refine get?_of_reached ht h hcarries hs ?_ (FileTree.get?_of_find hfind)
  rw [hfiles, FileTree.rewritable, FileTree.fileAt_eq_ok.2 ⟨content, mode, hfind⟩]
  exact List.mem_cons_self

end Drained

/-- A session for a live instance looks for its directory, and then it is conducted in it. -/
theorem exists_conduct {root : TracingRoot} {r : TraceRequest} {name : InstanceName}
    {es : List (Event (Actions FileSystem))} {result : Except SessionError SessionReport}
    (htarget : ¬ (r.pids = [] ∧ r.parents = [])) (hname : r.inst = some name)
    (hlive : t.isDirectory cwd (root.instanceDir name.text) = true)
    (h : RunsOn (FileTree.responder cwd) (ControlFiles.realize root (Session.execute r)) t es
      result t') :
    ∃ after fs,
      Runs (Session.conduct r ⟨name, root.instanceDir name.text⟩) after result ∧
      Carries (FileTree.responder cwd) (ControlFiles.answer root) t (calls after) fs t' ∧
      calls es = ⟨.status (root.instanceDir name.text),
        t.status cwd true (root.instanceDir name.text)⟩ :: fs := by
  obtain ⟨es', hruns, hcarries⟩ := exists_runs_of_expand h
  obtain ⟨hnone, -⟩ | ⟨before, after, bound, rfl, -, hbind, hrest⟩ := Session.runs_execute hruns
  · exact absurd (Session.hasTarget_eq_false.1 hnone) htarget
  · rw [hname] at hbind
    rw [calls_append] at hcarries
    obtain ⟨rfl, fs, hcalls, hcarries⟩ := carries_findOrCreate hlive hbind hcarries
    exact ⟨after, fs, hrest, hcarries, hcalls⟩

/-- When a session for a live instance has ended, well or not, nothing of it is left in the control
files, however many of them are missing or directories. Tracing and both options are off, both
filters are empty, and every event that was switched on is off. An event that was not is as it was
or off, and nothing else in the tree has changed. -/
theorem execute_cleans_files {root : TracingRoot} {cwd : Location} {r : TraceRequest}
    {name : InstanceName} {t t' : FileTree} {es : List (Event (Actions FileSystem))}
    {result : Except SessionError SessionReport} (hlinks : t.NoLinks)
    (htarget : ¬ (r.pids = [] ∧ r.parents = [])) (hname : r.inst = some name)
    (hlive : t.isDirectory cwd (root.instanceDir name.text) = true)
    (h : RunsOn (FileTree.responder cwd) (ControlFiles.realize root (Session.execute r)) t es
      result t') :
    let i : Instance := ⟨name, root.instanceDir name.text⟩
    let switches := [ControlFiles.tracingFile i, ControlFiles.optionFile i .eventFork,
      ControlFiles.optionFile i .functionFork]
    let filters := [ControlFiles.eventPidFile i, ControlFiles.functionPidFile i]
    let events := ControlFiles.eventFiles i r.events
    (∀ p ∈ switches, ∀ loc content mode, t.find cwd p = .ok (loc, .file content mode) →
      t'.get? loc = some (.file (Utf8.encode "0") mode)) ∧
    (∀ p ∈ filters, ∀ loc content mode, t.find cwd p = .ok (loc, .file content mode) →
      t'.get? loc = some (.file [] mode)) ∧
    (∀ p ∈ events, (⟨.overwrite p (Utf8.encode "1"), .ok ()⟩ : Event FileSystem) ∈ calls es →
      ∃ loc content mode, t.find cwd p = .ok (loc, .file content mode) ∧
        t'.get? loc = some (.file (Utf8.encode "0") mode)) ∧
    (∀ p ∈ events, ∀ loc content mode, t.find cwd p = .ok (loc, .file content mode) →
      t'.get? loc = t.get? loc ∨ t'.get? loc = some (.file (Utf8.encode "0") mode)) ∧
    ∀ loc, (∀ p ∈ switches ++ filters ++ events, ∀ content mode,
      t.find cwd p ≠ .ok (loc, .file content mode)) → t'.get? loc = t.get? loc := by
  intro i switches filters events
  obtain ⟨after, fs, hconduct, hcarries, hcalls⟩ := exists_conduct htarget hname hlive h
  have hmem := fun s : Setting => (TraceRequest.mem_draining (r := r) (s := s)).2
  refine ⟨?_, ?_, ?_, ?_, ?_⟩
  · intro p hp loc content mode hfind
    simp only [switches, List.mem_cons, List.not_mem_nil, or_false] at hp
    have hknob := fun s hs hfiles =>
      get?_of_knob hlinks hconduct hcarries (s := s) hs (p := p) hfiles hfind
    rcases hp with rfl | rfl | rfl
    · exact hknob (.tracing false) (hmem _ (by simp)) rfl
    · exact hknob (.option .eventFork false) (hmem _ (by simp)) rfl
    · exact hknob (.option .functionFork false) (hmem _ (by simp)) rfl
  · intro p hp loc content mode hfind
    simp only [filters, List.mem_cons, List.not_mem_nil, or_false] at hp
    have hknob := fun s hs hfiles =>
      get?_of_knob hlinks hconduct hcarries (s := s) hs (p := p) hfiles hfind
    rcases hp with rfl | rfl
    · exact hknob (.eventPids []) (hmem _ (by simp)) rfl
    · exact hknob (.functionPids []) (hmem _ (by simp)) rfl
  · intro p hp hwritten
    rw [hcalls] at hwritten
    have hlater := (List.mem_cons.1 hwritten).resolve_left (by simp)
    obtain ⟨s, hs, loc, hreached, hat⟩ := exists_reset_of_overwrite hconduct hcarries hlater
    obtain ⟨content, mode, hfind⟩ := FileTree.fileAt_eq_ok.1 hat
    have hrest := get?_of_reached hlinks hconduct hcarries hs hreached (FileTree.get?_of_find hfind)
    rw [Setting.leaf_eq_enable hlinks hp hat hreached] at hrest
    exact ⟨loc, content, mode, hfind, hrest⟩
  · intro p hp loc content mode hfind
    have hat := FileTree.fileAt_eq_ok.2 ⟨content, mode, hfind⟩
    obtain ⟨hsame, -⟩ | ⟨s, hs, hreached, -⟩ := get?_of_conduct hlinks hconduct hcarries loc
    · exact Or.inl hsame
    · have hrest :=
        get?_of_reached hlinks hconduct hcarries hs hreached (FileTree.get?_of_find hfind)
      rw [Setting.leaf_eq_enable hlinks hp hat hreached] at hrest
      exact Or.inr hrest
  · intro loc hother
    obtain ⟨hsame, -⟩ | ⟨s, hs, hreached, -⟩ := get?_of_conduct hlinks hconduct hcarries loc
    · exact hsame
    · obtain ⟨p, hp, hat⟩ := FileTree.exists_of_mem_rewritable hreached
      obtain ⟨content, mode, hfind⟩ := FileTree.fileAt_eq_ok.1 hat
      exact absurd hfind (hother p (TraceRequest.mem_files_of_mem_draining hs hp) content mode)

/-- An instance that somebody left with tracing on. Its kernel has no function filter, and of the
system `sched` it knows one event. -/
def leftOn : FileTree :=
  [("/t/instances/a/tracing_on", "1"), ("/t/instances/a/options/event-fork", "0"),
    ("/t/instances/a/set_event_pid", ""),
    ("/t/instances/a/events/sched/wake/enable", "0")].foldl
    (fun t (path, content) =>
      let loc := (Path.ofString path).steps
      (t.putParents loc).put loc (.file (Utf8.encode content) 0o644))
    .empty

/-- A request for that event and for one that there is not. -/
def halfKnown : TraceRequest :=
  ⟨[42], [], some ⟨"a", by decide⟩, some 10, .ofList [("sched", "wake"), ("sched", "gone")], none⟩

theorem noLinks_leftOn : leftOn.NoLinks := FileTree.noLinks_of_entries (by decide +kernel)

/-- Switching the events on stops after the first, and tracing ends up off nevertheless. -/
theorem execute_cleans_files_leftOn :
    let loc : Location := ["t", "instances", "a", "tracing_on"].map Utf8.encode
    leftOn.get? loc = some (.file (Utf8.encode "1") 0o644) ∧
    ∃ es result t',
      RunsOn (FileTree.responder [])
        (ControlFiles.realize ⟨"/t", .tracefs⟩ (Session.execute halfKnown)) leftOn es result t' ∧
      t'.get? loc = some (.file (Utf8.encode "0") 0o644) := by
  intro loc
  have hrun := runsOn_drive (β := FileSystem) (fun t op => FileTree.perform t [] op)
    ⟨0, .deadline, fun _ => .error (.wait (.os .notFound))⟩
    (ControlFiles.realize ⟨"/t", .tracefs⟩ (Session.execute halfKnown)) leftOn
  have hdir : leftOn.find [] (TracingRoot.instanceDir ⟨"/t", .tracefs⟩ "a") =
      .ok (loc.dropLast, .directory) :=
    FileTree.find_of_get? rfl (by decide +kernel) (by decide +kernel) (by decide +kernel) nofun
      (by decide +kernel)
  have hlive : leftOn.isDirectory [] (TracingRoot.instanceDir ⟨"/t", .tracefs⟩ "a") = true := by
    rw [FileTree.isDirectory, hdir]
  have htarget : ¬ (halfKnown.pids = [] ∧ halfKnown.parents = []) := by decide
  have hclean := execute_cleans_files noLinks_leftOn htarget rfl hlive hrun
  have hfind : leftOn.find [] "/t/instances/a/tracing_on" =
      .ok (loc, .file (Utf8.encode "1") 0o644) :=
    FileTree.find_of_get? rfl (by decide +kernel) (by decide +kernel) (by decide +kernel) nofun
      (by decide +kernel)
  exact ⟨FileTree.get?_of_find hfind, _, _, _, hrun,
    hclean.1 _ List.mem_cons_self loc _ _ hfind⟩

end KernelTrace
