import KernelTrace.Proofs.FirstOccurrences
import KernelTrace.Proofs.Numerals
import KernelTrace.Proofs.RecordedFiles
import KernelTrace.Proofs.SettingAnswers
import KernelTrace.Proofs.TracingFilter

/-!
# What is in the filters of an armed instance

A filter is written as numbers with spaces between them, and an empty filter is no filter at all:
then the whole machine is traced. So the file must never be empty while the instance is armed, and it
must be read back as the processes of the request. The first holds because a session has a target
and every number has a digit, the second because no number has a space in it.

The two filters are written one after the other, and links could make them one file, or the switch
of an event a filter. The former does not matter because both are written the same
(`holds_of_setAll`), and without links the latter cannot be (`TraceRequest.holds_of_eventSettings`).
-/

namespace KernelTrace

open Program Actions ControlFiles

/-! ## Numbers in a file -/

/-- The numbers in a file, if there is nothing in it but numbers with single spaces between them. -/
def readPids? (content : Bytes) : Option (List Pid) :=
  (pieces 0x20 content).mapM fun piece =>
    (Utf8.decode? piece).bind fun text => Number.integer? 32 text.toList

/-- The numbers that processes can have. -/
def IsPid (p : Pid) : Prop := -2 ^ 31 ≤ p ∧ p < 2 ^ 31

instance (p : Pid) : Decidable (IsPid p) := inferInstanceAs (Decidable (_ ∧ _))

theorem mapM_map_eq_some {α β : Type} {f : α → β} {g : β → Option α} {xs : List α}
    (h : ∀ x ∈ xs, g (f x) = some x) : (xs.map f).mapM g = some xs := by
  induction xs with
  | nil => rfl
  | cons x rest ih =>
      obtain ⟨hx, hrest⟩ := List.forall_mem_cons.1 h
      rw [List.map_cons, List.mapM_cons, hx, ih hrest]
      rfl

theorem pieces_pidList {pids : List Pid} (h : pids ≠ []) :
    pieces ' ' (pidList pids).toList = pids.map fun p => (toString p).toList := by
  have htext : (pidList pids).toList =
      [' '].intercalate (pids.map fun p => (toString p).toList) := by
    rw [pidList, String.toList_intercalate, List.map_map]
    rfl
  rw [htext]
  refine pieces_intercalate (fun cs hcs hblank => ?_) (by simpa using h)
  obtain ⟨p, -, rfl⟩ := List.mem_map.1 hcs
  obtain hdigit | hminus := Number.mem_toString hblank
  · exact absurd hdigit (by decide)
  · exact absurd hminus (by decide)

theorem readPids?_pidList {pids : List Pid} (hne : pids ≠ []) (h : ∀ p ∈ pids, IsPid p) :
    readPids? (Utf8.encode (pidList pids)) = some pids := by
  have hpieces : pieces 0x20 (Utf8.encode (pidList pids)) =
      pids.map fun p => Utf8.encode (toString p) := by
    refine (Utf8.pieces_encode (a := ' ') (by decide) (pidList pids)).trans ?_
    rw [pieces_pidList hne, List.map_map]
    exact List.map_congr_left fun p _ => congrArg Utf8.encode String.ofList_toList
  rw [readPids?, hpieces]
  refine mapM_map_eq_some fun p hp => ?_
  rw [Utf8.decode?_encode, Option.bind_some]
  exact Number.integer?_toString (h p hp).1 (h p hp).2

theorem readPids?_nil : readPids? [] = none := by decide +kernel

/-! ## Who is in the filter -/

/-- `EachOnce xs ys`: the members of `xs`, each once, in the order of their first occurrence. -/
structure EachOnce (xs ys : List Pid) : Prop where
  mem : ∀ p, p ∈ ys ↔ p ∈ xs
  once : ys.Nodup
  ordered : ys.Pairwise fun p q => xs.idxOf p < xs.idxOf q

theorem TraceRequest.eachOnce_filterPids (r : TraceRequest) :
    EachOnce (r.pids ++ r.parents) r.filterPids := by
  have hordered := pairwise_idxOf_eraseDups (r.pids ++ r.parents)
  rw [filterPids, firstOccurrences_eq]
  refine ⟨fun p => List.mem_eraseDups, hordered.imp fun hlt heq => ?_, hordered⟩
  rw [heq] at hlt
  exact Nat.lt_irrefl _ hlt

/-! ## Settings in turn -/

section Settings

variable {cwd : Location} {t t' : FileTree} {root : TracingRoot} {i : Instance} {s : Setting}
  {ss ss' : List Setting} {es : List (Event (Actions FileSystem))} {a : Except TracingError Unit}
  {p : Path} {content : Bytes}

/-- The first setting has been made and the others follow, or its fault is the answer. -/
theorem runsOn_setAll_cons
    (h : RunsOn (FileTree.responder cwd) (realize root (Session.setAll i (s :: ss))) t es a t') :
    ∃ own rest mid, es = own ++ rest ∧
      ((∃ e, s.fault? t cwd i = some e ∧ a = .error e ∧ rest = [] ∧ mid = t' ∧
        RunsOn (FileTree.responder cwd) (set i s) t own (.error e) mid) ∨
      (s.fault? t cwd i = none ∧ RunsOn (FileTree.responder cwd) (set i s) t own (.ok ()) mid ∧
        RunsOn (FileTree.responder cwd) (realize root (Session.setAll i ss)) mid rest a t')) := by
  obtain ⟨own, rest, answered, mid, rfl, hset, hrest⟩ := after_call h
  refine ⟨own, rest, mid, rfl, ?_⟩
  have hanswer := (runsOn_set hset).2
  rw [Setting.verdict_eq] at hanswer
  cases hfault : s.fault? t cwd i with
  | none =>
      rw [hfault] at hanswer
      subst hanswer
      exact .inr ⟨rfl, hset, hrest⟩
  | some e =>
      rw [hfault] at hanswer
      subst hanswer
      obtain ⟨rfl, rfl, rfl⟩ := runsOn_pure.1 hrest
      exact .inl ⟨e, rfl, rfl, rfl, rfl, hset⟩

theorem sameShape_of_setAll
    (h : RunsOn (FileTree.responder cwd) (realize root (Session.setAll i ss)) t es a t') :
    t.SameShape t' := by
  induction ss generalizing t es with
  | nil =>
      obtain ⟨rfl, rfl, rfl⟩ := runsOn_pure.1 h
      exact .refl _
  | cons s ss ih =>
      obtain ⟨own, rest, mid, rfl, ⟨e, -, -, -, rfl, hset⟩ | ⟨-, hset, hrest⟩⟩ :=
        runsOn_setAll_cons h
      · exact (runsOn_set hset).1.filled.sameShape
      · exact (runsOn_set hset).1.filled.sameShape.trans (ih hrest)

/-- Settings are made in turn up to the first with a fault. -/
theorem runsOn_setAll_append
    (h : RunsOn (FileTree.responder cwd) (realize root (Session.setAll i (ss ++ ss'))) t es a t') :
    (∃ s ∈ ss, ∃ e, s.fault? t cwd i = some e ∧ a = .error e) ∨
      ∃ before after mid, es = before ++ after ∧
        RunsOn (FileTree.responder cwd) (realize root (Session.setAll i ss)) t before (.ok ()) mid ∧
        RunsOn (FileTree.responder cwd) (realize root (Session.setAll i ss')) mid after a t' := by
  induction ss generalizing t es with
  | nil => exact .inr ⟨[], es, t, rfl, runsOn_pure.2 ⟨rfl, rfl, rfl⟩, h⟩
  | cons s ss ih =>
      obtain ⟨own, rest, mid, rfl, ⟨e, hfault, rfl, -⟩ | ⟨-, hset, hrest⟩⟩ := runsOn_setAll_cons h
      · exact .inl ⟨s, List.mem_cons_self, e, hfault, rfl⟩
      · have hshape := (runsOn_set hset).1.filled.sameShape
        obtain ⟨s', hs', e, hfault, rfl⟩ | ⟨before, after, last, rfl, hbefore, hafter⟩ := ih hrest
        · rw [Setting.fault?_congr hshape] at hfault
          exact .inl ⟨s', List.mem_cons_of_mem s hs', e, hfault, rfl⟩
        · refine .inr ⟨own ++ before, after, last, (List.append_assoc ..).symm, ?_, hafter⟩
          exact runsOn_bind.2 ⟨own, before, .ok (), mid, rfl, hset, hbefore⟩

/-- A file keeps what it shows if no setting reaches it but to write the same. -/
theorem holds_of_kept (hkeep : ∀ s ∈ ss, Utf8.encode s.value = content ∨
      ∀ loc, t.fileAt cwd p = .ok loc → loc ∉ (t.rewritable cwd (s.files i)).1)
    (hold : t.Holds cwd p content)
    (h : RunsOn (FileTree.responder cwd) (realize root (Session.setAll i ss)) t es a t') :
    t'.Holds cwd p content := by
  induction ss generalizing t es with
  | nil =>
      obtain ⟨rfl, rfl, rfl⟩ := runsOn_pure.1 h
      exact hold
  | cons s ss ih =>
      obtain ⟨hfirst, hothers⟩ := List.forall_mem_cons.1 hkeep
      have hset : ∀ {own answer mid}, RunsOn (FileTree.responder cwd) (set i s) t own answer mid →
          mid.Holds cwd p content := by
        intro own answer mid hset
        have hfilled := (runsOn_set hset).1.filled
        obtain hsame | hother := hfirst
        · obtain ⟨loc, mode, hfind⟩ := hold
          rw [hsame] at hfilled
          have hfind' := hfilled.find hfind
          rw [ite_self] at hfind'
          exact ⟨loc, mode, hfind'⟩
        · exact (hfilled.holds_iff hother content).2 hold
      obtain ⟨own, rest, mid, rfl, ⟨e, -, -, -, rfl, hlast⟩ | ⟨-, hmade, hrest⟩⟩ :=
        runsOn_setAll_cons h
      · exact hset hlast
      · have hshape := (runsOn_set hmade).1.filled.sameShape
        refine ih (fun s' hs' => ?_) (hset hmade) hrest
        rw [← FileTree.fileAt_congr hshape, ← FileTree.rewritable_congr hshape]
        exact hothers s' hs'

/-- Once settings that write the same have been made, all their files show it, even if some of them
are one file. -/
theorem holds_of_setAll (hsame : ∀ s ∈ ss, Utf8.encode s.value = content)
    (h : RunsOn (FileTree.responder cwd) (realize root (Session.setAll i ss)) t es (.ok ()) t')
    (hs : s ∈ ss) (hp : p ∈ s.files i) (hfile : t.IsFile cwd p) : t'.Holds cwd p content := by
  induction ss generalizing t es with
  | nil => cases hs
  | cons s' ss ih =>
      obtain ⟨hfirst, hothers⟩ := List.forall_mem_cons.1 hsame
      obtain ⟨own, rest, mid, rfl, ⟨e, -, heq, -⟩ | ⟨-, hmade, hrest⟩⟩ := runsOn_setAll_cons h
      · cases heq
      · have hshape := (runsOn_set hmade).1.filled.sameShape
        obtain rfl | hs := List.mem_cons.1 hs
        · obtain hheld | ⟨-, hmissing⟩ := holds_of_set hmade p hp
          · rw [hfirst] at hheld
            exact holds_of_kept (fun s' hs' => .inl (hothers s' hs')) hheld hrest
          · obtain ⟨loc, hat⟩ := FileTree.isFile_iff.1 (hshape.isFile_iff.2 hfile)
            rw [FileTree.isMissing_iff.1 hmissing] at hat
            cases hat
        · exact ih hothers hrest hs (hshape.isFile_iff.2 hfile)

end Settings

/-! ## Arming and draining -/

/-- The filters of an instance show the same. -/
structure Filtered (t : FileTree) (cwd : Location) (i : Instance) (content : Bytes) : Prop where
  events : t.Holds cwd (eventPidFile i) content
  functions : t.Holds cwd (functionPidFile i) content

namespace TraceRequest

/-- Arming up to the filters. -/
def filtering (r : TraceRequest) : List Setting :=
  [.option .eventFork true, .option .functionFork true] ++
    [.eventPids r.filterPids, .functionPids r.filterPids]

theorem arming_eq (r : TraceRequest) : r.arming = r.filtering ++ r.eventSettings true := rfl

variable {r : TraceRequest} {cwd : Location} {t t' : FileTree} {root : TracingRoot} {i : Instance}
  {es : List (Event (Actions FileSystem))} {a : Except TracingError Unit}

theorem filtered_of_filtering (hevent : t.IsFile cwd (eventPidFile i))
    (hfunction : t.IsFile cwd (functionPidFile i))
    (h : RunsOn (FileTree.responder cwd) (realize root (Session.setAll i r.filtering)) t es (.ok ())
      t') : Filtered t' cwd i (Utf8.encode (pidList r.filterPids)) := by
  obtain ⟨s, -, e, -, heq⟩ | ⟨before, after, mid, rfl, hforks, hfilters⟩ := runsOn_setAll_append h
  · cases heq
  · have hshape := sameShape_of_setAll hforks
    have hsame : ∀ s ∈ [Setting.eventPids r.filterPids, .functionPids r.filterPids],
        Utf8.encode s.value = Utf8.encode (pidList r.filterPids) := by
      simp [Setting.value, pidList]
    exact ⟨holds_of_setAll hsame hfilters List.mem_cons_self List.mem_cons_self
        (hshape.isFile_iff.2 hevent),
      holds_of_setAll hsame hfilters (List.mem_cons_of_mem _ List.mem_cons_self) List.mem_cons_self
        (hshape.isFile_iff.2 hfunction)⟩

/-- Without links no event is switched in a filter. -/
theorem holds_of_eventSettings (ht : t.NoLinks) {leaf : String} (hleaf : leaf ≠ "enable")
    (hname : Path.IsName (Utf8.encode leaf)) {content : Bytes} {on : Bool}
    (hold : t.Holds cwd (i.dir.join leaf) content)
    (h : RunsOn (FileTree.responder cwd) (realize root (Session.setAll i (r.eventSettings on))) t es
      a t') : t'.Holds cwd (i.dir.join leaf) content := by
  refine holds_of_kept (fun s hs => .inr fun loc hat hloc => hleaf ?_) hold h
  obtain ⟨-, rfl⟩ := mem_eventSettings.1 hs
  have hlast := FileTree.getLast?_of_fileAt ht hname hat
  rw [Setting.getLast?_of_mem ht hloc] at hlast
  exact (Utf8.encode_injective (Option.some.inj hlast)).symm

end TraceRequest

namespace Session

/-- A request with targets is read back from both filters once arming has written them, in whatever
tree they are files. What is written is never what clearing a filter writes. -/
theorem arming_filters {r : TraceRequest} {t : FileTree} {cwd : Location} {i : Instance}
    (htarget : r.pids ≠ [] ∨ r.parents ≠ []) (hpids : ∀ p ∈ r.pids ++ r.parents, IsPid p)
    (hevent : t.IsFile cwd (eventPidFile i)) (hfunction : t.IsFile cwd (functionPidFile i))
    (root : TracingRoot) :
    EachOnce (r.pids ++ r.parents) r.filterPids ∧
    (∃ content, content ≠ [] ∧ readPids? content = some r.filterPids ∧
      Ensures (FileTree.responder cwd) (realize root (setAll i r.arming)) t fun es a t' =>
        (∃ o e, (Setting.option o true).fault? t cwd i = some e ∧ a = .error e) ∨
        ∃ before after mid, es = before ++ after ∧
          RunsOn (FileTree.responder cwd) (realize root (setAll i r.filtering)) t before (.ok ())
            mid ∧
          RunsOn (FileTree.responder cwd) (realize root (setAll i (r.eventSettings true))) mid after
            a t' ∧
          Filtered mid cwd i content ∧ (t.NoLinks → Filtered t' cwd i content)) ∧
    ∀ s ∈ [Setting.eventPids [], .functionPids []], s ∈ r.draining ∧
      Ensures (FileTree.responder cwd) (set i s) t fun _ a t' =>
        a = .ok () ∧ ∀ p ∈ s.files i, t'.Holds cwd p [] := by
  have hone := r.eachOnce_filterPids
  have hne : r.filterPids ≠ [] := by
    have hall : r.pids ++ r.parents ≠ [] := fun hnil => by
      simp [List.append_eq_nil_iff.1 hnil] at htarget
    obtain ⟨p, hp⟩ := List.exists_mem_of_ne_nil _ hall
    exact List.ne_nil_of_mem ((hone.mem p).2 hp)
  have hread := readPids?_pidList hne fun p hp => hpids p ((hone.mem p).1 hp)
  refine ⟨hone, ⟨Utf8.encode (pidList r.filterPids), fun hnil => ?_, hread,
    FileTree.exists_runsOn _ t cwd, fun es a t' h => ?_⟩, fun s hs => ?_⟩
  · rw [hnil, readPids?_nil] at hread
    cases hread
  · rw [TraceRequest.arming_eq] at h
    obtain ⟨s, hs, e, hfault, rfl⟩ | ⟨before, after, mid, rfl, hbefore, hafter⟩ :=
      runsOn_setAll_append h
    · -- the filters are there, so the fault is that of an option
      have hmade : ∀ {s : Setting} {p : Path}, s.files i = [p] → t.IsFile cwd p →
          s.fault? t cwd i = none := by
        intro s p hfiles hfile
        rw [Setting.fault?_eq_none_iff, hfiles]
        exact List.forall_mem_singleton.2 (.inl hfile)
      simp only [TraceRequest.filtering, List.mem_append, List.mem_cons, List.not_mem_nil,
        or_false] at hs
      obtain (rfl | rfl) | rfl | rfl := hs
      · exact .inl ⟨_, e, hfault, rfl⟩
      · exact .inl ⟨_, e, hfault, rfl⟩
      · rw [hmade rfl hevent] at hfault
        cases hfault
      · rw [hmade rfl hfunction] at hfault
        cases hfault
    · have hfiltered := TraceRequest.filtered_of_filtering hevent hfunction hbefore
      refine .inr ⟨before, after, mid, rfl, hbefore, hafter, hfiltered, fun ht => ?_⟩
      have hmid := (sameShape_of_setAll hbefore).noLinks ht
      exact ⟨TraceRequest.holds_of_eventSettings hmid (by decide) (by decide) hfiltered.events
          hafter,
        TraceRequest.holds_of_eventSettings hmid (by decide) (by decide) hfiltered.functions
          hafter⟩
  · simp only [List.mem_cons, List.not_mem_nil, or_false] at hs
    obtain rfl | rfl := hs
    · exact ⟨TraceRequest.mem_draining.2 (by simp), ensures_holds rfl hevent rfl⟩
    · exact ⟨TraceRequest.mem_draining.2 (by simp), ensures_holds rfl hfunction rfl⟩

/-- A process asked for twice and a negative number, in an instance whose filters are empty. -/
theorem arming_filters_repeated :
    let r : TraceRequest := ⟨[42, -7, 42], [7, -7], none, none, .empty, none⟩
    let i := instanceOf ⟨"a", by decide⟩
    ∃ content es t',
      RunsOn (FileTree.responder []) (realize ⟨"/t", .tracefs⟩ (setAll i r.arming)) untouched es
        (.ok ()) t' ∧
      Filtered t' [] i content ∧ readPids? content = some [42, -7, 7] := by
  intro r i
  have hfile : ∀ p ∈ [eventPidFile i, functionPidFile i, optionFile i .eventFork,
      optionFile i .functionFork], untouched.IsFile [] p := by
    intro p hp
    simp only [List.mem_cons, List.not_mem_nil, or_false] at hp
    obtain rfl | rfl | rfl | rfl := hp
    case inr.inr.inl =>
      exact ⟨Utf8.encode "0", FileTree.holds_of_get? 0o644 rfl (by decide +kernel)⟩
    all_goals exact ⟨[], FileTree.holds_of_get? 0o644 rfl (by decide +kernel)⟩
  have hlinks : untouched.NoLinks := FileTree.noLinks_of_entries (by decide +kernel)
  obtain ⟨-, ⟨content, -, hread, ⟨es, a, t', hrun⟩, hall⟩, -⟩ :=
    arming_filters (r := r) (i := i) (.inl (by decide)) (by decide) (hfile _ (by simp))
      (hfile _ (by simp)) ⟨"/t", .tracefs⟩
  obtain ⟨o, e, hfault, -⟩ | ⟨before, after, mid, rfl, -, hevents, -, hfiltered⟩ := hall _ _ _ hrun
  · have hnone : (Setting.option o true).fault? untouched [] i = none := by
      refine Setting.fault?_eq_none_iff.2 fun p hp => .inl ?_
      obtain rfl := List.mem_singleton.1 hp
      cases o <;> exact hfile _ (by simp)
    rw [hnone] at hfault
    cases hfault
  · obtain ⟨-, rfl, -⟩ := runsOn_pure.1 hevents
    exact ⟨content, _, t', hrun, hfiltered hlinks, hread⟩

end Session

end KernelTrace
