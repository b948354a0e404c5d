import KernelTrace.Proofs.SettingAnswers

/-!
# What a session comes to

What becomes of a session on the control files is settled when it begins. Rewriting files puts none
of them right or wrong, so every setting is answered with the fault that one of its files has had
from the start (`settled_of_carries`), and arming stops at the first file that is at fault in the
order of the settings.

Draining is then never what fails. Each of its settings goes through the files of one that was made
before, and is as patient with those that are missing (`TraceRequest.exists_twin`). If draining has
a fault, so has what came before, and that is the failure the session reports.
-/

namespace KernelTrace

open Program Actions

variable {t t' : FileTree} {cwd : Location} {i : Instance} {r : TraceRequest}

/-- The call was answered with the fault that its files have in `t`. -/
def SettingCall.IsSettled (t : FileTree) (cwd : Location) (i : Instance) (c : SettingCall) : Prop :=
  c.failure? = c.setting.fault? t cwd i

theorem settled_of_carries {root : TracingRoot} {es : List (Event Backend)}
    {fs : List (Event FileSystem)} (hes : ∀ e ∈ es, ∃ s a, e = ⟨.set i s, a⟩)
    (h : Carries (FileTree.responder cwd) (ControlFiles.answer root) t es fs t') :
    ∀ c ∈ settingCalls es, c.IsSettled t cwd i := by
  rintro ⟨j, s, a⟩ hc
  have hmem := mem_settingCalls.1 hc
  obtain ⟨s', a', heq⟩ := hes _ hmem
  cases heq
  obtain ⟨before, after, u, v, rfl, hbefore, ⟨own, hrun⟩, -⟩ := h.served.exists_of_mem hmem
  have hshape := sameShape_of_serves hbefore fun e he => hes e (List.mem_append_left _ he)
  obtain ⟨-, ha⟩ := ControlFiles.runsOn_set hrun
  rw [← FileTree.rewritable_congr hshape, Setting.verdict_eq] at ha
  rw [SettingCall.IsSettled, SettingCall.failure?]
  dsimp only at ha ⊢
  rw [ha]
  cases s.fault? t cwd j <;> rfl

/-! ## Draining has no fault of its own -/

theorem Setting.fault?_eq_none_congr {s s' : Setting} (hfiles : s'.files i = s.files i)
    (hoptional : s'.isOptional = s.isOptional) (h : s.fault? t cwd i = none) :
    s'.fault? t cwd i = none := by
  rw [fault?_eq_none_iff] at h ⊢
  rwa [hfiles, hoptional]

/-- A setting of the draining has the files of one that was made before. -/
theorem TraceRequest.exists_twin {s : Setting} (hs : s ∈ r.draining) (i : Instance) :
    ∃ s', (s' ∈ r.arming ∨ s' = .tracing true) ∧ s.files i = s'.files i ∧
      s.isOptional = s'.isOptional := by
  obtain rfl | rfl | rfl | rfl | rfl | ⟨hevents, rfl⟩ := mem_draining.1 hs
  · exact ⟨.tracing true, .inr rfl, rfl, rfl⟩
  · exact ⟨.option .eventFork true, .inl (mem_arming.2 (by simp)), rfl, rfl⟩
  · exact ⟨.option .functionFork true, .inl (mem_arming.2 (by simp)), rfl, rfl⟩
  · exact ⟨.eventPids r.filterPids, .inl (mem_arming.2 (by simp)), rfl, rfl⟩
  · exact ⟨.functionPids r.filterPids, .inl (mem_arming.2 (by simp)), rfl, rfl⟩
  · exact ⟨.events r.events true, .inl (mem_arming.2 (by simp [hevents])), rfl, rfl⟩

/-- Of a course in which every call was settled from the start, the faults say how it ends. -/
theorem Course.result_cases {calls : List SettingCall} {waits : List Wait}
    {result : Except SessionError SessionReport}
    (h : Course r.arming r.draining r i calls waits result)
    (hcalls : ∀ c ∈ calls, c.IsSettled t cwd i) :
    (∃ e, r.arming.findSome? (·.fault? t cwd i) = some e ∧ result = .error (.arm i.name e)) ∨
      r.arming.findSome? (·.fault? t cwd i) = none ∧
        ((∃ e, (Setting.tracing true).fault? t cwd i = some e ∧
            result = .error (.start i.name e)) ∨
          (Setting.tracing true).fault? t cwd i = none ∧ ∃ wake, result = .ok ⟨i, wake⟩) := by
  have hmade : ∀ {ss : List Setting}, (∀ s ∈ ss, .made i s ∈ calls) →
      ∀ s ∈ ss, s.fault? t cwd i = none := fun hss s hs => (hcalls _ (hss s hs)).symm
  have harmed : (∀ s ∈ r.arming, .made i s ∈ calls) →
      r.arming.findSome? (·.fault? t cwd i) = none := fun hss =>
    List.findSome?_eq_none_iff.2 (hmade hss)
  cases h with
  | @unarmed before after s e drained cut drains =>
      refine .inl ⟨e, ?_, rfl⟩
      rw [cut]
      refine List.findSome?_eq_some_iff.2 ⟨before, s, after, rfl, ?_, hmade fun s hs => ?_⟩
      · exact (hcalls (.refused i s e) (by simp)).symm
      · exact List.mem_append_left _ (List.mem_map_of_mem hs)
  | @unstarted e drained drains =>
      refine .inr ⟨harmed fun s hs => List.mem_append_left _ (List.mem_map_of_mem hs), .inl ?_⟩
      exact ⟨e, (hcalls (.refused i (.tracing true) e) (by simp)).symm, rfl⟩
  | @undrained wake e drained drains failed =>
      have hnone := harmed fun s hs => List.mem_append_left _ (List.mem_map_of_mem hs)
      have hstarted : (Setting.tracing true).fault? t cwd i = none :=
        (hcalls (.made i (.tracing true)) (by simp)).symm
      obtain ⟨before, c, after, rfl, hfailed, -⟩ := List.findSome?_eq_some_iff.1 failed
      obtain ⟨-, hc⟩ := drains.mem (List.mem_append_right before List.mem_cons_self)
      obtain ⟨s', hs', hfiles, hoptional⟩ := TraceRequest.exists_twin hc i
      have htwin : s'.fault? t cwd i = none := by
        obtain hs' | rfl := hs'
        · exact List.findSome?_eq_none_iff.1 hnone s' hs'
        · exact hstarted
      rw [hcalls c (by simp), Setting.fault?_eq_none_congr hfiles hoptional htwin] at hfailed
      cases hfailed
  | @completed wake drained drains succeeded =>
      refine .inr ⟨harmed fun s hs => List.mem_append_left _ (List.mem_map_of_mem hs), .inr ?_⟩
      exact ⟨(hcalls (.made i (.tracing true)) (by simp)).symm, wake, rfl⟩

/-! ## The files that arming goes through -/

open ControlFiles

/-- The control files that a session writes before it switches tracing on, in order. -/
def armingFiles (r : TraceRequest) (i : Instance) : List KnobFile :=
  [⟨optionFile i .eventFork, "1", false⟩, ⟨optionFile i .functionFork, "1", true⟩,
    ⟨eventPidFile i, " ".intercalate (r.filterPids.map toString), false⟩,
    ⟨functionPidFile i, " ".intercalate (r.filterPids.map toString), true⟩] ++
    (eventFiles i r.events).map fun p => ⟨p, "1", false⟩

theorem findSome?_armingFiles (r : TraceRequest) (i : Instance) :
    (armingFiles r i).findSome? (·.fault? t cwd) = r.arming.findSome? (·.fault? t cwd i) := by
  have hevents : (r.eventSettings true).findSome? (·.fault? t cwd i) =
      ((eventFiles i r.events).map fun p => (⟨p, "1", false⟩ : KnobFile)).findSome?
        (·.fault? t cwd) := by
    rw [eventSettings_eq]
    split
    · next hnone =>
        rw [eventFiles, hnone]
        rfl
    · rw [List.findSome?_singleton]
      rfl
  rw [armingFiles, TraceRequest.arming, List.findSome?_append, List.findSome?_append, hevents]
  simp only [List.findSome?_cons, List.findSome?_nil,
    Setting.fault?_of_files (s := .option .eventFork true) rfl,
    Setting.fault?_of_files (s := .option .functionFork true) rfl,
    Setting.fault?_of_files (s := .eventPids r.filterPids) rfl,
    Setting.fault?_of_files (s := .functionPids r.filterPids) rfl]
  rfl

/-- No file is at fault if those that are needed are there and the others are there or missing. -/
theorem faults_eq_none_iff :
    ((armingFiles r i).findSome? (·.fault? t cwd) = none ∧
        (⟨tracingFile i, "1", false⟩ : KnobFile).fault? t cwd = none) ↔
      (∀ p ∈ tracingFile i :: optionFile i .eventFork :: eventPidFile i :: eventFiles i r.events,
          t.IsFile cwd p) ∧
        ∀ p ∈ [optionFile i .functionFork, functionPidFile i],
          t.IsFile cwd p ∨ t.IsMissing cwd p := by
  simp only [List.findSome?_eq_none_iff, armingFiles, List.forall_mem_append, List.forall_mem_cons,
    List.forall_mem_map, KnobFile.fault?_eq_none_iff, List.not_mem_nil, false_and, or_false,
    true_and, Bool.false_eq_true, false_imp_iff, implies_true, and_true]
  constructor
  · rintro ⟨⟨⟨hfork, hfunctions, hpids, hfunctionPids⟩, hevents⟩, htracing⟩
    exact ⟨⟨htracing, hfork, hpids, hevents⟩, hfunctions, hfunctionPids⟩
  · rintro ⟨⟨htracing, hfork, hpids, hevents⟩, hfunctions, hfunctionPids⟩
    exact ⟨⟨⟨hfork, hfunctions, hpids, hfunctionPids⟩, hevents⟩, htracing⟩

/-- On the control files of a live instance that nobody else changes, a session succeeds exactly if
every file that it needs is there and nothing but the function filter is missing. Otherwise it fails
with the first file that is at fault in the order of the arming, or, if all of these are well, with
the one that switches tracing on. -/
theorem execute_result {root : TracingRoot} {name : InstanceName}
    (htarget : ¬ (r.pids = [] ∧ r.parents = [])) (hname : r.inst = some name)
    (hlive : t.isDirectory cwd (root.instanceDir name.text) = true) :
    let i : Instance := ⟨name, root.instanceDir name.text⟩
    Ensures (FileTree.responder cwd) (realize root (Session.execute r)) t fun _ result _ =>
      ((∃ report, result = .ok report) ↔
        (∀ p ∈ tracingFile i :: optionFile i .eventFork :: eventPidFile i :: eventFiles i r.events,
          t.IsFile cwd p) ∧
        ∀ p ∈ [optionFile i .functionFork, functionPidFile i],
          t.IsFile cwd p ∨ t.IsMissing cwd p) ∧
      (∀ e, (armingFiles r i).findSome? (·.fault? t cwd) = some e →
        result = .error (.arm name e)) ∧
      (∀ e, (armingFiles r i).findSome? (·.fault? t cwd) = none →
        (⟨tracingFile i, "1", false⟩ : KnobFile).fault? t cwd = some e →
        result = .error (.start name e)) ∧
      ∀ n e, result ≠ .error (.drain n e) := by
  intro i
  refine ⟨FileTree.exists_runsOn _ t cwd, fun es result t' h => ?_⟩
  obtain ⟨after, fs, hconduct, hcarries, -⟩ := exists_conduct htarget hname hlive h
  have hsettled := settled_of_carries (Session.calls_of_conduct hconduct) hcarries
  have hcases := (Session.runs_conduct hconduct).result_cases hsettled
  have hstart : (Setting.tracing true).fault? t cwd i =
      (⟨tracingFile i, "1", false⟩ : KnobFile).fault? t cwd := Setting.fault?_of_files rfl
  rw [← findSome?_armingFiles, hstart] at hcases
  rw [← faults_eq_none_iff]
  obtain ⟨e, hfault, rfl⟩ | ⟨hnone, ⟨e, hfault, rfl⟩ | ⟨hstarted, wake, rfl⟩⟩ := hcases
  · refine ⟨⟨(fun ⟨_, hok⟩ => nomatch hok), fun hwell => ?_⟩, fun e' he => ?_, fun e' he => ?_,
      nofun⟩
    · cases hfault.symm.trans hwell.1
    · cases hfault.symm.trans he
      rfl
    · cases hfault.symm.trans he
  · refine ⟨⟨(fun ⟨_, hok⟩ => nomatch hok), fun hwell => ?_⟩, fun e' he => ?_, fun e' _ he => ?_,
      nofun⟩
    · cases hfault.symm.trans hwell.2
    · cases hnone.symm.trans he
    · cases hfault.symm.trans he
      rfl
  · refine ⟨⟨fun _ => ⟨hnone, hstarted⟩, fun _ => ⟨_, rfl⟩⟩, fun e he => ?_, fun e _ he => ?_,
      nofun⟩
    · cases hnone.symm.trans he
    · cases hstarted.symm.trans he

/-- The instance `a` of `leftOn` has no function filter, and a session in it succeeds. -/
theorem execute_result_wake :
    let r : TraceRequest := { halfKnown with events := .ofList [("sched", "wake")] }
    Ensures (FileTree.responder []) (realize ⟨"/t", .tracefs⟩ (Session.execute r)) leftOn
      fun _ result _ => ∃ report, result = .ok report := by
  intro r
  let i := instanceOf ⟨"a", by decide⟩
  have hdir : leftOn.find [] i.dir = .ok (i.dir.steps, .directory) :=
    FileTree.find_of_get? rfl (by decide) (by decide) (by decide) nofun (by decide)
  have hlive : leftOn.isDirectory [] i.dir = true := by
    rw [FileTree.isDirectory, hdir]
  have htracing : leftOn.Holds [] (tracingFile i) (Utf8.encode "1") :=
    FileTree.holds_of_get? 0o644 rfl (by decide)
  have hfork : leftOn.Holds [] (optionFile i .eventFork) (Utf8.encode "0") :=
    FileTree.holds_of_get? 0o644 rfl (by decide)
  have hpids : leftOn.Holds [] (eventPidFile i) (Utf8.encode "") :=
    FileTree.holds_of_get? 0o644 rfl (by decide)
  have hevents : eventFiles i r.events = [wakeSwitch] := by decide
  have hfunctions : leftOn.IsMissing [] (optionFile i .functionFork) :=
    FileTree.find_of_get?_eq_none 4 rfl (by decide)
  have hfunctionPids : leftOn.IsMissing [] (functionPidFile i) :=
    FileTree.find_of_get?_eq_none 3 rfl (by decide)
  have htarget : ¬ (r.pids = [] ∧ r.parents = []) := by decide
  obtain ⟨hends, hall⟩ := execute_result (t := leftOn) (r := r) htarget rfl hlive
  refine ⟨hends, fun es result t' h => (hall es result t' h).1.2 ⟨?_, ?_⟩⟩
  · change ∀ p ∈ tracingFile i :: optionFile i .eventFork :: eventPidFile i ::
      eventFiles i r.events, leftOn.IsFile [] p
    rw [hevents, List.forall_mem_cons, List.forall_mem_cons, List.forall_mem_cons,
      List.forall_mem_singleton]
    exact ⟨⟨_, htracing⟩, ⟨_, hfork⟩, ⟨_, hpids⟩, ⟨_, holds_wakeSwitch⟩⟩
  · rw [List.forall_mem_cons, List.forall_mem_singleton]
    exact ⟨.inr hfunctions, .inr hfunctionPids⟩

end KernelTrace
