import KernelTrace.Proofs.BindingCourse
import KernelTrace.Session
import KernelTrace.Tracing.Recording

/-!
# The course of a session

A session's promise is about the paths on which something fails: whatever went wrong between
binding an instance and the end of the trace, every setting is put back. This file says it as a
fact about all runs, with no backend in sight. `Course` lists what a bound session can do: it makes
the arming settings up to the first that fails, switches tracing on if none did, waits, and then
makes *all* the draining settings whatever their answers. A run of
`Session.execute` takes one of these courses (`Session.runs_conduct`), or ends before it has set
anything.

Which failure a session reports is part of the course: the earliest stage that failed wins, and of
several failures while draining the first.
-/

namespace KernelTrace

open Program Actions

/-- A setting that was made on an instance, with what became of it. -/
structure SettingCall where
  inst : Instance
  setting : Setting
  answer : Except TracingError Unit

namespace SettingCall

def made (i : Instance) (s : Setting) : SettingCall := ⟨i, s, .ok ()⟩

def refused (i : Instance) (s : Setting) (e : TracingError) : SettingCall := ⟨i, s, .error e⟩

def failure? (c : SettingCall) : Option TracingError :=
  match c.answer with
  | .ok () => none
  | .error e => some e

end SettingCall

def settingCalls : List (Event Backend) → List SettingCall
  | [] => []
  | ⟨.set i s, answer⟩ :: es => ⟨i, s, answer⟩ :: settingCalls es
  | _ :: es => settingCalls es

@[simp] theorem settingCalls_nil : settingCalls [] = [] := rfl

@[simp] theorem settingCalls_set {i : Instance} {s : Setting} {answer : Except TracingError Unit}
    {es : List (Event Backend)} :
    settingCalls (⟨.set i s, answer⟩ :: es) = ⟨i, s, answer⟩ :: settingCalls es := rfl

@[simp] theorem settingCalls_append (es fs : List (Event Backend)) :
    settingCalls (es ++ fs) = settingCalls es ++ settingCalls fs := by
  induction es with
  | nil => rfl
  | cons e es ih =>
      obtain ⟨op, answer⟩ := e
      cases op <;> simp only [settingCalls, List.cons_append, ih]

theorem mem_settingCalls {c : SettingCall} {es : List (Event Backend)} :
    c ∈ settingCalls es ↔ (⟨.set c.inst c.setting, c.answer⟩ : Event Backend) ∈ es := by
  induction es with
  | nil => simp
  | cons e es ih =>
      obtain ⟨op, answer⟩ := e
      cases op with
      | set i s =>
          rw [settingCalls_set, List.mem_cons, List.mem_cons, ih]
          refine or_congr ⟨?_, ?_⟩ Iff.rfl
          · rintro rfl
            rfl
          · rintro ⟨⟩
            rfl
      | _ => simp [settingCalls, ih]

abbrev settingsOf (es : List (Event (Actions Backend))) : List SettingCall :=
  settingCalls (calls es)

theorem settingsOf_log {record : LogRecord} {u : Unit} {es : List (Event (Actions Backend))} :
    settingsOf (⟨.log record, u⟩ :: es) = settingsOf es := rfl

theorem settingsOf_append (es fs : List (Event (Actions Backend))) :
    settingsOf (es ++ fs) = settingsOf es ++ settingsOf fs := by
  rw [settingsOf, calls_append, settingCalls_append]

/-- A wait for the end of a trace: how long at most, for which processes, and why it ended. -/
structure Wait where
  deadline : Option Nat
  targets : Option TargetWatch
  wake : WakeReason

def waitsOf : List (Event (Actions Backend)) → List Wait
  | [] => []
  | ⟨.wait deadline targets, wake⟩ :: es => ⟨deadline, targets, wake⟩ :: waitsOf es
  | _ :: es => waitsOf es

theorem waitsOf_log {record : LogRecord} {u : Unit} {es : List (Event (Actions Backend))} :
    waitsOf (⟨.log record, u⟩ :: es) = waitsOf es := rfl

@[simp] theorem waitsOf_append (es fs : List (Event (Actions Backend))) :
    waitsOf (es ++ fs) = waitsOf es ++ waitsOf fs := by
  induction es with
  | nil => rfl
  | cons e es ih =>
      obtain ⟨op, answer⟩ := e
      cases op <;> simp only [waitsOf, List.cons_append, ih]

/-- Events that are no business of the backend and no wait. -/
def Quiet (es : List (Event (Actions Backend))) : Prop := calls es = [] ∧ waitsOf es = []

theorem quiet_nil : Quiet [] := ⟨rfl, rfl⟩

theorem Quiet.cons_log {es : List (Event (Actions Backend))} (h : Quiet es) (record : LogRecord)
    (u : Unit) : Quiet (⟨.log record, u⟩ :: es) := h

theorem Quiet.append_right {es : List (Event (Actions Backend))} (h : Quiet es)
    (fs : List (Event (Actions Backend))) :
    settingsOf (fs ++ es) = settingsOf fs ∧ waitsOf (fs ++ es) = waitsOf fs := by
  rw [settingsOf, calls_append, h.1, waitsOf_append, h.2, List.append_nil, List.append_nil]
  exact ⟨rfl, rfl⟩

/-! ## The courses -/

/-- Settings made on an instance whatever the answers: all of `ss`, each once and in order. -/
def Attempts (i : Instance) (ss : List Setting) (calls : List SettingCall) : Prop :=
  calls.map (fun c => (c.inst, c.setting)) = ss.map fun s => (i, s)

theorem Attempts.mem {i : Instance} {ss : List Setting} {calls : List SettingCall}
    (h : Attempts i ss calls) {c : SettingCall} (hc : c ∈ calls) : c.inst = i ∧ c.setting ∈ ss := by
  have hmem : (c.inst, c.setting) ∈ calls.map fun c => (c.inst, c.setting) :=
    List.mem_map.2 ⟨c, hc, rfl⟩
  rw [h] at hmem
  obtain ⟨s, hs, heq⟩ := List.mem_map.1 hmem
  cases heq
  exact ⟨rfl, hs⟩

theorem Attempts.map_setting {i : Instance} {ss : List Setting} {calls : List SettingCall}
    (h : Attempts i ss calls) : calls.map SettingCall.setting = ss := by
  have hpairs := congrArg (List.map Prod.snd) h
  rw [List.map_map, List.map_map] at hpairs
  exact hpairs.trans (List.map_id ss)

theorem Attempts.exists_call {i : Instance} {ss : List Setting} {calls : List SettingCall}
    (h : Attempts i ss calls) {s : Setting} (hs : s ∈ ss) : ∃ c ∈ calls, c.setting = s := by
  have hmem : (i, s) ∈ ss.map fun s => (i, s) := List.mem_map.2 ⟨s, hs, rfl⟩
  rw [← h] at hmem
  obtain ⟨c, hc, heq⟩ := List.mem_map.1 hmem
  exact ⟨c, hc, congrArg Prod.snd heq⟩

def firstFailure? (calls : List SettingCall) : Option TracingError :=
  calls.findSome? SettingCall.failure?

/-- `Course arm drain r i calls waits result`: having bound `i`, a session for `r` that arms with
the settings `arm` and drains with `drain` can make the settings `calls`, wait as `waits` says and
come to `result`. -/
inductive Course (arm drain : List Setting) (r : TraceRequest) (i : Instance) :
    List SettingCall → List Wait → Except SessionError SessionReport → Prop where
  /-- An arming setting failed: no more of them is made, tracing is never switched on. -/
  | unarmed {before after : List Setting} {s : Setting} {e : TracingError}
      {drained : List SettingCall} (cut : arm = before ++ s :: after)
      (drains : Attempts i drain drained) :
      Course arm drain r i (before.map (.made i) ++ .refused i s e :: drained) []
        (.error (.arm i.name e))
  /-- The instance was armed, but tracing could not be switched on. -/
  | unstarted {e : TracingError} {drained : List SettingCall} (drains : Attempts i drain drained) :
      Course arm drain r i (arm.map (.made i) ++ .refused i (.tracing true) e :: drained) []
        (.error (.start i.name e))
  /-- The trace ended, but not every setting could be put back. -/
  | undrained {wake : WakeReason} {e : TracingError} {drained : List SettingCall}
      (drains : Attempts i drain drained) (failed : firstFailure? drained = some e) :
      Course arm drain r i (arm.map (.made i) ++ .made i (.tracing true) :: drained)
        [⟨r.deadline, r.targets, wake⟩] (.error (.drain i.name e))
  /-- The trace ended and every setting was put back. -/
  | completed {wake : WakeReason} {drained : List SettingCall}
      (drains : Attempts i drain drained) (succeeded : firstFailure? drained = none) :
      Course arm drain r i (arm.map (.made i) ++ .made i (.tracing true) :: drained)
        [⟨r.deadline, r.targets, wake⟩] (.ok ⟨i, wake⟩)

/-! ## Going through settings -/

namespace Session

/-- Arming makes the settings in turn: all of them, or those before the first that fails and
that one. -/
theorem runs_setAll {i : Instance} {ss : List Setting} {es : List (Event (Actions Backend))}
    {result : Except TracingError Unit} (h : Runs (setAll i ss) es result) :
    waitsOf es = [] ∧
      ((result = .ok () ∧ settingsOf es = ss.map (.made i)) ∨
        ∃ before s after e, ss = before ++ s :: after ∧ result = .error e ∧
          settingsOf es = before.map (.made i) ++ [.refused i s e]) := by
  induction ss generalizing es with
  | nil =>
      obtain ⟨rfl, rfl⟩ := runs_pure.1 h
      exact ⟨rfl, Or.inl ⟨rfl, rfl⟩⟩
  | cons s ss ih =>
      obtain ⟨answer, rest, rfl, hrest⟩ := runs_perform_bind.1 h
      match answer with
      | .error e =>
          obtain ⟨rfl, rfl⟩ := runs_pure.1 hrest
          exact ⟨rfl, Or.inr ⟨[], s, ss, e, rfl, rfl, rfl⟩⟩
      | .ok () =>
          obtain ⟨hwaits, ⟨rfl, hset⟩ | ⟨before, s', after, e, rfl, rfl, hset⟩⟩ := ih hrest
          · exact ⟨hwaits, Or.inl ⟨rfl, congrArg (SettingCall.made i s :: ·) hset⟩⟩
          · refine ⟨hwaits, Or.inr ⟨s :: before, s', after, e, rfl, rfl, ?_⟩⟩
            exact congrArg (SettingCall.made i s :: ·) hset

/-- Draining makes every setting and gives the failures in order. -/
theorem runs_setEach {i : Instance} {ss : List Setting} {es : List (Event (Actions Backend))}
    {failures : List TracingError} (h : Runs (setEach i ss) es failures) :
    waitsOf es = [] ∧ Attempts i ss (settingsOf es) ∧
      failures = (settingsOf es).filterMap SettingCall.failure? := by
  induction ss generalizing es failures with
  | nil =>
      obtain ⟨rfl, rfl⟩ := runs_pure.1 h
      exact ⟨rfl, rfl, rfl⟩
  | cons s ss ih =>
      obtain ⟨answer, rest, rfl, hrest⟩ := runs_perform_bind.1 h
      obtain ⟨es₁, es₂, failures', rfl, hothers, hend⟩ := runs_bind.1 hrest
      obtain ⟨hwaits, hall, rfl⟩ := ih hothers
      have hattempts : Attempts i (s :: ss) (⟨i, s, answer⟩ :: settingsOf es₁) :=
        congrArg ((i, s) :: ·) hall
      match answer with
      | .ok () | .error e =>
          obtain ⟨rfl, rfl⟩ := runs_pure.1 hend
          rw [List.append_nil]
          exact ⟨hwaits, hattempts, rfl⟩

theorem quiet_of_warnEach {i : Instance} {failures : List TracingError}
    {es : List (Event (Actions Backend))} {u : Unit} (h : Runs (warnEach i failures) es u) :
    Quiet es := by
  induction failures generalizing es with
  | nil =>
      obtain ⟨rfl, -⟩ := runs_pure.1 h
      exact quiet_nil
  | cons e rest ih =>
      obtain ⟨u', rest, rfl, hrest⟩ := runs_perform_bind.1 h
      exact (ih hrest).cons_log _ u'

theorem runs_drain {r : TraceRequest} {i : Instance} {es : List (Event (Actions Backend))}
    {result : Except TracingError Unit} (h : Runs (drain r i) es result) :
    waitsOf es = [] ∧ Attempts i r.draining (settingsOf es) ∧
      ((result = .ok () ∧ firstFailure? (settingsOf es) = none) ∨
        ∃ e, result = .error e ∧ firstFailure? (settingsOf es) = some e) := by
  obtain ⟨es₁, es₂, failures, rfl, heach, hrest⟩ := runs_bind.1 h
  obtain ⟨es₃, es₄, u, rfl, hwarn, hend⟩ := runs_bind.1 hrest
  obtain ⟨hwaits, hall, rfl⟩ := runs_setEach heach
  have hfirst : ((settingsOf es₁).filterMap SettingCall.failure?).head? =
      firstFailure? (settingsOf es₁) := List.head?_filterMap
  cases hf : (settingsOf es₁).filterMap SettingCall.failure? with
  | nil =>
      rw [hf] at hend hfirst
      obtain ⟨rfl, rfl⟩ := runs_pure.1 hend
      obtain ⟨hset, hwait⟩ := (quiet_of_warnEach hwarn).append_right es₁
      rw [List.append_nil, hset, hwait]
      exact ⟨hwaits, hall, Or.inl ⟨rfl, hfirst.symm⟩⟩
  | cons e rest =>
      rw [hf] at hend hfirst
      obtain ⟨rfl, rfl⟩ := runs_pure.1 hend
      obtain ⟨hset, hwait⟩ := (quiet_of_warnEach hwarn).append_right es₁
      rw [List.append_nil, hset, hwait]
      exact ⟨hwaits, hall, Or.inr ⟨e, rfl, hfirst.symm⟩⟩

/-! ## The whole session -/

/-- What a session does once it has bound an instance. -/
def conduct (r : TraceRequest) (i : Instance) :
    Tracing (Except SessionError SessionReport) := do
  enter .parsed .bound
  let (state, traced) ← trace r i
  enter state .draining
  let drained ← drain r i
  let result := outcome i traced drained
  enter .draining (endState result)
  return result

def hasTarget (r : TraceRequest) : Bool := !(r.pids.isEmpty && r.parents.isEmpty)

theorem hasTarget_eq_false {r : TraceRequest} :
    hasTarget r = false ↔ r.pids = [] ∧ r.parents = [] := by
  simp [hasTarget]

theorem hasTarget_eq_true {r : TraceRequest} :
    hasTarget r = true ↔ ¬ (r.pids = [] ∧ r.parents = []) := by
  rw [← hasTarget_eq_false, Bool.not_eq_false]

theorem execute_eq (r : TraceRequest) :
    execute r =
      if hasTarget r then do
        match ← Instances.bind r.inst with
        | .error e =>
          enter .parsed .failed
          return .error (.bind e)
        | .ok i => conduct r i
      else do
        enter .parsed .failed
        return .error .missingTarget := by
  unfold execute hasTarget
  cases r.pids.isEmpty && r.parents.isEmpty <;> rfl

/-- The part of a trace in which tracing is on. -/
def running (r : TraceRequest) (i : Instance) :
    Tracing (SessionState × Except SessionError WakeReason) := do
  enter .armed .running
  let limit := (r.deadline.map fun d => "for " ++ showMilliseconds d).getD "until stopped"
  Actions.log .info s!"tracing {showPids r.filterPids} in instance {i.name.text} ({limit})"
  let wake ← Actions.wait r.deadline r.targets
  if wake = .targetsExited then
    Actions.log .trace s!"none of {showPids r.filterPids} is running"
  Actions.log .info s!"trace in instance {i.name.text} ended: {wake.message}"
  return (.running, .ok wake)

/-- While tracing is on nothing is set, and the session waits once. -/
theorem runs_running {r : TraceRequest} {i : Instance} {es : List (Event (Actions Backend))}
    {state : SessionState} {traced : Except SessionError WakeReason}
    (h : Runs (running r i) es (state, traced)) :
    ∃ wake, state = .running ∧ traced = .ok wake ∧ settingsOf es = [] ∧
      waitsOf es = [⟨r.deadline, r.targets, wake⟩] := by
  obtain ⟨_, rest, rfl, h₁⟩ := runs_perform_bind.1 h
  obtain ⟨_, rest, rfl, h₂⟩ := runs_perform_bind.1 h₁
  obtain ⟨wake, rest, rfl, h₃⟩ := runs_perform_bind.1 h₂
  have hend : Quiet rest ∧ (state, traced) = (.running, .ok wake) := by
    split at h₃
    · obtain ⟨u, rest, rfl, h₄⟩ := runs_perform_bind.1 h₃
      obtain ⟨u', rest, rfl, h₅⟩ := runs_perform_bind.1 h₄
      obtain ⟨rfl, heq⟩ := runs_pure.1 h₅
      exact ⟨(quiet_nil.cons_log _ u').cons_log _ u, heq⟩
    · obtain ⟨u, rest, rfl, h₄⟩ := runs_perform_bind.1 h₃
      obtain ⟨rfl, heq⟩ := runs_pure.1 h₄
      exact ⟨quiet_nil.cons_log _ u, heq⟩
  obtain ⟨⟨hcalls, hwaits⟩, heq⟩ := hend
  cases heq
  refine ⟨wake, rfl, rfl, ?_, ?_⟩
  · exact congrArg settingCalls hcalls
  · exact congrArg (⟨r.deadline, r.targets, wake⟩ :: ·) hwaits

/-- The first half of a course: what was set up to the end of the trace. -/
theorem runs_trace {r : TraceRequest} {i : Instance} {es : List (Event (Actions Backend))}
    {state : SessionState} {traced : Except SessionError WakeReason}
    (h : Runs (trace r i) es (state, traced)) :
    (∃ before s after e, r.arming = before ++ s :: after ∧ traced = .error (.arm i.name e) ∧
        settingsOf es = before.map (.made i) ++ [.refused i s e] ∧ waitsOf es = []) ∨
      (∃ e, traced = .error (.start i.name e) ∧ waitsOf es = [] ∧
        settingsOf es = r.arming.map (.made i) ++ [.refused i (.tracing true) e]) ∨
      ∃ wake, traced = .ok wake ∧ waitsOf es = [⟨r.deadline, r.targets, wake⟩] ∧
        settingsOf es = r.arming.map (.made i) ++ [.made i (.tracing true)] := by
  obtain ⟨_, rest, rfl, hafter⟩ := runs_perform_bind.1 h
  obtain ⟨es₁, es₂, armed, rfl, harm, hstart⟩ := runs_bind.1 hafter
  rw [settingsOf_log, waitsOf_log, settingsOf_append, waitsOf_append]
  obtain ⟨hwaits, ⟨rfl, hset⟩ | ⟨before, s, after, e, hcut, rfl, hset⟩⟩ := runs_setAll harm
  · obtain ⟨answer, rest, rfl, hrun⟩ := runs_perform_bind.1 hstart
    rw [hset, hwaits]
    match answer with
    | .error e =>
        obtain ⟨rfl, heq⟩ := runs_pure.1 hrun
        cases heq
        exact Or.inr (Or.inl ⟨e, rfl, rfl, rfl⟩)
    | .ok () =>
        obtain ⟨wake, rfl, rfl, hset, hwait⟩ := runs_running hrun
        refine Or.inr (Or.inr ⟨wake, rfl, hwait, ?_⟩)
        exact congrArg (fun cs => r.arming.map (.made i) ++ .made i (.tracing true) :: cs) hset
  · obtain ⟨rfl, heq⟩ := runs_pure.1 hstart
    cases heq
    rw [hset, hwaits]
    exact Or.inl ⟨before, s, after, e, hcut, rfl, List.append_nil _, rfl⟩

theorem runs_conduct {r : TraceRequest} {i : Instance} {es : List (Event (Actions Backend))}
    {result : Except SessionError SessionReport} (h : Runs (conduct r i) es result) :
    Course r.arming r.draining r i (settingsOf es) (waitsOf es) result := by
  obtain ⟨_, rest, rfl, h₁⟩ := runs_perform_bind.1 h
  obtain ⟨es₁, rest, ⟨state, traced⟩, rfl, htrace, h₂⟩ := runs_bind.1 h₁
  obtain ⟨_, rest, rfl, h₃⟩ := runs_perform_bind.1 h₂
  obtain ⟨es₂, rest, drained, rfl, hdrain, h₄⟩ := runs_bind.1 h₃
  obtain ⟨u, rest, rfl, h₅⟩ := runs_perform_bind.1 h₄
  obtain ⟨rfl, rfl⟩ := runs_pure.1 h₅
  obtain ⟨hset, hwait⟩ := (quiet_nil.cons_log _ u).append_right es₂
  obtain ⟨hwaits, hall, hresult⟩ := runs_drain hdrain
  rw [settingsOf_log, waitsOf_log, settingsOf_append, waitsOf_append, settingsOf_log, waitsOf_log,
    hset, hwait, hwaits, List.append_nil]
  obtain ⟨before, s, after, e, hcut, rfl, hset, hnone⟩ | ⟨e, rfl, hnone, hset⟩ |
    ⟨wake, rfl, hwait, hset⟩ := runs_trace htrace
  · rw [hset, hnone, List.append_assoc]
    exact .unarmed hcut hall
  · rw [hset, hnone, List.append_assoc]
    exact .unstarted hall
  · rw [hset, hwait, List.append_assoc]
    obtain ⟨rfl, hfirst⟩ | ⟨e, rfl, hfirst⟩ := hresult
    · exact .completed hall hfirst
    · exact .undrained hall hfirst

end Session

/-! ## Before the course -/

namespace Instances

theorem binding_inert {es : List (Event (Actions Backend))} (h : ∀ e ∈ es, IsBinding e.1) :
    settingsOf es = [] ∧ waitsOf es = [] := by
  induction es with
  | nil => exact ⟨rfl, rfl⟩
  | cons e es ih =>
      have hrest := ih fun e he => h e (List.mem_cons_of_mem _ he)
      have hfirst := h e List.mem_cons_self
      obtain ⟨op, answer⟩ := e
      match op with
      | .backend (.createInstance _) | .backend (.findInstance _) | .draw | .log _ => exact hrest
      | .backend (.destroyInstance _) | .backend .instanceNames | .backend (.set ..)
      | .backend (.availableEvents _) | .wait .. | .shieldStop | .listen | .announce _ | .flush
      | .relay _ | .invoke _ => exact hfirst.elim

end Instances

namespace Session

/-- A run of a session is a run of its binding, followed by nothing that concerns the backend or by
what it does in the bound instance. -/
theorem runs_execute {r : TraceRequest} {es : List (Event (Actions Backend))}
    {result : Except SessionError SessionReport} (h : Runs (execute r) es result) :
    (hasTarget r = false ∧ Quiet es ∧ result = .error .missingTarget) ∨
      ∃ before after bound, es = before ++ after ∧ hasTarget r = true ∧
        Runs (Instances.bind r.inst) before bound ∧
        match bound with
        | .error e => Quiet after ∧ result = .error (.bind e)
        | .ok i => Runs (conduct r i) after result := by
  rw [execute_eq] at h
  split at h
  · next htarget =>
      obtain ⟨before, after, bound, rfl, hbind, hrest⟩ := runs_bind.1 h
      refine Or.inr ⟨before, after, bound, rfl, htarget, hbind, ?_⟩
      match bound with
      | .ok i => exact hrest
      | .error e =>
          obtain ⟨u, rest, rfl, hend⟩ := runs_perform_bind.1 hrest
          obtain ⟨rfl, rfl⟩ := runs_pure.1 hend
          exact ⟨quiet_nil.cons_log _ u, rfl⟩
  · next htarget =>
      obtain ⟨u, rest, rfl, hend⟩ := runs_perform_bind.1 h
      obtain ⟨rfl, rfl⟩ := runs_pure.1 hend
      exact Or.inl ⟨by simpa using htarget, quiet_nil.cons_log _ u, rfl⟩

end Session

namespace Session

/-- What a bound session may ask for: settings on its instance, a wait and log records. -/
def SetsOn (i : Instance) : Action Backend → Prop
  | .backend (.set j _) => j = i
  | .log _ | .wait .. => True
  | _ => False

/-- The same of those settings only of which `P` holds. -/
def SetsOnly (i : Instance) (P : Setting → Prop) : Action Backend → Prop
  | .backend (.set j s) => j = i ∧ P s
  | .log _ | .wait .. => True
  | _ => False

section SetsOnly

variable {i : Instance} {P : Setting → Prop} {r : TraceRequest}

theorem setAll_asks {ss : List Setting} (hss : ∀ s ∈ ss, P s) :
    Asks (σ := Actions Backend) (SetsOnly i P) (setAll i ss) := by
  induction ss with
  | nil => exact asks_pure
  | cons s ss ih =>
      obtain ⟨hs, hss⟩ := List.forall_mem_cons.1 hss
      refine asks_bind (asks_perform.2 ⟨rfl, hs⟩) fun answer => ?_
      match answer with
      | .ok () => exact ih hss
      | .error e => exact asks_pure

theorem setEach_asks {ss : List Setting} (hss : ∀ s ∈ ss, P s) :
    Asks (σ := Actions Backend) (SetsOnly i P) (setEach i ss) := by
  induction ss with
  | nil => exact asks_pure
  | cons s ss ih =>
      obtain ⟨hs, hss⟩ := List.forall_mem_cons.1 hss
      refine asks_bind (asks_perform.2 ⟨rfl, hs⟩) fun answer =>
        asks_bind (ih hss) fun failures => ?_
      match answer with
      | .ok () | .error e => exact asks_pure

theorem warnEach_asks (failures : List TracingError) :
    Asks (σ := Actions Backend) (SetsOnly i P) (warnEach i failures) := by
  induction failures with
  | nil => exact asks_pure
  | cons e rest ih => exact asks_bind (asks_perform.2 trivial) fun _ => ih

theorem drain_asks (hdrain : ∀ s ∈ r.draining, P s) :
    Asks (σ := Actions Backend) (SetsOnly i P) (drain r i) := by
  refine asks_bind (setEach_asks hdrain) fun failures => asks_bind (warnEach_asks _) fun _ => ?_
  match failures with
  | [] | _ :: _ => exact asks_pure

theorem running_asks (r : TraceRequest) :
    Asks (σ := Actions Backend) (SetsOnly i P) (running r i) := by
  refine asks_bind (asks_perform.2 trivial) fun _ => asks_bind (asks_perform.2 trivial) fun _ =>
    asks_bind (asks_perform.2 trivial) fun wake => ?_
  split
  · exact asks_bind (asks_perform.2 trivial) fun _ => asks_bind (asks_perform.2 trivial) fun _ =>
      asks_pure
  · exact asks_bind (asks_perform.2 trivial) fun _ => asks_pure

theorem trace_asks (harm : ∀ s ∈ r.arming, P s) (hstart : P (.tracing true)) :
    Asks (σ := Actions Backend) (SetsOnly i P) (trace r i) := by
  refine asks_bind (asks_perform.2 trivial) fun _ => asks_bind (setAll_asks harm) fun armed => ?_
  match armed with
  | .error e => exact asks_pure
  | .ok () =>
      refine asks_bind (asks_perform.2 ⟨rfl, hstart⟩) fun answer => ?_
      match answer with
      | .error e => exact asks_pure
      | .ok () => exact running_asks r

end SetsOnly

/-- A session that has bound an instance makes the settings of its request on it. -/
theorem conduct_sets (r : TraceRequest) (i : Instance) :
    Asks (σ := Actions Backend)
      (SetsOnly i fun s => s ∈ r.arming ∨ s = .tracing true ∨ s ∈ r.draining) (conduct r i) := by
  refine asks_bind (asks_perform.2 trivial) fun _ => ?_
  refine asks_bind (trace_asks (fun _ => .inl) (.inr (.inl rfl))) fun traced => ?_
  exact asks_bind (asks_perform.2 trivial) fun _ =>
    asks_bind (drain_asks fun _ hs => .inr (.inr hs)) fun _ =>
      asks_bind (asks_perform.2 trivial) fun _ => asks_pure

/-- A session that has bound an instance calls the backend to set something on it and for nothing
else. -/
theorem conduct_asks (r : TraceRequest) (i : Instance) :
    Asks (σ := Actions Backend) (SetsOn i) (conduct r i) := by
  refine (conduct_sets r i).mono fun op hop => ?_
  match op with
  | .backend (.set _ _) => exact hop.1
  | .log _ | .wait .. => trivial

theorem calls_of_conduct {r : TraceRequest} {i : Instance} {es : List (Event (Actions Backend))}
    {result : Except SessionError SessionReport} (h : Runs (conduct r i) es result) :
    ∀ c ∈ calls es, ∃ s a, c = ⟨.set i s, a⟩ := by
  rintro ⟨op, answer⟩ hc
  have hop : SetsOn i (.backend op) := h.of_asks (conduct_asks r i) (mem_calls.1 hc)
  match op with
  | .set j s =>
      obtain rfl : j = i := hop
      exact ⟨s, answer, rfl⟩
  | .createInstance _ | .findInstance _ | .destroyInstance _ | .instanceNames
  | .availableEvents _ => exact hop.elim

/-- Once a session has bound an instance, the rest of its run is conducted in it. -/
theorem runs_conduct_of_bound {r : TraceRequest} {before after : List (Event (Actions Backend))}
    {i : Instance} {result : Except SessionError SessionReport}
    (hbind : Runs (Instances.bind r.inst) before (.ok i))
    (h : Runs (execute r) (before ++ after) result) : Runs (conduct r i) after result := by
  obtain ⟨-, ⟨hcalls, -⟩, -⟩ | ⟨before', after', bound, heq, -, hbind', hrest⟩ := runs_execute h
  · rw [calls_append, List.append_eq_nil_iff] at hcalls
    exact absurd hcalls.1 (Instances.calls_ne_nil_of_bind hbind)
  · obtain ⟨rfl, rfl⟩ := hbind.prefix_unique hbind' heq
    obtain rfl := List.append_cancel_left heq
    exact hrest

end Session

/-- The settings of a course end with the draining, and those before belong to arming or switch
tracing on. -/
theorem Course.exists_drained {arm drain : List Setting} {r : TraceRequest} {i : Instance}
    {calls : List SettingCall} {waits : List Wait} {result : Except SessionError SessionReport}
    (h : Course arm drain r i calls waits result) :
    ∃ armed drained, calls = armed ++ drained ∧ Attempts i drain drained ∧
      ∀ c ∈ armed, c.inst = i ∧ (c.setting ∈ arm ∨ c.setting = .tracing true) := by
  have hall : ∀ ss : List Setting, (∀ s ∈ ss, s ∈ arm) → ∀ c ∈ ss.map (SettingCall.made i),
      c.inst = i ∧ (c.setting ∈ arm ∨ c.setting = .tracing true) := by
    intro ss hss c hc
    obtain ⟨s, hs, rfl⟩ := List.mem_map.1 hc
    exact ⟨rfl, Or.inl (hss s hs)⟩
  have hone : ∀ (ss : List Setting) (c' : SettingCall), (∀ s ∈ ss, s ∈ arm) → c'.inst = i →
      (c'.setting ∈ arm ∨ c'.setting = .tracing true) →
      ∀ c ∈ ss.map (SettingCall.made i) ++ [c'],
        c.inst = i ∧ (c.setting ∈ arm ∨ c.setting = .tracing true) := by
    intro ss c' hss hinst hset c hc
    rcases List.mem_append.1 hc with hc | hc
    · exact hall ss hss c hc
    · obtain rfl := List.mem_singleton.1 hc
      exact ⟨hinst, hset⟩
  cases h with
  | @unarmed before after s e drained cut drains =>
      refine ⟨_, drained, (List.append_cons ..), drains, hone before _ ?_ rfl (Or.inl ?_)⟩
      · intro s' hs'
        rw [cut]
        exact List.mem_append_left _ hs'
      · rw [cut]
        exact List.mem_append_right _ List.mem_cons_self
  | @unstarted e drained drains =>
      exact ⟨_, drained, (List.append_cons ..), drains,
        hone arm _ (fun _ hs => hs) rfl (Or.inr rfl)⟩
  | @undrained wake e drained drains failed =>
      exact ⟨_, drained, (List.append_cons ..), drains,
        hone arm _ (fun _ hs => hs) rfl (Or.inr rfl)⟩
  | @completed wake drained drains succeeded =>
      exact ⟨_, drained, (List.append_cons ..), drains,
        hone arm _ (fun _ hs => hs) rfl (Or.inr rfl)⟩

theorem eventSettings_eq (r : TraceRequest) (on : Bool) :
    r.eventSettings on = if r.events.toList = [] then [] else [.events r.events on] := by
  unfold TraceRequest.eventSettings EventSet.isEmpty EventSet.toList SortedMap.isEmpty
  cases r.events.systems.entries <;> rfl

/-- `Conducted r es result`: what a run of a session for `r` with the events `es` and the result
`result` has done. -/
inductive Conducted (r : TraceRequest) :
    List (Event (Actions Backend)) → Except SessionError SessionReport → Prop where
  /-- There was nothing to trace, and the backend was asked for nothing. -/
  | missingTarget {es : List (Event (Actions Backend))} (pids : r.pids = [])
      (parents : r.parents = []) (quiet : Quiet es) : Conducted r es (.error .missingTarget)
  /-- No instance could be bound, and nothing was set. -/
  | unbound {before after : List (Event (Actions Backend))} {e : TracingError}
      (target : ¬ (r.pids = [] ∧ r.parents = []))
      (binding : Runs (Instances.bind r.inst) before (.error e))
      (unset : settingsOf before = []) (unwaited : waitsOf before = []) (quiet : Quiet after) :
      Conducted r (before ++ after) (.error (.bind e))
  /-- The instance `i` was bound, and then the session took its course. -/
  | bound {before after : List (Event (Actions Backend))} {i : Instance}
      {result : Except SessionError SessionReport} (target : ¬ (r.pids = [] ∧ r.parents = []))
      (binding : Runs (Instances.bind r.inst) before (.ok i))
      (unset : settingsOf before = []) (unwaited : waitsOf before = [])
      (course : Course
        ([.option .eventFork true, .option .functionFork true, .eventPids r.filterPids,
          .functionPids r.filterPids]
          ++ if r.events.toList = [] then [] else [.events r.events true])
        ([.tracing false, .option .eventFork false, .option .functionFork false, .eventPids [],
          .functionPids []]
          ++ if r.events.toList = [] then [] else [.events r.events false])
        r i (settingsOf after) (waitsOf after) result) :
      Conducted r (before ++ after) result

/-- Whatever the backend answers and however the wait ends, a session does one of three things. It
asks the backend for nothing because there is nothing to trace; it sets nothing because no instance
could be bound; or it arms the instance that it has bound up to the first failure, and drains it
whatever has failed. -/
theorem execute_conducted {r : TraceRequest} {es : List (Event (Actions Backend))}
    {result : Except SessionError SessionReport} (h : Runs (Session.execute r) es result) :
    Conducted r es result := by
  obtain ⟨htarget, hquiet, rfl⟩ | ⟨before, after, bound, rfl, htarget, hbind, hrest⟩ :=
    Session.runs_execute h
  · obtain ⟨hpids, hparents⟩ := Session.hasTarget_eq_false.1 htarget
    exact .missingTarget hpids hparents hquiet
  · obtain ⟨hset, hwait⟩ :=
      Instances.binding_inert fun e he => hbind.of_asks (Instances.bind_asks r.inst) he
    match bound with
    | .error e =>
        obtain ⟨hquiet, rfl⟩ := hrest
        exact .unbound (Session.hasTarget_eq_true.1 htarget) hbind hset hwait hquiet
    | .ok i =>
        have hcourse := Session.runs_conduct hrest
        rw [TraceRequest.arming, TraceRequest.draining, eventSettings_eq, eventSettings_eq]
          at hcourse
        exact .bound (Session.hasTarget_eq_true.1 htarget) hbind hset hwait hcourse

/-- A session of process 42 in which the function filter cannot be written. -/
theorem execute_conducted_unarmed :
    let r : TraceRequest := ⟨[42], [], none, some 10, .empty, none⟩
    let run := drive Recording.answer ⟨0, .deadline, fun _ => .error (.wait (.os .notFound))⟩
      (Session.execute r) (Recording.empty.failOnce .functionPids)
    Runs (Session.execute r) run.1 run.2.1 ∧ Conducted r run.1 run.2.1 :=
  ⟨(runsOn_drive ..).runs, execute_conducted (runsOn_drive ..).runs⟩

end KernelTrace
