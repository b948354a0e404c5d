import KernelTrace.Proofs.RecordingSteps

/-!
# A session leaves its instance at rest

Draining resets one knob after another, each whether or not another could be reset. So the promise
is one about each knob by itself: what a draining call that succeeded has reset is still at rest
when the session has ended, whatever arming did before, whichever other calls failed and whatever
the instance was like when it was bound. Only the events have a gap. A request without events never
touches them, so an instance that had some switched on when it was bound keeps them.

Nothing here depends on why a setting fails. The failures that were arranged are used up by arming
and draining alike, and the argument never counts them: a reset that was made stays made because
all that follows it are resets.
-/

namespace KernelTrace

open Program Actions

namespace Setting

/-- Whether the knob that the setting turns is at rest. -/
def AtRest (st : InstanceState) : Setting → Prop
  | .tracing _ => st.tracingOn = false
  | .option .eventFork _ => st.eventFork = false
  | .option .functionFork _ => st.functionFork = false
  | .eventPids _ => st.eventPids = []
  | .functionPids _ => st.functionPids = []
  | .events .. => st.events = none

def IsReset : Setting → Prop
  | .tracing on | .option _ on | .events _ on => on = false
  | .eventPids pids | .functionPids pids => pids = []

theorem IsReset.atRest_apply {s : Setting} (h : s.IsReset) (st : InstanceState) :
    s.AtRest (st.apply s) := by
  match s with
  | .tracing _ | .option .eventFork _ | .option .functionFork _ | .eventPids _
  | .functionPids _ => exact h
  | .events _ _ =>
      cases h
      rfl

/-- A reset disturbs no knob that is at rest, its own included. -/
theorem AtRest.apply_reset {s s' : Setting} {st : InstanceState} (h : s.AtRest st)
    (hs' : s'.IsReset) : s.AtRest (st.apply s') := by
  match s' with
  | .tracing _ | .option .eventFork _ | .option .functionFork _ | .eventPids _
  | .functionPids _ | .events _ _ =>
      cases hs'
      match s with
      | .tracing _ | .option .eventFork _ | .option .functionFork _ | .eventPids _
      | .functionPids _ | .events _ _ => first | exact h | rfl

theorem apply_events {s : Setting} (h : s.knob ≠ .events) (st : InstanceState) :
    (st.apply s).events = st.events := by
  match s with
  | .tracing _ | .option .eventFork _ | .option .functionFork _ | .eventPids _
  | .functionPids _ => rfl
  | .events _ _ => exact absurd rfl h

end Setting

theorem InstanceState.isQuiescent_iff {st : InstanceState} :
    st.isQuiescent = true ↔ st.tracingOn = false ∧ st.eventFork = false ∧ st.functionFork = false ∧
      st.eventPids = [] ∧ st.functionPids = [] ∧ st.events = none := by
  simp [InstanceState.isQuiescent, and_assoc]

/-- Of settings that are all resets, each that was made leaves its knob at rest for good. -/
theorem atRest_replay {calls : List SettingCall} (hreset : ∀ c ∈ calls, c.setting.IsReset)
    {c : SettingCall} (hc : c ∈ calls) (hmade : c.answer = .ok ()) (st : InstanceState) :
    c.setting.AtRest (st.replay calls) := by
  induction calls generalizing st with
  | nil => exact absurd hc List.not_mem_nil
  | cons c' calls ih =>
      have htail := fun c hc => hreset c (List.mem_cons_of_mem c' hc)
      rcases List.mem_cons.1 hc with rfl | hc
      · rw [InstanceState.replay, hmade]
        refine InstanceState.replay_invariant (P := fun st => c.setting.AtRest st) ?_ ?_
        · exact (hreset c List.mem_cons_self).atRest_apply st
        · exact fun c' hc' _ st hst => hst.apply_reset (htail c' hc')
      · rw [InstanceState.replay]
        split
        · exact ih htail hc _
        · exact ih htail hc _

namespace TraceRequest

variable {r : TraceRequest} {s : Setting}

theorem mem_eventSettings {on : Bool} :
    s ∈ r.eventSettings on ↔ r.events.isEmpty = false ∧ s = .events r.events on := by
  rw [eventSettings]
  cases r.events.isEmpty <;> simp

theorem mem_arming : s ∈ r.arming ↔
    s = .option .eventFork true ∨ s = .option .functionFork true ∨ s = .eventPids r.filterPids ∨
      s = .functionPids r.filterPids ∨
      r.events.isEmpty = false ∧ s = .events r.events true := by
  rw [arming, List.mem_append, mem_eventSettings]
  simp only [List.mem_cons, List.not_mem_nil, or_false, or_assoc]

theorem mem_draining : s ∈ r.draining ↔
    s = .tracing false ∨ s = .option .eventFork false ∨ s = .option .functionFork false ∨
      s = .eventPids [] ∨ s = .functionPids [] ∨
      r.events.isEmpty = false ∧ s = .events r.events false := by
  rw [draining, List.mem_append, mem_eventSettings]
  simp only [List.mem_cons, List.not_mem_nil, or_false, or_assoc]

/-- A session switches no events but those of its request. -/
theorem events_of_mem (hs : s ∈ r.arming ∨ s = .tracing true ∨ s ∈ r.draining)
    {chosen : EventSet} {on : Bool} (heq : s = .events chosen on) : chosen = r.events := by
  subst heq
  obtain hs | hs | hs := hs
  · obtain heq | heq | heq | heq | ⟨-, heq⟩ := mem_arming.1 hs <;> cases heq
    rfl
  · cases hs
  · obtain heq | heq | heq | heq | heq | ⟨-, heq⟩ := mem_draining.1 hs <;> cases heq
    rfl

theorem draining_isReset (r : TraceRequest) : ∀ s ∈ r.draining, s.IsReset := by
  intro s hs
  obtain rfl | rfl | rfl | rfl | rfl | ⟨-, rfl⟩ := mem_draining.1 hs <;> rfl

/-- Without events in the request, no setting of the session is about events. -/
theorem knob_ne_events (h : r.events.isEmpty = true) :
    (∀ s ∈ r.arming, s.knob ≠ .events) ∧ ∀ s ∈ r.draining, s.knob ≠ .events := by
  constructor <;> intro s hs
  · obtain rfl | rfl | rfl | rfl | ⟨hevents, -⟩ := mem_arming.1 hs
    case inr.inr.inr.inr => simp [h] at hevents
    all_goals simp [Setting.knob]
  · obtain rfl | rfl | rfl | rfl | rfl | ⟨hevents, -⟩ := mem_draining.1 hs
    case inr.inr.inr.inr.inr => simp [h] at hevents
    all_goals simp [Setting.knob]

end TraceRequest

/-- Settings that end with a draining in which nothing failed leave the instance quiescent, if the
draining includes the events or there are none to begin with. -/
theorem isQuiescent_replay {r : TraceRequest} {i : Instance} {armed drained : List SettingCall}
    (harmed : ∀ c ∈ armed, c.setting ∈ r.arming ∨ c.setting = .tracing true)
    (hdrained : Attempts i r.draining drained) (hmade : ∀ c ∈ drained, c.answer = .ok ())
    {st : InstanceState} (hevents : r.events.isEmpty = false ∨ st.events = none) :
    (st.replay (armed ++ drained)).isQuiescent = true := by
  rw [InstanceState.replay_append]
  have hrest : ∀ s ∈ r.draining, s.AtRest ((st.replay armed).replay drained) := by
    intro s hs
    obtain ⟨c, hc, rfl⟩ := hdrained.exists_call hs
    exact atRest_replay (fun c' hc' => r.draining_isReset _ (hdrained.mem hc').2) hc
      (hmade c hc) _
  have hnone : ((st.replay armed).replay drained).events = none := by
    cases he : r.events.isEmpty with
    | false =>
        exact hrest (.events r.events false) (TraceRequest.mem_draining.2 (by simp [he]))
    | true =>
        obtain ⟨harming, hdraining⟩ := TraceRequest.knob_ne_events he
        rw [← InstanceState.replay_append]
        refine InstanceState.replay_invariant (P := fun st => st.events = none) ?_ ?_
        · exact hevents.resolve_left (by simp [he])
        · intro c hc _ st hst
          rw [Setting.apply_events _ st, hst]
          rcases List.mem_append.1 hc with hc | hc
          · obtain hs | hs := harmed c hc
            · exact harming _ hs
            · rw [hs]
              simp [Setting.knob]
          · exact hdraining _ (hdrained.mem hc).2
  have hmem := fun s : Setting => (TraceRequest.mem_draining (r := r) (s := s)).2
  exact InstanceState.isQuiescent_iff.2 ⟨hrest _ (hmem (.tracing false) (by simp)),
    hrest _ (hmem (.option .eventFork false) (by simp)),
    hrest _ (hmem (.option .functionFork false) (by simp)),
    hrest _ (hmem (.eventPids []) (by simp)), hrest _ (hmem (.functionPids []) (by simp)), hnone⟩

namespace Session

/-- What a bound session does to a recording: the state of its instance is the one in which it was
bound after the settings of the session, and no other instance changes. -/
theorem replay_of_conduct {r : TraceRequest} {i : Instance} {bound final : Recording}
    {es : List (Event (Actions Backend))} {result : Except SessionError SessionReport}
    (h : RunsOn Recording.responder (conduct r i) bound es result final) :
    final.instances.get? i.name.text =
        (bound.instances.get? i.name.text).map (·.replay (settingsOf es)) ∧
      ∀ name, name ≠ i.name.text → final.instances.get? name = bound.instances.get? name :=
  Recording.serves_settings h.served (calls_of_conduct h.runs)

end Session

theorem Session.runsOn_execute_of_conduct {r : TraceRequest} {start bound final : Recording}
    {before after : List (Event (Actions Backend))} {i : Instance}
    {result : Except SessionError SessionReport} (htarget : hasTarget r = true)
    (hbind : RunsOn Recording.responder (Instances.bind r.inst) start before (.ok i) bound)
    (hconduct : RunsOn Recording.responder (conduct r i) bound after result final) :
    RunsOn Recording.responder (execute r) start (before ++ after) result final := by
  rw [execute_eq, if_pos htarget]
  exact runsOn_bind.2 ⟨_, _, _, _, rfl, hbind, hconduct⟩

theorem Session.exists_runsOn_execute {r : TraceRequest} {start bound : Recording}
    {before : List (Event (Actions Backend))} {i : Instance} (htarget : hasTarget r = true)
    (hbind : RunsOn Recording.responder (Instances.bind r.inst) start before (.ok i) bound)
    (w : Surroundings) :
    ∃ after result final,
      RunsOn Recording.responder (execute r) start (before ++ after) result final := by
  have hconduct := runsOn_drive Recording.answer w (conduct r i) bound
  exact ⟨_, _, _, runsOn_execute_of_conduct htarget hbind hconduct⟩

/-- When a session that bound `i` has ended, every knob that one of its draining calls has reset is
at rest. If none of these calls failed, and the request has events or none were on when `i` was
bound, nothing of the session is left behind in `i`. No other instance has changed, and none has
come or gone. -/
theorem execute_atRest {r : TraceRequest} {start bound final : Recording}
    {before after : List (Event (Actions Backend))} {i : Instance}
    {result : Except SessionError SessionReport}
    (hbind : RunsOn Recording.responder (Instances.bind r.inst) start before (.ok i) bound)
    (h : RunsOn Recording.responder (Session.execute r) start (before ++ after) result final) :
    ∃ st armed drained, final.instances.get? i.name.text = some st ∧
      settingsOf after = armed ++ drained ∧ Attempts i r.draining drained ∧
      (∀ c ∈ drained, c.answer = .ok () → c.setting.AtRest st) ∧
      ((∀ c ∈ drained, c.answer = .ok ()) →
        (r.events.toList ≠ [] ∨
          ∀ st₀, bound.instances.get? i.name.text = some st₀ → st₀.events = none) →
        st.isQuiescent = true) ∧
      ∀ name, name ≠ i.name.text → final.instances.get? name = start.instances.get? name := by
  have hconduct := Session.runs_conduct_of_bound hbind.runs h.runs
  have hserved := h.served
  rw [calls_append] at hserved
  obtain ⟨bound', hbefore, hafter⟩ := Responder.serves_append.1 hserved
  obtain rfl := hbefore.deterministic hbind.served
  obtain ⟨hown, hothers⟩ := Session.replay_of_conduct ⟨hconduct, hafter⟩
  have hbinds := Recording.runsOn_bindInstance hbind
  obtain ⟨st₀, hst₀⟩ := hbinds.live
  obtain ⟨armed, drained, hset, hdrained, harmed⟩ := (Session.runs_conduct hconduct).exists_drained
  rw [hst₀, hset] at hown
  refine ⟨_, armed, drained, hown, hset, hdrained, ?_, ?_, ?_⟩
  · intro c hc hmade
    show c.setting.AtRest (st₀.replay (armed ++ drained))
    rw [InstanceState.replay_append]
    exact atRest_replay (fun c' hc' => r.draining_isReset _ (hdrained.mem hc').2) hc hmade _
  · intro hmade hevents
    refine isQuiescent_replay (fun c hc => (harmed c hc).2) hdrained hmade ?_
    refine hevents.imp (fun hne => ?_) (fun hnone => hnone st₀ hst₀)
    rw [EventSet.isEmpty, SortedMap.isEmpty, List.isEmpty_eq_false_iff]
    exact hne
  · intro name hne
    rw [hothers name hne, hbinds.others hne]

/-- A session in an instance that somebody left with tracing and a filter on, in which the event
filter can be written only at the second attempt. -/
theorem execute_atRest_reused :
    let name : InstanceName := ⟨"shared", by decide⟩
    let r : TraceRequest := ⟨[42], [], some name, some 10, .empty, none⟩
    let start : Recording :=
      { Recording.empty with instances := .ofList [("shared", ⟨true, true, false, [7], [], none⟩)] }
        |>.failOnce .eventPids
    ∃ before after result final st armed drained,
      RunsOn Recording.responder (Instances.bind r.inst) start before
        (.ok (Recording.instanceOf name)) start ∧
      RunsOn Recording.responder (Session.execute r) start (before ++ after) result final ∧
      final.instances.get? "shared" = some st ∧ settingsOf after = armed ++ drained ∧
      Attempts (Recording.instanceOf name) r.draining drained ∧
      ∀ c ∈ drained, c.answer = .ok () → c.setting.AtRest st := by
  intro name r start
  have hbind : RunsOn Recording.responder (Instances.bind r.inst) start
      [⟨.backend (.findInstance name), .ok (some (Recording.instanceOf name))⟩,
        ⟨.log ⟨.debug, s!"using existing trace instance {name.text}"⟩, ()⟩]
      (.ok (Recording.instanceOf name)) start :=
    ⟨.ask (.ask (.done _)), .cons (by rfl) (.nil _)⟩
  obtain ⟨after, result, final, hrun⟩ := Session.exists_runsOn_execute (r := r) rfl hbind
    ⟨0, .deadline, fun _ => .error (.wait (.os .notFound))⟩
  obtain ⟨st, armed, drained, hst, hset, hdrained, hrest, -⟩ := execute_atRest hbind hrun
  exact ⟨_, after, result, final, st, armed, drained, hbind, hrun, hst, hset, hdrained, hrest⟩

end KernelTrace
