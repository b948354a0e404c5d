import Mathlib.Data.List.Basic
import KernelTrace.Proofs.FirstOccurrences
import KernelTrace.Proofs.SessionAtRest

/-!
# Tracing is never on without its filter

An instance with tracing on and no filter traces the whole machine, and it does so from the first
moment. So what a session promises is about every state on its way and not about the last one: as
long as draining's attempt to switch tracing off has not been answered, tracing is on only while the
filter, the following of children and the events are what the session asked for.

It comes down to the order of the settings. Nothing but a setting of tracing moves that knob
(`Setting.tracingOn_apply`), a session makes the one that switches it on only after all of arming
has succeeded, and the first thing that draining does is to switch it off again. What ends the
promise is the answer to that attempt (`OffAnswered`), so a draining that cleared the filters first
would break it. If the attempt is refused, the filter is cleared under a running trace; the promise
does not reach there.
-/

namespace KernelTrace

open Program Actions

/-! ## Who is in the filter -/

theorem TraceRequest.filterPids_ne_nil {r : TraceRequest} (h : Session.hasTarget r = true) :
    r.filterPids ≠ [] := by
  have hpids : r.pids ++ r.parents ≠ [] := fun hnil =>
    Session.hasTarget_eq_true.1 h (List.append_eq_nil_iff.1 hnil)
  obtain ⟨p, hp⟩ := List.exists_mem_of_ne_nil _ hpids
  exact List.ne_nil_of_mem (mem_firstOccurrences.2 hp)

/-! ## What turns tracing on and off -/

namespace Setting

theorem tracingOn_apply {s : Setting} (h : s.knob ≠ .tracing) (st : InstanceState) :
    (st.apply s).tracingOn = st.tracingOn := by
  match s with
  | .option .eventFork _ | .option .functionFork _ | .eventPids _ | .functionPids _
  | .events _ _ => rfl
  | .tracing _ => exact absurd rfl h

end Setting

theorem tracingOn_replay {calls : List SettingCall} {st : InstanceState}
    (hoff : st.tracingOn = false)
    (hcalls : ∀ c ∈ calls, c.answer = .ok () → c.setting ≠ .tracing true) :
    (st.replay calls).tracingOn = false := by
  refine InstanceState.replay_invariant (P := fun st => st.tracingOn = false) hoff ?_
  intro c hc hmade st hst
  by_cases hknob : c.setting.knob = .tracing
  · cases hset : c.setting with
    | tracing on =>
        cases on with
        | false => rfl
        | true => exact absurd hset (hcalls c hc hmade)
    | option _ _ | eventPids _ | functionPids _ | events _ _ =>
        rw [hset] at hknob
        cases hknob
  · rw [Setting.tracingOn_apply hknob, hst]

namespace TraceRequest

variable {r : TraceRequest} {s : Setting}

/-- Whether the trace in an instance in this state is confined to what the request asks for. -/
structure Filters (r : TraceRequest) (st : InstanceState) : Prop where
  eventFork : st.eventFork = true
  functionFork : st.functionFork = true
  eventPids : st.eventPids = r.filterPids
  functionPids : st.functionPids = r.filterPids
  nonempty : r.filterPids ≠ []
  events : r.events.toList ≠ [] → st.events = some r.events

theorem filters_replay_arming (h : r.filterPids ≠ []) (i : Instance) (st : InstanceState) :
    r.Filters (st.replay (r.arming.map (.made i))) := by
  rw [arming, List.map_append, InstanceState.replay_append, eventSettings_eq]
  split
  · next hnone => exact ⟨rfl, rfl, rfl, rfl, h, fun hne => absurd hnone hne⟩
  · exact ⟨rfl, rfl, rfl, rfl, h, fun _ => rfl⟩

theorem Filters.apply_tracing {st : InstanceState} (h : r.Filters st) (on : Bool) :
    r.Filters (st.apply (.tracing on)) :=
  ⟨h.eventFork, h.functionFork, h.eventPids, h.functionPids, h.nonempty, h.events⟩

theorem knob_ne_tracing_of_mem_arming (h : s ∈ r.arming) : s.knob ≠ .tracing := by
  obtain rfl | rfl | rfl | rfl | ⟨-, rfl⟩ := mem_arming.1 h <;> simp [Setting.knob]

/-- What draining puts back once it has switched tracing off. -/
def clearing (r : TraceRequest) : List Setting :=
  [.option .eventFork false, .option .functionFork false, .eventPids [], .functionPids []]
    ++ r.eventSettings false

theorem draining_eq (r : TraceRequest) : r.draining = .tracing false :: r.clearing := rfl

theorem knob_ne_tracing_of_mem_clearing (h : s ∈ r.clearing) : s.knob ≠ .tracing := by
  rw [clearing, List.mem_append, mem_eventSettings] at h
  simp only [List.mem_cons, List.not_mem_nil, or_false, or_assoc] at h
  obtain rfl | rfl | rfl | rfl | ⟨-, rfl⟩ := h <;> simp [Setting.knob]

end TraceRequest

/-! ## The way of a session -/

theorem Attempts.of_cons {i : Instance} {s : Setting} {ss : List Setting} {c : SettingCall}
    {calls : List SettingCall} (h : Attempts i (s :: ss) (c :: calls)) :
    c.inst = i ∧ c.setting = s ∧ Attempts i ss calls := by
  obtain ⟨hfirst, hrest⟩ := List.cons.inj h
  exact ⟨congrArg Prod.fst hfirst, congrArg Prod.snd hfirst, hrest⟩

/-- A session that could not be armed or started has not switched tracing on. Otherwise it has armed
the instance, switched tracing on, and drained. -/
theorem Course.exists_started {arm drain : List Setting} {r : TraceRequest} {i : Instance}
    {calls : List SettingCall} {waits : List Wait} {result : Except SessionError SessionReport}
    (h : Course arm drain r i calls waits result) (harm : .tracing true ∉ arm)
    (hdrain : .tracing true ∉ drain) :
    (∀ c ∈ calls, c.answer = .ok () → c.setting ≠ .tracing true) ∨
      ∃ drained, Attempts i drain drained ∧
        calls = arm.map (.made i) ++ .made i (.tracing true) :: drained := by
  have hunset : ∀ {before : List Setting} {s : Setting} {e : TracingError}
      {drained : List SettingCall}, (∀ s ∈ before, s ∈ arm) → Attempts i drain drained →
      ∀ c ∈ before.map (.made i) ++ .refused i s e :: drained,
        c.answer = .ok () → c.setting ≠ .tracing true := by
    intro before s e drained hbefore drains c hc hmade heq
    rcases List.mem_append.1 hc with hc | hc
    · obtain ⟨s', hs', rfl⟩ := List.mem_map.1 hc
      exact harm (heq ▸ hbefore s' hs')
    · rcases List.mem_cons.1 hc with rfl | hc
      · cases hmade
      · exact hdrain (heq ▸ (drains.mem hc).2)
  cases h with
  | unarmed cut drains =>
      refine Or.inl (hunset (fun s hs => ?_) drains)
      rw [cut]
      exact List.mem_append_left _ hs
  | unstarted drains => exact Or.inl (hunset (fun _ hs => hs) drains)
  | undrained drains _ | completed drains _ => exact Or.inr ⟨_, drains, rfl⟩

/-- Tracing was switched on, and after that an attempt to switch it off has been answered. A session
makes this attempt in its draining. -/
def OffAnswered (i : Instance) (made : List SettingCall) : Prop :=
  ∃ running c rest, made = running ++ c :: rest ∧ .made i (.tracing true) ∈ running ∧
    c.inst = i ∧ c.setting = .tracing false

/-- What holds of the state of an instance after a part of a session's settings. -/
structure Confined (r : TraceRequest) (i : Instance) (made : List SettingCall)
    (st : InstanceState) : Prop where
  /-- Until draining's attempt to switch tracing off has been answered. -/
  filters : ¬ OffAnswered i made → st.tracingOn = true → r.Filters st
  /-- A refusal is no excuse as long as nothing else has been set. -/
  refused : ∀ e, made.getLast? = some (.refused i (.tracing false) e) → st.tracingOn = true →
    r.Filters st
  stopped : .made i (.tracing false) ∈ made → st.tracingOn = false

theorem not_offAnswered {i : Instance} {made : List SettingCall}
    (h : ∀ c ∈ made, c.setting ≠ .tracing false) : ¬ OffAnswered i made := by
  rintro ⟨running, c, rest, rfl, -, -, hoff⟩
  exact h c (List.mem_append_right running List.mem_cons_self) hoff

theorem Confined.of_off {r : TraceRequest} {i : Instance} {made : List SettingCall}
    {st : InstanceState} (h : st.tracingOn = false) : Confined r i made st := by
  have hnever : st.tracingOn = true → r.Filters st := fun hon => by
    rw [h] at hon
    cases hon
  exact ⟨fun _ => hnever, fun _ _ => hnever, fun _ => h⟩

namespace Session

variable {r : TraceRequest} {i : Instance} {st : InstanceState}

/-- The settings of a session up to its draining, when everything before it has succeeded. -/
def startedCalls (r : TraceRequest) (i : Instance) : List SettingCall :=
  r.arming.map (.made i) ++ [.made i (.tracing true)]

theorem filters_replay_started (h : r.filterPids ≠ []) (i : Instance) (st : InstanceState) :
    r.Filters (st.replay (startedCalls r i)) := by
  rw [startedCalls, InstanceState.replay_append]
  exact (TraceRequest.filters_replay_arming h i st).apply_tracing true

theorem setting_ne_of_mem_started {c : SettingCall} (hc : c ∈ startedCalls r i) :
    c.setting ≠ .tracing false := by
  intro heq
  rcases List.mem_append.1 hc with hc | hc
  · obtain ⟨s, hs, rfl⟩ := List.mem_map.1 hc
    exact TraceRequest.knob_ne_tracing_of_mem_arming hs (congrArg Setting.knob heq)
  · obtain rfl := List.mem_singleton.1 hc
    cases heq

/-- After a part of the draining of a running trace. The first setting decides: if it was made,
tracing is off for good, and if it was refused, all stays as it was until the next one. -/
theorem confined_draining (h : r.filterPids ≠ []) {drained rest : List SettingCall}
    (hdrain : Attempts i r.draining (drained ++ rest)) :
    Confined r i (startedCalls r i ++ drained) (st.replay (startedCalls r i ++ drained)) := by
  have hfilters := filters_replay_started h i st
  have hstarted : .made i (.tracing true) ∈ startedCalls r i :=
    List.mem_append_right _ List.mem_cons_self
  rw [InstanceState.replay_append]
  cases drained with
  | nil =>
      rw [List.append_nil]
      refine ⟨fun _ _ => hfilters, fun e hlast => ?_, fun hoff => ?_⟩
      · rw [startedCalls, List.getLast?_concat] at hlast
        cases hlast
      · exact absurd rfl (setting_ne_of_mem_started hoff)
  | cons c drained =>
      obtain ⟨hinst, hset, hclear⟩ := hdrain.of_cons
      have hknob : ∀ c' ∈ drained, c'.setting.knob ≠ .tracing := fun c' hc' =>
        TraceRequest.knob_ne_tracing_of_mem_clearing
          (hclear.mem (List.mem_append_left rest hc')).2
      cases hanswer : c.answer with
      | ok u =>
          refine .of_off ?_
          rw [InstanceState.replay, hanswer, hset]
          refine tracingOn_replay rfl fun c' hc' _ heq => ?_
          exact hknob c' hc' (congrArg Setting.knob heq)
      | error e =>
          rw [InstanceState.replay, hanswer]
          refine ⟨fun hopen => ?_, fun e' hlast _ => ?_, fun hoff => ?_⟩
          · exact absurd ⟨startedCalls r i, c, drained, rfl, hstarted, hinst, hset⟩ hopen
          · -- what comes after the refused setting is not another one of tracing
            cases drained with
            | nil => exact hfilters
            | cons c' drained =>
                have hlast' : (c' :: drained).getLast? = some (.refused i (.tracing false) e') := by
                  rwa [List.getLast?_append_of_ne_nil _ (by simp), List.getLast?_cons_cons] at hlast
                exact absurd rfl (hknob _ (List.mem_of_getLast? hlast'))
          · exfalso
            rcases List.mem_append.1 hoff with hoff | hoff
            · exact setting_ne_of_mem_started hoff rfl
            · rcases List.mem_cons.1 hoff with rfl | hoff
              · cases hanswer
              · exact hknob _ hoff rfl

/-- Wherever a course is cut, what it has made so far of an instance without tracing is confined. -/
theorem confined_of_course {waits : List Wait} {result : Except SessionError SessionReport}
    {made rest : List SettingCall} (h : r.filterPids ≠ [])
    (hcourse : Course r.arming r.draining r i (made ++ rest) waits result)
    (hoff : st.tracingOn = false) : Confined r i made (st.replay made) := by
  have harm : Setting.tracing true ∉ r.arming := fun hmem =>
    TraceRequest.knob_ne_tracing_of_mem_arming hmem rfl
  have hdrain : Setting.tracing true ∉ r.draining := fun hmem =>
    absurd (r.draining_isReset _ hmem) (by simp [Setting.IsReset])
  obtain hunset | ⟨drained, hdrained, heq⟩ := hcourse.exists_started harm hdrain
  · exact .of_off (tracingOn_replay hoff fun c hc => hunset c (List.mem_append_left rest hc))
  · have harming : (∀ c ∈ made, c ∈ r.arming.map (.made i)) →
        Confined r i made (st.replay made) := by
      refine fun hmade => .of_off (tracingOn_replay hoff fun c hc _ heq => ?_)
      obtain ⟨s, hs, rfl⟩ := List.mem_map.1 (hmade c hc)
      exact harm (heq ▸ hs)
    rw [List.append_eq_append_iff] at heq
    obtain ⟨more, harmed, -⟩ | ⟨more, rfl, hmore⟩ := heq
    · exact harming fun c hc => harmed ▸ List.mem_append_left more hc
    · cases more with
      | nil => exact harming fun c hc => by rwa [List.append_nil] at hc
      | cons c more =>
          obtain ⟨rfl, rfl⟩ := List.cons.inj hmore
          rw [List.append_cons]
          exact confined_draining h hdrained

end Session

/-! ## From the start -/

theorem Session.hasTarget_of_bound {r : TraceRequest}
    {before after : List (Event (Actions Backend))} {i : Instance}
    {result : Except SessionError SessionReport} (hbind : Runs (Instances.bind r.inst) before (.ok i))
    (h : Runs (execute r) (before ++ after) result) : hasTarget r = true := by
  obtain ⟨-, ⟨hcalls, -⟩, -⟩ | ⟨-, -, -, -, htarget, -⟩ := runs_execute h
  · rw [calls_append, List.append_eq_nil_iff] at hcalls
    exact absurd hcalls.1 (Instances.calls_ne_nil_of_bind hbind)
  · exact htarget

/-- Binding leaves the state of every live instance alone, and what it adds is fresh. -/
theorem Recording.get?_of_binding {s t : Recording} {es : List (Event Backend)}
    (h : responder.Serves s es t) (hes : ∀ e ∈ es, Instances.IsBinding (.backend e.1))
    {name : String} {st : InstanceState} (hst : t.instances.get? name = some st) :
    st = .fresh ∨ s.instances.get? name = some st := by
  refine h.invariant (P := fun t => ∀ st, t.instances.get? name = some st →
    st = .fresh ∨ s.instances.get? name = some st) ?_ hes (fun st hst => Or.inr hst) st hst
  rintro u v ⟨op, answer⟩ hop hstep hu st hst
  match op with
  | .createInstance name' =>
      obtain ⟨-, -, ⟨e, -, hsame⟩ | ⟨-, -, hins⟩⟩ := create_cases hstep
      · exact hu st (hsame ▸ hst)
      · rw [hins, SortedMap.get?_insert] at hst
        split at hst
        · exact Or.inl (Option.some.inj hst).symm
        · exact hu st hst
  | .findInstance name' =>
      obtain ⟨rfl, -⟩ := find_cases hstep
      exact hu st hst
  | .destroyInstance _ | .instanceNames | .set .. | .availableEvents _ => exact hop.elim

/-- An instance of that name that was live before is the one that was asked for. -/
theorem Recording.off_of_bind {s t : Recording} {name : Option InstanceName}
    {es : List (Event (Actions Backend))} {i : Instance}
    (hoff : ∀ n, name = some n → ∀ st, s.instances.get? n.text = some st → st.tracingOn = false)
    (h : RunsOn responder (Instances.bind name) s es (.ok i) t) {st : InstanceState}
    (hst : s.instances.get? i.name.text = some st) : st.tracingOn = false := by
  cases name with
  | some n =>
      obtain ⟨rfl, -⟩ := runsOn_findOrCreate h
      exact hoff n rfl st hst
  | none =>
      obtain ⟨e, heq, -⟩ | ⟨i', heq, hnone, -⟩ := runsOn_createFrom h
      · cases heq
      · cases heq
        rw [hnone] at hst
        cases hst

/-- In an instance that was off, or not there, when a session began to bind it, tracing is confined
to what the session asks for at every moment until draining's attempt to switch it off has been
answered, and after a refusal until something else is set. Once draining has switched it off, it
stays off. -/
theorem execute_confined {r : TraceRequest} {start bound final : Recording}
    {before after : List (Event (Actions Backend))} {i : Instance}
    {result : Except SessionError SessionReport}
    (hoff : ∀ name, r.inst = some name → ∀ st, start.instances.get? name.text = some st →
      st.tracingOn = false)
    (hbind : RunsOn Recording.responder (Instances.bind r.inst) start before (.ok i) bound)
    (h : RunsOn Recording.responder (Session.execute r) start (before ++ after) result final)
    {done rest : List (Event (Actions Backend))} (hcut : before ++ after = done ++ rest)
    {mid : Recording} (hmid : Recording.responder.Serves start (calls done) mid)
    {st : InstanceState} (hst : mid.instances.get? i.name.text = some st) :
    Confined r i (settingsOf done) st := by
  have hfree : ∀ st₀, st₀ = .fresh ∨ start.instances.get? i.name.text = some st₀ →
      st₀.tracingOn = false := by
    rintro st₀ (rfl | hst₀)
    · rfl
    · exact Recording.off_of_bind hoff hbind hst₀
  have hbinding : ∀ e ∈ before, Instances.IsBinding e.1 := fun e he =>
    hbind.runs.of_asks (Instances.bind_asks r.inst) he
  obtain ⟨more, hbefore, -⟩ | ⟨done', rfl, rfl⟩ := List.append_eq_append_iff.1 hcut.symm
  · refine .of_off (hfree st (Recording.get?_of_binding hmid (fun e he => ?_) hst))
    rw [hbefore] at hbinding
    exact hbinding _ (List.mem_append_left more (mem_calls.1 he))
  · rw [calls_append] at hmid
    obtain ⟨bound', hserved, hmid⟩ := Responder.serves_append.1 hmid
    obtain rfl := hserved.deterministic hbind.served
    have hconduct := Session.runs_conduct_of_bound hbind.runs h.runs
    have hsets := Session.calls_of_conduct hconduct
    rw [calls_append] at hsets
    obtain ⟨hown, -⟩ := Recording.serves_settings hmid fun e he =>
      hsets e (List.mem_append_left _ he)
    rw [hst, eq_comm, Option.map_eq_some_iff] at hown
    obtain ⟨st₀, hst₀, rfl⟩ := hown
    rw [settingsOf_append, (Instances.binding_inert hbinding).1, List.nil_append]
    have hcourse := Session.runs_conduct hconduct
    rw [settingsOf_append] at hcourse
    refine Session.confined_of_course ?_ hcourse (hfree st₀ ?_)
    · exact TraceRequest.filterPids_ne_nil (Session.hasTarget_of_bound hbind.runs h.runs)
    · exact Recording.get?_of_binding hbind.served (fun e he => hbinding _ (mem_calls.1 he)) hst₀

/-- A session in an instance with somebody's old filter, looked at when the trace has ended and
draining is about to switch it off. -/
theorem execute_confined_running :
    let name : InstanceName := ⟨"shared", by decide⟩
    let i := Recording.instanceOf name
    let r : TraceRequest := ⟨[42], [7, 42], some name, some 10, .empty, none⟩
    let start : Recording :=
      { Recording.empty with instances := .ofList [("shared", ⟨false, true, false, [9], [], none⟩)] }
    ∃ before after done rest result final mid st,
      (∀ n, r.inst = some n → ∀ st, start.instances.get? n.text = some st → st.tracingOn = false) ∧
      RunsOn Recording.responder (Instances.bind r.inst) start before (.ok i) start ∧
      RunsOn Recording.responder (Session.execute r) start (before ++ after) result final ∧
      before ++ after = done ++ ⟨.backend (.set i (.tracing false)), .ok ()⟩ :: rest ∧
      Recording.responder.Serves start (calls done) mid ∧
      mid.instances.get? "shared" = some st ∧ st.tracingOn = true ∧ r.Filters st := by
  intro name i r start
  have hoff : ∀ n, r.inst = some n → ∀ st, start.instances.get? n.text = some st →
      st.tracingOn = false := by
    rintro n ⟨⟩ st hst
    cases hst
    rfl
  obtain ⟨before, hnone, hbind⟩ : ∃ before, settingsOf before = [] ∧
      RunsOn Recording.responder (Instances.bind r.inst) start before (.ok i) start :=
    ⟨[⟨.backend (.findInstance name), .ok (some i)⟩,
        ⟨.log ⟨.debug, s!"using existing trace instance {name.text}"⟩, ()⟩],
      rfl, .ask (.ask (.done _)), .cons (by rfl) (.nil _)⟩
  let w : Surroundings := ⟨0, .deadline, fun _ => .error (.wait (.os .notFound))⟩
  obtain ⟨run, hdriven⟩ : ∃ run, run =
      drive Recording.answer w (Session.conduct r i) start := ⟨_, rfl⟩
  have hconduct := runsOn_drive Recording.answer w (Session.conduct r i) start
  rw [← hdriven] at hconduct
  have hrun := Session.runsOn_execute_of_conduct (r := r) rfl hbind hconduct
  -- the records of where the session is, the settings up to the one that starts the trace, the wait
  have hsets : settingsOf (run.1.take 12) = Session.startedCalls r i := by
    simp only [hdriven, i, name, r, start, w]
    rfl
  obtain ⟨rest, hrest⟩ : ∃ rest,
      run.1.drop 12 = ⟨.backend (.set i (.tracing false)), .ok ()⟩ :: rest := by
    simp only [hdriven, i, name, r, start, w]
    exact ⟨_, rfl⟩
  have hserved := hconduct.served
  rw [← List.take_append_drop 12 run.1, calls_append] at hserved
  obtain ⟨mid, hmid, -⟩ := Responder.serves_append.1 hserved
  obtain ⟨hst, -⟩ := Recording.serves_settings hmid fun e he =>
    Session.calls_of_conduct hconduct.runs e
      (mem_calls.2 (List.mem_of_mem_take (mem_calls.1 he)))
  rw [show settingCalls _ = _ from hsets] at hst
  have hcut : before ++ run.1 = (before ++ run.1.take 12) ++
      ⟨.backend (.set i (.tracing false)), .ok ()⟩ :: rest := by
    rw [← hrest, List.append_assoc, List.take_append_drop]
  have hdone : Recording.responder.Serves start (calls (before ++ run.1.take 12)) mid := by
    rw [calls_append]
    exact Responder.serves_append.2 ⟨_, hbind.served, hmid⟩
  have hconfined := execute_confined hoff hbind hrun hcut hdone hst
  rw [settingsOf_append, hnone, hsets, List.nil_append] at hconfined
  have hopen : ¬ OffAnswered i (Session.startedCalls r i) :=
    not_offAnswered fun c hc => Session.setting_ne_of_mem_started hc
  refine ⟨_, _, _, _, _, _, mid, _, hoff, hbind, hrun, hcut, hdone, hst, rfl, ?_⟩
  exact hconfined.filters hopen rfl

end KernelTrace
