import KernelTrace.Proofs.RecordingSteps

/-!
# What a reset removes

A reset removes the instances of this library's making, and one that cannot be removed must not keep
it from going on to the next. So the report has to account for every instance, and it has to do so
whatever the backend answers: an instance may have come into use or be gone by the time its turn
comes.

The loop is summed up by the list of its removals, each with what became of it (`runs_removeEach`).
The names of that list are the names of this library's making in the listing, and the report is the
list read twice (`ResetReport.of`). On a recording that nobody else uses the same list says what is
left: each name is listed once, so a removal fails exactly if its instance is in use, and then it
would fail again.
-/

namespace KernelTrace

open Program Actions

/-- An attempt to remove an instance, with what became of it. -/
structure Removal where
  name : String
  answer : Except TracingError Unit

namespace Removal

def event (r : Removal) : Event Backend := ⟨.destroyInstance r.name, r.answer⟩

def succeeded (r : Removal) : Bool :=
  match r.answer with
  | .ok () => true
  | .error _ => false

end Removal

/-- The report on some removals: every name under what became of it, in order. -/
def ResetReport.of (removals : List Removal) : ResetReport where
  removed := (removals.filter (·.succeeded)).map Removal.name
  failed := (removals.filter (! ·.succeeded)).map Removal.name

/-- Where a removal succeeds exactly if `p` holds of its name, the report divides the names by
`p`. -/
theorem ResetReport.of_eq {removals : List Removal} {p : String → Bool}
    (h : ∀ removal ∈ removals, removal.succeeded = p removal.name) :
    ResetReport.of removals =
      ⟨(removals.map Removal.name).filter p, (removals.map Removal.name).filter (! p ·)⟩ := by
  have hfailed : ∀ removal ∈ removals, (! removal.succeeded) = ! p removal.name :=
    fun removal hmem => congrArg (! ·) (h removal hmem)
  rw [ResetReport.of, List.filter_congr h, List.filter_congr hfailed, List.filter_map,
    List.filter_map]
  rfl

namespace Instances

/-- Every name is tried once and in order, whatever became of those before it. -/
theorem runs_removeEach {names : List String} {report result : ResetReport}
    {es : List (Event (Actions Backend))} (h : Runs (removeEach names report) es result) :
    ∃ removals : List Removal, removals.map Removal.name = names ∧
      calls es = removals.map Removal.event ∧
      result = ⟨report.removed ++ (ResetReport.of removals).removed,
        report.failed ++ (ResetReport.of removals).failed⟩ := by
  induction names generalizing report es with
  | nil =>
      obtain ⟨rfl, rfl⟩ := runs_pure.1 h
      refine ⟨[], rfl, rfl, ?_⟩
      simp [ResetReport.of]
  | cons name names ih =>
      obtain ⟨answer, rest, rfl, h₁⟩ := runs_perform_bind.1 h
      match answer with
      | .ok () =>
          obtain ⟨_, rest, rfl, h₂⟩ := runs_perform_bind.1 h₁
          obtain ⟨removals, rfl, hcalls, rfl⟩ := ih h₂
          refine ⟨⟨name, .ok ()⟩ :: removals, rfl, congrArg (_ :: ·) hcalls, ?_⟩
          simp [ResetReport.of, Removal.succeeded]
      | .error e =>
          obtain ⟨_, rest, rfl, h₂⟩ := runs_perform_bind.1 h₁
          obtain ⟨removals, rfl, hcalls, rfl⟩ := ih h₂
          refine ⟨⟨name, .error e⟩ :: removals, rfl, congrArg (_ :: ·) hcalls, ?_⟩
          simp [ResetReport.of, Removal.succeeded]

/-- `ResetCourse calls result`: the two ways in which a reset can go. -/
inductive ResetCourse : List (Event Backend) → Except TracingError ResetReport → Prop where
  /-- The instances could not be listed, and nothing was removed. -/
  | unlisted (e : TracingError) : ResetCourse [⟨.instanceNames, .error e⟩] (.error e)
  /-- The instances were listed, and each of this library's making was tried. -/
  | tried {names : List String} {removals : List Removal}
      (each : removals.map Removal.name = names.filter InstanceName.isOwnedText) :
      ResetCourse (⟨.instanceNames, .ok names⟩ :: removals.map Removal.event)
        (.ok (.of removals))

theorem runs_resetAll {es : List (Event (Actions Backend))}
    {result : Except TracingError ResetReport} (h : Runs resetAll es result) :
    ResetCourse (calls es) result := by
  obtain ⟨es₁, es₂, listed, rfl, hlist, h₁⟩ := runs_bind.1 h
  obtain ⟨answer, rest, rfl, hend⟩ := runs_perform_bind.1 hlist
  obtain ⟨rfl, rfl⟩ := runs_pure.1 hend
  match answer with
  | .error e =>
      obtain ⟨rfl, rfl⟩ := runs_pure.1 h₁
      exact .unlisted e
  | .ok names =>
      obtain ⟨es₂, es₃, report, rfl, heach, h₂⟩ := runs_bind.1 h₁
      obtain ⟨_, rest, rfl, hend⟩ := runs_perform_bind.1 h₂
      obtain ⟨rfl, rfl⟩ := runs_pure.1 hend
      obtain ⟨removals, hnames, hcalls, rfl⟩ := runs_removeEach heach
      rw [calls_append, calls_append, hcalls, calls_log, calls_nil, List.append_nil]
      exact .tried hnames

end Instances

/-! ## On a recording -/

namespace Recording

variable {r r' : Recording}

/-- Of several live instances those that are in use stay, and the others are gone. -/
theorem serves_removals {removals : List Removal}
    (h : responder.Serves r (removals.map Removal.event) r')
    (hnodup : (removals.map Removal.name).Nodup)
    (hlive : ∀ removal ∈ removals, r.instances.get? removal.name ≠ none) :
    r'.busy = r.busy ∧ (∀ removal ∈ removals, removal.succeeded = decide (removal.name ∉ r.busy)) ∧
      ∀ name, r'.instances.get? name =
        if name ∈ removals.map Removal.name ∧ name ∉ r.busy then none
        else r.instances.get? name := by
  induction removals generalizing r with
  | nil =>
      obtain rfl := Responder.serves_nil.1 h
      exact ⟨rfl, by simp, by simp⟩
  | cons removal removals ih =>
      obtain ⟨own, answer⟩ := removal
      obtain ⟨mid, hstep, hrest⟩ := Responder.serves_cons.1 h
      rw [List.map_cons, List.nodup_cons] at hnodup
      obtain ⟨-, hbusy, hcase⟩ := destroy_cases hstep
      have howned : r.instances.get? own ≠ none := hlive _ List.mem_cons_self
      have hown : (Removal.mk own answer).succeeded = decide (own ∉ r.busy) ∧
          ∀ name, mid.instances.get? name =
            if name = own ∧ own ∉ r.busy then none else r.instances.get? name := by
        obtain ⟨e, rfl, hsame, hwhy⟩ | ⟨st, rfl, hfree, -, herase⟩ := hcase
        · have hinUse : own ∈ r.busy := hwhy.resolve_right howned
          refine ⟨(decide_eq_false (not_not_intro hinUse)).symm, fun name => ?_⟩
          rw [hsame, if_neg fun hgone => hgone.2 hinUse]
        · refine ⟨(decide_eq_true hfree).symm, fun name => ?_⟩
          rw [herase, SortedMap.get?_erase]
          simp only [hfree, not_false_eq_true, and_true]
      obtain ⟨hbusy', hsucceeded, hget⟩ := ih hrest hnodup.2 fun other hother => by
        have hne : other.name ≠ own := fun heq =>
          hnodup.1 (List.mem_map.2 ⟨other, hother, heq⟩)
        rw [hown.2, if_neg fun hgone => hne hgone.1]
        exact hlive other (List.mem_cons_of_mem _ hother)
      rw [hbusy] at hbusy' hsucceeded hget
      refine ⟨hbusy', List.forall_mem_cons.2 ⟨hown.1, hsucceeded⟩, fun name => ?_⟩
      rw [hget, hown.2]
      by_cases hname : name = own
      · subst hname
        by_cases hinUse : name ∈ r.busy <;> simp [hinUse]
      · simp [hname]

/-- A reset takes away the instances of this library's making that are not in use, and says so. -/
theorem runsOn_resetAll {es : List (Event (Actions Backend))}
    {result : Except TracingError ResetReport}
    (h : RunsOn responder Instances.resetAll r es result r') :
    let owned := r.instances.keys.filter InstanceName.isOwnedText
    result = .ok ⟨owned.filter (· ∉ r.busy), owned.filter (· ∈ r.busy)⟩ ∧ r'.busy = r.busy ∧
      r'.instances = r.instances.filter fun name _ =>
        ! InstanceName.isOwnedText name || decide (name ∈ r.busy) := by
  intro owned
  have hcourse := Instances.runs_resetAll h.runs
  have hserved := h.served
  generalize Actions.calls es = cs at hcourse hserved
  cases hcourse with
  | unlisted e =>
      obtain ⟨mid, hlist, -⟩ := Responder.serves_cons.1 hserved
      cases hlist
  | @tried names removals heach =>
      obtain ⟨mid, hlist, hrest⟩ := Responder.serves_cons.1 hserved
      cases hlist
      have howned : ∀ name, name ∈ removals.map Removal.name ↔
          r.instances.get? name ≠ none ∧ InstanceName.isOwnedText name = true := by
        intro name
        rw [heach, List.mem_filter, SortedMap.mem_keys]
      obtain ⟨hbusy, hsucceeded, hget⟩ := serves_removals hrest
        (heach ▸ (SortedMap.nodup_keys r.instances).filter _)
        fun removal hmem => ((howned _).1 (List.mem_map_of_mem hmem)).1
      refine ⟨?_, hbusy, SortedMap.ext_get? fun name => ?_⟩
      · rw [ResetReport.of_eq (p := fun name => decide (name ∉ r.busy)) hsucceeded, heach]
        simp [owned]
      · rw [hget, SortedMap.get?_filter]
        simp only [howned]
        cases hlive : r.instances.get? name with
        | none => simp
        | some st =>
            cases InstanceName.isOwnedText name <;> by_cases hinUse : name ∈ r.busy <;>
              simp [hinUse]

end Recording

open Recording in
/-- A reset accounts for every instance of this library's making. Whatever the backend answers, and
whoever else is at work between two calls, it comes to its end. If the instances cannot be listed it
has removed none. Otherwise it has tried each of this library's making once, in the order of the
listing, and no other, and has reported it under what became of it. Of a recording that nobody else
uses there are left the instances of others and those in use, each in its state, and another reset
removes nothing and fails for the same ones. -/
theorem reset_accounts :
    (∀ (S : Type) (m : Responder Backend S), (∀ s c, ∃ a t, m s c a t) → ∀ s,
      ∃ es result t, RunsOn m Instances.resetAll s es result t) ∧
    (∀ es result, Runs Instances.resetAll es result →
      (∃ e, calls es = [⟨.instanceNames, .error e⟩] ∧ result = .error e) ∨
      ∃ names removals, calls es = ⟨.instanceNames, .ok names⟩ :: removals.map Removal.event ∧
        removals.map Removal.name = names.filter InstanceName.isOwnedText ∧
        result = .ok (.of removals)) ∧
    ∀ r es result r', RunsOn responder Instances.resetAll r es result r' →
      (r'.instances = r.instances.filter fun name _ =>
        ! InstanceName.isOwnedText name || decide (name ∈ r.busy)) ∧
      ∃ report, result = .ok report ∧
        ∀ es' result' r'', RunsOn responder Instances.resetAll r' es' result' r'' →
          result' = .ok ⟨[], report.failed⟩ := by
  refine ⟨fun S m hm s => exists_runsOn_of_answers hm _ s, fun es result h => ?_, ?_⟩
  · have hcourse := Instances.runs_resetAll h
    generalize Actions.calls es = cs at hcourse ⊢
    cases hcourse with
    | unlisted e => exact .inl ⟨e, rfl, rfl⟩
    | tried each => exact .inr ⟨_, _, rfl, each, rfl⟩
  · intro r es result r' h
    obtain ⟨rfl, hbusy, hleft⟩ := runsOn_resetAll h
    refine ⟨hleft, _, rfl, fun es' result' r'' h' => ?_⟩
    obtain ⟨rfl, -, -⟩ := runsOn_resetAll h'
    -- of this library's making, only those in use are left
    have howned : r'.instances.keys.filter InstanceName.isOwnedText =
        (r.instances.keys.filter InstanceName.isOwnedText).filter (· ∈ r.busy) := by
      rw [hleft, SortedMap.keys_filter, List.filter_filter, List.filter_filter]
      refine List.filter_congr fun name _ => ?_
      cases InstanceName.isOwnedText name <;> simp
    have hnone : ∀ owned : List String,
        (owned.filter (· ∈ r.busy)).filter (· ∉ r.busy) = [] := fun owned =>
      List.filter_eq_nil_iff.2 fun name hmem => by simpa using (List.mem_filter.1 hmem).2
    rw [hbusy, howned, hnone, List.filter_filter]
    simp only [Bool.and_self]

/-- One of the two is in use, and the third is somebody else's. -/
theorem reset_accounts_inUse :
    let r := (((Recording.empty.withInstance "kube_busy").withInstance "kube_idle").withInstance
      "perf").markBusy "kube_busy"
    let run := drive Recording.answer ⟨0, .deadline, fun _ => .error (.wait (.os .notFound))⟩
      Instances.resetAll r
    run.2.1 = .ok ⟨["kube_idle"], ["kube_busy"]⟩ ∧
      run.2.2.instances = r.instances.filter fun name _ =>
        ! InstanceName.isOwnedText name || decide (name ∈ r.busy) :=
  ⟨by rfl, (reset_accounts.2.2 _ _ _ _ (runsOn_drive ..)).1⟩

end KernelTrace
