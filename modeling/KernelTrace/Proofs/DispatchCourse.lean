import KernelTrace.Hooks.Dispatch
import KernelTrace.Proofs.SessionCourse

/-!
# The course of a dispatch

A dispatcher that was asked to remove the instance which it made for a run has one thing to see to
between creating the instance and returning, and there are several ways to return. This file lists
them. `Dispatched` takes a run of `Dispatcher.run` apart at the points where it can end; none of the
parts in between, announcing the trace and running the hooks, concerns the backend.

That leaves the calls of the backend as those of binding, followed by the one that removes the
instance if the run got that far (`calls_of_destroying`). It does not always get that far.
Announcing can fail, and then the run ends before the first hook with the instance left behind, so
the promise holds of every run but those (`run_removes_created`).
-/

namespace KernelTrace

open Program Actions

namespace Dispatcher

variable {β : Signature} {d : Dispatcher} {r : RunRequest}

/-- The hooks that were run, in order. -/
def hookRuns : List (Event (Actions β)) → List HookRun
  | [] => []
  | ⟨.invoke run, _⟩ :: es => run :: hookRuns es
  | _ :: es => hookRuns es

@[simp] theorem hookRuns_append (es fs : List (Event (Actions β))) :
    hookRuns (es ++ fs) = hookRuns es ++ hookRuns fs := by
  induction es with
  | nil => rfl
  | cons e es ih =>
      obtain ⟨op, answer⟩ := e
      cases op <;> simp only [hookRuns, List.cons_append, ih]

/-! ## Between binding and the end -/

theorem runs_failed {path : Path} {e : HookError} {es : List (Event (Actions β))}
    {output : HookOutput} (h : Runs (failed path e) es output) :
    calls es = [] ∧ hookRuns es = [] ∧ output.path = path := by
  obtain ⟨_, rest, rfl, hend⟩ := runs_perform_bind.1 h
  obtain ⟨rfl, rfl⟩ := runs_pure.1 hend
  exact ⟨rfl, rfl, rfl⟩

/-- Whatever becomes of a hook, it was run once and left something behind. -/
theorem runs_invoke {path : Path} {args : List String} {es : List (Event (Actions β))}
    {output : HookOutput} (h : Runs (d.invoke path args) es output) :
    calls es = [] ∧ hookRuns es = [⟨path, args, d.env⟩] ∧ output.path = path := by
  obtain ⟨_, rest, rfl, h₁⟩ := runs_perform_bind.1 h
  obtain ⟨answer, rest, rfl, h₂⟩ := runs_perform_bind.1 h₁
  match answer with
  | .error (.spawn _) | .error (.wait _) | .error (.handler _) =>
      obtain ⟨hcalls, hruns, hpath⟩ := runs_failed h₂
      exact ⟨hcalls, congrArg (_ :: ·) hruns, hpath⟩
  | .ok result =>
      obtain ⟨_, rest, rfl, hend⟩ := runs_perform_bind.1 h₂
      obtain ⟨rfl, rfl⟩ := runs_pure.1 hend
      exact ⟨rfl, rfl, rfl⟩

/-- Every hook is run once, in order and with the same arguments, whatever became of those before
it. -/
theorem runs_invokeEach {paths : List Path} {args : List String} {es : List (Event (Actions β))}
    {outputs : List HookOutput} (h : Runs (d.invokeEach args paths) es outputs) :
    calls es = [] ∧ hookRuns es = paths.map (⟨·, args, d.env⟩) ∧
      outputs.map HookOutput.path = paths := by
  induction paths generalizing es outputs with
  | nil =>
      obtain ⟨rfl, rfl⟩ := runs_pure.1 h
      exact ⟨rfl, rfl, rfl⟩
  | cons path paths ih =>
      obtain ⟨es₁, es₂, output, rfl, hfirst, h₁⟩ := runs_bind.1 h
      obtain ⟨es₂, es₃, outputs', rfl, hrest, hend⟩ := runs_bind.1 h₁
      obtain ⟨rfl, rfl⟩ := runs_pure.1 hend
      obtain ⟨hcalls, hruns, hpath⟩ := runs_invoke hfirst
      obtain ⟨hcalls', hruns', hpaths'⟩ := ih hrest
      rw [List.append_nil, calls_append, hookRuns_append, hcalls, hcalls', hruns, hruns']
      exact ⟨rfl, rfl, by rw [List.map_cons, hpath, hpaths']⟩

/-- Describing runs every hook of the name and asks nothing of the backend. -/
theorem runs_describe {name : String} {es : List (Event (Actions β))}
    {result : Except HookError (List HookOutput)} (h : Runs (d.describe name) es result) :
    calls es = [] ∧
      match d.lookup name with
      | .error e => result = .error e ∧ hookRuns es = []
      | .ok paths => ∃ outputs, result = .ok outputs ∧ outputs.map HookOutput.path = paths ∧
          hookRuns es = paths.map (⟨·, describeArgs, d.env⟩) := by
  rw [describe] at h
  match hlookup : d.lookup name with
  | .error e =>
      rw [hlookup] at h
      obtain ⟨rfl, rfl⟩ := runs_pure.1 h
      exact ⟨rfl, rfl, rfl⟩
  | .ok paths =>
      rw [hlookup] at h
      obtain ⟨es₁, es₂, outputs, rfl, heach, hend⟩ := runs_bind.1 h
      obtain ⟨rfl, rfl⟩ := runs_pure.1 hend
      obtain ⟨hcalls, hruns, hpaths⟩ := runs_invokeEach heach
      rw [List.append_nil]
      exact ⟨hcalls, outputs, rfl, hpaths, hruns⟩

theorem runs_announce {i : Instance} {es : List (Event (Actions β))} {result : Except IoError Unit}
    (h : Runs (announce i) es result) : calls es = [] ∧ hookRuns es = [] := by
  obtain ⟨written, rest, rfl, hrest⟩ := runs_perform_bind.1 h
  match written with
  | .error e =>
      obtain ⟨rfl, rfl⟩ := runs_pure.1 hrest
      exact ⟨rfl, rfl⟩
  | .ok () =>
      obtain rfl := runs_perform.1 hrest
      exact ⟨rfl, rfl⟩

/-! ## The courses -/

/-- `Dispatched d r es result`: the ways in which a run of hooks can end. -/
inductive Dispatched (d : Dispatcher) (r : RunRequest) :
    List (Event (Actions Backend)) → Except HookError (List HookOutput) → Prop where
  /-- There are no hooks of the name. -/
  | notFound {e : HookError} (unknown : d.lookup r.name = .error e) : Dispatched d r [] (.error e)
  /-- The signal that asks hooks to stop could not be taken over. -/
  | unshielded {paths : List Path} {e : IoError} (known : d.lookup r.name = .ok paths) :
      Dispatched d r [⟨.shieldStop, .error e⟩] (.error (.handler e))
  | unbound {paths : List Path} {binding : List (Event (Actions Backend))} {e : TracingError}
      (known : d.lookup r.name = .ok paths) (bind : Runs (Instances.bind r.inst) binding (.error e)) :
      Dispatched d r (⟨.shieldStop, .ok ()⟩ :: binding) (.error (.inst e))
  /-- An instance was bound, but where to read its trace could not be announced. -/
  | unannounced {paths : List Path} {binding announcing : List (Event (Actions Backend))}
      {i : Instance} {e : IoError} (known : d.lookup r.name = .ok paths)
      (bind : Runs (Instances.bind r.inst) binding (.ok i))
      (announced : Runs (announce i) announcing (.error e)) :
      Dispatched d r (⟨.shieldStop, .ok ()⟩ :: binding ++ announcing) (.error (.announce e))
  /-- Every hook was run, and after that the instance was removed if it had to be. -/
  | completed {paths : List Path} {binding announcing running cleaning : List (Event (Actions Backend))}
      {i : Instance} {outputs : List HookOutput} (known : d.lookup r.name = .ok paths)
      (bind : Runs (Instances.bind r.inst) binding (.ok i))
      (announced : Runs (announce i) announcing (.ok ()))
      (ran : Runs (d.invokeEach (hookArgs r i) paths) running outputs)
      (cleaned : Runs (cleanUp r i) cleaning ()) :
      Dispatched d r (⟨.shieldStop, .ok ()⟩ :: binding ++ announcing ++ running ++ cleaning)
        (.ok outputs)

theorem runs_run {es : List (Event (Actions Backend))}
    {result : Except HookError (List HookOutput)} (h : Runs (d.run r) es result) :
    Dispatched d r es result := by
  rw [run] at h
  match hlookup : d.lookup r.name with
  | .error e =>
      rw [hlookup] at h
      obtain ⟨rfl, rfl⟩ := runs_pure.1 h
      exact .notFound hlookup
  | .ok paths =>
      rw [hlookup] at h
      obtain ⟨shielded, rest, rfl, h₁⟩ := runs_perform_bind.1 h
      match shielded with
      | .error e =>
          obtain ⟨rfl, rfl⟩ := runs_pure.1 h₁
          exact .unshielded hlookup
      | .ok () =>
          obtain ⟨binding, rest, bound, rfl, hbind, h₂⟩ := runs_bind.1 h₁
          match bound with
          | .error e =>
              obtain ⟨rfl, rfl⟩ := runs_pure.1 h₂
              rw [List.append_nil]
              exact .unbound hlookup hbind
          | .ok i =>
              obtain ⟨announcing, rest, announced, rfl, hannounce, h₃⟩ := runs_bind.1 h₂
              rw [← List.cons_append, ← List.append_assoc]
              match announced with
              | .error e =>
                  obtain ⟨rfl, rfl⟩ := runs_pure.1 h₃
                  rw [List.append_nil]
                  exact .unannounced hlookup hbind hannounce
              | .ok () =>
                  obtain ⟨running, rest, outputs, rfl, hran, h₄⟩ := runs_bind.1 h₃
                  obtain ⟨cleaning, rest, _, rfl, hclean, hend⟩ := runs_bind.1 h₄
                  obtain ⟨rfl, rfl⟩ := runs_pure.1 hend
                  rw [List.append_nil, ← List.append_assoc]
                  exact .completed hlookup hbind hannounce hran hclean

/-! ## What becomes of the instance -/

/-- Cleaning up asks the backend to remove the instance if it has to, and for nothing else. -/
theorem runs_cleanUp {i : Instance} {es : List (Event (Actions Backend))} {u : Unit}
    (h : Runs (cleanUp r i) es u) :
    hookRuns es = [] ∧
      if r.removeInstance = true ∧ r.inst = none then
        ∃ a, calls es = [⟨.destroyInstance i.name.text, a⟩]
      else calls es = [] := by
  rw [cleanUp] at h
  simp only [Bool.and_eq_true, Option.isNone_iff_eq_none] at h
  split at h
  · next hremoves =>
      rw [if_pos hremoves]
      obtain ⟨es₁, es₂, destroyed, rfl, hdestroy, hend⟩ := runs_bind.1 h
      obtain ⟨answer, rest, rfl, h₁⟩ := runs_perform_bind.1 hdestroy
      match answer with
      | .error e =>
          obtain ⟨rfl, rfl⟩ := runs_pure.1 h₁
          obtain rfl := runs_perform.1 hend
          exact ⟨rfl, _, rfl⟩
      | .ok () =>
          obtain ⟨_, rest, rfl, h₂⟩ := runs_perform_bind.1 h₁
          obtain ⟨rfl, rfl⟩ := runs_pure.1 h₂
          obtain ⟨rfl, -⟩ := runs_pure.1 hend
          exact ⟨rfl, _, rfl⟩
  · next hkeeps =>
      rw [if_neg hkeeps]
      obtain ⟨rfl, -⟩ := runs_pure.1 h
      exact ⟨rfl, rfl⟩

end Dispatcher

namespace Instances

/-- The creation that succeeds while an instance is made under a random name is the last. -/
theorem eq_ok_of_created {es : List (Event (Actions Backend))}
    {result : Except TracingError Instance} (h : Runs createAnonymous es result)
    {name : InstanceName} {i : Instance} (hcreated : ⟨.createInstance name, .ok i⟩ ∈ calls es) :
    result = .ok i := by
  obtain ⟨refused, hrefused, ⟨e, rfl, hcalls⟩ | ⟨i', name', rfl, hcalls⟩⟩ := calls_of_createFrom h
  · rw [hcalls] at hcreated
    obtain ⟨_, _, heq⟩ := hrefused _ hcreated
    cases heq
  · rw [hcalls] at hcreated
    rcases List.mem_append.1 hcreated with hmem | hmem
    · obtain ⟨_, _, heq⟩ := hrefused _ hmem
      cases heq
    · cases List.mem_singleton.1 hmem
      rfl

theorem destroy_notMem_of_bind {inst : Option InstanceName} {es : List (Event (Actions Backend))}
    {result : Except TracingError Instance} (h : Runs (Instances.bind inst) es result)
    (name : String) (a : Except TracingError Unit) : ⟨.destroyInstance name, a⟩ ∉ calls es :=
  fun hmem => h.of_asks (bind_asks inst) (mem_calls.1 hmem)

end Instances

namespace Dispatcher

variable {d : Dispatcher} {r : RunRequest}

theorem calls_of_completed {binding announcing running cleaning : List (Event (Actions Backend))}
    {i : Instance} {paths : List Path} {outputs : List HookOutput}
    (announced : Runs (announce i) announcing (.ok ()))
    (ran : Runs (d.invokeEach (hookArgs r i) paths) running outputs) :
    calls (⟨.shieldStop, .ok ()⟩ :: binding ++ announcing ++ running ++ cleaning) =
      calls binding ++ calls cleaning := by
  rw [calls_append, calls_append, (runs_invokeEach ran).1, List.append_nil, calls_append,
    (runs_announce announced).1, List.append_nil]
  rfl

/-- A run that removes an instance has made it for itself, and has called the backend for nothing
else. -/
theorem calls_of_destroying {es : List (Event (Actions Backend))}
    {result : Except HookError (List HookOutput)} (h : Runs (d.run r) es result) {name : String}
    {a : Except TracingError Unit} (hmem : ⟨.destroyInstance name, a⟩ ∈ calls es) :
    r.removeInstance = true ∧ r.inst = none ∧ ∃ refused draw i, Instances.AllRefused refused ∧
      i.name.text = name ∧
      calls es = refused ++ [⟨.createInstance (.random draw), .ok i⟩, ⟨.destroyInstance name, a⟩] := by
  cases runs_run h with
  | notFound | unshielded => exact absurd hmem List.not_mem_nil
  | unbound _ bind => exact absurd hmem (Instances.destroy_notMem_of_bind bind name a)
  | unannounced _ bind announced =>
      rw [calls_append, (runs_announce announced).1, List.append_nil] at hmem
      exact absurd hmem (Instances.destroy_notMem_of_bind bind name a)
  | @completed _ binding announcing running cleaning i outputs _ bind announced ran cleaned =>
      rw [calls_of_completed announced ran] at hmem ⊢
      have hcleaning : ⟨.destroyInstance name, a⟩ ∈ calls cleaning :=
        (List.mem_append.1 hmem).resolve_left (Instances.destroy_notMem_of_bind bind name a)
      obtain ⟨-, hcleaned⟩ := runs_cleanUp cleaned
      split at hcleaned
      · next hremoves =>
          obtain ⟨a', hcleaned⟩ := hcleaned
          rw [hcleaned] at hcleaning ⊢
          cases List.mem_singleton.1 hcleaning
          rw [hremoves.2] at bind
          obtain ⟨refused, hrefused, ⟨e, heq, -⟩ | ⟨i', draw, heq, hcalls⟩⟩ :=
            Instances.calls_of_createFrom bind
          · cases heq
          · cases heq
            refine ⟨hremoves.1, hremoves.2, refused, draw, i, hrefused, rfl, ?_⟩
            rw [hcalls, List.append_assoc]
            rfl
      · rw [hcleaned] at hcleaning
        exact absurd hcleaning List.not_mem_nil

/-- A run that has created an instance for itself removes it once every hook was run, if it was
asked to and could announce where the trace is read. If it could not, the instance stays. -/
theorem run_removes_created {es : List (Event (Actions Backend))}
    {result : Except HookError (List HookOutput)} (hremove : r.removeInstance = true)
    (hanonymous : r.inst = none) (h : Runs (d.run r) es result) {name : InstanceName} {i : Instance}
    (hcreated : ⟨.backend (.createInstance name), .ok i⟩ ∈ es) :
    (∃ outputs, ∃ before after : List (Event (Actions Backend)), ∃ a, result = .ok outputs ∧
      es = before ++ ⟨.backend (.destroyInstance i.name.text), a⟩ :: after ∧ hookRuns after = []) ∨
    ∃ e, result = .error (.announce e) ∧
      ∀ name a, ⟨.backend (.destroyInstance name), a⟩ ∉ es := by
  rw [← mem_calls] at hcreated
  cases runs_run h with
  | notFound | unshielded => exact absurd hcreated List.not_mem_nil
  | @unbound _ binding e _ bind =>
      rw [hanonymous] at bind
      cases Instances.eq_ok_of_created bind hcreated
  | @unannounced _ binding announcing i' e _ bind announced =>
      refine Or.inr ⟨e, rfl, fun name a hmem => ?_⟩
      rw [← mem_calls, calls_append, (runs_announce announced).1, List.append_nil] at hmem
      exact Instances.destroy_notMem_of_bind bind name a hmem
  | @completed _ binding announcing running cleaning i' outputs _ bind announced ran cleaned =>
      obtain ⟨hquiet, hcleaned⟩ := runs_cleanUp cleaned
      rw [if_pos ⟨hremove, hanonymous⟩] at hcleaned
      obtain ⟨a, hcleaned⟩ := hcleaned
      have hbound : ⟨.createInstance name, .ok i⟩ ∈ calls binding := by
        rw [calls_of_completed announced ran, hcleaned] at hcreated
        rcases List.mem_append.1 hcreated with hmem | hmem
        · exact hmem
        · cases List.mem_singleton.1 hmem
      rw [hanonymous] at bind
      cases Instances.eq_ok_of_created bind hbound
      have hdestroy : ⟨.backend (.destroyInstance i.name.text), a⟩ ∈ cleaning := by
        rw [← mem_calls, hcleaned]
        exact List.mem_singleton_self _
      obtain ⟨before, after, rfl⟩ := List.append_of_mem hdestroy
      rw [hookRuns_append, List.append_eq_nil_iff] at hquiet
      exact Or.inl ⟨outputs, _, after, a, rfl, (List.append_assoc ..).symm, hquiet.2⟩

/-- A dispatcher with one hook. -/
def single : Dispatcher := ⟨⟨"/hooks", [⟨"noop", "/hooks/trace_noop"⟩]⟩, []⟩

def removing : RunRequest := ⟨"noop", [], none, true⟩

/-- The hook cannot be started, and the instance is removed all the same. -/
theorem run_removes_created_unstarted :
    let name : InstanceName := .random 0
    let run := drive Recording.answer ⟨0, .deadline, fun _ => .error (.spawn (.os .execFormat))⟩
      (single.run removing) .empty
    Runs (single.run removing) run.1 run.2.1 ∧
      ⟨.backend (.createInstance name), .ok (Recording.instanceOf name)⟩ ∈ run.1 ∧
      ∃ before after : List (Event (Actions Backend)), ∃ a,
        run.1 = before ++ ⟨.backend (.destroyInstance name.text), a⟩ :: after ∧
        hookRuns after = [] := by
  intro name run
  have hruns : Runs (single.run removing) run.1 run.2.1 := (runsOn_drive ..).runs
  have hcreated : ⟨.backend (.createInstance name), .ok (Recording.instanceOf name)⟩ ∈ run.1 :=
    .tail _ (.tail _ (.head _))
  obtain ⟨outputs, before, after, a, -, hsplit, hafter⟩ | ⟨e, hfailed, -⟩ :=
    run_removes_created rfl rfl hruns hcreated
  · exact ⟨hruns, hcreated, before, after, a, hsplit, hafter⟩
  · cases hfailed

/-- Nobody takes the announcement, and the instance made for the run is still there when it has
ended. -/
theorem run_leaves_created :
    let name : InstanceName := .random 0
    ∃ es result final, removing.removeInstance = true ∧ removing.inst = none ∧
      RunsOn (.ofFunction Recording.answer) (single.run removing) .empty es result final ∧
      ⟨.backend (.createInstance name), .ok (Recording.instanceOf name)⟩ ∈ es ∧
      (∀ name a, ⟨.backend (.destroyInstance name), a⟩ ∉ es) ∧
      final.instances.get? name.text = some .fresh := by
  intro name
  let refused : IoError := .refused "write refused"
  let created : Event (Actions Backend) :=
    ⟨.backend (.createInstance name), .ok (Recording.instanceOf name)⟩
  refine ⟨[⟨.shieldStop, .ok ()⟩, ⟨.draw, 0⟩, created, ⟨.log _, ()⟩,
      ⟨.announce (announcement (Recording.instanceOf name)), .error refused⟩],
    .error (.announce refused), (Recording.empty.create name).2, rfl, rfl,
    ⟨.ask (.ask (.ask (.ask (.ask (.done _))))), .cons rfl (.nil _)⟩, .tail _ (.tail _ (.head _)),
    fun name a hmem => ?_, rfl⟩
  rw [← mem_calls] at hmem
  cases List.mem_singleton.1 hmem

end Dispatcher

end KernelTrace
