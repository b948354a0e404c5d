import KernelTrace.Proofs.ControlFilesSteps
import KernelTrace.Proofs.DispatchCourse
import KernelTrace.Proofs.Resets

/-!
# Whose instances are removed

Instances belong to whoever made them, and the kernel does not say who that was. What keeps this
library from removing somebody else's is two rules. A reset goes by the mark in the name, and a run
of hooks goes by what it has just done: it removes the instance that it made for itself and no
other, not even one with the mark if that was named to it.

So this file is about any series of tasks that end one after the other (`History`), over any
backend that creates an instance under the name it was given (`Faithful`). Every removal in such a
series is one of the two kinds, and the name always bears the mark. On a recording it follows that
an instance without the mark outlives everything that is done.
-/

namespace KernelTrace

open Program Actions

/-- Something that can be asked of this library, apart from the removal of a given instance. -/
inductive Task where
  | createAnonymous
  | findOrCreate (name : InstanceName)
  | bind (name : Option InstanceName)
  | listOwned
  | resetAll
  | execute (r : TraceRequest)
  | describe (d : Dispatcher) (name : String)
  | run (d : Dispatcher) (r : RunRequest)

namespace Task

abbrev Result : Task → Type
  | createAnonymous | findOrCreate _ | bind _ => Except TracingError Instance
  | listOwned => Except TracingError (List String)
  | resetAll => Except TracingError ResetReport
  | execute _ => Except SessionError SessionReport
  | describe .. | run .. => Except HookError (List HookOutput)

def program : (k : Task) → Tracing k.Result
  | createAnonymous => Instances.createAnonymous
  | findOrCreate name => Instances.findOrCreate name
  | bind name => Instances.bind name
  | listOwned => Instances.listOwned
  | resetAll => Instances.resetAll
  | execute r => Session.execute r
  | describe d name => d.describe name
  | run d r => d.run r

end Task

/-- `History m s h t`: from the state `s`, the tasks of `h` have come to their ends one after the
other, each with the events listed beside it, and `t` is left. -/
inductive History {S : Type} (m : Responder Backend S) :
    S → List (Task × List (Event (Actions Backend))) → S → Prop where
  | nil (s : S) : History m s [] s
  | cons {s t u : S} {k : Task} {es : List (Event (Actions Backend))} {a : k.Result}
      {h : List (Task × List (Event (Actions Backend)))} (first : RunsOn m k.program s es a t)
      (rest : History m t h u) : History m s ((k, es) :: h) u

/-- An instance is created under the name that was asked for. -/
def Faithful {S : Type} (m : Responder Backend S) : Prop :=
  ∀ {s name i t}, m s (.createInstance name) (.ok i) t → i.name = name

variable {S : Type} {m : Responder Backend S} {s t : S} {es : List (Event (Actions Backend))}

theorem History.exists_of_mem {h : List (Task × List (Event (Actions Backend)))}
    (hist : History m s h t) {k : Task} (hk : (k, es) ∈ h) :
    ∃ s' a t', RunsOn m k.program s' es a t' := by
  induction hist with
  | nil => exact absurd hk List.not_mem_nil
  | cons first _ ih =>
      rcases List.mem_cons.1 hk with heq | hk
      · cases heq
        exact ⟨_, _, _, first⟩
      · exact ih hk

theorem History.served {h : List (Task × List (Event (Actions Backend)))}
    (hist : History m s h t) : m.Serves s (calls (h.flatMap Prod.snd)) t := by
  induction hist with
  | nil s => exact .nil s
  | cons first _ ih =>
      rw [List.flatMap_cons, calls_append]
      exact Responder.serves_append.2 ⟨_, first.served, ih⟩

/-! ## What a task removes -/

/-- `MadeForItself es name`: of the calls in `es` the last two have created the instance `name`
under a random name and tried to remove it, and those before have created nothing. -/
def MadeForItself (es : List (Event (Actions Backend))) (name : String) : Prop :=
  ∃ refused draw i a, Instances.AllRefused refused ∧ i.name = .random draw ∧ i.name.text = name ∧
    calls es = refused ++ [⟨.createInstance (.random draw), .ok i⟩, ⟨.destroyInstance name, a⟩]

theorem MadeForItself.of_served {refused : List (Event Backend)} {draw : Draw} {i : Instance}
    {name : String} {a : Except TracingError Unit} (hm : Faithful m)
    (hserved : m.Serves s (calls es) t) (hrefused : Instances.AllRefused refused)
    (hname : i.name.text = name)
    (hcalls : calls es =
      refused ++ [⟨.createInstance (.random draw), .ok i⟩, ⟨.destroyInstance name, a⟩]) :
    MadeForItself es name := by
  have hcreate := hserved
  rw [hcalls] at hcreate
  obtain ⟨u, -, hlast⟩ := Responder.serves_append.1 hcreate
  obtain ⟨v, hstep, -⟩ := Responder.serves_cons.1 hlast
  exact ⟨refused, draw, i, a, hrefused, hm hstep, hname, hcalls⟩

theorem MadeForItself.isOwnedText {name : String} (h : MadeForItself es name) :
    InstanceName.isOwnedText name = true := by
  obtain ⟨_, draw, i, _, -, hrandom, rfl, -⟩ := h
  rw [hrandom]
  exact InstanceName.isOwnedText_random draw

namespace Session

/-- A session removes nothing. -/
theorem destroy_notMem_of_execute {r : TraceRequest} {result : Except SessionError SessionReport}
    (h : Runs (execute r) es result) (name : String) (a : Except TracingError Unit) :
    ⟨.destroyInstance name, a⟩ ∉ calls es := by
  intro hmem
  obtain ⟨-, ⟨hquiet, -⟩, -⟩ | ⟨before, after, bound, rfl, -, hbind, hrest⟩ := runs_execute h
  · rw [hquiet] at hmem
    exact absurd hmem List.not_mem_nil
  · rw [calls_append] at hmem
    have hafter := (List.mem_append.1 hmem).resolve_left
      (Instances.destroy_notMem_of_bind hbind name a)
    match bound with
    | .error e =>
        rw [hrest.1.1] at hafter
        exact absurd hafter List.not_mem_nil
    | .ok i =>
        obtain ⟨_, _, heq⟩ := calls_of_conduct hrest _ hafter
        cases heq

end Session

/-- There are two tasks that remove an instance. A reset removes one with the mark, a run of hooks
the one that it made for itself. -/
theorem Task.removal_cases (hm : Faithful m) {k : Task} {a : k.Result}
    (h : RunsOn m k.program s es a t) {name : String} {answer : Except TracingError Unit}
    (hmem : ⟨.destroyInstance name, answer⟩ ∈ calls es) :
    InstanceName.isOwnedText name = true ∧ (k = .resetAll ∨
      ∃ d r, k = .run d r ∧ r.removeInstance = true ∧ r.inst = none ∧ MadeForItself es name) := by
  match k with
  | .createAnonymous =>
      have hbind : Runs (Instances.bind none) _ _ := h.runs
      exact absurd hmem (Instances.destroy_notMem_of_bind hbind _ _)
  | .findOrCreate name' =>
      have hbind : Runs (Instances.bind (some name')) _ _ := h.runs
      exact absurd hmem (Instances.destroy_notMem_of_bind hbind _ _)
  | .bind _ => exact absurd hmem (Instances.destroy_notMem_of_bind h.runs _ _)
  | .listOwned =>
      obtain ⟨listed, rest, rfl, hend⟩ := runs_perform_bind.1 h.runs
      obtain ⟨rfl, -⟩ := runs_pure.1 hend
      cases List.mem_singleton.1 hmem
  | .execute r => exact absurd hmem (Session.destroy_notMem_of_execute h.runs _ _)
  | .describe d _ =>
      rw [(Dispatcher.runs_describe h.runs).1] at hmem
      exact absurd hmem List.not_mem_nil
  | .resetAll =>
      refine ⟨?_, .inl rfl⟩
      have hcourse := Instances.runs_resetAll h.runs
      generalize Actions.calls es = cs at hcourse hmem
      cases hcourse with
      | unlisted e => cases List.mem_singleton.1 hmem
      | @tried names removals heach =>
          rcases List.mem_cons.1 hmem with heq | hmem
          · cases heq
          · obtain ⟨removal, hremoval, heq⟩ := List.mem_map.1 hmem
            cases heq
            have hlisted := List.mem_map_of_mem (f := Removal.name) hremoval
            rw [heach] at hlisted
            exact (List.mem_filter.1 hlisted).2
  | .run d r =>
      obtain ⟨hremove, hanonymous, refused, draw, i, hrefused, hname, hcalls⟩ :=
        Dispatcher.calls_of_destroying h.runs hmem
      have hmade := MadeForItself.of_served hm h.served hrefused hname hcalls
      exact ⟨hmade.isOwnedText, .inr ⟨d, r, rfl, hremove, hanonymous, hmade⟩⟩

/-! ## The two backends -/

/-- A backend of control files creates an instance under the name that was asked for, whatever the
file system does. -/
theorem ControlFiles.faithful {F : Type} (fs : Responder FileSystem F) (root : TracingRoot) :
    Faithful (through fs (answer root)) := by
  rintro s name i t ⟨es, hruns, -⟩
  have hcreation := runs_create hruns
  generalize Actions.calls es = fs at hcreation
  cases hcreation
  rfl

namespace Recording

variable {r r' : Recording}

/-- A recording in which failures may be arranged, and instances be in use or not, before any
call. -/
def unreliable : Responder Backend Recording :=
  fun r c a r' => ∃ r₀ : Recording, r₀.instances = r.instances ∧ responder r₀ c a r'

theorem faithful : Faithful unreliable := by
  rintro r name i r' ⟨r₀, -, hcreate⟩
  obtain ⟨-, -, ⟨e, heq, -⟩ | ⟨heq, -, -⟩⟩ := create_cases hcreate
  · cases heq
  · cases heq
    rfl

theorem live_of_unreliable {es : List (Event Backend)} (h : unreliable.Serves r es r')
    {name : String} (hlive : r.instances.get? name ≠ none)
    (hkept : ∀ a, (⟨Call.destroyInstance name, a⟩ : Event Backend) ∉ es) :
    r'.instances.get? name ≠ none := by
  refine h.invariant (P := fun r => r.instances.get? name ≠ none)
    (Q := fun e => ∀ a, e ≠ ⟨Call.destroyInstance name, a⟩) ?_
    (fun e he a heq => hkept a (heq ▸ he)) hlive
  rintro r r' e hne ⟨r₀, hsame, hstep⟩ hlive
  exact live_of_step hstep (hsame ▸ hlive) (hne (.ok ()))

end Recording

/-! ## A series of tasks -/

/-- `SparesOthers h`: the tasks of `h` have removed nothing that somebody else made. -/
structure SparesOthers (h : List (Task × List (Event (Actions Backend)))) : Prop where
  owned : ∀ {k es name a}, (k, es) ∈ h → ⟨.destroyInstance name, a⟩ ∈ calls es →
    InstanceName.isOwnedText name = true
  /-- Apart from resets, a task removes only what it has made for itself. -/
  made : ∀ {k es name a}, (k, es) ∈ h → ⟨.destroyInstance name, a⟩ ∈ calls es → k ≠ .resetAll →
    ∃ d r, k = .run d r ∧ r.removeInstance = true ∧ r.inst = none ∧ MadeForItself es name
  /-- A run of hooks to which an instance was named removes none. -/
  named : ∀ {d r es n}, (.run d r, es) ∈ h → r.inst = some n →
    ∀ name a, ⟨.destroyInstance name, a⟩ ∉ calls es

theorem History.sparesOthers (hm : Faithful m) {h : List (Task × List (Event (Actions Backend)))}
    (hist : History m s h t) : SparesOthers h where
  owned hk hmem := by
    obtain ⟨s', a, t', hrun⟩ := hist.exists_of_mem hk
    exact (Task.removal_cases hm hrun hmem).1
  made hk hmem hreset := by
    obtain ⟨s', a, t', hrun⟩ := hist.exists_of_mem hk
    exact (Task.removal_cases hm hrun hmem).2.resolve_left hreset
  named hk hnamed name a hmem := by
    obtain ⟨s', a, t', hrun⟩ := hist.exists_of_mem hk
    obtain ⟨-, heq | ⟨d, r, heq, -, hanonymous, -⟩⟩ := Task.removal_cases hm hrun hmem
    · cases heq
    · cases heq
      rw [hnamed] at hanonymous
      cases hanonymous

/-- Whatever is asked of this library in whatever order, it removes no instance without its mark,
and none at all but in a reset or as the one that a run of hooks has made for itself. That holds
over every file system and over a recording with any failures. In a recording, an instance without
the mark is therefore live after every call, if it was live in the beginning. -/
theorem tasks_spare_others :
    (∀ {F : Type} (fs : Responder FileSystem F) (root : TracingRoot) {s h t},
      History (through fs (ControlFiles.answer root)) s h t → SparesOthers h) ∧
    ∀ {r h r'}, History Recording.unreliable r h r' → SparesOthers h ∧
      ∀ name, InstanceName.isOwnedText name = false → r.instances.get? name ≠ none →
        ∀ before after now, calls (h.flatMap Prod.snd) = before ++ after →
          Recording.unreliable.Serves r before now → now.instances.get? name ≠ none := by
  refine ⟨fun fs root _ _ _ hist => hist.sparesOthers (ControlFiles.faithful fs root), ?_⟩
  intro r h r' hist
  have hspares := hist.sparesOthers Recording.faithful
  refine ⟨hspares, fun name hforeign hlive before after now hcut hserves => ?_⟩
  refine Recording.live_of_unreliable hserves hlive fun a hmem => ?_
  have hcalls : (⟨Call.destroyInstance name, a⟩ : Event Backend) ∈ calls (h.flatMap Prod.snd) := by
    rw [hcut]
    exact List.mem_append_left _ hmem
  obtain ⟨⟨k, es⟩, hk, he⟩ := List.mem_flatMap.1 (mem_calls.1 hcalls)
  rw [hspares.owned hk (mem_calls.2 he)] at hforeign
  cases hforeign

/-- A kernel with room for one instance, which may be there or not. -/
def soleInstance (live : Bool) : (op : FileOp) → op.Answer × Bool
  | .makeDir _ => if live then (.error (.os .exists), live) else (.ok (), true)
  | .overwrite .. => if live then (.ok (), live) else (.error (.os .notFound), live)
  | .removeDir _ => if live then (.ok (), false) else (.error (.os .notFound), live)
  | .list _ => (.ok [], live)
  | .read _ | .readIn .. | .status _ | .linkStatus _ => (.error (.os .notFound), live)

/-- Everything is drawn as zero, and hooks cannot be started. -/
def hookless : Surroundings := ⟨0, .deadline, fun _ => .error (.spawn (.os .execFormat))⟩

/-- A run of hooks over files and one over a recording, which a reset follows. Both make an instance
and remove it, and the reset leaves alone what is not of this library's making. -/
theorem tasks_spare_others_removing :
    let dir := TracingRoot.instanceDir ⟨"/t", .tracefs⟩ (InstanceName.random 0).text
    (∃ fs es now, calls (β := FileSystem) fs = [⟨.makeDir dir, .ok ()⟩,
        ⟨.overwrite (dir.join "tracing_on") (Utf8.encode "0"), .ok ()⟩, ⟨.removeDir dir, .ok ()⟩] ∧
      (∃ a, RunsOn (.ofFunction soleInstance)
        (ControlFiles.realize ⟨"/t", .tracefs⟩ (Dispatcher.single.run Dispatcher.removing)) false
        fs a now) ∧
      History (through (.ofFunction soleInstance) (ControlFiles.answer ⟨"/t", .tracefs⟩)) false
        [(.run Dispatcher.single Dispatcher.removing, es)] now ∧
      SparesOthers [(.run Dispatcher.single Dispatcher.removing, es)]) ∧
    ∃ es es' now, calls (β := Backend) es =
        [⟨.createInstance (.random 0), .ok (Recording.instanceOf (.random 0))⟩,
          ⟨.destroyInstance (InstanceName.random 0).text, .ok ()⟩] ∧
      History Recording.unreliable (Recording.empty.withInstance "perf")
        [(.run Dispatcher.single Dispatcher.removing, es), (.resetAll, es')] now ∧
      SparesOthers [(.run Dispatcher.single Dispatcher.removing, es), (.resetAll, es')] ∧
      now.instances.get? "perf" ≠ none := by
  intro dir
  constructor
  · have hrun := runsOn_drive (β := FileSystem) soleInstance hookless
      (ControlFiles.realize ⟨"/t", .tracefs⟩ (Dispatcher.single.run Dispatcher.removing)) false
    obtain ⟨es, hthrough⟩ := hrun.through
    have hist := History.cons (k := .run Dispatcher.single Dispatcher.removing) hthrough (.nil _)
    exact ⟨_, es, _, by rfl, ⟨_, hrun⟩, hist, tasks_spare_others.1 _ _ hist⟩
  · have hplain {k : Task} {s t : Recording} {es : List (Event (Actions Backend))} {a : k.Result}
        (h : RunsOn Recording.responder k.program s es a t) :
        RunsOn Recording.unreliable k.program s es a t :=
      ⟨h.runs, h.served.mono fun hstep => ⟨_, rfl, hstep⟩⟩
    have hfirst := runsOn_drive (β := Backend) Recording.answer hookless
      (Dispatcher.single.run Dispatcher.removing) (Recording.empty.withInstance "perf")
    have hsecond := runsOn_drive (β := Backend) Recording.answer hookless Instances.resetAll
    have hist := History.cons (k := .run Dispatcher.single Dispatcher.removing) (hplain hfirst)
      (.cons (k := .resetAll) (hplain (hsecond _)) (.nil _))
    obtain ⟨hspares, hlive⟩ := tasks_spare_others.2 hist
    refine ⟨_, _, _, by rfl, hist, hspares, ?_⟩
    exact hlive "perf" (by decide) (by decide) _ [] _ (List.append_nil _).symm hist.served

end KernelTrace
