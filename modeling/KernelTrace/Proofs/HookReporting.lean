import KernelTrace.Proofs.CommandReading
import KernelTrace.Proofs.HookDelivery

/-!
# What `tracer --run` reports

The command looks for the hooks and for the tracing root, and nobody sees that. What is seen of it
is one dispatch, and after it the command hands on what the hooks left behind: what they wrote to
their output goes to the output and the rest to the error stream, hook by hook (`Emitted`).
-/

namespace KernelTrace

open Program Actions

/-! ## Looking for hooks and for the tracing root -/

/-- What only looks at files. -/
def IsLooking : Action FileSystem → Prop
  | .backend op => op.changed? = none
  | .log _ => True
  | _ => False

theorem IsLooking.isUnseen {op : Action FileSystem} (h : IsLooking op) : IsUnseen op := by
  cases op <;> trivial

theorem HookSearch.follow_asks (dir path : Path) (home : Location) (e : Entry) :
    Asks (σ := Actions FileSystem) IsLooking (follow dir path home e) := by
  match e with
  | .directory | .file .. => exact asks_pure
  | .link _ =>
      refine asks_bind (asks_perform.2 rfl) fun status => ?_
      match status with
      | .error _ => exact asks_pure
      | .ok s =>
          dsimp only
          split
          all_goals exact asks_pure

theorem HookSearch.isExecutable_asks (path : Path) (e : Entry) :
    Asks (σ := Actions FileSystem) IsLooking (isExecutable path e) := by
  rw [isExecutable]
  split
  · refine asks_bind (asks_perform.2 rfl) fun status => ?_
    match status with
    | .error _ | .ok _ => exact asks_pure
  · exact asks_pure

theorem HookSearch.candidate_asks (dir : Path) (home : Location) (name : Bytes) (e : Entry) :
    Asks (σ := Actions FileSystem) IsLooking (candidate dir home name e) := by
  refine asks_bind (follow_asks ..) fun followed => ?_
  match followed with
  | .error _ => exact asks_bind (asks_perform.2 trivial) fun _ => asks_pure
  | .ok entry =>
      dsimp only
      split
      · exact asks_pure
      · refine asks_bind (isExecutable_asks ..) fun runnable => ?_
        split
        · exact asks_pure
        · exact asks_bind (asks_perform.2 trivial) fun _ => asks_pure

theorem HookSearch.candidates_asks (dir : Path) (home : Location) (entries : List (Bytes × Entry)) :
    Asks (σ := Actions FileSystem) IsLooking (candidates dir home entries) := by
  induction entries with
  | nil => exact asks_pure
  | cons entry rest ih =>
      exact asks_bind (candidate_asks ..) fun _ => asks_bind ih fun _ => asks_pure

theorem HookRegistry.discover_asks (dir : Path) :
    Asks (σ := Actions FileSystem) IsLooking (discover dir) := by
  have hfound : ∀ hooks, Asks (σ := Actions FileSystem) IsLooking (found dir hooks) :=
    fun _ => asks_bind (asks_perform.2 trivial) fun _ => asks_pure
  refine asks_bind (asks_perform.2 rfl) fun link => ?_
  match link with
  | .error _ => exact asks_pure
  | .ok _ =>
      refine asks_bind (asks_perform.2 rfl) fun status => ?_
      match status with
      | .error _ => exact asks_pure
      | .ok s =>
          dsimp only
          split
          · refine asks_bind (asks_perform.2 rfl) fun listed => ?_
            match listed with
            | .error _ => exact asks_pure
            | .ok entries => exact asks_bind (HookSearch.candidates_asks ..) fun _ => hfound _
          · exact hfound _

theorem TracingRoot.resolve_asks (o : RootOverrides) :
    Asks (σ := Actions FileSystem) IsUnseen (resolve o) := by
  rw [resolve]
  split
  · exact ofBackend_asks _
  · refine asks_bind (ofBackend_asks _) fun selected => ?_
    cases selected with
    | ok => exact asks_bind (asks_perform.2 trivial) fun _ => asks_pure
    | error =>
        exact asks_bind (ofBackend_asks _) fun _ =>
          asks_bind (asks_perform.2 trivial) fun _ => asks_pure

namespace Commands

open Dispatcher

variable {F : Type} {fs : Responder FileSystem F} {s t : F}
  {es : List (Event (Actions FileSystem))}

/-! ## Handing on what hooks left behind -/

/-- The deeds of handing on what hooks left behind. -/
def emission (outputs : List HookOutput) : List Deed :=
  outputs.flatMap fun output => [.wrote output.stdout (.ok ()), .relayed output.stderr (.ok ())]

theorem written_emission (outputs : List HookOutput) :
    Deed.written (emission outputs) = (outputs.map HookOutput.stdout).flatten := by
  induction outputs with
  | nil => rfl
  | cons output rest ih =>
      rw [emission, List.flatMap_cons, Deed.written_append, List.map_cons, List.flatten_cons, ← ih]
      exact congrArg (· ++ _) (List.append_nil _)

/-- `Emitted outputs ds code`: what is seen of handing on `outputs`, and the exit code after it. -/
inductive Emitted (outputs : List HookOutput) : List Deed → Nat → Prop where
  | all : Emitted outputs (emission outputs ++ [.flushed (.ok ())]) succeeded
  /-- What a hook wrote to its error stream could not be passed on. -/
  | cut {told rest : List HookOutput} {output : HookOutput} {e : IoError}
      (split : outputs = told ++ output :: rest) :
      Emitted outputs
        (emission told ++ [.wrote output.stdout (.ok ()), .relayed output.stderr (.error e)]) failed

theorem Emitted.cons {output : HookOutput} {rest : List HookOutput} {ds : List Deed} {code : Nat}
    (h : Emitted rest ds code) :
    Emitted (output :: rest)
      (.wrote output.stdout (.ok ()) :: .relayed output.stderr (.ok ()) :: ds) code := by
  cases h with
  | all => exact .all
  | @cut told _ _ _ split => exact @Emitted.cut _ (output :: told) _ _ _ (congrArg (_ :: ·) split)

variable {b : Except Failure Unit}

theorem runsOn_print {text : Bytes} (h : RunsOn fs (print text).run s es b t)
    (haccepts : Accepts es) : b = .ok () ∧ deeds es = [.wrote text (.ok ())] := by
  obtain ⟨answer, rest, s₁, rfl, -, hend⟩ := runsOn_perform_bind.1 h
  obtain ⟨rfl, rfl, -⟩ := runsOn_pure.1 hend
  obtain rfl : answer = .ok () := haccepts _ List.mem_cons_self
  exact ⟨rfl, rfl⟩

theorem runsOn_relay {chain : IoError → List String} {text : Bytes}
    (h : RunsOn fs (orFail chain (Actions.relay text)).run s es b t) :
    ∃ answer, b = answer.mapError (fun e => .ofChain (chain e)) ∧ deeds es = [.relayed text answer] := by
  obtain ⟨answer, rfl, hrun⟩ := runsOn_orFail h
  obtain rfl := runs_perform.1 hrun.runs
  exact ⟨answer, rfl, rfl⟩

theorem runsOn_emit {outputs : List HookOutput} (h : RunsOn fs (Tracer.emit outputs).run s es b t)
    (haccepts : Accepts es) : Emitted outputs (deeds es) (exitCode b) := by
  induction outputs generalizing s es with
  | nil =>
      obtain ⟨answer, rfl, hrun⟩ := runsOn_orFail h
      obtain rfl := runs_perform.1 hrun.runs
      obtain rfl : answer = .ok () := haccepts _ List.mem_cons_self
      exact .all
  | cons output rest ih =>
      have hsteps : Tracer.emit (output :: rest) = print output.stdout >>= fun _ =>
          orFail (fun e : IoError => [e.message]) (Actions.relay output.stderr) >>= fun _ =>
            Tracer.emit rest := by
        simp only [Tracer.emit, List.forM, LawfulMonad.bind_assoc]
      rw [hsteps] at h
      obtain ⟨f, rfl, hprint⟩ | ⟨es₁, es₂, _, s₁, rfl, hprint, h₁⟩ := runsOn_attempt_bind h
      · cases (runsOn_print hprint haccepts).1
      obtain ⟨haccepts₁, haccepts₂⟩ := accepts_append.1 haccepts
      obtain ⟨-, hwrote⟩ := runsOn_print hprint haccepts₁
      obtain ⟨f, rfl, hrelay⟩ | ⟨es₂, es₃, _, s₂, rfl, hrelay, h₂⟩ := runsOn_attempt_bind h₁
      · obtain ⟨_ | e, heq, hrelayed⟩ := runsOn_relay hrelay
        all_goals cases heq
        rw [deeds_append, hwrote, hrelayed]
        exact Emitted.cut (List.nil_append _).symm
      · obtain ⟨_ | _, heq, hrelayed⟩ := runsOn_relay hrelay
        all_goals cases heq
        rw [deeds_append, deeds_append, hwrote, hrelayed]
        exact (ih h₂ (accepts_append.1 haccepts₂).2).cons

/-! ## The command -/

/-- `Reported fs home o name s ds code t`: what is seen of the command that runs the hooks of a
name, with its exit code. -/
inductive Reported (fs : Responder FileSystem F) (home : Path) (o : TracerOptions) (name : String)
    (s : F) : List Deed → Nat → Prop where
  /-- The hooks could not be looked for. -/
  | undiscovered {scan : List (Event (Actions FileSystem))} {e : WalkFault} {t : F}
      (scanned : RunsOn fs (HookRegistry.discover (o.hooksDir.getD home)) s scan (.error e) t) :
      Reported fs home o name s [] failed
  /-- There are no such hooks, or no instance to run them against. -/
  | refused {scan looking : List (Event (Actions FileSystem))} {registry : HookRegistry}
      {root : TracingRoot} {dispatch : List (Event (Actions Backend))} {e : HookError} {t u v : F}
      (scanned : RunsOn fs (HookRegistry.discover (o.hooksDir.getD home)) s scan (.ok registry) t)
      (resolved : RunsOn fs (TracingRoot.resolve o.config.overrides) t looking root u)
      (dispatched : Delivery (through fs (ControlFiles.answer root)) ⟨registry, o.config.env⟩
        (o.runRequest name) u dispatch (.error e) v) :
      Reported fs home o name s (deeds dispatch) failed
  | reported {scan looking : List (Event (Actions FileSystem))} {registry : HookRegistry}
      {root : TracingRoot} {dispatch : List (Event (Actions Backend))} {outputs : List HookOutput}
      {emitting : List Deed} {code : Nat} {t u v : F}
      (scanned : RunsOn fs (HookRegistry.discover (o.hooksDir.getD home)) s scan (.ok registry) t)
      (resolved : RunsOn fs (TracingRoot.resolve o.config.overrides) t looking root u)
      (dispatched : Delivery (through fs (ControlFiles.answer root)) ⟨registry, o.config.env⟩
        (o.runRequest name) u dispatch (.ok outputs) v)
      (emitted : Emitted outputs emitting code) :
      Reported fs home o name s (deeds dispatch ++ emitting) code

/-- `NamedCourse fs home o name s ds b`: the ways in which the command that runs the hooks of a name can
go, whether or not anything of it is refused. -/
inductive NamedCourse (fs : Responder FileSystem F) (home : Path) (o : TracerOptions) (name : String)
    (s : F) : List Deed → Except Failure Unit → Prop where
  /-- The hooks could not be looked for. -/
  | undiscovered {scan : List (Event (Actions FileSystem))} {e : WalkFault} {f : Failure} {t : F}
      (scanned : RunsOn fs (HookRegistry.discover (o.hooksDir.getD home)) s scan (.error e) t) :
      NamedCourse fs home o name s [] (.error f)
  /-- The hooks were to be run, and what was done about it failed or gave their outputs. -/
  | dispatched {scan looking emitting : List (Event (Actions FileSystem))} {registry : HookRegistry}
      {root : TracingRoot} {dispatch : List (Event (Actions Backend))}
      {result : Except HookError (List HookOutput)} {b : Except Failure Unit} {t u v w : F}
      (scanned : RunsOn fs (HookRegistry.discover (o.hooksDir.getD home)) s scan (.ok registry) t)
      (resolved : RunsOn fs (TracingRoot.resolve o.config.overrides) t looking root u)
      (ran : RunsOn (through fs (ControlFiles.answer root))
        ((⟨registry, o.config.env⟩ : Dispatcher).run (o.runRequest name)) u dispatch result v)
      (handedOn : match result with
        | .error _ => emitting = [] ∧ ∃ f, b = .error f
        | .ok outputs => RunsOn fs (Tracer.emit outputs).run v emitting b w) :
      NamedCourse fs home o name s (deeds dispatch ++ deeds emitting) b

variable {home : Path} {o : TracerOptions} {name : String}

theorem runsOn_log_bind {level : LogLevel} {message : String} {p : Attempt Unit}
    (h : RunsOn fs (log level message >>= fun _ => p).run s es b t) :
    ∃ rest, RunsOn fs p.run s rest b t ∧ deeds es = deeds rest := by
  obtain ⟨es₁, es₂, _, s₁, rfl, hlog, hrest⟩ := runsOn_lift_bind h
  obtain ⟨hruns, hserved⟩ := hlog
  obtain rfl := runs_perform.1 hruns
  obtain rfl := Responder.serves_nil.1 hserved
  exact ⟨es₂, hrest, rfl⟩

theorem runsOn_registry {a : Except Failure HookRegistry}
    (h : RunsOn fs (Tracer.registry home o).run s es a t) :
    ∃ found, RunsOn fs (HookRegistry.discover (o.hooksDir.getD home)) s es found t ∧
      deeds es = [] ∧ a = (found.mapError (HookError.dirUnreadable (o.hooksDir.getD home))).mapError
        fun e => .ofChain e.chain := by
  obtain ⟨b, rfl, hsearch⟩ := runsOn_orFail h
  obtain ⟨es₁, es₂, found, t₁, rfl, hrun, hend⟩ := runsOn_bind.1 hsearch
  obtain ⟨rfl, rfl, rfl⟩ := runsOn_pure.1 hend
  rw [List.append_nil]
  exact ⟨found, hrun, deeds_of_asks ((HookRegistry.discover_asks _).mono fun _ => IsLooking.isUnseen) hrun.runs, rfl⟩

theorem runsOn_dispatcher {a : Except Failure Dispatcher}
    (h : RunsOn fs (Tracer.dispatcher home o).run s es a t) :
    ∃ scan found, RunsOn fs (HookRegistry.discover (o.hooksDir.getD home)) s scan found t ∧
      deeds es = [] ∧ ((∃ e f, found = .error e ∧ a = .error f) ∨
        ∃ registry, found = .ok registry ∧ a = .ok ⟨registry, o.config.env⟩) := by
  obtain ⟨f, rfl, hregistry⟩ | ⟨es₁, es₂, registry, s₁, rfl, hregistry, hend⟩ :=
    runsOn_attempt_bind h
  · obtain ⟨_ | e, hfound, hunseen, heq⟩ := runsOn_registry hregistry
    all_goals cases heq
    exact ⟨es, _, hfound, hunseen, .inl ⟨_, _, rfl, rfl⟩⟩
  · obtain ⟨rfl, rfl, rfl⟩ := runsOn_pure.1 hend
    obtain ⟨_ | r, hfound, hunseen, heq⟩ := runsOn_registry hregistry
    all_goals cases heq
    rw [List.append_nil]
    exact ⟨es₁, _, hfound, hunseen, .inr ⟨_, rfl, rfl⟩⟩

theorem runsOn_root {a : Except Failure TracingRoot}
    (h : RunsOn fs (Tracer.root o).run s es a t) :
    ∃ looking root, RunsOn fs (TracingRoot.resolve o.config.overrides) s looking root t ∧
      deeds es = [] ∧ a = .ok root := by
  obtain ⟨es₁, es₂, root, s₁, rfl, hresolve, hrest⟩ := runsOn_lift_bind h
  obtain ⟨es₂, es₃, _, s₂, rfl, hlog, hend⟩ := runsOn_lift_bind hrest
  obtain ⟨hruns, hserved⟩ := hlog
  obtain rfl := runs_perform.1 hruns
  obtain rfl := Responder.serves_nil.1 hserved
  obtain ⟨rfl, rfl, rfl⟩ := runsOn_pure.1 hend
  rw [deeds_append, deeds_of_asks (TracingRoot.resolve_asks _) hresolve.runs]
  exact ⟨es₁, root, hresolve, rfl, rfl⟩

theorem runsOn_runNamed (h : RunsOn fs (Tracer.runNamed home o name).run s es b t) :
    NamedCourse fs home o name s (deeds es) b := by
  obtain ⟨f, rfl, hdispatcher⟩ | ⟨es₁, es₂, d, s₁, rfl, hdispatcher, h₁⟩ := runsOn_attempt_bind h
  · obtain ⟨scan, found, hscan, hunseen, ⟨e, _, rfl, -⟩ | ⟨registry, -, heq⟩⟩ :=
      runsOn_dispatcher hdispatcher
    · rw [hunseen]
      exact .undiscovered hscan
    · cases heq
  obtain ⟨scan, found, hscan, hunseen₁, ⟨_, _, -, heq⟩ | ⟨registry, rfl, heq⟩⟩ :=
    runsOn_dispatcher hdispatcher
  · cases heq
  cases heq
  obtain ⟨f, rfl, hroot⟩ | ⟨es₂, es₃, root, s₂, rfl, hroot, h₂⟩ := runsOn_attempt_bind h₁
  · obtain ⟨_, _, -, -, heq⟩ := runsOn_root hroot
    cases heq
  obtain ⟨looking, root, hresolve, hunseen₂, heq⟩ := runsOn_root hroot
  cases heq
  rw [deeds_append, deeds_append, hunseen₁, hunseen₂, List.nil_append, List.nil_append]
  obtain ⟨f, rfl, hwithin⟩ | ⟨es₃, es₄, outputs, s₃, rfl, hwithin, h₃⟩ := runsOn_attempt_bind h₂
  · obtain ⟨_, heq, horFail⟩ := runsOn_within hwithin
    obtain ⟨_ | outputs, rfl, hdispatch⟩ := runsOn_orFail horFail
    · obtain ⟨dispatch, hrun, hdeeds⟩ := ControlFiles.runsOn_realize hdispatch
      rw [← hdeeds, ← List.append_nil (deeds dispatch)]
      exact .dispatched (w := t) hscan hresolve hrun ⟨rfl, f, rfl⟩
    · cases heq
  · obtain ⟨_, heq, horFail⟩ := runsOn_within hwithin
    obtain ⟨_ | _, rfl, hdispatch⟩ := runsOn_orFail horFail
    · cases heq
    · cases heq
      obtain ⟨dispatch, hrun, hdeeds⟩ := ControlFiles.runsOn_realize hdispatch
      obtain ⟨emitting, hemit, hsame⟩ := runsOn_log_bind h₃
      rw [deeds_append, ← hdeeds, hsame]
      exact .dispatched hscan hresolve hrun hemit

/-- If nothing is refused, the course of the command is what is reported. -/
theorem NamedCourse.reported {ds : List Deed} (h : NamedCourse fs home o name s ds b)
    (haccepts : ∀ d ∈ ds, d.IsAccepted) : Reported fs home o name s ds (exitCode b) := by
  cases h with
  | undiscovered scanned => exact .undiscovered scanned
  | @dispatched scan looking emitting _ root dispatch result _ t u v w scanned resolved ran handedOn =>
      obtain ⟨hdispatch, hemitting⟩ := List.forall_mem_append.1 haccepts
      match result with
      | .error e =>
          obtain ⟨rfl, f, rfl⟩ := handedOn
          rw [show deeds ([] : List (Event (Actions FileSystem))) = [] from rfl, List.append_nil]
          exact .refused scanned resolved (runsOn_run ran hdispatch)
      | .ok outputs =>
          exact .reported scanned resolved (runsOn_run ran hdispatch) (runsOn_emit handedOn hemitting)

/-- What is seen of the command whose line was understood is seen of what it does. -/
theorem runsOn_tracer {env : Environment} {args : List String} {code : Nat}
    (hread : TracerOptions.read env args = .ok o) (h : RunsOn fs (tracer home env args) s es code t) :
    ∃ full a, RunsOn fs (Tracer.act home o).run s full a t ∧ deeds es = deeds full ∧
      code = exitCode a := by
  rw [tracer, hread] at h
  obtain ⟨full, report, a, hact, rfl, hreport, rfl⟩ := runsOn_conclude h
  refine ⟨full, a, hact, ?_, rfl⟩
  rw [deeds_filter_isKept, deeds_append, deeds_of_logs hreport, List.append_nil]

/-- Hooks are run if nothing else is asked for first. -/
theorem act_eq (hlist : o.getAll = false) (hdescribe : o.describe = none) (hclear : o.clear = false)
    (hname : o.run = some name) : Tracer.act home o =
      log .trace "**Logging: Verbose Mode**" >>= fun _ => Tracer.runNamed home o name := by
  rw [Tracer.act, hlist, hdescribe, hclear, hname]
  rfl

theorem invocation?_ranEach (calls : List Invocation) :
    (ranEach calls).filterMap Deed.invocation? = calls := by
  induction calls with
  | nil => rfl
  | cons call rest ih => exact congrArg (call :: ·) ih

theorem invocation?_emission (outputs : List HookOutput) :
    (emission outputs).filterMap Deed.invocation? = [] := by
  induction outputs with
  | nil => rfl
  | cons output rest ih => exact ih

theorem written_ranEach (calls : List Invocation) : Deed.written (ranEach calls) = [] := by
  induction calls with
  | nil => rfl
  | cons call rest ih => exact ih

/-- The command that succeeds has written the announcement and what every hook has written, in order
and nothing else. -/
theorem Reported.written {ds : List Deed} (h : Reported fs home o name s ds succeeded) :
    ∃ scan registry t i calls,
      RunsOn fs (HookRegistry.discover (o.hooksDir.getD home)) s scan (.ok registry) t ∧
      calls.map Invocation.run = (registry.lookup name).map
        (⟨·, (o.runRequest name).args ++ ["--instance", i.name.text], o.config.env⟩) ∧
      ds.filterMap Deed.invocation? = calls ∧
      Deed.written ds = announcement i ++ (calls.map fun call => call.output.stdout).flatten := by
  generalize hcode : succeeded = code at h
  cases h with
  | undiscovered | refused => cases hcode
  | @reported scan _ registry _ dispatch outputs emitting _ t _ _ scanned _ dispatched emitted =>
      cases emitted with
      | cut => cases hcode
      | all =>
          cases dispatched with
          | @delivered _ _ i _ _ calls _ _ seen each =>
              refine ⟨scan, registry, t, i, calls, scanned, each, ?_, ?_⟩
              · rw [seen, List.filterMap_append, List.filterMap_append, invocation?_emission]
                exact (List.append_nil _).trans (invocation?_ranEach calls)
              · rw [seen, Deed.written_append, Deed.written_append, written_emission, List.map_map]
                simp only [Deed.written, written_ranEach, List.append_nil]
                rfl

end Commands

namespace Dispatcher

open Commands

/-- Running hooks either ends before anybody has noticed, because there are none or no instance could
be bound, or it announces the trace in one line, runs every hook once, in order and in the same way
whatever the others come to, and hands back what each left behind. The command that does this writes
the line and after it what the hooks wrote. -/
theorem run_delivers :
    (∀ (d : Dispatcher) (r : RunRequest) (start : Recording),
      (∀ results : Nat → Except HookFault HookResult, ∃ es result final,
        RunsOn Recording.responder (d.run r) start es result final ∧ Smooth results (deeds es)) ∧
      ∀ es result final, RunsOn Recording.responder (d.run r) start es result final → Accepts es →
        Delivery Recording.responder d r start es result final ∧
          ∀ text answer, .wrote text answer ∈ deeds es → IsLine text) ∧
    ∀ {F : Type} (fs : Responder FileSystem F) (start : F) (home : Path) (env : Environment)
      (args : List String) (o : TracerOptions) (name : String),
      TracerOptions.read env args = .ok o → o.getAll = false → o.describe = none →
      o.clear = false → o.run = some name →
      ((∀ s op, ∃ a t, fs s op a t) → ∀ results : Nat → Except HookFault HookResult,
        ∃ es code final, RunsOn fs (tracer home env args) start es code final ∧
          Smooth results (deeds es)) ∧
      ∀ es code final, RunsOn fs (tracer home env args) start es code final → Accepts es →
        Reported fs home o name start (deeds es) code ∧
        (code = succeeded → ∃ scan registry t i calls,
          RunsOn fs (HookRegistry.discover (o.hooksDir.getD home)) start scan (.ok registry) t ∧
          calls.map Invocation.run = (registry.lookup name).map
            (⟨·, (o.runRequest name).args ++ ["--instance", i.name.text], o.config.env⟩) ∧
          (deeds es).filterMap Deed.invocation? = calls ∧
          Deed.written (deeds es) =
            announcement i ++ (calls.map fun call => call.output.stdout).flatten) := by
  refine ⟨fun d r start => ⟨fun results => ?_, fun es result final hrun haccepts => ?_⟩, ?_⟩
  · exact Smooth.exists_runsOn (fun s op => ⟨_, _, rfl⟩) results _ start
  · have hdelivery := runsOn_run hrun haccepts
    refine ⟨hdelivery, fun text answer hmem => ?_⟩
    cases hdelivery with
    | notFound => cases hmem
    | unbound _ _ unseen =>
        rw [deeds_cons, unseen] at hmem
        cases List.mem_singleton.1 hmem
    | @delivered _ _ i _ _ calls _ bind seen _ =>
        rw [seen] at hmem
        have hranEach : ∀ d ∈ ranEach calls, ∃ call, d = .ran call := fun d hd =>
          (List.mem_map.1 hd).imp fun _ h => h.2.symm
        simp only [List.mem_cons, reduceCtorEq, false_or, Deed.wrote.injEq] at hmem
        obtain ⟨rfl, -⟩ | hmem := hmem
        · rw [Recording.eq_instanceOf_of_bind bind]
          exact Recording.isLine_announcement i.name
        · cases (hranEach _ hmem).choose_spec
  · intro F fs start home env args o name hread hlist hdescribe hclear hname
    refine ⟨fun hm results => Smooth.exists_runsOn hm results _ start, ?_⟩
    intro es code final hrun haccepts
    obtain ⟨full, a, hact, hdeeds, rfl⟩ := runsOn_tracer hread hrun
    rw [act_eq hlist hdescribe hclear hname] at hact
    obtain ⟨rest, hnamed, hrest⟩ := runsOn_log_bind hact
    have hreported := (runsOn_runNamed hnamed).reported (hrest ▸ hdeeds ▸ haccepts)
    rw [← hrest, ← hdeeds] at hreported
    refine ⟨hreported, ?_⟩
    intro hcode
    rw [hcode] at hreported
    exact hreported.written

/-- A dispatcher with two hooks of one name. -/
def pair : Dispatcher :=
  ⟨⟨"/hooks", [⟨"noop", "/hooks/trace_noop.a"⟩, ⟨"noop", "/hooks/trace_noop.b"⟩]⟩, []⟩

/-- A file system on which every path is a directory with one hook in it, and every file can be
written. -/
def hooksEverywhere (_ : Unit) : (op : FileOp) → op.Answer × Unit
  | .status _ | .linkStatus _ => (.ok ⟨[], .directory⟩, ())
  | .list _ => (.ok [(Utf8.encode "trace_noop", .file [] 0o755)], ())
  | .read _ | .readIn .. => (.error (.os .notFound), ())
  | .makeDir _ | .removeDir _ | .overwrite .. => (.ok (), ())

/-- One hook cannot be started, and the others say something and are killed. -/
def unstarted : Surroundings :=
  ⟨0, .deadline, fun run =>
    if run.path = "/hooks/trace_noop.a" then .error (.spawn (.os .execFormat))
    else .ok ⟨.signal .SIGKILL, Utf8.encode "hello", []⟩⟩

/-- The hook that cannot be started is followed by the other one, and a command whose only hook is
killed writes what it has said. -/
theorem run_delivers_unstarted :
    let request : RunRequest := ⟨"noop", [], none, false⟩
    let dispatch := drive Recording.answer unstarted (pair.run request) .empty
    let o : TracerOptions :=
      ⟨false, none, false, some "noop", none, none, false, none, ⟨none, none, false⟩⟩
    let command := drive hooksEverywhere unstarted (tracer "/bin" .empty ["--run", "noop"]) ()
    (Accepts dispatch.1 ∧
      Delivery Recording.responder pair request .empty dispatch.1 dispatch.2.1 dispatch.2.2) ∧
    TracerOptions.read .empty ["--run", "noop"] = .ok o ∧ Accepts command.1 ∧
      command.2.1 = succeeded ∧
      Reported (.ofFunction hooksEverywhere) "/bin" o "noop" () (deeds command.1) succeeded := by
  intro request dispatch o command
  have hread : TracerOptions.read .empty ["--run", "noop"] = .ok o := by rfl
  have hcode : command.2.1 = succeeded := by decide +kernel
  have hdispatch : Accepts dispatch.1 := accepts_drive _ _ _ _
  have hcommand : Accepts command.1 := accepts_drive _ _ _ _
  obtain ⟨hrecording, hfiles⟩ := run_delivers
  obtain ⟨-, hcommands⟩ :=
    hfiles (.ofFunction hooksEverywhere) () "/bin" .empty _ o "noop" hread rfl rfl rfl rfl
  refine ⟨⟨hdispatch, ((hrecording pair request .empty).2 _ _ _ (runsOn_drive ..) hdispatch).1⟩,
    hread, hcommand, hcode, ?_⟩
  rw [← hcode]
  exact (hcommands _ _ _ (runsOn_drive ..) hcommand).1

end Dispatcher

end KernelTrace
