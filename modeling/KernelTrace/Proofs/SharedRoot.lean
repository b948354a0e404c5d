import KernelTrace.Proofs.HookReporting
import KernelTrace.Proofs.InheritedSettings

/-!
# One tracing root for a command and its hooks

`tracer` announces the trace of an instance, and the hooks that it starts trace into it. Both look
for the tracing root by themselves, so they have to look in the same place. Every hook is started
with the overrides of `tracer` in its environment, whatever else was asked of the command, and
`InheritedSettings` says that this is what the hook reads. Then both find the same root in a tree,
and the directory in which the hook looks for the instance that it was told is the one announced.
-/

namespace KernelTrace

open Program Actions

/-! ## Programs that may fail -/

section Attempts

variable {β : Signature} {ε α δ : Type} {P : Action β → Prop}

theorem attempt_bind_asks {p : ExceptT ε (Program (Actions β)) α}
    {f : α → ExceptT ε (Program (Actions β)) δ} (hp : Asks (σ := Actions β) P p.run)
    (hf : ∀ a, Asks (σ := Actions β) P (f a).run) : Asks (σ := Actions β) P (p >>= f).run := by
  refine asks_bind hp fun a => ?_
  match a with
  | .ok a => exact hf a
  | .error e => exact asks_pure

theorem lift_asks {p : Program (Actions β) α} (hp : Asks (σ := Actions β) P p) :
    Asks (σ := Actions β) P (ExceptT.lift p : ExceptT ε (Program (Actions β)) α).run :=
  asks_bind hp fun _ => asks_pure

theorem forM_asks {l : List α} {f : α → ExceptT ε (Program (Actions β)) PUnit}
    (hf : ∀ a, Asks (σ := Actions β) P (f a).run) : Asks (σ := Actions β) P (l.forM f).run := by
  induction l with
  | nil => exact asks_pure
  | cons a rest ih => exact attempt_bind_asks (hf a) fun _ => ih

end Attempts

namespace Commands

open Dispatcher

section Asks

variable {ε α : Type} {P : Action FileSystem → Prop}

theorem orFail_asks {chain : ε → List String} {p : Act (Except ε α)}
    (hp : Asks (σ := Actions FileSystem) P p) :
    Asks (σ := Actions FileSystem) P (orFail chain p).run :=
  asks_bind hp fun _ => asks_pure

theorem within_asks {context : String} {p : Attempt α}
    (hp : Asks (σ := Actions FileSystem) P p.run) :
    Asks (σ := Actions FileSystem) P (within context p).run :=
  asks_bind hp fun _ => asks_pure

theorem print_asks {text : Bytes} (h : P (.announce text)) :
    Asks (σ := Actions FileSystem) P (print text).run :=
  asks_bind (asks_perform.2 h) fun _ => asks_pure

end Asks

variable {home : Path} {o : TracerOptions}

theorem registry_asks :
    Asks (σ := Actions FileSystem) IsUnseen (Tracer.registry home o).run :=
  orFail_asks (asks_bind ((HookRegistry.discover_asks _).mono fun _ => IsLooking.isUnseen) fun _ =>
    asks_pure)

theorem root_asks : Asks (σ := Actions FileSystem) IsUnseen (Tracer.root o).run :=
  attempt_bind_asks (lift_asks (TracingRoot.resolve_asks _)) fun _ =>
    attempt_bind_asks (lift_asks (asks_perform.2 trivial)) fun _ => asks_pure

theorem emit_asks (P : HookRun → Prop) (outputs : List HookOutput) :
    Asks (σ := Actions FileSystem) (StartsOnly P) (Tracer.emit outputs).run :=
  attempt_bind_asks
    (forM_asks fun _ => attempt_bind_asks (print_asks trivial) fun _ =>
      orFail_asks (asks_perform.2 trivial))
    fun _ => orFail_asks (asks_perform.2 trivial)

theorem getAll_asks (P : HookRun → Prop) :
    Asks (σ := Actions FileSystem) (StartsOnly P) (Tracer.getAll home o).run :=
  attempt_bind_asks (registry_asks.mono fun _ h => h.startsOnly P) fun _ =>
    forM_asks fun _ => print_asks trivial

theorem clear_asks (P : HookRun → Prop) :
    Asks (σ := Actions FileSystem) (StartsOnly P) (Tracer.clear o).run :=
  attempt_bind_asks (root_asks.mono fun _ h => h.startsOnly P) fun _ =>
    attempt_bind_asks
      (within_asks (orFail_asks ((ControlFiles.realize_asks Instances.resetAll_asks).mono fun _ h => h.startsOnly P)))
      fun _ => forM_asks fun _ => print_asks trivial

theorem invokeEach_asks {β : Signature} {P : HookRun → Prop} {d : Dispatcher} {args : List String}
    (h : ∀ path, P ⟨path, args, d.env⟩) (paths : List Path) :
    Asks (σ := Actions β) (StartsOnly P) (d.invokeEach args paths) := by
  have hfailed : ∀ (path : Path) (e : HookError), Asks (σ := Actions β) (StartsOnly P)
      (Dispatcher.failed path e) :=
    fun _ _ => asks_bind (asks_perform.2 trivial) fun _ => asks_pure
  induction paths with
  | nil => exact asks_pure
  | cons path rest ih =>
      refine asks_bind (asks_bind (asks_perform.2 trivial) fun _ =>
        asks_bind (asks_perform.2 (h path)) fun result => ?_) fun _ => asks_bind ih fun _ => asks_pure
      match result with
      | .error (.spawn _) | .error (.wait _) | .error (.handler _) => exact hfailed ..
      | .ok _ => exact asks_bind (asks_perform.2 trivial) fun _ => asks_pure

theorem describeHooks_asks {P : HookRun → Prop} {d : Dispatcher}
    (h : ∀ path, P ⟨path, describeArgs, d.env⟩) (name : String) :
    Asks (σ := Actions FileSystem) (StartsOnly P) (d.describe (β := FileSystem) name) := by
  rw [Dispatcher.describe]
  split
  · exact asks_pure
  · exact asks_bind (invokeEach_asks h _) fun _ => asks_pure

/-- No hook is run while the trace is announced. -/
theorem ran_notMem_announce {β : Signature} {i : Instance} {es : List (Event (Actions β))}
    {a : Except IoError Unit} (h : Runs (announce i) es a) {call : Invocation} :
    .ran call ∉ deeds es := by
  intro hran
  refine of_ran_mem_deeds (P := fun _ => False) h (asks_bind (asks_perform.2 trivial) ?_) hran
  rintro (_ | _)
  · exact asks_pure
  · exact asks_perform.2 trivial

section Started

variable {F : Type} {fs : Responder FileSystem F} {s t : F} {es : List (Event (Actions FileSystem))}
  {b : Except Failure Unit} {name : String} {call : Invocation}

theorem ran_of_describe (h : RunsOn fs (Tracer.describe home o name).run s es b t)
    (hran : .ran call ∈ deeds es) :
    call.run.env = o.config.env ∧ call.run.args = describeArgs := by
  obtain ⟨f, -, hdispatcher⟩ | ⟨es₁, es₂, d, s₁, rfl, hdispatcher, hrest⟩ := runsOn_attempt_bind h
  · obtain ⟨_, _, -, hunseen, -⟩ := runsOn_dispatcher hdispatcher
    rw [hunseen] at hran
    cases hran
  · obtain ⟨_, _, -, hunseen, ⟨_, _, -, heq⟩ | ⟨registry, -, heq⟩⟩ := runsOn_dispatcher hdispatcher
    all_goals cases heq
    rw [deeds_append, hunseen] at hran
    let P (run : HookRun) : Prop := run.env = o.config.env ∧ run.args = describeArgs
    refine of_ran_mem_deeds (P := P) hrest.runs ?_ hran
    exact attempt_bind_asks (orFail_asks (describeHooks_asks (fun _ => ⟨rfl, rfl⟩) name)) fun _ =>
      emit_asks P _

/-- Hooks that are to trace are run against an instance that was announced. -/
theorem ran_of_run {S : Type} {m : Responder Backend S} {s t : S} {d : Dispatcher} {r : RunRequest}
    {es : List (Event (Actions Backend))} {result : Except HookError (List HookOutput)}
    (h : RunsOn m (d.run r) s es result t) (hran : .ran call ∈ deeds es) :
    ∃ i binding bound, RunsOn m (Instances.bind r.inst) s binding (.ok i) bound ∧
      .wrote (announcement i) (.ok ()) ∈ deeds es ∧ call.run.env = d.env ∧
      call.run.args = hookArgs r i := by
  have hshown := shown_of_run h
  generalize deeds es = ds at hshown hran ⊢
  cases hshown with
  | unbound _ shielding =>
      obtain ⟨answer, heq⟩ := shielding _ hran
      cases heq
  | unannounced _ announced =>
      rw [List.mem_cons, or_iff_right nofun] at hran
      exact absurd hran (ran_notMem_announce announced)
  | @ran binding announcing i bound calls outputs bind announced each =>
      rw [List.cons_append, List.mem_cons, or_iff_right nofun, List.mem_append,
        or_iff_right (ran_notMem_announce announced)] at hran
      obtain ⟨call', hcall, heq⟩ := List.mem_map.1 hran
      cases heq
      obtain ⟨hargs, henv⟩ := each call hcall
      refine ⟨i, binding, bound, bind, ?_, henv, hargs⟩
      rw [deeds_announce announced]
      exact List.mem_cons_of_mem _ List.mem_cons_self

/-- Over files an instance that is bound is the directory of its name. -/
theorem dir_of_bind {root : TracingRoot} {inst : Option InstanceName}
    {es : List (Event (Actions Backend))} {i : Instance}
    (h : RunsOn (through fs (ControlFiles.answer root)) (Instances.bind inst) s es (.ok i) t) :
    i.dir = root.instanceDir i.name.text := by
  obtain ⟨e, he, hgives⟩ := (Instances.concerns_of_bind h.runs).2 i rfl
  obtain ⟨-, -, v, w, -, -, ⟨own, hown⟩, -⟩ := h.served.exists_of_mem he
  rcases hgives with ⟨name, rfl⟩ | ⟨name, rfl⟩
  · have hcreation := ControlFiles.runs_create hown.runs
    generalize Actions.calls own = cs at hcreation
    cases hcreation
    rfl
  · obtain ⟨status, -, heq⟩ := ControlFiles.runs_find hown.runs
    split at heq
    all_goals cases heq
    rfl

theorem ran_of_course {ds : List Deed} (h : NamedCourse fs home o name s ds b)
    (hran : .ran call ∈ ds) :
    call.run.env = o.config.env ∧
      ∃ (i : Instance) (scan looking : List (Event (Actions FileSystem)))
        (registry : HookRegistry) (root : TracingRoot) (u v : F),
        RunsOn fs (HookRegistry.discover (o.hooksDir.getD home)) s scan (.ok registry) u ∧
        RunsOn fs (TracingRoot.resolve o.config.overrides) u looking root v ∧
        .wrote (announcement i) (.ok ()) ∈ ds ∧ call.run.args = hookArgs (o.runRequest name) i ∧
        i.dir = root.instanceDir i.name.text := by
  cases h with
  | undiscovered => cases hran
  | @dispatched scan looking emitting registry root dispatch result _ u v _ _ scanned resolved ran
      handedOn =>
      have hdispatch : .ran call ∈ deeds dispatch := by
        refine (List.mem_append.1 hran).resolve_right fun hmem => ?_
        match result with
        | .error e =>
            obtain ⟨rfl, -⟩ := handedOn
            cases hmem
        | .ok outputs =>
            exact of_ran_mem_deeds handedOn.runs (emit_asks (fun _ => False) outputs) hmem
      obtain ⟨i, binding, bound, hbind, hwrote, henv, hargs⟩ := ran_of_run ran hdispatch
      exact ⟨henv, i, scan, looking, registry, root, u, v, scanned, resolved,
        List.mem_append_left _ hwrote, hargs, dir_of_bind hbind⟩

/-- A hook is started with the overrides of the command. It is to describe itself, or the command
has announced the instance that it was told. -/
theorem ran_of_act (h : RunsOn fs (Tracer.act home o).run s es b t) (hran : .ran call ∈ deeds es) :
    call.run.env = o.config.env ∧ (call.run.args = describeArgs ∨
      ∃ (q : RunRequest) (i : Instance) (scan looking : List (Event (Actions FileSystem)))
        (registry : HookRegistry) (root : TracingRoot) (u v : F),
        RunsOn fs (HookRegistry.discover (o.hooksDir.getD home)) s scan (.ok registry) u ∧
        RunsOn fs (TracingRoot.resolve o.config.overrides) u looking root v ∧
        .wrote (announcement i) (.ok ()) ∈ deeds es ∧ call.run.args = hookArgs q i ∧
        i.dir = root.instanceDir i.name.text) := by
  obtain ⟨rest, hact, hsame⟩ := runsOn_log_bind h
  rw [hsame] at hran ⊢
  cases hlist : o.getAll with
  | true =>
      rw [hlist, if_pos rfl] at hact
      exact (of_ran_mem_deeds hact.runs (getAll_asks fun _ => False) hran).elim
  | false =>
      rw [hlist, if_neg Bool.false_ne_true] at hact
      cases hdescribe : o.describe with
      | some name =>
          rw [hdescribe] at hact
          exact (ran_of_describe hact hran).imp_right .inl
      | none =>
          rw [hdescribe] at hact
          dsimp only at hact
          cases hclear : o.clear with
          | true =>
              rw [hclear, if_pos rfl] at hact
              exact (of_ran_mem_deeds hact.runs (clear_asks fun _ => False) hran).elim
          | false =>
              rw [hclear, if_neg Bool.false_ne_true] at hact
              cases hname : o.run with
              | none =>
                  rw [hname] at hact
                  obtain ⟨rfl, -, -⟩ := runsOn_pure.1 hact
                  cases hran
              | some name =>
                  rw [hname] at hact
                  obtain ⟨henv, hannounced⟩ := ran_of_course (runsOn_runNamed hact) hran
                  exact ⟨henv, .inr ⟨_, hannounced⟩⟩

end Started

theorem same_of_discover {cwd : Location} {t t' : FileTree} {dir : Path}
    {es : List (Event (Actions FileSystem))} {a : Except WalkFault HookRegistry}
    (h : RunsOn (FileTree.responder cwd) (HookRegistry.discover dir) t es a t') : t' = t :=
  same_of_reads h.served fun _ he => h.runs.of_asks (HookRegistry.discover_asks dir) (mem_calls.1 he)

/-- Every hook that `tracer` starts and whose own arguments do not override where system information
is read from reads the overrides of `tracer`, which are never refused. So in every tree both find one
root, and the instance that the hook was told is in the directory that was announced. -/
theorem hooks_share_root {home : Path} {env : Environment} {args : List String} {o : TracerOptions}
    {cwd : Location} {t t' : FileTree} {es : List (Event (Actions FileSystem))} {code : Nat}
    {call : Invocation} (hread : TracerOptions.read env args = .ok o)
    (h : RunsOn (FileTree.responder cwd) (tracer home env args) t es code t')
    (hstarted : .ran call ∈ deeds es) (hown : ∀ w ∈ call.run.args, ¬ Overrides w) :
    ((∃ own, SyscallsOptions.read env call.run.args = .ok own) →
      ∃ o', SyscallsOptions.read (call.run.environment env) call.run.args = .ok o') ∧
    ∀ o', SyscallsOptions.read (call.run.environment env) call.run.args = .ok o' →
      o'.config.overrides = o.config.overrides ∧
      (∀ u, ∃ looking root,
        RunsOn (FileTree.responder cwd) (TracingRoot.resolve o'.config.overrides) u looking root u ∧
        ∀ looking' root' u', RunsOn (FileTree.responder cwd)
          (TracingRoot.resolve o.config.overrides) u looking' root' u' → root' = root) ∧
      (call.run.args = describeArgs ∨ ∃ i looking root,
        .wrote (announcement i) (.ok ()) ∈ deeds es ∧ o'.inst = some i.name ∧
        RunsOn (FileTree.responder cwd) (TracingRoot.resolve o'.config.overrides) t looking root t ∧
        i.dir = root.instanceDir i.name.text) := by
  obtain ⟨full, b, hact, hdeeds, rfl⟩ := runsOn_tracer hread h
  rw [hdeeds] at hstarted ⊢
  obtain ⟨henv, hargs⟩ := ran_of_act hact hstarted
  refine ⟨fun ⟨own, hown⟩ => read_inherited hread henv hown, fun o' hhook => ?_⟩
  have hsame := overrides_inherited hread henv hown hhook
  rw [hsame]
  refine ⟨rfl, fun u => ?_, hargs.imp_right ?_⟩
  · obtain ⟨looking, root, u', hresolve⟩ := FileTree.exists_runsOn
      (TracingRoot.resolve o.config.overrides) u cwd
    obtain ⟨rfl, -, rfl⟩ := runsOn_resolve_seen hresolve
    exact ⟨looking, _, hresolve, fun _ _ _ h => (runsOn_resolve_seen h).2.2⟩
  · rintro ⟨q, i, scan, looking, registry, root, u, v, hscan, hresolve, hwrote, hpassed, hdir⟩
    obtain rfl := same_of_discover hscan
    obtain rfl := (runsOn_resolve_seen hresolve).1
    rw [hpassed] at hhook
    exact ⟨i, looking, root, hwrote, inst_of_hookArgs hhook, hresolve, hdir⟩

/-- A root directory with a hook in it, and an instance in the usual place. -/
def stage : FileTree :=
  let inst := (Path.ofString "/sys/kernel/tracing/instances/x").steps
  ((FileTree.empty.put [Utf8.encode "trace_noop"] (.file [] 0o755)).putParents inst).put inst
    .directory

/-- What the system tells about `stage` when `tracer` looks at it. -/
def stageAnswer : (op : FileOp) → op.Answer
  | .status p | .linkStatus p => .ok ⟨p.steps, (stage.get? p.steps).getD .directory⟩
  | .list _ => .ok (stage.children [])
  | .read _ | .readIn .. => .error (.os .notFound)
  | .makeDir _ | .removeDir _ | .overwrite .. => .ok ()

/-- What `tracer` asks about `stage`. -/
def stageLooks : List FileOp :=
  [.linkStatus "/", .status "/", .list "/", .status "/trace_noop", .read "/p/mounts",
    .status "/sys/kernel/tracing", .status "/sys/kernel/tracing/instances/x"]

theorem perform_stage {op : FileOp} (hop : op ∈ stageLooks) :
    stage.perform [] op = (stageAnswer op, stage) := by
  have hroot : ∀ followLast,
      stage.resolve [] followLast "/" = .ok (.present [] .directory) := by
    intro followLast
    rw [FileTree.resolve, show Path.steps "/" = [] by decide +kernel, FileTree.walk_nil]
    decide +kernel
  have hstatus : ∀ (p : Path) (e : Entry), (e.isDirectory || e.isFile) = true →
      FileTree.checkPath p = .ok () ∧ FileTree.startOf [] p = [] ∧
      (∀ n ∈ p.steps, Path.IsName n ∧ n.length ≤ FileTree.maxName) ∧
      (∀ k, k < p.steps.length → stage.get? (p.steps.take k) = some .directory) ∧
      stage.get? p.steps = some e ∧ p.steps ≠ [] →
      stage.perform [] (.status p) = (stageAnswer (.status p), stage) := by
    rintro p e hplain ⟨hcheck, hstart, hnames, hdirs, hget, hne⟩
    have hfind : stage.find [] p = .ok (FileTree.startOf [] p ++ p.steps, e) :=
      FileTree.find_of_get? hcheck hnames (by rwa [hstart]) (by rwa [hstart])
        (by rintro target rfl; cases hplain) hne
    rw [FileTree.perform, FileTree.status_of_find hfind, hstart, stageAnswer, hget]
    rfl
  simp only [stageLooks, List.mem_cons, List.not_mem_nil, or_false] at hop
  rcases hop with rfl | rfl | rfl | rfl | rfl | rfl | rfl
  · rw [FileTree.perform, FileTree.status, hroot]
    decide +kernel
  · rw [FileTree.perform, FileTree.status, hroot]
    decide +kernel
  · rw [FileTree.perform, FileTree.list, FileTree.find, hroot]
    rfl
  · exact hstatus _ (.file [] 0o755) rfl (by decide +kernel)
  · rw [FileTree.perform, FileTree.read, FileTree.find, FileTree.resolve,
      show Path.steps "/p/mounts" = [Utf8.encode "p", Utf8.encode "mounts"] by decide +kernel,
      FileTree.walk]
    decide +kernel
  · exact hstatus _ .directory rfl (by decide +kernel)
  · exact hstatus _ .directory rfl (by decide +kernel)

def stageRun (env : Environment) (args : List String) :
    List (Event (Actions FileSystem)) × Nat × Unit :=
  drive (fun _ op => (stageAnswer op, ())) ⟨0, .deadline, fun _ => .ok ⟨.code 0, [], []⟩⟩
    (tracer "/" env args) ()

theorem runsOn_stageRun {env : Environment} {args : List String}
    (hlooks : ∀ op ∈ (calls (stageRun env args).1).map Sigma.fst, op ∈ stageLooks) :
    RunsOn (FileTree.responder []) (tracer "/" env args) stage (stageRun env args).1
      (stageRun env args).2.1 stage := by
  have hdrive := runsOn_drive (fun (_ : Unit) op => (stageAnswer op, ()))
    ⟨0, .deadline, fun _ => .ok ⟨.code 0, [], []⟩⟩ (tracer "/" env args) ()
  refine ⟨hdrive.runs, Responder.serves_of_unchanged fun e he => ?_⟩
  obtain ⟨_, _, _, _, _, _, hstep, _⟩ := hdrive.served.exists_of_mem he
  exact (perform_stage (hlooks _ (List.mem_map_of_mem he))).trans
    (congrArg (·, stage) (congrArg Prod.fst hstep))

/-- One of the overrides is given to `tracer`, and the other one it has inherited itself. -/
theorem hooks_share_root_inherited :
    let env := Environment.empty.set Config.sysfsVariable (Utf8.encode "/s")
    let args := ["--procfs-path", "/p", "--run", "noop", "-i", "x", "-a", "-p 1"]
    let run : HookRun := ⟨"/trace_noop", ["-p", "1", "--instance", "x"],
      [(Config.procfsVariable, "/p"), (Config.sysfsVariable, "/s")]⟩
    let overrides : RootOverrides := ⟨some "/p", some "/s"⟩
    ∃ o es code call o', TracerOptions.read env args = .ok o ∧ o.config.overrides = overrides ∧
      RunsOn (FileTree.responder []) (tracer "/" env args) stage es code stage ∧
      .ran call ∈ deeds es ∧ call.run = run ∧ (∀ w ∈ run.args, ¬ Overrides w) ∧
      SyscallsOptions.read (run.environment env) run.args = .ok o' ∧
      o'.config.overrides = overrides ∧
      ∃ i looking root, .wrote (announcement i) (.ok ()) ∈ deeds es ∧ o'.inst = some i.name ∧
        RunsOn (FileTree.responder []) (TracingRoot.resolve overrides) stage looking root stage ∧
        i.dir = root.instanceDir i.name.text := by
  intro env args run overrides
  have hlooks : ∀ op ∈ (calls (stageRun env args).1).map Sigma.fst, op ∈ stageLooks := by
    decide +kernel
  have hran : ((deeds (stageRun env args).1).filterMap Deed.invocation?).map Invocation.run =
      [run] := by decide +kernel
  have hown : ∀ w ∈ run.args, ¬ Overrides w := by decide +kernel
  obtain ⟨o, hread, hoverrides⟩ := CommandLine.bind_eq_ok.1
    (show (TracerOptions.read env args >>= fun o => .ok o.config.overrides) = .ok overrides by
      decide +kernel)
  obtain ⟨own, halone, -⟩ := CommandLine.bind_eq_ok.1
    (show (SyscallsOptions.read env run.args >>= fun own => .ok own.describe) = .ok false by
      decide +kernel)
  obtain ⟨call, hcall, hrun⟩ := List.mem_map.1 (hran ▸ List.mem_singleton_self run)
  obtain ⟨deed, hdeed, hsome⟩ := List.mem_filterMap.1 hcall
  have hstarted : .ran call ∈ deeds (stageRun env args).1 := by
    cases deed with
    | ran c =>
        cases hsome
        exact hdeed
    | _ => cases hsome
  obtain ⟨hreads, hshares⟩ := hooks_share_root hread (runsOn_stageRun hlooks) hstarted
    (by rwa [hrun])
  rw [hrun, Except.ok.inj hoverrides] at hshares
  rw [hrun] at hreads
  obtain ⟨o', hhook⟩ := hreads ⟨own, halone⟩
  obtain ⟨hsame, -, hdescribing | hinst⟩ := hshares o' hhook
  · exact absurd hdescribing (by decide)
  · rw [hsame] at hinst
    exact ⟨o, _, _, call, o', hread, Except.ok.inj hoverrides, runsOn_stageRun hlooks, hstarted, hrun, hown,
      hhook, hsame, hinst⟩

end Commands

end KernelTrace
