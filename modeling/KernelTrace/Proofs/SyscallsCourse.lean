import KernelTrace.Commands.TraceSyscalls
import KernelTrace.Proofs.FileFrames
import KernelTrace.Proofs.RootResolution
import KernelTrace.Proofs.SessionCourse

/-!
# The course of `trace_syscalls`

Before the command touches anything it has found the tracing root, chosen the events, reported on
the processes and begun to listen for stops. All of that only reads, so it sees one tree, and what
it comes to is a function of that tree: the root (`TracingRoot.seenIn`) and the events that the
names mean (`SystemCalls.chosenIn`). What is left after it is one session. `Course` says so, and
with it a statement about the command is a statement about sessions.

Logging less is not doing less: what is not logged is left out of the events of a run, and nothing
else is (`runs_filterLog`).
-/

namespace KernelTrace

open Program Actions

/-! ## Programs that may fail -/

namespace Actions

variable {β : Signature} {S α δ ε : Type} {m : Responder β S} {s t u : S}
  {es : List (Event (Actions β))}

/-- A sequence of programs that may fail ends with the first or goes on after it. -/
theorem runsOn_attempt_bind {p : ExceptT ε (Program (Actions β)) α}
    {f : α → ExceptT ε (Program (Actions β)) δ} {b : Except ε δ}
    (h : RunsOn m (p >>= f).run s es b u) :
    (∃ e, b = .error e ∧ RunsOn m p.run s es (.error e) u) ∨
      ∃ es₁ es₂ a t, es = es₁ ++ es₂ ∧ RunsOn m p.run s es₁ (.ok a) t ∧
        RunsOn m (f a).run t es₂ b u := by
  obtain ⟨es₁, es₂, a, t, rfl, hfirst, hrest⟩ := runsOn_bind.1 h
  match a with
  | .ok a => exact .inr ⟨es₁, es₂, a, t, rfl, hfirst, hrest⟩
  | .error e =>
      obtain ⟨rfl, rfl, rfl⟩ := runsOn_pure.1 hrest
      rw [List.append_nil]
      exact .inl ⟨e, rfl, hfirst⟩

theorem runsOn_lift {p : Program (Actions β) α} {b : Except ε α}
    (h : RunsOn m (ExceptT.lift p : ExceptT ε (Program (Actions β)) α).run s es b u) :
    ∃ a, b = .ok a ∧ RunsOn m p s es a u := by
  obtain ⟨es₁, es₂, a, t, rfl, hfirst, hend⟩ := runsOn_bind.1 h
  obtain ⟨rfl, rfl, rfl⟩ := runsOn_pure.1 hend
  rw [List.append_nil]
  exact ⟨a, rfl, hfirst⟩

theorem runsOn_lift_bind {p : Program (Actions β) α} {f : α → ExceptT ε (Program (Actions β)) δ}
    {b : Except ε δ} (h : RunsOn m (ExceptT.lift p >>= f).run s es b u) :
    ∃ es₁ es₂ a t, es = es₁ ++ es₂ ∧ RunsOn m p s es₁ a t ∧ RunsOn m (f a).run t es₂ b u := by
  obtain ⟨e, -, hlift⟩ | ⟨es₁, es₂, a, t, rfl, hlift, hrest⟩ := runsOn_attempt_bind h
  · obtain ⟨a, heq, -⟩ := runsOn_lift hlift
    cases heq
  · obtain ⟨_, heq, hfirst⟩ := runsOn_lift hlift
    cases heq
    exact ⟨es₁, es₂, a, t, rfl, hfirst, hrest⟩

end Actions

namespace Commands

variable {S α δ ε : Type} {m : Responder FileSystem S} {s t u : S}
  {es : List (Event (Actions FileSystem))}

theorem runsOn_orFail {chain : ε → List String} {p : Act (Except ε α)} {b : Except Failure α}
    (h : RunsOn m (orFail chain p).run s es b u) :
    ∃ a, b = a.mapError (fun e => .ofChain (chain e)) ∧ RunsOn m p s es a u := by
  obtain ⟨es₁, es₂, a, t, rfl, hfirst, hend⟩ := runsOn_bind.1 h
  obtain ⟨rfl, rfl, rfl⟩ := runsOn_pure.1 hend
  rw [List.append_nil]
  exact ⟨a, rfl, hfirst⟩

theorem runsOn_orFail_bind {chain : ε → List String} {p : Act (Except ε α)} {f : α → Attempt δ}
    {b : Except Failure δ} (h : RunsOn m (orFail chain p >>= f).run s es b u) :
    (∃ e, b = .error (.ofChain (chain e)) ∧ RunsOn m p s es (.error e) u) ∨
      ∃ es₁ es₂ a t, es = es₁ ++ es₂ ∧ RunsOn m p s es₁ (.ok a) t ∧
        RunsOn m (f a).run t es₂ b u := by
  obtain ⟨f, rfl, hfirst⟩ | ⟨es₁, es₂, a, t, rfl, hfirst, hrest⟩ := runsOn_attempt_bind h
  · obtain ⟨_ | e, heq, hrun⟩ := runsOn_orFail hfirst
    all_goals cases heq
    exact .inl ⟨_, rfl, hrun⟩
  · obtain ⟨_ | _, heq, hrun⟩ := runsOn_orFail hfirst
    all_goals cases heq
    exact .inr ⟨es₁, es₂, a, t, rfl, hrun, hrest⟩

theorem runsOn_within {context : String} {p : Attempt α} {b : Except Failure α}
    (h : RunsOn m (within context p).run s es b u) :
    ∃ a, b = a.mapError (Failure.within context) ∧ RunsOn m p.run s es a u := by
  obtain ⟨es₁, es₂, a, t, rfl, hfirst, hend⟩ := runsOn_bind.1 h
  obtain ⟨rfl, rfl, rfl⟩ := runsOn_pure.1 hend
  rw [List.append_nil]
  exact ⟨a, rfl, hfirst⟩

end Commands

/-! ## Logging less -/

namespace Actions

variable {β : Signature} {S α : Type}

/-- Whether an event is still there when only some levels are logged. -/
def isKept (verbose : Bool) : Event (Actions β) → Bool
  | ⟨.log record, _⟩ => record.level.isLogged verbose
  | _ => true

theorem runs_filterLog {verbose : Bool} {p : Program (Actions β) α} {es : List (Event (Actions β))}
    {a : α} (h : Runs (filterLog verbose p) es a) :
    ∃ full, Runs p full a ∧ es = full.filter (isKept verbose) := by
  induction p generalizing es with
  | done b =>
      obtain ⟨rfl, rfl⟩ := runs_pure.1 h
      exact ⟨[], .done _, rfl⟩
  | ask op next ih =>
      obtain ⟨es₁, es₂, answer, rfl, hfirst, hrest⟩ := runs_bind.1 h
      obtain ⟨full, hfull, rfl⟩ := ih answer hrest
      refine ⟨⟨op, answer⟩ :: full, .ask hfull, ?_⟩
      cases op with
      | log record =>
          rw [List.filter_cons, isKept]
          dsimp only at hfirst
          split at hfirst
          · next hlogged =>
              obtain rfl := runs_perform.1 hfirst
              rw [if_pos hlogged]
              rfl
          · next hlogged =>
              obtain ⟨rfl, -⟩ := runs_pure.1 hfirst
              rw [if_neg hlogged]
              rfl
      | _ =>
          obtain rfl := runs_perform.1 hfirst
          rfl

theorem calls_filter_isKept (verbose : Bool) (es : List (Event (Actions β))) :
    calls (es.filter (isKept verbose)) = calls es := by
  induction es with
  | nil => rfl
  | cons e es ih =>
      rw [List.filter_cons, calls_cons e es]
      split
      · rw [calls_cons, ih]
      · next hkept =>
          obtain ⟨op, answer⟩ := e
          cases op with
          | log record => exact ih
          | _ => exact absurd rfl hkept

theorem calls_of_logs {es : List (Event (Actions β))}
    (h : ∀ e ∈ es, ∃ record, e = ⟨.log record, ()⟩) : calls es = [] :=
  List.eq_nil_iff_forall_not_mem.2 fun _ he => nomatch (h _ (mem_calls.1 he)).choose_spec

end Actions

/-! ## What only reads -/

section Reads

variable {cwd : Location} {t : FileTree} {es : List (Event (Actions FileSystem))}

theorem changed?_of_isStatus {op : FileOp} (h : op.IsStatus) : op.changed? = none := by
  cases op with
  | status => rfl
  | _ => exact h.elim

theorem reads_of_readsTable {o : RootOverrides} (h : TracingRoot.ReadsTable t cwd o es) :
    Reads es := by
  obtain ⟨rest, hcalls, hrest⟩ := h
  intro e he
  rw [hcalls] at he
  rcases List.mem_cons.1 he with rfl | he
  · rfl
  · exact changed?_of_isStatus (hrest e he)

end Reads

/-! ## What the command sees -/

section Seen

variable {cwd : Location} {t t' : FileTree} {es : List (Event (Actions FileSystem))}
  {root : TracingRoot}

/-- The tracing root that is found in a tree. -/
def TracingRoot.seenIn (t : FileTree) (cwd : Location) (o : RootOverrides) : TracingRoot :=
  if o.isEmpty then assumedIn (t.isDirectory cwd)
  else (ofTree t cwd o).toOption.getD (assumedIn (t.isDirectory cwd))

theorem runsOn_resolve_seen {o : RootOverrides}
    (h : RunsOn (FileTree.responder cwd) (TracingRoot.resolve o) t es root t') :
    t' = t ∧ Reads es ∧ root = TracingRoot.seenIn t cwd o := by
  obtain ⟨hsame, hresolved⟩ := TracingRoot.runsOn_resolve h
  rw [TracingRoot.seenIn]
  cases hempty : o.isEmpty with
  | true =>
      obtain ⟨hstatus, hroot⟩ := hresolved.unread hempty
      exact ⟨hsame, fun e he => changed?_of_isStatus (hstatus e he), hroot⟩
  | false =>
      refine ⟨hsame, reads_of_readsTable (hresolved.read hempty), ?_⟩
      rw [if_neg Bool.false_ne_true]
      cases htree : TracingRoot.ofTree t cwd o with
      | ok r => exact hresolved.selected hempty r (TracingRoot.ofTree_eq_ok.1 htree)
      | error fault =>
          refine hresolved.assumed hempty fun r hr => ?_
          rw [TracingRoot.ofTree_eq_ok.2 hr] at htree
          cases htree

namespace SystemCalls

/-- What names mean, given what there is to choose from. -/
def chosenOf (names : List String) :
    Except TracingError (List String) → Except SelectionError EventSet
  | .error e => .error (.tracing e)
  | .ok available => choose available names

theorem runs_select {names : List String} {es : List (Event (Actions Backend))}
    {a : Except SelectionError EventSet} (h : Runs (select names) es a) :
    ∃ listed, calls es = [⟨.availableEvents system, listed⟩] ∧ a = chosenOf names listed := by
  obtain ⟨listed, rest, rfl, hchosen⟩ := runs_perform_bind.1 h
  match listed with
  | .ok available | .error e =>
      obtain ⟨rfl, rfl⟩ := runs_pure.1 hchosen
      exact ⟨_, rfl, rfl⟩

/-- What names mean in a tree. -/
def chosenIn (t : FileTree) (cwd : Location) (root : TracingRoot) (names : List String) :
    Except SelectionError EventSet :=
  let dir := root.eventsDir.join system
  chosenOf names (((t.list cwd dir).map ControlFiles.directoryNames).mapError (.readFailed dir))

theorem runsOn_select {names : List String} {a : Except SelectionError EventSet}
    (h : RunsOn (FileTree.responder cwd) (ControlFiles.realize root (select names)) t es a t') :
    t' = t ∧ Reads es ∧ a = chosenIn t cwd root names := by
  obtain ⟨abstract, hruns, hcarries⟩ := exists_runs_of_expand h
  obtain ⟨listed, hcalls, rfl⟩ := runs_select hruns
  rw [hcalls] at hcarries
  rw [Reads]
  generalize Actions.calls es = fs at hcarries ⊢
  cases hcarries with
  | cons first more =>
      cases more
      obtain ⟨rfl, hown, rfl⟩ := ControlFiles.runsOn_subdirectories first
      rw [hown]
      exact ⟨rfl, List.forall_mem_singleton.2 rfl, rfl⟩

end SystemCalls

theorem look_asks (procfs : Path) (pid : Pid) :
    Asks (σ := FileSystem) (fun op => op.changed? = none) (ProcessStat.look procfs pid) := by
  refine asks_bind (asks_perform.2 rfl) fun status => ?_
  match status with
  | .error e => exact asks_pure
  | .ok status =>
      dsimp only
      split
      · refine asks_bind (asks_perform.2 rfl) fun content => ?_
        match content with
        | .error e | .ok content => exact asks_pure
      · exact asks_pure

theorem runsOn_look {procfs : Path} {pid : Pid} {a : Except ProcessFault ProcessStat}
    (h : RunsOn (FileTree.responder cwd) (ofBackend (ProcessStat.look procfs pid)) t es a t') :
    t' = t ∧ Reads es := by
  have hasks : Asks (σ := Actions FileSystem)
      (fun op => ∀ c, op = .backend c → c.changed? = none)
      (ofBackend (ProcessStat.look procfs pid)) := by
    refine asks_expand (look_asks procfs pid) fun op hop => asks_perform.2 fun c hc => ?_
    cases hc
    exact hop
  have hreads : Reads es := fun e he => h.runs.of_asks hasks (mem_calls.1 he) _ rfl
  exact ⟨same_of_reads h.served hreads, hreads⟩

namespace Commands

theorem runsOn_log {level : LogLevel} {message : String} {u : Unit}
    (h : RunsOn (FileTree.responder cwd) (Actions.log level message) t es u t') :
    t' = t ∧ calls es = [] := by
  obtain rfl := runs_perform.1 h.runs
  exact ⟨Responder.serves_nil.1 h.served, rfl⟩

theorem runsOn_reportTargets {procfs : Path} {pids : List Pid} {b : Except Failure Unit}
    (h : RunsOn (FileTree.responder cwd) (TraceSyscalls.reportTargets procfs pids).run t es b t') :
    t' = t ∧ Reads es ∧ b = .ok () := by
  induction pids generalizing t es with
  | nil =>
      obtain ⟨rfl, rfl, rfl⟩ := runsOn_pure.1 h
      exact ⟨rfl, reads_of_calls rfl, rfl⟩
  | cons pid pids ih =>
      obtain ⟨es₁, es₂, found, t₁, rfl, hlook, hrest⟩ := runsOn_lift_bind h
      obtain ⟨rfl, hreads⟩ := runsOn_look hlook
      match found with
      | .ok stat | .error fault =>
          obtain ⟨es₂, es₃, _, t₂, rfl, hlog, hnext⟩ := runsOn_lift_bind hrest
          obtain ⟨rfl, hquiet⟩ := runsOn_log hlog
          obtain ⟨rfl, hreads', rfl⟩ := ih hnext
          exact ⟨rfl, hreads.append ((reads_of_calls hquiet).append hreads'), rfl⟩

/-- `Course cwd o t es a t'`: the ways in which the command can go once its line has been read, and
what they make of the tree. -/
inductive Course (cwd : Location) (o : SyscallsOptions) (t : FileTree) :
    List (Event (Actions FileSystem)) → Except Failure Unit → FileTree → Prop where
  | unchosen {es : List (Event (Actions FileSystem))} {e : SelectionError} {f : Failure}
      (reads : Reads es)
      (unknown : SystemCalls.chosenIn t cwd (.seenIn t cwd o.config.overrides) o.syscalls =
        .error e) : Course cwd o t es (.error f) t
  /-- The signals that ask for a stop could not be taken. -/
  | deaf {es : List (Event (Actions FileSystem))} {f : Failure} {e : IoError} (reads : Reads es)
      (refused : (⟨.listen, .error e⟩ : Event (Actions FileSystem)) ∈ es) :
      Course cwd o t es (.error f) t
  | traced {before session : List (Event (Actions FileSystem))}
      (after : List (Event (Actions FileSystem))) {events : EventSet}
      {result : Except SessionError SessionReport} {a : Except Failure Unit} {t' : FileTree}
      (reads : Reads before)
      (chosen : SystemCalls.chosenIn t cwd (.seenIn t cwd o.config.overrides) o.syscalls =
        .ok events)
      (listening : (⟨.listen, .ok ()⟩ : Event (Actions FileSystem)) ∈ before)
      (ran : RunsOn (FileTree.responder cwd) (ControlFiles.realize
        (.seenIn t cwd o.config.overrides)
        (Session.execute (o.request events (some o.config.procfsDir)))) t session result t')
      (quiet : calls after = []) (outcome : a = .ok () ↔ ∃ report, result = .ok report) :
      Course cwd o t (before ++ session ++ after) a t'

theorem runsOn_act {o : SyscallsOptions} {a : Except Failure Unit}
    (h : RunsOn (FileTree.responder cwd) (TraceSyscalls.act o).run t es a t') :
    Course cwd o t es a t' := by
  obtain ⟨es₁, es₂, root, t₁, rfl, hresolve, hselecting⟩ := runsOn_lift_bind h
  obtain ⟨rfl, hreads₁, rfl⟩ := runsOn_resolve_seen hresolve
  obtain ⟨e, rfl, hselect⟩ | ⟨es₂, es₃, events, t₂, rfl, hselect, hreporting⟩ :=
    runsOn_orFail_bind hselecting
  · obtain ⟨rfl, hreads₂, hchosen⟩ := SystemCalls.runsOn_select hselect
    exact .unchosen (hreads₁.append hreads₂) hchosen.symm
  obtain ⟨rfl, hreads₂, hchosen⟩ := SystemCalls.runsOn_select hselect
  obtain ⟨f, -, hreport⟩ | ⟨es₃, es₄, _, t₃, rfl, hreport, hlistening⟩ :=
    runsOn_attempt_bind hreporting
  · obtain ⟨-, -, heq⟩ := runsOn_reportTargets hreport
    cases heq
  obtain ⟨rfl, hreads₃, -⟩ := runsOn_reportTargets hreport
  obtain ⟨e, rfl, hlisten⟩ | ⟨es₄, es₅, _, t₄, rfl, hlisten, htracing⟩ :=
    runsOn_orFail_bind hlistening
  · obtain ⟨hruns, hserved⟩ := hlisten
    obtain rfl := runs_perform.1 hruns
    obtain rfl := Responder.serves_nil.1 hserved
    exact .deaf (e := e) (hreads₁.append (hreads₂.append (hreads₃.append (reads_of_calls rfl))))
      (by simp)
  obtain ⟨hruns, hserved⟩ := hlisten
  obtain rfl := runs_perform.1 hruns
  obtain rfl := Responder.serves_nil.1 hserved
  have hbefore : Reads (es₁ ++ (es₂ ++ (es₃ ++ [⟨.listen, .ok ()⟩]))) :=
    hreads₁.append (hreads₂.append (hreads₃.append (reads_of_calls rfl)))
  have hlistened : (⟨.listen, .ok ()⟩ : Event (Actions FileSystem)) ∈
      es₁ ++ (es₂ ++ (es₃ ++ [⟨.listen, .ok ()⟩])) := by simp
  obtain ⟨f, rfl, hwithin⟩ | ⟨es₅, es₆, report, t₅, rfl, hwithin, hend⟩ :=
    runsOn_attempt_bind htracing
  · obtain ⟨b, heq, horFail⟩ := runsOn_within hwithin
    obtain ⟨result, rfl, hsession⟩ := runsOn_orFail horFail
    have houtcome : (.error f : Except Failure Unit) = .ok () ↔ ∃ report, result = .ok report := by
      cases result with
      | ok report => cases heq
      | error e => simp
    have hcourse := Course.traced [] hbefore hchosen.symm hlistened hsession rfl houtcome
    simpa only [List.append_assoc, List.append_nil] using hcourse
  · obtain ⟨b, heq, horFail⟩ := runsOn_within hwithin
    obtain ⟨result, rfl, hsession⟩ := runsOn_orFail horFail
    obtain ⟨_, rfl, hlog⟩ := runsOn_lift hend
    obtain ⟨rfl, hquiet⟩ := runsOn_log hlog
    have houtcome : (.ok () : Except Failure Unit) = .ok () ↔ ∃ report, result = .ok report := by
      cases result with
      | ok report => simp
      | error e => cases heq
    have hcourse := Course.traced es₆ hbefore hchosen.symm hlistened hsession hquiet houtcome
    simpa only [List.append_assoc] using hcourse

/-! ## The command line -/

def exitCode : Except Failure Unit → Nat
  | .ok () => succeeded
  | .error _ => failed

/-- A command that has come to its end has run what it does and has reported a failure, if there
was one, which is no more than a log record. -/
theorem runsOn_conclude {S : Type} {m : Responder FileSystem S} {s u : S} {verbose : Bool}
    {p : Attempt Unit} {code : Nat} (h : RunsOn m (conclude verbose p) s es code u) :
    ∃ full report a, RunsOn m p.run s full a u ∧ es = (full ++ report).filter (isKept verbose) ∧
      (∀ e ∈ report, ∃ record, e = ⟨.log record, ()⟩) ∧ code = exitCode a := by
  obtain ⟨hruns, hserved⟩ := h
  obtain ⟨all, hall, rfl⟩ := runs_filterLog hruns
  obtain ⟨full, report, a, rfl, hfirst, hend⟩ := runs_bind.1 hall
  have hreport : (∀ e ∈ report, ∃ record, e = ⟨.log record, ()⟩) ∧ code = exitCode a := by
    match a with
    | .ok () =>
        obtain ⟨rfl, rfl⟩ := runs_pure.1 hend
        exact ⟨nofun, rfl⟩
    | .error f =>
        obtain ⟨_, more, rfl, hpure⟩ := runs_perform_bind.1 hend
        obtain ⟨rfl, rfl⟩ := runs_pure.1 hpure
        exact ⟨List.forall_mem_singleton.2 ⟨_, rfl⟩, rfl⟩
  rw [calls_filter_isKept, calls_append, calls_of_logs hreport.1, List.append_nil] at hserved
  exact ⟨full, report, a, ⟨hfirst, hserved⟩, rfl, hreport⟩

theorem display_asks (text : String) :
    Asks (σ := Actions FileSystem) (fun op => ∀ c, op ≠ .backend c) (display text) :=
  asks_bind (asks_perform.2 nofun) fun _ => asks_pure

theorem usageError_asks (c : CommandLine.Command) (reason : String) :
    Asks (σ := Actions FileSystem) (fun op => ∀ c, op ≠ .backend c) (usageError c reason) :=
  asks_bind (asks_perform.2 nofun) fun _ => asks_pure

theorem halted_asks (c : CommandLine.Command) (env : Environment) (halt : CommandLine.Halt) :
    Asks (σ := Actions FileSystem) (fun op => ∀ c, op ≠ .backend c) (halted c env halt) := by
  cases halt with
  | help | version => exact display_asks _
  | _ => exact usageError_asks ..

theorem RunsOn.idle {p : Act Nat} {code : Nat}
    (h : RunsOn (FileTree.responder cwd) p t es code t')
    (hp : Asks (σ := Actions FileSystem) (fun op => ∀ c, op ≠ .backend c) p) :
    t' = t ∧ calls es = [] := by
  have hnone : calls es = [] := List.eq_nil_iff_forall_not_mem.2 fun e he =>
    h.runs.of_asks hp (mem_calls.1 he) _ rfl
  exact ⟨same_of_reads h.served (reads_of_calls hnone), hnone⟩

/-- Either the command line asks for no trace and nothing is done, or what is done is a course of
the command. -/
theorem runsOn_traceSyscalls {env : Environment} {args : List String} {code : Nat}
    (h : RunsOn (FileTree.responder cwd) (traceSyscalls env args) t es code t') :
    (t' = t ∧ calls es = [] ∧
        ∀ o, SyscallsOptions.read env args = .ok o → o.describe = true) ∨
      ∃ o full a, SyscallsOptions.read env args = .ok o ∧ o.describe = false ∧
        Course cwd o t full a t' ∧ calls es = calls full ∧ code = exitCode a ∧
        ∀ answer, (⟨.listen, answer⟩ : Event (Actions FileSystem)) ∈ full →
          (⟨.listen, answer⟩ : Event (Actions FileSystem)) ∈ es := by
  rw [traceSyscalls] at h
  cases hread : SyscallsOptions.read env args with
  | error halt =>
      rw [hread] at h
      obtain ⟨hsame, hnone⟩ := RunsOn.idle h (halted_asks _ _ halt)
      exact .inl ⟨hsame, hnone, nofun⟩
  | ok o =>
      rw [hread] at h
      dsimp only at h
      cases hdescribe : o.describe with
      | true =>
          rw [hdescribe, if_pos rfl] at h
          obtain ⟨hsame, hnone⟩ := RunsOn.idle h (display_asks _)
          refine .inl ⟨hsame, hnone, fun o' ho' => ?_⟩
          cases ho'
          exact hdescribe
      | false =>
          rw [hdescribe, if_neg Bool.false_ne_true] at h
          obtain ⟨full, report, a, hrun, rfl, hreport, hcode⟩ := runsOn_conclude h
          rw [calls_filter_isKept, calls_append, calls_of_logs hreport, List.append_nil]
          exact .inr ⟨o, full, a, rfl, hdescribe, runsOn_act hrun, rfl, hcode, fun answer hmem =>
            List.mem_filter.2 ⟨List.mem_append_left _ hmem, rfl⟩⟩

end Commands

end Seen

end KernelTrace
