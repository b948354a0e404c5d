import KernelTrace.Proofs.Deeds
import KernelTrace.Proofs.DispatchCourse
import KernelTrace.Proofs.LossyText
import KernelTrace.Proofs.PlainBinding
import KernelTrace.Proofs.RecordingSteps

/-!
# What a dispatch delivers

A dispatcher is asked for the hooks of a name. Either there are none, or no instance can be bound,
and then nobody has noticed; or one line says where the trace is read, every hook is run once, in
order and with the same arguments, and what each of them left behind is handed back. What a hook
does decides about its own output and about nothing else.

`Delivery` lists these three, for any backend and with what others see of them. Over a recording the
announcement is one line indeed, because nothing in the path of an instance ends a line.
-/

namespace KernelTrace

open Program Actions

/-- What the hook left behind. -/
def Invocation.output (c : Invocation) : HookOutput :=
  let unrun (e : HookError) : HookOutput :=
    ⟨c.run.path, none, [], Utf8.encode s!"{e.message}\n"⟩
  match c.result with
  | .ok result => ⟨c.run.path, some result.status, result.stdout, result.stderr⟩
  | .error (.spawn source) => unrun (.spawn c.run.path source)
  | .error (.wait source) => unrun (.wait c.run.path source)
  | .error (.handler source) => unrun (.handler source)

def ranEach (calls : List Invocation) : List Deed := calls.map .ran

namespace Dispatcher

variable {β : Signature} {S : Type} {m : Responder Backend S} {s t : S} {d : Dispatcher}
  {r : RunRequest}

/-! ## The parts of a dispatch -/

theorem deeds_failed {path : Path} {e : HookError} {es : List (Event (Actions β))}
    {output : HookOutput} (h : Runs (failed path e) es output) :
    deeds es = [] ∧ output = ⟨path, none, [], Utf8.encode s!"{e.message}\n"⟩ := by
  obtain ⟨_, rest, rfl, hend⟩ := runs_perform_bind.1 h
  obtain ⟨rfl, rfl⟩ := runs_pure.1 hend
  exact ⟨rfl, rfl⟩

theorem deeds_invoke {path : Path} {args : List String} {es : List (Event (Actions β))}
    {output : HookOutput} (h : Runs (d.invoke path args) es output) :
    ∃ call : Invocation, deeds es = [.ran call] ∧ call.run = ⟨path, args, d.env⟩ ∧
      output = call.output := by
  obtain ⟨_, rest, rfl, h₁⟩ := runs_perform_bind.1 h
  obtain ⟨answer, rest, rfl, h₂⟩ := runs_perform_bind.1 h₁
  refine ⟨⟨⟨path, args, d.env⟩, answer⟩, ?_, rfl, ?_⟩
  all_goals
    match answer with
    | .error (.spawn _) | .error (.wait _) | .error (.handler _) =>
        obtain ⟨hdeeds, rfl⟩ := deeds_failed h₂
        first | exact congrArg (_ :: ·) hdeeds | rfl
    | .ok result =>
        obtain ⟨_, rest, rfl, hend⟩ := runs_perform_bind.1 h₂
        obtain ⟨rfl, rfl⟩ := runs_pure.1 hend
        rfl

/-- Every hook is run once, in order, and its output is that of its own run. -/
theorem deeds_invokeEach {paths : List Path} {args : List String} {es : List (Event (Actions β))}
    {outputs : List HookOutput} (h : Runs (d.invokeEach args paths) es outputs) :
    ∃ calls : List Invocation, deeds es = ranEach calls ∧
      calls.map Invocation.run = paths.map (⟨·, args, d.env⟩) ∧
      outputs = calls.map Invocation.output := by
  induction paths generalizing es outputs with
  | nil =>
      obtain ⟨rfl, rfl⟩ := runs_pure.1 h
      exact ⟨[], rfl, rfl, rfl⟩
  | cons path paths ih =>
      obtain ⟨es₁, es₂, output, rfl, hfirst, h₁⟩ := runs_bind.1 h
      obtain ⟨es₂, es₃, outputs', rfl, hrest, hend⟩ := runs_bind.1 h₁
      obtain ⟨rfl, rfl⟩ := runs_pure.1 hend
      obtain ⟨call, hdeeds, hrun, rfl⟩ := deeds_invoke hfirst
      obtain ⟨calls, hdeeds', hruns, rfl⟩ := ih hrest
      refine ⟨call :: calls, ?_, ?_, rfl⟩
      · rw [List.append_nil, deeds_append, hdeeds, hdeeds']
        rfl
      · rw [List.map_cons, List.map_cons, hrun, hruns]

theorem deeds_announce {i : Instance} {es : List (Event (Actions β))}
    (h : Runs (announce i) es (.ok ())) :
    deeds es = [.wrote (announcement i) (.ok ()), .flushed (.ok ())] := by
  obtain ⟨written, rest, rfl, hrest⟩ := runs_perform_bind.1 h
  match written with
  | .error e => cases (runs_pure.1 hrest).2
  | .ok () =>
      obtain rfl := runs_perform.1 hrest
      rfl

theorem not_accepts_of_announce {i : Instance} {es : List (Event (Actions β))} {e : IoError}
    (h : Runs (announce i) es (.error e)) : ¬ Accepts es := by
  obtain ⟨written, rest, rfl, hrest⟩ := runs_perform_bind.1 h
  intro haccepts
  match written with
  | .error e => cases haccepts _ List.mem_cons_self
  | .ok () =>
      obtain rfl := runs_perform.1 hrest
      cases haccepts _ (.tail _ List.mem_cons_self)

theorem cleanUp_asks (r : RunRequest) (i : Instance) :
    Asks (σ := Actions Backend) IsUnseen (cleanUp r i) := by
  rw [cleanUp]
  split
  · refine asks_bind (asks_bind (asks_perform.2 trivial) fun removed => ?_) fun result => ?_
    · cases removed with
      | error e => exact asks_pure
      | ok => exact asks_bind (asks_perform.2 trivial) fun _ => asks_pure
    · cases result with
      | ok => exact asks_pure
      | error e => exact asks_perform.2 trivial
  · exact asks_pure

theorem deeds_bind {inst : Option InstanceName} {es : List (Event (Actions Backend))}
    {a : Except TracingError Instance} (h : Runs (Instances.bind inst) es a) : deeds es = [] :=
  deeds_of_asks ((Instances.bind_asks inst).mono fun op hop => by cases op <;> trivial) h

/-! ## The whole of it -/

theorem lookup_eq_error {name : String} {e : HookError} :
    d.lookup name = .error e ↔ d.registry.lookup name = [] ∧ e = .notFound name := by
  rw [lookup]
  split
  · next hnone => simp [hnone, eq_comm]
  · next hsome => exact ⟨nofun, fun h => absurd h.1 hsome⟩

theorem lookup_eq_ok {name : String} {paths : List Path} :
    d.lookup name = .ok paths ↔ d.registry.lookup name = paths ∧ paths ≠ [] := by
  rw [lookup]
  split
  · next hnone => simp +contextual [hnone]
  · next hsome =>
      simp only [Except.ok.injEq, iff_self_and]
      rintro rfl
      exact hsome

/-- `Delivery m d r s es result t`: what comes of running hooks if the output takes everything. -/
inductive Delivery (m : Responder Backend S) (d : Dispatcher) (r : RunRequest) (s : S) :
    List (Event (Actions Backend)) → Except HookError (List HookOutput) → S → Prop where
  /-- There are no hooks of the name, and nothing is asked for at all. -/
  | notFound (unknown : d.registry.lookup r.name = []) :
      Delivery m d r s [] (.error (.notFound r.name)) s
  /-- No instance could be bound, and nobody has seen anything of the attempt. -/
  | unbound {binding : List (Event (Actions Backend))} {e : TracingError} {t : S}
      (known : d.registry.lookup r.name ≠ [])
      (bind : RunsOn m (Instances.bind r.inst) s binding (.error e) t)
      (unseen : deeds binding = []) :
      Delivery m d r s (⟨.shieldStop, .ok ()⟩ :: binding) (.error (.inst e)) t
  /-- The trace was announced, and after that every hook was run. -/
  | delivered {binding rest : List (Event (Actions Backend))} {i : Instance} {bound t : S}
      {calls : List Invocation} (known : d.registry.lookup r.name ≠ [])
      (bind : RunsOn m (Instances.bind r.inst) s binding (.ok i) bound)
      (seen : deeds (⟨.shieldStop, .ok ()⟩ :: binding ++ rest) =
        .shielded (.ok ()) :: .wrote (announcement i) (.ok ()) :: .flushed (.ok ()) ::
          ranEach calls)
      (each : calls.map Invocation.run = (d.registry.lookup r.name).map
        (⟨·, r.args ++ ["--instance", i.name.text], d.env⟩)) :
      Delivery m d r s (⟨.shieldStop, .ok ()⟩ :: binding ++ rest)
        (.ok (calls.map Invocation.output)) t

theorem runsOn_run {es : List (Event (Actions Backend))}
    {result : Except HookError (List HookOutput)} (h : RunsOn m (d.run r) s es result t)
    (haccepts : Accepts es) : Delivery m d r s es result t := by
  have hserved := h.served
  cases runs_run h.runs with
  | notFound unknown =>
      obtain ⟨hnone, rfl⟩ := lookup_eq_error.1 unknown
      obtain rfl := Responder.serves_nil.1 hserved
      exact .notFound hnone
  | unshielded => cases haccepts _ List.mem_cons_self
  | unbound known bind =>
      obtain ⟨rfl, hsome⟩ := lookup_eq_ok.1 known
      exact .unbound hsome ⟨bind, hserved⟩ (deeds_bind bind)
  | unannounced _ _ announced =>
      exact absurd (accepts_append.1 haccepts).2 (not_accepts_of_announce announced)
  | @completed _ binding announcing running cleaning i outputs known bind announced ran cleaned =>
      obtain ⟨rfl, hsome⟩ := lookup_eq_ok.1 known
      rw [calls_of_completed announced ran] at hserved
      obtain ⟨bound, hbound, -⟩ := Responder.serves_append.1 hserved
      obtain ⟨calls, hran, heach, rfl⟩ := deeds_invokeEach ran
      rw [List.append_assoc, List.append_assoc]
      refine .delivered hsome ⟨bind, hbound⟩ ?_ heach
      rw [deeds_append, deeds_append, deeds_append, deeds_announce announced, hran,
        deeds_of_asks (cleanUp_asks r i) cleaned, deeds_cons, deeds_bind bind, List.append_nil,
        List.append_nil]
      rfl

/-- `Unbound m d r s t e`: a run of hooks can end with `e` before it has an instance. -/
inductive Unbound (m : Responder Backend S) (d : Dispatcher) (r : RunRequest) (s t : S) :
    HookError → Prop where
  | unknown {e : HookError} (unknown : d.lookup r.name = .error e) : Unbound m d r s t e
  /-- The signal that asks hooks to stop could not be taken over. -/
  | unshielded (e : IoError) : Unbound m d r s t (.handler e)
  | refused {binding : List (Event (Actions Backend))} {e : TracingError}
      (bind : RunsOn m (Instances.bind r.inst) s binding (.error e) t) : Unbound m d r s t (.inst e)

/-- What others see of a run of hooks, whether or not the output takes it. -/
inductive Shown (m : Responder Backend S) (d : Dispatcher) (r : RunRequest) (s t : S) :
    List Deed → Except HookError (List HookOutput) → Prop where
  | unbound {ds : List Deed} {e : HookError} (unbound : Unbound m d r s t e)
      (shielding : ∀ deed ∈ ds, ∃ answer, deed = .shielded answer) : Shown m d r s t ds (.error e)
  | unannounced {binding announcing : List (Event (Actions Backend))} {i : Instance} {e : IoError}
      (bind : RunsOn m (Instances.bind r.inst) s binding (.ok i) t)
      (announced : Runs (announce i) announcing (.error e)) :
      Shown m d r s t (.shielded (.ok ()) :: deeds announcing) (.error (.announce e))
  | ran {binding announcing : List (Event (Actions Backend))} {i : Instance} {bound : S}
      {calls : List Invocation} {outputs : List HookOutput}
      (bind : RunsOn m (Instances.bind r.inst) s binding (.ok i) bound)
      (announced : Runs (announce i) announcing (.ok ()))
      (each : ∀ call ∈ calls, call.run.args = hookArgs r i ∧ call.run.env = d.env) :
      Shown m d r s t (.shielded (.ok ()) :: deeds announcing ++ ranEach calls) (.ok outputs)

theorem shown_of_run {es : List (Event (Actions Backend))}
    {result : Except HookError (List HookOutput)} (h : RunsOn m (d.run r) s es result t) :
    Shown m d r s t (deeds es) result := by
  have hserved := h.served
  cases runs_run h.runs with
  | notFound unknown => exact .unbound (.unknown unknown) nofun
  | unshielded => exact .unbound (.unshielded _) (List.forall_mem_singleton.2 ⟨_, rfl⟩)
  | unbound _ bind =>
      rw [deeds_cons, deeds_bind bind]
      exact .unbound (.refused ⟨bind, hserved⟩) (List.forall_mem_singleton.2 ⟨_, rfl⟩)
  | unannounced _ bind announced =>
      rw [calls_append, (runs_announce announced).1, List.append_nil] at hserved
      rw [deeds_append, deeds_cons, deeds_bind bind]
      exact .unannounced ⟨bind, hserved⟩ announced
  | completed _ bind announced ran cleaned =>
      rw [calls_of_completed announced ran] at hserved
      obtain ⟨bound, hbound, -⟩ := Responder.serves_append.1 hserved
      obtain ⟨calls, hran, heach, -⟩ := deeds_invokeEach ran
      rw [deeds_append, deeds_append, deeds_append, deeds_cons, deeds_bind bind, hran,
        deeds_of_asks (cleanUp_asks r _) cleaned, List.append_nil]
      refine .ran ⟨bind, hbound⟩ announced fun call hcall => ?_
      have hrun : call.run ∈ calls.map Invocation.run := List.mem_map_of_mem hcall
      rw [heach] at hrun
      obtain ⟨path, -, hpath⟩ := List.mem_map.1 hrun
      exact ⟨congrArg HookRun.args hpath.symm, congrArg HookRun.env hpath.symm⟩

end Dispatcher

/-! ## Whatever comes of the hooks -/

/-- The answers that others have given, if any. -/
def Deed.answer? : Deed → Option (Except IoError Unit)
  | shielded answer | wrote _ answer | flushed answer | relayed _ answer => some answer
  | ran _ => none

/-- Nothing was refused, and the hooks that were run came in turn to the results given. -/
structure Smooth (results : Nat → Except HookFault HookResult) (ds : List Deed) : Prop where
  accepted : ∀ d ∈ ds, ∀ e, d.answer? ≠ some (.error e)
  came : ∀ k call, (ds.filterMap Deed.invocation?)[k]? = some call → call.result = results k

namespace Smooth

variable {results : Nat → Except HookFault HookResult} {ds : List Deed}

theorem nil : Smooth results [] := ⟨nofun, nofun⟩

theorem cons {d : Deed} (h : Smooth results ds) (hanswer : d.answer? = some (.ok ())) :
    Smooth results (d :: ds) := by
  refine ⟨List.forall_mem_cons.2 ⟨fun e heq => ?_, h.accepted⟩, ?_⟩
  · rw [hanswer] at heq
    cases heq
  · rw [List.filterMap_cons_none (by cases d <;> first | rfl | cases hanswer)]
    exact h.came

theorem cons_ran (h : Smooth (fun k => results (k + 1)) ds) (run : HookRun) :
    Smooth results (.ran ⟨run, results 0⟩ :: ds) := by
  refine ⟨List.forall_mem_cons.2 ⟨nofun, h.accepted⟩, fun k call hcall => ?_⟩
  match k with
  | 0 =>
      cases hcall
      rfl
  | k + 1 => exact h.came k call hcall

theorem accepts {β : Signature} {es : List (Event (Actions β))} (h : Smooth results (deeds es)) :
    Accepts es := by
  intro d hd
  have hanswer := h.accepted d hd
  match d with
  | .shielded (.ok ()) | .wrote _ (.ok ()) | .flushed (.ok ()) => rfl
  | .shielded (.error e) | .wrote _ (.error e) | .flushed (.error e) =>
      exact absurd rfl (hanswer e)
  | .relayed .. | .ran _ => trivial

/-- Over a backend that answers every operation a program comes to its end, whatever its hooks come
to. -/
theorem exists_runsOn {β : Signature} {S α : Type} {m : Responder β S}
    (hm : ∀ s op, ∃ a t, m s op a t) (results : Nat → Except HookFault HookResult)
    (p : Program (Actions β) α) (s : S) :
    ∃ es a t, RunsOn m p s es a t ∧ Smooth results (deeds es) := by
  induction p generalizing results s with
  | done a => exact ⟨[], a, s, ⟨.done a, .nil s⟩, .nil⟩
  | ask op next ih =>
      cases op with
      | backend c =>
          obtain ⟨answer, t, hstep⟩ := hm s c
          obtain ⟨es, a, u, hrun, hsmooth⟩ := ih answer results t
          exact ⟨_, a, u, ⟨.ask hrun.runs, .cons hstep hrun.served⟩, hsmooth⟩
      | draw =>
          obtain ⟨es, a, u, hrun, hsmooth⟩ := ih (0 : Draw) results s
          exact ⟨_, a, u, ⟨.ask hrun.runs, hrun.served⟩, hsmooth⟩
      | log record =>
          obtain ⟨es, a, u, hrun, hsmooth⟩ := ih () results s
          exact ⟨_, a, u, ⟨.ask hrun.runs, hrun.served⟩, hsmooth⟩
      | wait deadline targets =>
          obtain ⟨es, a, u, hrun, hsmooth⟩ := ih WakeReason.closed results s
          exact ⟨_, a, u, ⟨.ask hrun.runs, hrun.served⟩, hsmooth⟩
      | listen =>
          obtain ⟨es, a, u, hrun, hsmooth⟩ := ih (.ok ()) results s
          exact ⟨_, a, u, ⟨.ask hrun.runs, hrun.served⟩, hsmooth⟩
      | shieldStop | announce _ | flush | relay _ =>
          obtain ⟨es, a, u, hrun, hsmooth⟩ := ih (.ok ()) results s
          exact ⟨_, a, u, ⟨.ask hrun.runs, hrun.served⟩, hsmooth.cons rfl⟩
      | invoke run =>
          obtain ⟨es, a, u, hrun, hsmooth⟩ := ih (results 0) (fun k => results (k + 1)) s
          exact ⟨_, a, u, ⟨.ask hrun.runs, hrun.served⟩, hsmooth.cons_ran run⟩

end Smooth

/-! ## Over a recording -/

/-- Whether a text is one line, with the newline at its end. -/
def IsLine (text : Bytes) : Prop := ∃ body, text = body ++ Utf8.encode "\n" ∧ 0x0A ∉ body

/-- Bytes that are shown as they are and end no line. -/
def IsPlainByte (b : UInt8) : Prop := b < 0x80 ∧ b ≠ 0x0A

instance (b : UInt8) : Decidable (IsPlainByte b) :=
  inferInstanceAs (Decidable (b < 0x80 ∧ b ≠ 0x0A))

theorem Path.forall_mem_join {P : UInt8 → Prop} (hsep : P separator) {n : Bytes} (h : IsName n)
    {q : Path} (hq : q.bytes ≠ []) (hbytes : ∀ b ∈ q.bytes, P b) (hn : ∀ b ∈ n, P b) :
    ∀ b ∈ (q.join ⟨n⟩).bytes, P b := by
  obtain ⟨sep, hone, hjoin⟩ := bytes_join h hq
  have hmid : ∀ b ∈ sep, P b := by
    rcases hone with rfl | rfl
    · exact nofun
    · exact List.forall_mem_singleton.2 hsep
  rw [hjoin]
  exact List.forall_mem_append.2 ⟨List.forall_mem_append.2 ⟨hbytes, hmid⟩, hn⟩

theorem InstanceName.isPlainByte (n : InstanceName) : ∀ b ∈ Utf8.encode n.text, IsPlainByte b := by
  have hascii : ∀ c ∈ n.text.toList, c.toNat < 0x80 := by
    intro c hc
    have hname := (instanceNameFault?_eq_none.1 n.valid).2.2.2.2 c hc
    change (decide ('A'.val ≤ c.val ∧ c.val ≤ 'Z'.val) || ('a'.val ≤ c.val && c.val ≤ 'z'.val) ||
      ('0'.val ≤ c.val && c.val ≤ '9'.val) || c = '_' || c = '-' || c = '.') = true at hname
    simp only [Bool.or_eq_true, Bool.and_eq_true, decide_eq_true_eq] at hname
    rcases hname with ((((⟨-, hle⟩ | ⟨-, hle⟩) | ⟨-, hle⟩) | rfl) | rfl) | rfl
    · exact Nat.lt_of_le_of_lt hle (by decide)
    · exact Nat.lt_of_le_of_lt hle (by decide)
    · exact Nat.lt_of_le_of_lt hle (by decide)
    all_goals decide
  refine fun b hb => ⟨Utf8.lt_of_mem_encode hascii b hb, ?_⟩
  rintro rfl
  exact n.notMem_encode (c := '\n') (by decide) (by decide) hb

theorem Dispatcher.isLine_announcement {i : Instance} (h : ∀ b ∈ i.tracePath.bytes, IsPlainByte b) :
    IsLine (announcement i) := by
  refine ⟨Utf8.encode i.tracePath.display, Utf8.encode_append _ _, fun hmem => ?_⟩
  have hchar := (Utf8.mem_encode_ascii (a := '\n') (by decide)).1 hmem
  rw [Path.display, Utf8.decodeLossy, String.toList_ofList,
    Utf8.lossyChars_of_ascii fun b hb => (h b hb).1] at hchar
  obtain ⟨b, hb, heq⟩ := List.mem_map.1 hchar
  have hvalid : b.toNat.isValidChar := .inl (Nat.lt_trans b.toNat_lt (by decide))
  have hval : (Char.ofNat b.toNat).toNat = b.toNat := by
    rw [Char.ofNat, dif_pos hvalid]
    rfl
  exact (h b hb).2 (UInt8.toNat_inj.1 (hval ▸ congrArg Char.toNat heq))

namespace Recording

variable {r r' : Recording}

theorem isLine_announcement (name : InstanceName) :
    IsLine (Dispatcher.announcement (instanceOf name)) := by
  refine Dispatcher.isLine_announcement ?_
  have hroot : ∀ b ∈ root.instancesDir.bytes, IsPlainByte b := by decide +kernel
  have hdir : ∀ b ∈ (instanceOf name).dir.bytes, IsPlainByte b :=
    Path.forall_mem_join (by decide) name.isName root.bytes_instancesDir hroot name.isPlainByte
  have htrace : ∀ b ∈ Utf8.encode "trace", IsPlainByte b := by decide +kernel
  exact Path.forall_mem_join (by decide) (by decide) (root.bytes_instanceDir name) hdir htrace

theorem eq_instanceOf_of_bind {inst : Option InstanceName} {es : List (Event (Actions Backend))}
    {i : Instance} (h : RunsOn responder (Instances.bind inst) r es (.ok i) r') :
    i = instanceOf i.name := by
  obtain ⟨e, he, hgives⟩ := (Instances.concerns_of_bind h.runs).2 i rfl
  obtain ⟨-, -, v, w, -, -, hstep, -⟩ := h.served.exists_of_mem he
  rcases hgives with ⟨name, rfl⟩ | ⟨name, rfl⟩
  · obtain ⟨-, -, ⟨e, heq, -⟩ | ⟨heq, -⟩⟩ := create_cases hstep
    all_goals cases heq
    rfl
  · obtain ⟨-, ⟨heq, -⟩ | ⟨st, heq, -⟩⟩ := find_cases hstep
    all_goals cases heq
    rfl

end Recording

end KernelTrace
