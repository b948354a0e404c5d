import KernelTrace.Commands.Tracer
import KernelTrace.Proofs.BindingCourse
import KernelTrace.Proofs.SyscallsCourse

/-!
# What others see of a program

Whoever reads the output of a command sees texts, and a hook sees that it is started. The calls of a
backend, random numbers, log records and waits are nobody's business but the program's own. `deeds`
keeps of a run what others see of it, in order and with the answers.

Deeds are the same at every level. Taking the calls of a backend apart into operations on files
changes none of them (`runsOn_realize`), and neither does logging less (`deeds_filter_isKept`). So
what was proved of the deeds of a program over a tracing backend holds of the command that is built
on it.
-/

namespace KernelTrace

open Program

/-- A hook that was run, and what came of it. -/
structure Invocation where
  run : HookRun
  result : Except HookFault HookResult

/-- Something that others can see. -/
inductive Deed where
  /-- The signal that asks hooks to stop was to be taken over. -/
  | shielded (answer : Except IoError Unit)
  | wrote (text : Bytes) (answer : Except IoError Unit)
  | flushed (answer : Except IoError Unit)
  | relayed (text : Bytes) (answer : Except IoError Unit)
  | ran (call : Invocation)

namespace Deed

/-- Whether the output took what it was given, and the signal could be taken over. -/
def IsAccepted : Deed → Prop
  | shielded answer | wrote _ answer | flushed answer => answer = .ok ()
  | relayed .. | ran _ => True

def invocation? : Deed → Option Invocation
  | ran call => some call
  | _ => none

/-- All that was written to the output. -/
def written : List Deed → Bytes
  | [] => []
  | wrote text _ :: rest => text ++ written rest
  | _ :: rest => written rest

@[simp] theorem written_append (ds ds' : List Deed) :
    written (ds ++ ds') = written ds ++ written ds' := by
  induction ds with
  | nil => rfl
  | cons d ds ih => cases d <;> simp only [written, List.cons_append, ih, List.append_assoc]

end Deed

namespace Actions

variable {β : Signature} {S α : Type}

def deeds : List (Event (Actions β)) → List Deed
  | [] => []
  | ⟨.shieldStop, answer⟩ :: es => .shielded answer :: deeds es
  | ⟨.announce text, answer⟩ :: es => .wrote text answer :: deeds es
  | ⟨.flush, answer⟩ :: es => .flushed answer :: deeds es
  | ⟨.relay text, answer⟩ :: es => .relayed text answer :: deeds es
  | ⟨.invoke run, result⟩ :: es => .ran ⟨run, result⟩ :: deeds es
  | _ :: es => deeds es

@[simp] theorem deeds_append (es fs : List (Event (Actions β))) :
    deeds (es ++ fs) = deeds es ++ deeds fs := by
  induction es with
  | nil => rfl
  | cons e es ih =>
      obtain ⟨op, answer⟩ := e
      cases op <;> simp only [deeds, List.cons_append, ih]

theorem deeds_cons (e : Event (Actions β)) (es : List (Event (Actions β))) :
    deeds (e :: es) = deeds [e] ++ deeds es := deeds_append [e] es

theorem deeds_filter_isKept (verbose : Bool) (es : List (Event (Actions β))) :
    deeds (es.filter (isKept verbose)) = deeds es := by
  induction es with
  | nil => rfl
  | cons e es ih =>
      rw [List.filter_cons, deeds_cons e es]
      split
      · rw [deeds_cons, ih]
      · next hkept =>
          obtain ⟨op, answer⟩ := e
          cases op with
          | log record => exact ih
          | _ => exact absurd rfl hkept

theorem deeds_of_logs {es : List (Event (Actions β))}
    (h : ∀ e ∈ es, ∃ record, e = ⟨.log record, ()⟩) : deeds es = [] := by
  induction es with
  | nil => rfl
  | cons e es ih =>
      obtain ⟨⟨record, rfl⟩, hrest⟩ := List.forall_mem_cons.1 h
      exact ih hrest

theorem mem_deeds {es : List (Event (Actions β))} {call : Invocation} :
    .ran call ∈ deeds es ↔ (⟨.invoke call.run, call.result⟩ : Event (Actions β)) ∈ es := by
  induction es with
  | nil => exact ⟨nofun, nofun⟩
  | cons e es ih =>
      obtain ⟨op, answer⟩ := e
      cases op with
      | invoke run =>
          rw [deeds, List.mem_cons, List.mem_cons, ih]
          refine or_congr ⟨?_, ?_⟩ Iff.rfl
          · rintro ⟨⟩
            rfl
          · rintro ⟨⟩
            rfl
      | _ => simp [deeds, ih]

/-- Everything that others have a part in took what it was given. -/
def Accepts (es : List (Event (Actions β))) : Prop := ∀ d ∈ deeds es, d.IsAccepted

theorem accepts_append {es fs : List (Event (Actions β))} :
    Accepts (es ++ fs) ↔ Accepts es ∧ Accepts fs := by
  rw [Accepts, deeds_append]
  exact List.forall_mem_append

/-- Nothing is refused to a program that is driven. -/
theorem accepts_drive (answer : S → (op : β.Op) → β.Answer op × S) (w : Surroundings)
    (p : Program (Actions β) α) (s : S) : Accepts (drive answer w p s).1 := by
  induction p generalizing s with
  | done a => exact nofun
  | ask op next ih =>
      let reply := answerAll answer w s op
      have hone : Accepts (β := β) [⟨op, reply.1⟩] := by
        cases op <;> simp [Accepts, deeds, reply, answerAll, Deed.IsAccepted]
      exact accepts_append.2 ⟨hone, ih reply.1 reply.2⟩

/-! ## Programs of which nothing is seen -/

/-- The operations that nobody sees. -/
def IsUnseen : Action β → Prop
  | .backend _ | .draw | .log _ | .wait .. | .listen => True
  | .shieldStop | .announce _ | .flush | .relay _ | .invoke _ => False

theorem deeds_of_unseen {e : Event (Actions β)} (h : IsUnseen e.1) : deeds [e] = [] := by
  obtain ⟨op, answer⟩ := e
  cases op <;> first | rfl | exact h.elim

theorem deeds_of_asks {p : Program (Actions β) α} {es : List (Event (Actions β))} {a : α}
    (hp : Asks (σ := Actions β) IsUnseen p) (h : Runs p es a) : deeds es = [] := by
  induction h with
  | done => rfl
  | @ask op next answer es a _ ih =>
      rw [deeds_cons, deeds_of_unseen hp.1, ih (hp.2 answer)]
      rfl

theorem ofBackend_asks (p : Program β α) : Asks (σ := Actions β) IsUnseen (ofBackend p) := by
  induction p with
  | done a => exact asks_pure
  | ask op next ih => exact ⟨trivial, ih⟩

/-- The operations that start no hooks but those of which `P` holds. -/
def StartsOnly (P : HookRun → Prop) : Action β → Prop
  | .invoke run => P run
  | _ => True

theorem IsUnseen.startsOnly {op : Action β} (h : IsUnseen op) (P : HookRun → Prop) :
    StartsOnly P op := by
  cases op <;> trivial

theorem of_ran_mem_deeds {P : HookRun → Prop} {p : Program (Actions β) α}
    {es : List (Event (Actions β))} {a : α} (h : Runs p es a)
    (hp : Asks (σ := Actions β) (StartsOnly P) p) {call : Invocation} (hran : .ran call ∈ deeds es) :
    P call.run :=
  h.of_asks hp (mem_deeds.1 hran)

end Actions

open Actions

namespace Instances

theorem removeEach_asks (names : List String) (report : ResetReport) :
    Asks (σ := Actions Backend) IsUnseen (Instances.removeEach names report) := by
  induction names generalizing report with
  | nil => exact asks_pure
  | cons name rest ih =>
      refine asks_bind (asks_perform.2 trivial) fun removed => ?_
      match removed with
      | .ok () | .error e => exact asks_bind (asks_perform.2 trivial) fun _ => ih _

theorem resetAll_asks : Asks (σ := Actions Backend) IsUnseen Instances.resetAll := by
  refine asks_bind (asks_bind (asks_perform.2 trivial) fun _ => asks_pure) fun owned => ?_
  match owned with
  | .error e => exact asks_pure
  | .ok names =>
      exact asks_bind (removeEach_asks _ _) fun _ =>
        asks_bind (asks_perform.2 trivial) fun _ => asks_pure

end Instances

namespace ControlFiles

theorem isUnseen_of_rewrites {P : Path → Prop} {op : Action FileSystem} (h : Rewrites P op) :
    IsUnseen op := by
  cases op <;> trivial

theorem subdirectories_asks (dir : Path) :
    Asks (σ := Actions FileSystem) IsUnseen (subdirectories dir) := by
  refine asks_bind (asks_perform.2 trivial) fun listed => ?_
  match listed with
  | .ok entries | .error e => exact asks_pure

/-- Nobody but the file system sees that a call is answered. -/
theorem answer_asks (root : TracingRoot) (c : Call) :
    Asks (σ := Actions FileSystem) IsUnseen (answer root c) := by
  match c with
  | .createInstance name =>
      refine asks_bind (asks_perform.2 trivial) fun made => ?_
      split
      · exact asks_pure
      · exact asks_pure
      · refine asks_bind ((write_asks (P := fun _ => True) trivial _).mono
          fun _ => isUnseen_of_rewrites) fun written => ?_
        match written with
        | .ok () | .error e => exact asks_bind (asks_perform.2 trivial) fun _ => asks_pure
  | .findInstance name => exact asks_bind (asks_perform.2 trivial) fun _ => asks_pure
  | .destroyInstance name =>
      refine asks_bind (asks_perform.2 trivial) fun removed => ?_
      split
      · exact asks_pure
      · exact asks_pure
      · exact asks_bind (asks_perform.2 trivial) fun _ => asks_pure
  | .instanceNames | .availableEvents _ => exact subdirectories_asks _
  | .set i s =>
      exact (set_asks (P := fun _ => True) fun _ _ => trivial).mono fun _ => isUnseen_of_rewrites

/-- What is unseen of a program over a tracing backend is unseen of it over the files. -/
theorem realize_asks {α : Type} {root : TracingRoot} {p : Program (Actions Backend) α}
    (hp : Asks (σ := Actions Backend) IsUnseen p) :
    Asks (σ := Actions FileSystem) IsUnseen (realize root p) := by
  refine asks_expand hp fun op hop => ?_
  cases op with
  | backend c => exact answer_asks root c
  | draw | log | wait | listen => exact asks_perform.2 trivial
  | shieldStop | announce | flush | relay | invoke => exact hop.elim

/-- A program over a tracing backend does before others what it does over the files. -/
theorem runsOn_realize {α S : Type} {m : Responder FileSystem S} {root : TracingRoot}
    {p : Program (Actions Backend) α} {s t : S} {fs : List (Event (Actions FileSystem))} {a : α}
    (h : RunsOn m (realize root p) s fs a t) :
    ∃ es, RunsOn (through m (answer root)) p s es a t ∧ deeds es = deeds fs := by
  induction p generalizing s fs with
  | done a =>
      obtain ⟨rfl, rfl, rfl⟩ := runsOn_pure.1 h
      exact ⟨[], ⟨.done _, .nil _⟩, rfl⟩
  | ask op next ih =>
      obtain ⟨own, fs, reply, u, rfl, hown, hrest⟩ := runsOn_bind.1 h
      obtain ⟨es, ⟨hruns, hserved⟩, hdeeds⟩ := ih reply hrest
      refine ⟨⟨op, reply⟩ :: es, ⟨.ask hruns, ?_⟩, ?_⟩
      · cases op with
        | backend c => exact .cons ⟨own, hown⟩ hserved
        | _ =>
            -- any other operation is handed on as it is
            obtain rfl := runs_perform.1 hown.runs
            obtain rfl := Responder.serves_nil.1 hown.served
            exact hserved
      · rw [deeds_cons, deeds_append, hdeeds]
        cases op with
        | backend c => rw [deeds_of_asks (answer_asks root c) hown.runs]; rfl
        | _ =>
            obtain rfl := runs_perform.1 hown.runs
            rfl

end ControlFiles

end KernelTrace
