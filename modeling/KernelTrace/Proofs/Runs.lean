import KernelTrace.Actions

/-!
# Runs of programs against a backend with a state

`Program.Runs` says which operations a program asks for and leaves open who answers. A statement
about what a program does to a backend adds the other half: a *responder*, which says what answers
the backend can give in a state and what state it is in afterwards. The two meet in the list of
events, and that is what keeps the pieces apart: which settings a session makes is read off its
runs alone, what a setting does is read off the responder alone.

Everything that is no operation of the backend (random numbers, log records, waiting) gets any
answer at all, so a statement about all runs covers every draw and every way a wait can end.

Two things are needed of runs in general. A run of a sequence is a run of its parts (`runs_bind`),
and a run of an expanded program is a run of the program with each operation carried out
(`exists_runs_of_expand`).
-/

namespace KernelTrace

namespace Program

variable {σ τ : Signature} {α β : Type}

@[simp] theorem runs_pure {a b : α} {es : List (Event σ)} :
    Runs (pure a : Program σ α) es b ↔ es = [] ∧ b = a := by
  constructor
  · intro h
    cases h
    exact ⟨rfl, rfl⟩
  · rintro ⟨rfl, rfl⟩
    exact .done b

@[simp] theorem runs_bind {p : Program σ α} {f : α → Program σ β} {es : List (Event σ)} {b : β} :
    Runs (p >>= f) es b ↔ ∃ es₁ es₂ a, es = es₁ ++ es₂ ∧ Runs p es₁ a ∧ Runs (f a) es₂ b :=
  runs_bind_iff

@[simp] theorem runs_perform {op : σ.Op} {es : List (Event σ)} {a : σ.Answer op} :
    Runs (perform op) es a ↔ es = [⟨op, a⟩] := by
  constructor
  · intro h
    cases h with
    | ask rest =>
        cases rest
        rfl
  · rintro rfl
    exact .ask (.done a)

theorem runs_perform_bind {op : σ.Op} {f : σ.Answer op → Program σ β} {es : List (Event σ)}
    {b : β} :
    Runs (perform op >>= f) es b ↔ ∃ a rest, es = ⟨op, a⟩ :: rest ∧ Runs (f a) rest b := by
  rw [runs_bind]
  constructor
  · rintro ⟨es₁, rest, a, rfl, hfirst, hrest⟩
    obtain rfl := runs_perform.1 hfirst
    exact ⟨a, rest, rfl, hrest⟩
  · rintro ⟨a, rest, rfl, hrest⟩
    exact ⟨[⟨op, a⟩], rest, a, rfl, runs_perform.2 rfl, hrest⟩

/-- What a program does next depends on nothing but the answers: of two runs, one of which goes
on where the other has ended, both end there. -/
theorem Runs.prefix_unique {p : Program σ α} {es es' more more' : List (Event σ)} {a b : α}
    (h : Runs p es a) (h' : Runs p es' b) (heq : es ++ more = es' ++ more') :
    es = es' ∧ a = b := by
  induction h generalizing es' with
  | done a =>
      cases h'
      exact ⟨rfl, rfl⟩
  | ask _ ih =>
      cases h' with
      | ask rest' =>
          rw [List.cons_append, List.cons_append, List.cons.injEq] at heq
          obtain ⟨hev, htail⟩ := heq
          cases hev
          obtain ⟨rfl, rfl⟩ := ih rest' htail
          exact ⟨rfl, rfl⟩

/-! ## Programs that have not ended -/

/-- `Leads p es q`: once the operations of `es` have got their answers, `q` is left of `p`. -/
inductive Leads : Program σ α → List (Event σ) → Program σ α → Prop where
  | refl (p : Program σ α) : Leads p [] p
  | ask {op : σ.Op} {next : σ.Answer op → Program σ α} {answer : σ.Answer op}
      {es : List (Event σ)} {q : Program σ α} (rest : Leads (next answer) es q) :
      Leads (ask op next) (⟨op, answer⟩ :: es) q

theorem leads_append {p q : Program σ α} {es fs : List (Event σ)} :
    Leads p (es ++ fs) q ↔ ∃ mid, Leads p es mid ∧ Leads mid fs q := by
  constructor
  · intro h
    induction es generalizing p with
    | nil => exact ⟨p, .refl p, h⟩
    | cons e es ih =>
        cases h with
        | ask rest =>
            obtain ⟨mid, h₁, h₂⟩ := ih rest
            exact ⟨mid, .ask h₁, h₂⟩
  · rintro ⟨mid, h₁, h₂⟩
    induction h₁ with
    | refl => exact h₂
    | ask _ ih => exact .ask (ih h₂)

theorem runs_iff_leads {p : Program σ α} {es : List (Event σ)} {a : α} :
    Runs p es a ↔ Leads p es (done a) := by
  constructor
  · intro h
    induction h with
    | done a => exact .refl _
    | ask _ ih => exact .ask ih
  · intro h
    generalize hq : (done a : Program σ α) = q at h
    induction h with
    | refl =>
        subst hq
        exact .done a
    | ask _ ih => exact .ask (ih hq)

/-! ## What a program can ask for at all -/

/-- Every operation that the program may come to ask for is one that `P` allows. -/
def Asks (P : σ.Op → Prop) : Program σ α → Prop
  | done _ => True
  | ask op next => P op ∧ ∀ answer, Asks P (next answer)

@[simp] theorem asks_pure {P : σ.Op → Prop} {a : α} : Asks P (pure a : Program σ α) := trivial

@[simp] theorem asks_perform {P : σ.Op → Prop} {op : σ.Op} : Asks P (perform op) ↔ P op :=
  ⟨fun h => h.1, fun h => ⟨h, fun _ => trivial⟩⟩

theorem Asks.mono {P Q : σ.Op → Prop} {p : Program σ α} (h : Asks P p)
    (hPQ : ∀ op, P op → Q op) : Asks Q p := by
  induction p with
  | done a => exact asks_pure
  | ask op next ih => exact ⟨hPQ op h.1, fun answer => ih answer (h.2 answer)⟩

theorem asks_bind {P : σ.Op → Prop} {p : Program σ α} {f : α → Program σ β}
    (hp : Asks P p) (hf : ∀ a, Asks P (f a)) : Asks P (p >>= f) := by
  induction p with
  | done a => exact hf a
  | ask op next ih => exact ⟨hp.1, fun answer => ih answer (hp.2 answer)⟩

theorem asks_expand {P : σ.Op → Prop} {Q : τ.Op → Prop} {f : (op : σ.Op) → Program τ (σ.Answer op)}
    {p : Program σ α} (hp : Asks P p) (hf : ∀ op, P op → Asks Q (f op)) : Asks Q (p.expand f) := by
  induction p with
  | done a => exact asks_pure
  | ask op next ih => exact asks_bind (hf op hp.1) fun answer => ih answer (hp.2 answer)

theorem Runs.of_asks {P : σ.Op → Prop} {p : Program σ α} {es : List (Event σ)} {a : α}
    (h : Runs p es a) (hp : Asks P p) {e : Event σ} (he : e ∈ es) : P e.1 := by
  induction h with
  | done => exact absurd he List.not_mem_nil
  | ask _ ih =>
      rcases List.mem_cons.1 he with rfl | he
      · exact hp.1
      · exact ih (hp.2 _) he

theorem Asks.leads {P : σ.Op → Prop} {p q : Program σ α} {es : List (Event σ)} (h : Asks P p)
    (hleads : Leads p es q) : Asks P q := by
  induction hleads with
  | refl => exact h
  | ask _ ih => exact ih (h.2 _)

/-- The program asks for at most so many operations, whatever it is answered. -/
def EndsWithin : Nat → Program σ α → Prop
  | _, done _ => True
  | 0, ask .. => False
  | n + 1, ask _ next => ∀ answer, EndsWithin n (next answer)

theorem EndsWithin.length_le {n : Nat} {p q : Program σ α} {es : List (Event σ)}
    (h : EndsWithin n p) (hleads : Leads p es q) : es.length ≤ n := by
  induction hleads generalizing n with
  | refl => exact Nat.zero_le n
  | ask _ ih =>
      cases n with
      | zero => exact h.elim
      | succ n => exact Nat.succ_le_succ (ih (h _))

end Program

/-! ## Responders -/

open Program

/-- What answers operations: from a state, an operation can get an answer and leave a state. -/
abbrev Responder (σ : Signature) (S : Type) : Type :=
  S → (op : σ.Op) → σ.Answer op → S → Prop

namespace Responder

variable {σ : Signature} {S : Type}

def ofFunction (answer : S → (op : σ.Op) → σ.Answer op × S) : Responder σ S :=
  fun s op a t => answer s op = (a, t)

/-- `m.Serves s es t`: from `s`, the operations of `es` in turn can get the answers listed there,
and `t` is left. -/
inductive Serves (m : Responder σ S) : S → List (Event σ) → S → Prop where
  | nil (s : S) : Serves m s [] s
  | cons {s t u : S} {op : σ.Op} {answer : σ.Answer op} {es : List (Event σ)}
      (step : m s op answer t) (rest : Serves m t es u) : Serves m s (⟨op, answer⟩ :: es) u

variable {m : Responder σ S} {s t u : S}

@[simp] theorem serves_nil : m.Serves s [] t ↔ t = s := by
  constructor
  · intro h
    cases h
    rfl
  · rintro rfl
    exact .nil t

theorem serves_cons {e : Event σ} {es : List (Event σ)} :
    m.Serves s (e :: es) u ↔ ∃ t, m s e.1 e.2 t ∧ m.Serves t es u := by
  constructor
  · intro h
    cases h with
    | cons step rest => exact ⟨_, step, rest⟩
  · rintro ⟨t, step, rest⟩
    exact .cons step rest

theorem serves_append {es fs : List (Event σ)} :
    m.Serves s (es ++ fs) u ↔ ∃ t, m.Serves s es t ∧ m.Serves t fs u := by
  induction es generalizing s with
  | nil => simp
  | cons e es ih =>
      rw [List.cons_append, serves_cons]
      constructor
      · rintro ⟨t, step, rest⟩
        obtain ⟨v, h₁, h₂⟩ := ih.1 rest
        exact ⟨v, serves_cons.2 ⟨t, step, h₁⟩, h₂⟩
      · rintro ⟨v, h₁, h₂⟩
        obtain ⟨t, step, rest⟩ := serves_cons.1 h₁
        exact ⟨t, step, ih.2 ⟨v, rest, h₂⟩⟩

/-- Each of the operations was answered in some state on the way. -/
theorem Serves.exists_of_mem {es : List (Event σ)} (h : m.Serves s es u) {e : Event σ}
    (he : e ∈ es) : ∃ before after v w, es = before ++ e :: after ∧ m.Serves s before v ∧
      m v e.1 e.2 w ∧ m.Serves w after u := by
  obtain ⟨before, after, rfl⟩ := List.append_of_mem he
  obtain ⟨v, hbefore, hrest⟩ := serves_append.1 h
  obtain ⟨w, hstep, hafter⟩ := serves_cons.1 hrest
  exact ⟨before, after, v, w, rfl, hbefore, hstep, hafter⟩

theorem Serves.deterministic {answer : S → (op : σ.Op) → σ.Answer op × S} {es : List (Event σ)}
    (h : (ofFunction answer).Serves s es t) (h' : (ofFunction answer).Serves s es u) : t = u := by
  induction h with
  | nil => exact (serves_nil.1 h').symm
  | cons step _ ih =>
      obtain ⟨v, step', rest'⟩ := serves_cons.1 h'
      obtain rfl := congrArg Prod.snd (step.symm.trans step')
      exact ih rest'

theorem Serves.mono {m' : Responder σ S} (hm : ∀ {s op a t}, m s op a t → m' s op a t)
    {es : List (Event σ)} (h : m.Serves s es t) : m'.Serves s es t := by
  induction h with
  | nil s => exact .nil s
  | cons step _ ih => exact .cons (hm step) ih

/-- Operations that can each get their answer in a state that they leave as it is. -/
theorem serves_of_unchanged {es : List (Event σ)} (h : ∀ e ∈ es, m s e.1 e.2 s) :
    m.Serves s es s := by
  induction es with
  | nil => exact .nil s
  | cons e es ih =>
      exact serves_cons.2
        ⟨s, h e List.mem_cons_self, ih fun e he => h e (List.mem_cons_of_mem _ he)⟩

/-- What one operation preserves, every list of operations preserves. -/
theorem Serves.invariant {P : S → Prop} {Q : Event σ → Prop} {es : List (Event σ)}
    (step : ∀ {s t : S} {e : Event σ}, Q e → m s e.1 e.2 t → P s → P t)
    (h : m.Serves s es t) (hQ : ∀ e ∈ es, Q e) (hs : P s) : P t := by
  induction h with
  | nil => exact hs
  | cons hstep _ ih =>
      exact ih (fun e he => hQ e (List.mem_cons_of_mem _ he))
        (step (hQ _ List.mem_cons_self) hstep hs)

end Responder

/-! ## The backend's part in a run of orchestration -/

namespace Actions

variable {β γ : Signature} {S α δ : Type}

/-- The operations of the backend among some events, with their answers. -/
def calls : List (Event (Actions β)) → List (Event β)
  | [] => []
  | ⟨.backend op, answer⟩ :: es => ⟨op, answer⟩ :: calls es
  | _ :: es => calls es

@[simp] theorem calls_nil : calls ([] : List (Event (Actions β))) = [] := rfl

@[simp] theorem calls_backend {op : β.Op} {answer : β.Answer op} {es : List (Event (Actions β))} :
    calls (⟨.backend op, answer⟩ :: es) = ⟨op, answer⟩ :: calls es := rfl

theorem calls_cons_of_ne {op : Action β} {answer : op.Answer} {es : List (Event (Actions β))}
    (h : ∀ c, op ≠ .backend c) : calls (⟨op, answer⟩ :: es) = calls es := by
  cases op with
  | backend c => exact absurd rfl (h c)
  | _ => rfl

@[simp] theorem calls_log {record : LogRecord} {u : Unit} {es : List (Event (Actions β))} :
    calls (⟨.log record, u⟩ :: es) = calls es := rfl

@[simp] theorem calls_append (es fs : List (Event (Actions β))) :
    calls (es ++ fs) = calls es ++ calls fs := by
  induction es with
  | nil => rfl
  | cons e es ih =>
      obtain ⟨op, answer⟩ := e
      cases op <;> simp only [calls, List.cons_append, ih]

theorem mem_calls {es : List (Event (Actions β))} {op : β.Op} {answer : β.Answer op} :
    (⟨op, answer⟩ : Event β) ∈ calls es ↔
      (⟨.backend op, answer⟩ : Event (Actions β)) ∈ es := by
  induction es with
  | nil => simp
  | cons e es ih =>
      obtain ⟨op', answer'⟩ := e
      cases op' with
      | backend c =>
          rw [calls_backend, List.mem_cons, List.mem_cons, ih]
          refine or_congr ⟨?_, ?_⟩ Iff.rfl
          · rintro ⟨⟩
            rfl
          · rintro ⟨⟩
            rfl
      | _ =>
          rw [calls_cons_of_ne (fun _ => by simp), ih, List.mem_cons]
          exact ⟨Or.inr, fun h => h.resolve_left (by simp)⟩

theorem calls_cons (e : Event (Actions β)) (es : List (Event (Actions β))) :
    calls (e :: es) = calls [e] ++ calls es := calls_append [e] es

theorem calls_sublist {es fs : List (Event (Actions β))} (h : es.Sublist fs) :
    (calls es).Sublist (calls fs) := by
  induction h with
  | slnil => exact .slnil
  | @cons es fs e _ ih =>
      rw [calls_cons e fs]
      exact ih.trans (List.sublist_append_right _ _)
  | @cons_cons es fs e _ ih =>
      rw [calls_cons e es, calls_cons e fs]
      exact (List.Sublist.refl _).append ih

/-- `RunsOn m p s es a t`: with the backend `m` in the state `s`, the program `p` can ask for what
`es` lists, get the answers listed there and end with `a`, and the backend is left in `t`. -/
structure RunsOn (m : Responder β S) (p : Program (Actions β) α) (s : S)
    (es : List (Event (Actions β))) (a : α) (t : S) : Prop where
  runs : Runs p es a
  served : m.Serves s (calls es) t

theorem runsOn_bind {m : Responder β S} {p : Program (Actions β) α} {f : α → Program (Actions β) δ}
    {s u : S} {es : List (Event (Actions β))} {b : δ} :
    RunsOn m (p >>= f) s es b u ↔
      ∃ es₁ es₂ a t, es = es₁ ++ es₂ ∧ RunsOn m p s es₁ a t ∧ RunsOn m (f a) t es₂ b u := by
  constructor
  · rintro ⟨hruns, hserved⟩
    obtain ⟨es₁, es₂, a, rfl, h₁, h₂⟩ := runs_bind.1 hruns
    rw [calls_append] at hserved
    obtain ⟨t, hs₁, hs₂⟩ := Responder.serves_append.1 hserved
    exact ⟨es₁, es₂, a, t, rfl, ⟨h₁, hs₁⟩, ⟨h₂, hs₂⟩⟩
  · rintro ⟨es₁, es₂, a, t, rfl, ⟨h₁, hs₁⟩, ⟨h₂, hs₂⟩⟩
    refine ⟨runs_bind.2 ⟨es₁, es₂, a, rfl, h₁, h₂⟩, ?_⟩
    rw [calls_append]
    exact Responder.serves_append.2 ⟨t, hs₁, hs₂⟩

variable {m : Responder β S} {s t u : S}

theorem runsOn_pure {es : List (Event (Actions β))} {a b : α} :
    RunsOn m (pure a) s es b t ↔ es = [] ∧ b = a ∧ t = s := by
  constructor
  · rintro ⟨hruns, hserved⟩
    obtain ⟨rfl, rfl⟩ := runs_pure.1 hruns
    exact ⟨rfl, rfl, Responder.serves_nil.1 hserved⟩
  · rintro ⟨rfl, rfl, rfl⟩
    exact ⟨.done b, .nil t⟩

theorem runsOn_perform_bind {op : Action β} {f : op.Answer → Program (Actions β) α}
    {es : List (Event (Actions β))} {b : α} :
    RunsOn m (perform op >>= f) s es b u ↔
      ∃ a rest t, es = ⟨op, a⟩ :: rest ∧ m.Serves s (calls [⟨op, a⟩]) t ∧
        RunsOn m (f a) t rest b u := by
  rw [runsOn_bind]
  constructor
  · rintro ⟨es₁, rest, a, t, rfl, ⟨hfirst, hserved⟩, hrest⟩
    obtain rfl := runs_perform.1 hfirst
    exact ⟨a, rest, t, rfl, hserved, hrest⟩
  · rintro ⟨a, rest, t, rfl, hserved, hrest⟩
    exact ⟨[⟨op, a⟩], rest, a, t, rfl, ⟨runs_perform.2 rfl, hserved⟩, hrest⟩

theorem RunsOn.after_log {level : LogLevel} {message : String} {f : Unit → Program (Actions β) α}
    {es : List (Event (Actions β))} {b : α} (h : RunsOn m (log level message >>= f) s es b u) :
    ∃ rest, es = ⟨.log ⟨level, message⟩, ()⟩ :: rest ∧ RunsOn m (f ()) s rest b u := by
  obtain ⟨_, rest, t, rfl, hserved, hrest⟩ := runsOn_perform_bind.1 h
  obtain rfl := Responder.serves_nil.1 hserved
  exact ⟨rest, rfl, hrest⟩

theorem RunsOn.after_draw {f : Draw → Program (Actions β) α} {es : List (Event (Actions β))}
    {b : α} (h : RunsOn m (draw >>= f) s es b u) :
    ∃ d rest, es = ⟨.draw, d⟩ :: rest ∧ RunsOn m (f d) s rest b u := by
  obtain ⟨d, rest, t, rfl, hserved, hrest⟩ := runsOn_perform_bind.1 h
  obtain rfl := Responder.serves_nil.1 hserved
  exact ⟨d, rest, rfl, hrest⟩

theorem RunsOn.after_backend {op : β.Op} {f : β.Answer op → Program (Actions β) α}
    {es : List (Event (Actions β))} {b : α} (h : RunsOn m (backend op >>= f) s es b u) :
    ∃ a rest t, es = ⟨.backend op, a⟩ :: rest ∧ m s op a t ∧ RunsOn m (f a) t rest b u := by
  obtain ⟨a, rest, t, rfl, hserved, hrest⟩ := runsOn_perform_bind.1 h
  obtain ⟨v, hstep, hend⟩ := Responder.serves_cons.1 hserved
  obtain rfl := Responder.serves_nil.1 hend
  exact ⟨a, rest, t, rfl, hstep, hrest⟩

theorem ofBackend_bind (p : Program β α) (f : α → Program β δ) :
    ofBackend (p >>= f) = ofBackend p >>= fun a => ofBackend (f a) :=
  expand_bind ..

theorem RunsOn.after_perform {op : β.Op} {f : β.Answer op → Program β α}
    {es : List (Event (Actions β))} {b : α}
    (h : RunsOn m (ofBackend (Program.perform (σ := β) op >>= f)) s es b u) :
    ∃ a rest t, es = ⟨.backend op, a⟩ :: rest ∧ m s op a t ∧
      RunsOn m (ofBackend (f a)) t rest b u := by
  rw [ofBackend_bind] at h
  exact h.after_backend

/-- The program comes to an end, and `Q` holds of every way in which it can. -/
def Ensures (m : Responder β S) (p : Program (Actions β) α) (s : S)
    (Q : List (Event (Actions β)) → α → S → Prop) : Prop :=
  (∃ es a t, RunsOn m p s es a t) ∧ ∀ es a t, RunsOn m p s es a t → Q es a t

structure Surroundings where
  draw : Draw
  wake : WakeReason
  hook : HookRun → Except HookFault HookResult

def answerAll (answer : S → (op : β.Op) → β.Answer op × S) (w : Surroundings) (s : S) :
    (op : Action β) → op.Answer × S
  | .backend op => answer s op
  | .draw => (w.draw, s)
  | .log _ => ((), s)
  | .wait .. => (w.wake, s)
  | .shieldStop | .listen | .announce _ | .flush | .relay _ => (.ok (), s)
  | .invoke run => (w.hook run, s)

/-- The run of a program over a backend that has one answer to each operation: its events, its
value and the state it leaves. -/
def drive (answer : S → (op : β.Op) → β.Answer op × S) (w : Surroundings) :
    Program (Actions β) α → S → List (Event (Actions β)) × α × S
  | .done a, s => ([], a, s)
  | .ask op next, s =>
    let (reply, t) := answerAll answer w s op
    let (es, a, u) := drive answer w (next reply) t
    (⟨op, reply⟩ :: es, a, u)

/-- Every program comes to its end over such a backend. -/
theorem runsOn_drive (answer : S → (op : β.Op) → β.Answer op × S) (w : Surroundings)
    (p : Program (Actions β) α) (s : S) :
    RunsOn (.ofFunction answer) p s (drive answer w p s).1 (drive answer w p s).2.1
      (drive answer w p s).2.2 := by
  induction p generalizing s with
  | done a => exact ⟨.done a, .nil s⟩
  | ask op next ih =>
      obtain ⟨hruns, hserved⟩ := ih (answerAll answer w s op).1 (answerAll answer w s op).2
      refine ⟨.ask hruns, ?_⟩
      cases op with
      | backend c => exact .cons rfl hserved
      | _ => exact hserved

/-- In such a run the signals that ask for a stop can always be taken. -/
theorem listen_of_drive {answer : S → (op : β.Op) → β.Answer op × S} {w : Surroundings}
    {p : Program (Actions β) α} {s : S} {heard : Except IoError Unit}
    (h : (⟨.listen, heard⟩ : Event (Actions β)) ∈ (drive answer w p s).1) : heard = .ok () := by
  induction p generalizing s with
  | done a => cases h
  | ask op next ih =>
      rcases List.mem_cons.1 h with heq | h
      · cases heq
        rfl
      · exact ih _ h

/-- A backend that answers every operation in every state leaves no operation of orchestration
without an answer: those that are not the backend's can get any. -/
theorem exists_answer (hm : ∀ s op, ∃ a t, m s op a t) (s : S) (op : Action β) :
    ∃ (answer : op.Answer) (t : S), m.Serves s (calls [⟨op, answer⟩]) t := by
  match op with
  | .backend c =>
      obtain ⟨answer, t, hstep⟩ := hm s c
      exact ⟨answer, t, .cons hstep (.nil t)⟩
  | .draw => exact ⟨(0 : Draw), s, .nil s⟩
  | .log _ => exact ⟨(), s, .nil s⟩
  | .wait .. => exact ⟨WakeReason.closed, s, .nil s⟩
  | .shieldStop | .listen | .announce _ | .flush | .relay _ =>
      exact ⟨(.ok () : Except IoError Unit), s, .nil s⟩
  | .invoke _ => exact ⟨(.error (.wait (.os .noChild)) : Except HookFault HookResult), s, .nil s⟩

/-- Over such a backend a program comes to its end. -/
theorem exists_runsOn_of_answers (hm : ∀ s op, ∃ a t, m s op a t) (p : Program (Actions β) α)
    (s : S) : ∃ es a t, RunsOn m p s es a t := by
  induction p generalizing s with
  | done a => exact ⟨[], a, s, .done a, .nil s⟩
  | ask op next ih =>
      obtain ⟨answer, t, hserved⟩ := exists_answer hm s op
      obtain ⟨es, a, u, hruns, hrest⟩ := ih answer t
      refine ⟨⟨op, answer⟩ :: es, a, u, .ask hruns, ?_⟩
      rw [calls_cons]
      exact Responder.serves_append.2 ⟨t, hserved, hrest⟩

/-! ## Backends built on backends -/

def through (m : Responder γ S) (f : (op : β.Op) → Program (Actions γ) (β.Answer op)) :
    Responder β S :=
  fun s op answer t => ∃ es, RunsOn m (f op) s es answer t

/-- `Carries m f s es fs t`: carrying out the operations `es` by the programs `f` asks the
responder `m` for `fs` and takes it from `s` to `t`. -/
inductive Carries (m : Responder γ S) (f : (op : β.Op) → Program (Actions γ) (β.Answer op)) :
    S → List (Event β) → List (Event γ) → S → Prop where
  | nil (s : S) : Carries m f s [] [] s
  | cons {s t u : S} {op : β.Op} {answer : β.Answer op} {es : List (Event β)}
      {own : List (Event (Actions γ))} {fs : List (Event γ)}
      (first : RunsOn m (f op) s own answer t) (rest : Carries m f t es fs u) :
      Carries m f s (⟨op, answer⟩ :: es) (calls own ++ fs) u

variable {m : Responder γ S} {f : (op : β.Op) → Program (Actions γ) (β.Answer op)}

/-- An operation of the lower responder belongs to the carrying out of one of the upper one. -/
theorem Carries.exists_of_mem {es : List (Event β)} {fs : List (Event γ)}
    (h : Carries m f s es fs t) {e : Event γ} (he : e ∈ fs) :
    ∃ before op answer after own u v, es = before ++ ⟨op, answer⟩ :: after ∧
      (through m f).Serves s before u ∧ RunsOn m (f op) u own answer v ∧ e ∈ calls own := by
  induction h with
  | nil => exact absurd he List.not_mem_nil
  | @cons s t u op answer es own fs first rest ih =>
      rcases List.mem_append.1 he with he | he
      · exact ⟨[], op, answer, es, own, s, t, rfl, .nil s, first, he⟩
      · obtain ⟨before, op', answer', after, own', v, w, rfl, hserves, hrun, hmem⟩ := ih he
        exact ⟨⟨op, answer⟩ :: before, op', answer', after, own', v, w, rfl,
          .cons ⟨own, first⟩ hserves, hrun, hmem⟩

/-- Every operation of the upper responder has been carried out. -/
theorem Carries.exists_own {es : List (Event β)} {fs : List (Event γ)} (h : Carries m f s es fs t)
    {e : Event β} (he : e ∈ es) :
    ∃ u own v, RunsOn m (f e.1) u own e.2 v ∧ ∀ x ∈ calls own, x ∈ fs := by
  induction h with
  | nil => exact absurd he List.not_mem_nil
  | @cons s u t op answer es own fs first rest ih =>
      rcases List.mem_cons.1 he with rfl | he
      · exact ⟨s, own, u, first, fun x hx => List.mem_append_left _ hx⟩
      · obtain ⟨u', own', v', hrun, hsub⟩ := ih he
        exact ⟨u', own', v', hrun, fun x hx => List.mem_append_right _ (hsub x hx)⟩

/-- A run of an expanded program is a run of the program in which each operation of the backend is
carried out by its program. -/
theorem exists_runs_of_expand {p : Program (Actions β) α} {fs : List (Event (Actions γ))} {a : α}
    (h : RunsOn m (p.expand (onBackend (β := β) f)) s fs a t) :
    ∃ es, Runs p es a ∧ Carries m f s (calls es) (calls fs) t := by
  induction p generalizing s fs with
  | done a =>
      obtain ⟨hruns, hserved⟩ := h
      cases hruns
      obtain rfl := Responder.serves_nil.1 hserved
      exact ⟨[], .done a, .nil t⟩
  | ask op next ih =>
      obtain ⟨own, fs, answer, u, rfl, hown, hrest⟩ := runsOn_bind.1 h
      obtain ⟨es, hruns, hcarries⟩ := ih answer hrest
      refine ⟨⟨op, answer⟩ :: es, .ask hruns, ?_⟩
      rw [calls_append]
      cases op with
      | backend c => exact .cons hown hcarries
      | _ =>
          -- any other operation is handed on as it is
          obtain ⟨hruns', hserved⟩ := hown
          obtain rfl := runs_perform.1 hruns'
          obtain rfl := Responder.serves_nil.1 hserved
          exact hcarries

theorem carries_append {es es' : List (Event β)} {fs : List (Event γ)} :
    Carries m f s (es ++ es') fs t ↔ ∃ fs₁ fs₂ u, fs = fs₁ ++ fs₂ ∧ Carries m f s es fs₁ u ∧
      Carries m f u es' fs₂ t := by
  constructor
  · intro h
    induction es generalizing s fs with
    | nil => exact ⟨[], fs, s, rfl, .nil s, h⟩
    | cons e es ih =>
        cases h with
        | @cons _ u _ _ _ _ own later first rest =>
            obtain ⟨fs₁, fs₂, v, rfl, h₁, h₂⟩ := ih rest
            exact ⟨calls own ++ fs₁, fs₂, v, (List.append_assoc ..).symm, .cons first h₁, h₂⟩
  · rintro ⟨fs₁, fs₂, u, rfl, h₁, h₂⟩
    induction h₁ with
    | nil => exact h₂
    | cons first _ ih =>
        rw [List.append_assoc]
        exact .cons first (ih h₂)

theorem Carries.served {es : List (Event β)} {fs : List (Event γ)}
    (h : Carries m f s es fs t) : (through m f).Serves s es t := by
  induction h with
  | nil s => exact .nil s
  | cons first _ ih => exact .cons ⟨_, first⟩ ih

theorem RunsOn.through {p : Program (Actions β) α} {fs : List (Event (Actions γ))} {a : α}
    (h : RunsOn m (p.expand (onBackend (β := β) f)) s fs a t) :
    ∃ es, RunsOn (through m f) p s es a t := by
  obtain ⟨es, hruns, hcarries⟩ := exists_runs_of_expand h
  exact ⟨es, hruns, hcarries.served⟩

end Actions

end KernelTrace
