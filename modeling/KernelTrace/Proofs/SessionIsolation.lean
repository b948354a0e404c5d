import KernelTrace.Proofs.Interleaving
import KernelTrace.Proofs.SessionAtRest

/-!
# Sessions that share a backend

Sessions take no locks and know nothing of each other. What keeps them apart is that creating an
instance is atomic and fails if the name is taken. An anonymous session holds an instance from the
moment in which it has created it, and a session sets things on the instance that it holds and on no
other, so it never matters in which order the sessions take their turns.

The proof has three layers. `anonymous` is the protocol that such a session obeys, whatever it is
answered. `turn_cases` says what one turn of a program that obeys the protocol can do to a
recording. `Isolated` is what every turn preserves: the state of an instance that a session holds is
what the session's own settings have made of a fresh instance, no two sessions hold the same one,
and what was live before is as it was.
-/

namespace KernelTrace

open Program Actions

namespace Session

/-- The protocol of a session for no instance in particular. Its state is the instance that the
session holds. As long as it holds none it may create some, and then it may set things on that
one. -/
def anonymous : Protocol (Actions Backend) (Option Instance) where
  allows
    | none, .backend (.createInstance _) => True
    | some i, .backend (.set j _) => j = i
    | _, .backend _ => False
    | _, _ => True
  after
    | none, ⟨.backend (.createInstance _), .ok i⟩ => some i
    | held, _ => held

theorem anonymous_reached_some (i : Instance) (es : List (Event (Actions Backend))) :
    anonymous.reached (some i) es = some i := by
  induction es with
  | nil => rfl
  | cons e es ih => exact ih

/-- An attempt that fails leaves the session without an instance, so it may try again. -/
theorem createFrom_obeys (left : Nat) (failed : List TracingError) :
    Obeys anonymous (fun held result => held = result.toOption) none
      (Instances.createFrom left failed) := by
  induction left generalizing failed with
  | zero => rfl
  | succ left ih =>
      refine ⟨trivial, fun d => ⟨trivial, fun created => ?_⟩⟩
      match created with
      | .ok i => exact ⟨trivial, fun _ => rfl⟩
      | .error e => exact ⟨trivial, fun _ => ih _⟩

theorem conduct_obeys (r : TraceRequest) (i : Instance) :
    Obeys anonymous (fun _ _ => True) (some i) (conduct r i) := by
  refine (conduct_asks r i).obeys ?_ (fun _ _ _ => rfl) (fun _ => trivial)
  intro op hop
  match op with
  | .backend (.set j s) => exact hop
  | .log _ | .wait .. => trivial

theorem execute_obeys {r : TraceRequest} (hr : r.inst = none) :
    Obeys anonymous (fun _ _ => True) none (execute r) := by
  rw [execute_eq, hr]
  split
  · refine obeys_bind.2 ((createFrom_obeys _ _).mono ?_)
    rintro held (e | i) rfl
    · exact ⟨trivial, fun _ => trivial⟩
    · exact conduct_obeys r i
  · exact ⟨trivial, fun _ => trivial⟩

def held (es : List (Event (Actions Backend))) : Option Instance := anonymous.reached none es

theorem held_append_one (es : List (Event (Actions Backend))) (e : Event (Actions Backend)) :
    held (es ++ [e]) = anonymous.after (held es) e :=
  anonymous.reached_append none es [e]

/-- A session holds what it has bound, from then on and for good. -/
theorem held_of_bind {before : List (Event (Actions Backend))} {i : Instance}
    (h : Runs (Instances.bind none) before (.ok i)) (after : List (Event (Actions Backend))) :
    held (before ++ after) = some i := by
  have hbound : anonymous.reached none before = some i := (createFrom_obeys _ _).runs h
  rw [held, Protocol.reached_append, hbound, anonymous_reached_some]

variable {s s' : Recording} {es : List (Event (Actions Backend))} {e : Event (Actions Backend)}

/-- A turn of an anonymous session leaves the instances alone, or adds a fresh one under a name that
was free, or sets something on the instance that the session holds. -/
theorem turn_cases (hallows : anonymous.allows (held es) e.1)
    (hserved : Recording.responder.Serves s (calls [e]) s') :
    (∀ knob, s'.failing knob ≤ s.failing knob) ∧
      ((held (es ++ [e]) = held es ∧ settingsOf [e] = [] ∧ s'.instances = s.instances) ∨
        (∃ name, held es = none ∧ held (es ++ [e]) = some (Recording.instanceOf name) ∧
          settingsOf [e] = [] ∧ s.instances.get? name.text = none ∧
          s'.instances = s.instances.insert name.text .fresh) ∨
        ∃ i c, held es = some i ∧ held (es ++ [e]) = some i ∧ settingsOf [e] = [c] ∧
          (c.answer = .ok () ∨ 0 < s.failing c.setting.knob ∨
            s.instances.get? i.name.text = none) ∧
          s'.instances.get? i.name.text = (s.instances.get? i.name.text).map (·.replay [c]) ∧
          ∀ name, name ≠ i.name.text → s'.instances.get? name = s.instances.get? name) := by
  rw [held_append_one]
  generalize held es = h at hallows ⊢
  obtain ⟨op, answer⟩ := e
  match h, op with
  | none, .backend (.createInstance name) =>
      obtain ⟨t, hstep, hend⟩ := Responder.serves_cons.1 hserved
      obtain rfl := Responder.serves_nil.1 hend
      obtain ⟨hfailing, -, hcase⟩ := Recording.create_cases hstep
      refine ⟨fun knob => Nat.le_of_eq (congrFun hfailing knob), ?_⟩
      obtain ⟨_, rfl, hsame⟩ | ⟨rfl, hfree, hins⟩ := hcase
      · exact Or.inl ⟨rfl, rfl, hsame⟩
      · exact Or.inr (Or.inl ⟨name, rfl, rfl, rfl, hfree, hins⟩)
  | some i, .backend (.set j setting) =>
      obtain rfl : j = i := hallows
      obtain ⟨hown, hothers⟩ := Recording.serves_settings hserved fun e he => by
        obtain rfl := List.mem_singleton.1 he
        exact ⟨setting, answer, rfl⟩
      obtain ⟨t, hstep, hend⟩ := Responder.serves_cons.1 hserved
      obtain rfl := Responder.serves_nil.1 hend
      obtain ⟨-, hle, hcase⟩ := Recording.set_cases hstep
      refine ⟨hle, Or.inr (Or.inr ⟨j, ⟨j, setting, answer⟩, rfl, rfl, rfl, ?_, hown, hothers⟩)⟩
      obtain ⟨_, -, -, hwhy⟩ | ⟨_, rfl, -⟩ := hcase
      · exact Or.inr hwhy
      · exact Or.inl rfl
  | none, .log _ | none, .draw | none, .wait .. | none, .shieldStop | none, .listen
  | none, .announce _ | none, .flush | none, .relay _ | none, .invoke _
  | some _, .log _ | some _, .draw | some _, .wait .. | some _, .shieldStop | some _, .listen
  | some _, .announce _ | some _, .flush | some _, .relay _ | some _, .invoke _ =>
      obtain rfl := Responder.serves_nil.1 hserved
      exact ⟨fun _ => Nat.le_refl _, Or.inl ⟨rfl, rfl, rfl⟩⟩

/-- A turn changes no instance but the one that the session holds. -/
theorem turn_others (hallows : anonymous.allows (held es) e.1)
    (hserved : Recording.responder.Serves s (calls [e]) s') {name : String} {st : InstanceState}
    (hlive : s.instances.get? name = some st) (hne : ∀ i, held es = some i → i.name.text ≠ name) :
    s'.instances.get? name = some st := by
  obtain ⟨-, ⟨-, -, hsame⟩ | ⟨free, -, -, -, hfree, hins⟩ | ⟨i, c, hheld, -, -, -, -, hothers⟩⟩ :=
    turn_cases hallows hserved
  · rw [hsame, hlive]
  · have hname : name ≠ free.text := by
      rintro rfl
      rw [hfree] at hlive
      cases hlive
    rw [hins, SortedMap.get?_insert_of_ne _ _ hname, hlive]
  · rw [hothers name (hne i hheld).symm, hlive]

/-! ## What every turn preserves -/

/-- What a session has done in the turns `es`: the instance that it holds is new, and it is in the
state that the session's own settings have made of a fresh one. -/
structure Owned (start now : Recording) (es : List (Event (Actions Backend))) : Prop where
  unset : held es = none → settingsOf es = []
  new : ∀ i, held es = some i → start.instances.get? i.name.text = none
  state : ∀ i, held es = some i →
    now.instances.get? i.name.text = some (InstanceState.fresh.replay (settingsOf es))
  made : ∀ c ∈ settingsOf es, c.answer = .ok ()

variable {start : Recording}

/-- A turn of the session itself. What it holds afterwards it held before, or nobody had it. -/
theorem Owned.turn (h : Owned start s es) (hunfailing : ∀ knob, s.failing knob = 0)
    (hkept : ∀ name, s.instances.get? name = none → start.instances.get? name = none)
    (hallows : anonymous.allows (held es) e.1)
    (hserved : Recording.responder.Serves s (calls [e]) s') :
    Owned start s' (es ++ [e]) ∧
      ∀ i, held (es ++ [e]) = some i →
        held es = some i ∨ s.instances.get? i.name.text = none := by
  obtain ⟨-, ⟨hheld, hset, hsame⟩ | ⟨name, hheld, hheld', hset, hfree, hins⟩ |
    ⟨i, c, hheld, hheld', hset, hanswer, hown, -⟩⟩ := turn_cases hallows hserved
  · have hsettings : settingsOf (es ++ [e]) = settingsOf es := by
      rw [settingsOf_append, hset, List.append_nil]
    rw [hheld]
    refine ⟨⟨?_, ?_, ?_, ?_⟩, fun i hi => Or.inl hi⟩
    · rw [hheld, hsettings]
      exact h.unset
    · rw [hheld]
      exact h.new
    · rw [hheld, hsettings, hsame]
      exact h.state
    · rw [hsettings]
      exact h.made
  · have hsettings : settingsOf (es ++ [e]) = [] := by
      rw [settingsOf_append, hset, h.unset hheld]
      rfl
    rw [hheld']
    refine ⟨⟨?_, ?_, ?_, ?_⟩, ?_⟩
    · exact fun _ => hsettings
    · rintro i hi
      rw [hheld'] at hi
      cases hi
      exact hkept _ hfree
    · rintro i hi
      rw [hheld'] at hi
      cases hi
      rw [hins, hsettings]
      exact SortedMap.get?_insert_self ..
    · rw [hsettings]
      exact fun c hc => absurd hc List.not_mem_nil
    · rintro i hi
      cases hi
      exact Or.inr hfree
  · have hsettings : settingsOf (es ++ [e]) = settingsOf es ++ [c] := by
      rw [settingsOf_append, hset]
    have hstate := h.state i hheld
    rw [hheld']
    refine ⟨⟨?_, ?_, ?_, ?_⟩, ?_⟩
    · rw [hheld']
      exact fun hnone => absurd hnone (by simp)
    · rw [hheld', ← hheld]
      exact h.new
    · rintro j hj
      rw [hheld'] at hj
      cases hj
      rw [hown, hstate, hsettings, InstanceState.replay_append]
      rfl
    · rw [hsettings]
      intro c' hc'
      rcases List.mem_append.1 hc' with hc' | hc'
      · exact h.made c' hc'
      · obtain rfl := List.mem_singleton.1 hc'
        obtain hok | hpos | hnone := hanswer
        · exact hok
        · rw [hunfailing] at hpos
          omega
        · rw [hstate] at hnone
          cases hnone
    · rintro j hj
      cases hj
      exact Or.inl hheld

variable {ι : Type} [DecidableEq ι] {now : Recording} {tr : List (ι × Event (Actions Backend))}
  {k : ι}

/-- Every session owns what it holds, no two hold the same instance, and the instances that were
live at the start are as they were. -/
structure Isolated (start : Recording) (tr : List (ι × Event (Actions Backend)))
    (now : Recording) : Prop where
  unfailing : ∀ knob, now.failing knob = 0
  kept : ∀ name st, start.instances.get? name = some st → now.instances.get? name = some st
  owned : ∀ k, Owned start now (turnsOf k tr)
  apart : ∀ j k i i', held (turnsOf j tr) = some i → held (turnsOf k tr) = some i' →
    i.name.text = i'.name.text → j = k

theorem isolated_start (hunfailing : ∀ knob, start.failing knob = 0) :
    Isolated (ι := ι) start [] start where
  unfailing := hunfailing
  kept := fun _ _ hst => hst
  owned := fun _ => ⟨fun _ => rfl, by simp [held, Protocol.reached],
    by simp [held, Protocol.reached], by simp [settingsOf]⟩
  apart := by simp [held, Protocol.reached]

theorem Isolated.not_live_start (h : Isolated start tr now) {name : String}
    (hnone : now.instances.get? name = none) : start.instances.get? name = none := by
  cases hst : start.instances.get? name with
  | none => rfl
  | some st =>
      rw [h.kept name st hst] at hnone
      cases hnone

/-- A turn of one session changes neither what was live at the start nor what another session
holds. -/
theorem Isolated.turn_frame (h : Isolated start tr s)
    (hallows : anonymous.allows (held (turnsOf k tr)) e.1)
    (hserved : Recording.responder.Serves s (calls [e]) s') :
    (∀ name st, start.instances.get? name = some st → s'.instances.get? name = some st) ∧
      ∀ j i, j ≠ k → held (turnsOf j tr) = some i →
        s'.instances.get? i.name.text = s.instances.get? i.name.text := by
  constructor
  · intro name st hst
    refine turn_others hallows hserved (h.kept name st hst) fun i hi => ?_
    rintro rfl
    rw [(h.owned k).new i hi] at hst
    cases hst
  · intro j i hjk hj
    have hstate := (h.owned j).state i hj
    rw [hstate]
    refine turn_others hallows hserved hstate fun i' hi' heq => ?_
    exact hjk (h.apart j k i i' hj hi' heq.symm)

theorem Isolated.turn (h : Isolated start tr s)
    (hallows : anonymous.allows (held (turnsOf k tr)) e.1)
    (hserved : Recording.responder.Serves s (calls [e]) s') :
    Isolated start (tr ++ [(k, e)]) s' := by
  obtain ⟨hkept, hothers⟩ := h.turn_frame hallows hserved
  obtain ⟨howned, hheld⟩ := (h.owned k).turn h.unfailing (fun _ => h.not_live_start) hallows hserved
  -- what `k` holds now, nobody else does
  have halone : ∀ j i i', j ≠ k → held (turnsOf j tr) = some i →
      held (turnsOf k tr ++ [e]) = some i' → i.name.text ≠ i'.name.text := by
    intro j i i' hjk hj hk heq
    obtain hbefore | hfree := hheld i' hk
    · exact hjk (h.apart j k i i' hj hbefore heq)
    · rw [← heq, (h.owned j).state i hj] at hfree
      cases hfree
  constructor
  case unfailing =>
      intro knob
      have hle := (turn_cases hallows hserved).1 knob
      rw [h.unfailing knob] at hle
      exact Nat.le_zero.1 hle
  case kept => exact hkept
  case owned =>
      intro j
      by_cases hjk : j = k
      · subst hjk
        rw [turnsOf_append_self]
        exact howned
      · rw [turnsOf_append_of_ne hjk]
        obtain ⟨hunset, hnew, hstate, hmade⟩ := h.owned j
        exact ⟨hunset, hnew, fun i hi => (hothers j i hjk hi).trans (hstate i hi), hmade⟩
  case apart =>
      intro j j' i i' hj hj' heq
      by_cases hjk : j = k
      · by_cases hjk' : j' = k
        · rw [hjk, hjk']
        · subst hjk
          rw [turnsOf_append_self] at hj
          rw [turnsOf_append_of_ne hjk'] at hj'
          exact absurd heq.symm (halone j' i' i hjk' hj' hj)
      · rw [turnsOf_append_of_ne hjk] at hj
        by_cases hjk' : j' = k
        · subst hjk'
          rw [turnsOf_append_self] at hj'
          exact absurd heq (halone j i i' hjk hj hj')
        · rw [turnsOf_append_of_ne hjk'] at hj'
          exact h.apart j j' i i' hj hj' heq

variable {requests : ι → TraceRequest} {left left' : ι → Tracing (Except SessionError SessionReport)}

theorem allows_of_turn (hanonymous : ∀ k, (requests k).inst = none)
    (h : Interleaved Recording.responder (fun k => execute (requests k)) start tr left s)
    (hturn : Turn Recording.responder left s k e left' s') :
    anonymous.allows (held (turnsOf k tr)) e.1 ∧
      Recording.responder.Serves s (calls [e]) s' := by
  cases hturn with
  | intro asks served =>
      have hobeys := (execute_obeys (hanonymous k)).leads (h.leads k)
      rw [asks] at hobeys
      exact ⟨hobeys.1, served⟩

theorem isolated_of_interleaved (hanonymous : ∀ k, (requests k).inst = none)
    (hunfailing : ∀ knob, start.failing knob = 0)
    (h : Interleaved Recording.responder (fun k => execute (requests k)) start tr left now) :
    Isolated start tr now := by
  induction h with
  | start => exact isolated_start hunfailing
  | turn soFar last ih =>
      obtain ⟨hallows, hserved⟩ := allows_of_turn hanonymous soFar last
      exact ih.turn hallows hserved

/-- In the turns `tr`, the session `k` has bound the instance `i`. -/
def Bound (requests : ι → TraceRequest) (tr : List (ι × Event (Actions Backend))) (k : ι)
    (i : Instance) : Prop :=
  ∃ before after, turnsOf k tr = before ++ after ∧
    Runs (Instances.bind (requests k).inst) before (.ok i)

theorem Bound.held {i : Instance} (h : Bound requests tr k i) (hk : (requests k).inst = none) :
    held (turnsOf k tr) = some i := by
  obtain ⟨before, after, heq, hbind⟩ := h
  rw [hk] at hbind
  rw [heq]
  exact held_of_bind hbind after

/-- A session that has ended leaves a fresh instance quiescent, if nothing that it set was
refused. -/
theorem isQuiescent_of_execute {r : TraceRequest} {i : Instance}
    {before after : List (Event (Actions Backend))} {result : Except SessionError SessionReport}
    (hbind : Runs (Instances.bind r.inst) before (.ok i))
    (h : Runs (execute r) (before ++ after) result)
    (hmade : ∀ c ∈ settingsOf (before ++ after), c.answer = .ok ()) :
    (InstanceState.fresh.replay (settingsOf (before ++ after))).isQuiescent = true := by
  have hunset := (Instances.binding_inert fun e he => hbind.of_asks (Instances.bind_asks _) he).1
  obtain ⟨armed, drained, hset, hdrained, harmed⟩ :=
    (runs_conduct (runs_conduct_of_bound hbind h)).exists_drained
  rw [settingsOf_append, hunset, List.nil_append, hset] at hmade ⊢
  exact isQuiescent_replay (fun c hc => (harmed c hc).2) hdrained
    (fun c hc => hmade c (List.mem_append_right _ hc)) (Or.inr rfl)

end Session

open Session

/-- Any number of anonymous sessions take turns at a recording in which no setting fails. No two of
them bind the same instance, and none binds one that was live at the start. What a session does in a
turn of its own changes neither the instances of the other sessions nor those that were live at the
start. So the latter are unchanged, and the instance of a session that has ended is quiescent,
whatever the other sessions have done or are still about to do. -/
theorem sessions_isolated {ι : Type} [DecidableEq ι] {requests : ι → TraceRequest}
    {start now : Recording} {tr : List (ι × Event (Actions Backend))}
    {left : ι → Tracing (Except SessionError SessionReport)}
    (hanonymous : ∀ k, (requests k).inst = none) (hunfailing : ∀ knob, start.failing knob = 0)
    (h : Interleaved Recording.responder (fun k => execute (requests k)) start tr left now) :
    (∀ j k i i', Bound requests tr j i → Bound requests tr k i' → j ≠ k →
      i.name.text ≠ i'.name.text) ∧
    (∀ k i, Bound requests tr k i → start.instances.get? i.name.text = none) ∧
    (∀ k e left' next, Turn Recording.responder left now k e left' next →
      (∀ j i, Bound requests tr j i → j ≠ k →
        next.instances.get? i.name.text = now.instances.get? i.name.text) ∧
      ∀ name st, start.instances.get? name = some st → next.instances.get? name = some st) ∧
    (∀ k i result, Bound requests tr k i → left k = .done result →
      ∃ st, now.instances.get? i.name.text = some st ∧ st.isQuiescent = true) ∧
    ∀ name st, start.instances.get? name = some st → now.instances.get? name = some st := by
  have hisolated := isolated_of_interleaved hanonymous hunfailing h
  refine ⟨?_, ?_, ?_, ?_, hisolated.kept⟩
  · intro j k i i' hj hk hjk heq
    exact hjk (hisolated.apart j k i i' (hj.held (hanonymous j)) (hk.held (hanonymous k)) heq)
  · intro k i hk
    exact (hisolated.owned k).new i (hk.held (hanonymous k))
  · intro k e left' next hturn
    obtain ⟨hallows, hserved⟩ := allows_of_turn hanonymous h hturn
    obtain ⟨hkept, hothers⟩ := hisolated.turn_frame hallows hserved
    exact ⟨fun j i hj hjk => hothers j i hjk (hj.held (hanonymous j)), hkept⟩
  · intro k i result hk hdone
    have hstate := (hisolated.owned k).state i (hk.held (hanonymous k))
    have hmade := (hisolated.owned k).made
    have hrun := h.runs hdone
    obtain ⟨before, after, heq, hbind⟩ := hk
    rw [heq] at hstate hmade hrun
    exact ⟨_, hstate, isQuiescent_of_execute hbind hrun hmade⟩

/-- Two sessions draw the same name at the same time. The one whose creation comes second has to
draw again, and when both have bound an instance the first goes on to its end. -/
def sameDraw : List (Bool × Surroundings) :=
  let first : Surroundings := ⟨0, .deadline, fun _ => .error (.wait (.os .notFound))⟩
  let second : Surroundings := { first with draw := 1 <<< 127 }
  [(false, first), (true, first), (false, first), (true, first), (true, first), (true, second),
    (true, second), (true, second)] ++ .replicate 25 (false, first)

def sameRequest : TraceRequest := ⟨[42], [], none, some 10, .empty, none⟩

/-- The sessions of `sameDraw`, started on a recording without instances. -/
abbrev sameDrawRun := takeTurns Recording.answer sameDraw (fun _ => execute sameRequest) .empty

theorem sessions_isolated_sameDraw :
    let taken : InstanceName := .random 0
    let other : InstanceName := .random (1 <<< 127)
    Interleaved Recording.responder (fun _ => execute sameRequest) .empty sameDrawRun.1
        sameDrawRun.2.1 sameDrawRun.2.2 ∧
      Bound (fun _ => sameRequest) sameDrawRun.1 false (Recording.instanceOf taken) ∧
      Bound (fun _ => sameRequest) sameDrawRun.1 true (Recording.instanceOf other) ∧
      taken.text ≠ other.text ∧
      ∃ st, sameDrawRun.2.2.instances.get? taken.text = some st ∧ st.isQuiescent = true := by
  intro taken other
  have h : Interleaved Recording.responder (fun _ => execute sameRequest) .empty sameDrawRun.1
      sameDrawRun.2.1 sameDrawRun.2.2 := interleaved_takeTurns (β := Backend) _ _ _ _
  have hfalse : Bound (fun _ => sameRequest) sameDrawRun.1 false (Recording.instanceOf taken) :=
    ⟨(turnsOf false sameDrawRun.1).take 3, (turnsOf false sameDrawRun.1).drop 3,
      (List.take_append_drop 3 _).symm, .ask (.ask (.ask (.done _)))⟩
  have htrue : Bound (fun _ => sameRequest) sameDrawRun.1 true (Recording.instanceOf other) :=
    ⟨turnsOf true sameDrawRun.1, [], (List.append_nil _).symm,
      .ask (.ask (.ask (.ask (.ask (.ask (.done _))))))⟩
  obtain ⟨happart, -, -, hquiescent, -⟩ := sessions_isolated (fun _ => rfl) (fun _ => rfl) h
  have hdone : sameDrawRun.2.1 false = .done (.ok ⟨Recording.instanceOf taken, .deadline⟩) := rfl
  exact ⟨h, hfalse, htrue, happart false true _ _ hfalse htrue (by decide),
    hquiescent false _ _ hfalse hdone⟩

end KernelTrace
