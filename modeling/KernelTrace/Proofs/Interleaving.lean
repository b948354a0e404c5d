import KernelTrace.Proofs.Protocols

/-!
# Programs that take turns

Several programs share a backend, and each operation of the backend is atomic. Nothing is known of
the order: in every turn one of the programs, whichever it is, gets an answer to what it asks for.
Operations that do not concern the backend get any answer at all, as in runs of a single program,
so what other programs do in the meantime is covered along with every draw and every wait.

A list of turns, each with the program whose turn it was, is all there is to know. The turns of one
program are a run of that program that may not have ended (`Interleaved.leads`), so what was proved
of a program by itself still holds of its own turns. What the turns of the others have done to the
backend in between is what an invariant has to say.
-/

namespace KernelTrace

open Program

namespace Actions

variable {β : Signature} {S α ι : Type} [DecidableEq ι]

def leave (left : ι → Program (Actions β) α) (k : ι) (p : Program (Actions β) α) :
    ι → Program (Actions β) α :=
  fun j => if j = k then p else left j

@[simp] theorem leave_self (left : ι → Program (Actions β) α) (k : ι)
    (p : Program (Actions β) α) : leave left k p k = p :=
  if_pos rfl

theorem leave_of_ne {j k : ι} (h : j ≠ k) (left : ι → Program (Actions β) α)
    (p : Program (Actions β) α) : leave left k p j = left j :=
  if_neg h

/-- `Turn m left s k e left' s'`: of the programs `left` that share the responder `m`, the program
`k` asks for something in the state `s` and is answered as `e` says. -/
inductive Turn (m : Responder β S) (left : ι → Program (Actions β) α) (s : S) (k : ι) :
    Event (Actions β) → (ι → Program (Actions β) α) → S → Prop where
  | intro {op : Action β} {next : op.Answer → Program (Actions β) α} {answer : op.Answer} {s' : S}
      (asks : left k = .ask op next) (served : m.Serves s (calls [⟨op, answer⟩]) s') :
      Turn m left s k ⟨op, answer⟩ (leave left k (next answer)) s'

/-- `Interleaved m programs start tr left now`: from the state `start`, the programs can take the
turns `tr`. Then `left` is left of them and the state is `now`. -/
inductive Interleaved (m : Responder β S) (programs : ι → Program (Actions β) α) (start : S) :
    List (ι × Event (Actions β)) → (ι → Program (Actions β) α) → S → Prop where
  | start : Interleaved m programs start [] programs start
  | turn {tr : List (ι × Event (Actions β))} {left left' : ι → Program (Actions β) α} {s s' : S}
      {k : ι} {e : Event (Actions β)} (soFar : Interleaved m programs start tr left s)
      (last : Turn m left s k e left' s') :
      Interleaved m programs start (tr ++ [(k, e)]) left' s'

def turnsOf (k : ι) (tr : List (ι × Event (Actions β))) : List (Event (Actions β)) :=
  (tr.filter fun turn => turn.1 = k).map Prod.snd

@[simp] theorem turnsOf_nil (k : ι) : turnsOf (β := β) k [] = [] := rfl

theorem turnsOf_append_self (k : ι) (tr : List (ι × Event (Actions β))) (e : Event (Actions β)) :
    turnsOf k (tr ++ [(k, e)]) = turnsOf k tr ++ [e] := by
  simp [turnsOf]

theorem turnsOf_append_of_ne {j k : ι} (h : j ≠ k) (tr : List (ι × Event (Actions β)))
    (e : Event (Actions β)) : turnsOf j (tr ++ [(k, e)]) = turnsOf j tr := by
  simp [turnsOf, h.symm]

variable {m : Responder β S} {programs left : ι → Program (Actions β) α} {start now : S}
  {tr : List (ι × Event (Actions β))}

/-- The turns of a program are a run of it, as far as it has come. -/
theorem Interleaved.leads (h : Interleaved m programs start tr left now) (k : ι) :
    Leads (programs k) (turnsOf k tr) (left k) := by
  induction h with
  | start => exact .refl _
  | @turn tr left left' s s' j e _ last ih =>
      cases last with
      | @intro op next answer _ asks _ =>
          by_cases hk : k = j
          · subst hk
            rw [turnsOf_append_self, leave_self]
            rw [asks] at ih
            exact leads_append.2 ⟨_, ih, .ask (.refl _)⟩
          · rw [turnsOf_append_of_ne hk, leave_of_ne hk]
            exact ih

theorem Interleaved.runs (h : Interleaved m programs start tr left now) {k : ι} {a : α}
    (hdone : left k = .done a) : Runs (programs k) (turnsOf k tr) a := by
  have hleads := h.leads k
  rw [hdone] at hleads
  exact runs_iff_leads.2 hleads

theorem turnsOf_sublist (k : ι) (tr : List (ι × Event (Actions β))) :
    (turnsOf k tr).Sublist (tr.map Prod.snd) :=
  List.filter_sublist.map _

theorem Interleaved.served (h : Interleaved m programs start tr left now) :
    m.Serves start (calls (tr.map Prod.snd)) now := by
  induction h with
  | start => exact .nil start
  | turn _ last ih =>
      cases last with
      | intro _ served =>
          rw [List.map_append, calls_append]
          exact Responder.serves_append.2 ⟨_, ih, served⟩

/-- Over a backend that answers everything, a program that has not ended can take a turn. -/
theorem exists_turn (hm : ∀ s op, ∃ a t, m s op a t) {k : ι}
    (hleft : ∀ a, left k ≠ .done a) : ∃ e left' s', Turn m left now k e left' s' := by
  cases hk : left k with
  | done a => exact absurd hk (hleft a)
  | ask op next =>
      obtain ⟨answer, s', hserved⟩ := exists_answer hm now op
      exact ⟨_, _, s', .intro hk hserved⟩

theorem leave_of_eq {p : Program (Actions β) α} {k : ι} (h : left k = p) : leave left k p = left :=
  funext fun j => by
    by_cases hj : j = k
    · rw [hj, leave_self, h]
    · rw [leave_of_ne hj]

@[simp] theorem leave_leave (k : ι) (p q : Program (Actions β) α) :
    leave (leave left k p) k q = leave left k q :=
  funext fun j => by
    by_cases hj : j = k
    · rw [hj, leave_self, leave_self]
    · rw [leave_of_ne hj, leave_of_ne hj, leave_of_ne hj]

/-- One of the programs can go on to its end while the others wait. -/
theorem Interleaved.finish {k : ι} {es : List (Event (Actions β))} {a : α} {s : S}
    (h : Interleaved m programs start tr left now) (hrun : RunsOn m (left k) now es a s) :
    Interleaved m programs start (tr ++ es.map (k, ·)) (leave left k (.done a)) s := by
  obtain ⟨hruns, hserved⟩ := hrun
  generalize hleft : left k = p at hruns
  induction hruns generalizing tr left now with
  | done a =>
      obtain rfl := Responder.serves_nil.1 hserved
      rw [leave_of_eq hleft, List.map_nil, List.append_nil]
      exact h
  | @ask op next answer es a _ ih =>
      rw [calls_cons] at hserved
      obtain ⟨u, hfirst, hrest⟩ := Responder.serves_append.1 hserved
      have hnext := ih (h.turn (.intro hleft hfirst)) hrest (leave_self ..)
      rw [leave_leave, List.append_assoc] at hnext
      exact hnext

theorem Interleaved.exists_finish (h : Interleaved m programs start tr left now)
    (hm : ∀ s op, ∃ a t, m s op a t) (k : ι) :
    ∃ es left' s, Interleaved m programs start (tr ++ es) left' s ∧ (∃ a, left' k = .done a) ∧
      ∀ j, j ≠ k → left' j = left j := by
  obtain ⟨es, a, s, hrun⟩ := exists_runsOn_of_answers hm (left k) now
  exact ⟨_, _, s, h.finish hrun, ⟨a, leave_self ..⟩, fun j hj => leave_of_ne hj ..⟩

/-- The turns of a schedule, over a backend that has one answer to each operation. Each turn has
surroundings of its own, and a program that has come to its end lets its turn pass. -/
def takeTurns (answer : S → (op : β.Op) → β.Answer op × S) :
    List (ι × Surroundings) → (ι → Program (Actions β) α) → S →
      List (ι × Event (Actions β)) × (ι → Program (Actions β) α) × S
  | [], left, s => ([], left, s)
  | (k, w) :: rest, left, s =>
    match left k with
    | .done _ => takeTurns answer rest left s
    | .ask op next =>
      let (reply, t) := answerAll answer w s op
      let (tr, final) := takeTurns answer rest (leave left k (next reply)) t
      ((k, ⟨op, reply⟩) :: tr, final)

theorem Interleaved.takeTurns {answer : S → (op : β.Op) → β.Answer op × S}
    (h : Interleaved (.ofFunction answer) programs start tr left now)
    (schedule : List (ι × Surroundings)) :
    Interleaved (.ofFunction answer) programs start (tr ++ (takeTurns answer schedule left now).1)
      (takeTurns answer schedule left now).2.1 (takeTurns answer schedule left now).2.2 := by
  induction schedule generalizing tr left now with
  | nil =>
      rw [Actions.takeTurns, List.append_nil]
      exact h
  | cons turn rest ih =>
      obtain ⟨k, w⟩ := turn
      rw [Actions.takeTurns]
      split
      · exact ih h
      · next op next hasks =>
          have hserved : (Responder.ofFunction answer).Serves now
              (calls [⟨op, (answerAll answer w now op).1⟩]) (answerAll answer w now op).2 := by
            cases op with
            | backend c => exact .cons rfl (.nil _)
            | _ => exact .nil _
          have hturn := ih (h.turn (.intro hasks hserved))
          rw [List.append_assoc] at hturn
          exact hturn

/-- Every schedule is one of the orders in which programs can take turns. -/
theorem interleaved_takeTurns (answer : S → (op : β.Op) → β.Answer op × S)
    (schedule : List (ι × Surroundings)) (programs : ι → Program (Actions β) α) (start : S) :
    Interleaved (.ofFunction answer) programs start (takeTurns answer schedule programs start).1
      (takeTurns answer schedule programs start).2.1
      (takeTurns answer schedule programs start).2.2 :=
  Interleaved.start.takeTurns schedule

end Actions

end KernelTrace
