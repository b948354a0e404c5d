import KernelTrace.Proofs.Runs

/-!
# Protocols

`Asks` bounds what a program may ever ask for. Most promises need more than that: a session may set
something, but only on the instance that it was given a moment ago. So what may be asked for depends
on what was answered before, and a *protocol* says how, by a state that the answers move.

A program is a tree of questions, so obeying a protocol is a recursion over that tree, and it comes
with a condition on the value at the end. That makes it a weakest precondition: `obeys_bind` takes a
sequence apart, and no run has to be split. What obeys a protocol still obeys it after any number of
answers (`Obeys.leads`), which is what is wanted of programs that have not come to their end.
-/

namespace KernelTrace

namespace Program

variable {σ : Signature} {T α β : Type}

/-- What may be asked for in which state, and where an answer leads. -/
structure Protocol (σ : Signature) (T : Type) where
  allows : T → σ.Op → Prop
  after : T → Event σ → T

def Protocol.reached (π : Protocol σ T) (t : T) (es : List (Event σ)) : T := es.foldl π.after t

@[simp] theorem Protocol.reached_append (π : Protocol σ T) (t : T) (es fs : List (Event σ)) :
    π.reached t (es ++ fs) = π.reached (π.reached t es) fs :=
  List.foldl_append

/-- Started in the state `t`, the program asks for nothing but what the protocol allows, and it ends
with a state and a value of which `Q` holds. -/
def Obeys (π : Protocol σ T) (Q : T → α → Prop) : T → Program σ α → Prop
  | t, done a => Q t a
  | t, ask op next => π.allows t op ∧ ∀ answer, Obeys π Q (π.after t ⟨op, answer⟩) (next answer)

variable {π : Protocol σ T} {t : T}

theorem obeys_bind {Q : T → β → Prop} {p : Program σ α} {f : α → Program σ β} :
    Obeys π Q t (p >>= f) ↔ Obeys π (fun t a => Obeys π Q t (f a)) t p := by
  induction p generalizing t with
  | done a => exact Iff.rfl
  | ask op next ih => exact and_congr_right fun _ => forall_congr' fun answer => ih answer

theorem Obeys.mono {Q Q' : T → α → Prop} {p : Program σ α} (h : Obeys π Q t p)
    (hQ : ∀ t a, Q t a → Q' t a) : Obeys π Q' t p := by
  induction p generalizing t with
  | done a => exact hQ t a h
  | ask op next ih => exact ⟨h.1, fun answer => ih answer (h.2 answer)⟩

/-- What asks only for what is allowed in `t` and never leads away from `t` obeys the protocol. -/
theorem Asks.obeys {P : σ.Op → Prop} {Q : T → α → Prop} {p : Program σ α} (h : Asks P p)
    (hallows : ∀ op, P op → π.allows t op)
    (hstays : ∀ op answer, P op → π.after t ⟨op, answer⟩ = t) (hQ : ∀ a, Q t a) :
    Obeys π Q t p := by
  induction p with
  | done a => exact hQ a
  | ask op next ih =>
      refine ⟨hallows op h.1, fun answer => ?_⟩
      rw [hstays op answer h.1]
      exact ih answer (h.2 answer)

theorem Obeys.leads {Q : T → α → Prop} {p q : Program σ α} {es : List (Event σ)}
    (h : Obeys π Q t p) (hleads : Leads p es q) : Obeys π Q (π.reached t es) q := by
  induction hleads generalizing t with
  | refl => exact h
  | ask _ ih => exact ih (h.2 _)

theorem Obeys.runs {Q : T → α → Prop} {p : Program σ α} {es : List (Event σ)} {a : α}
    (h : Obeys π Q t p) (hruns : Runs p es a) : Q (π.reached t es) a :=
  h.leads (runs_iff_leads.1 hruns)

end Program

end KernelTrace
