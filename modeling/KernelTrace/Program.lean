/-!
# Programs over a set of operations

Everything that acts on the outside, be it on a tracing backend, on files or on other processes,
is written as a *program*: a tree whose nodes ask for one operation and go on with its answer. A
program fixes which operations are asked for and in which order, and nothing about how they are
answered. So one definition serves to run against a model of the outside, to be taken apart into
single operations that interleave with those of other programs, and to be reasoned about for every
pattern of answers.

* `run` answers the operations in a monad, one after the other.
* `expand` replaces every operation by a program over other operations.
* `Runs` relates a program to the operations and answers of one of its runs, whoever answered.
-/

namespace KernelTrace

/-- A set of operations, each with the type of its answers. -/
structure Signature where
  Op : Type
  Answer : Op → Type

/-- A program that asks for operations of `σ` and ends with a value. -/
inductive Program (σ : Signature) (α : Type) : Type where
  | done (value : α)
  /-- Asks for an operation and goes on with its answer. -/
  | ask (op : σ.Op) (next : σ.Answer op → Program σ α)

namespace Program

variable {σ τ : Signature} {α β γ : Type}

/-- Runs a program and then the one that its value selects. -/
def bind : Program σ α → (α → Program σ β) → Program σ β
  | done a, f => f a
  | ask op next, f => ask op fun answer => (next answer).bind f

instance : Monad (Program σ) where
  pure := done
  bind := bind

/-- The program that asks for one operation and ends with its answer. -/
def perform (op : σ.Op) : Program σ (σ.Answer op) := ask op done

theorem bind_done (p : Program σ α) : p.bind done = p := by
  induction p with
  | done a => rfl
  | ask op next ih => simp only [bind, ih]

theorem bind_assoc (p : Program σ α) (f : α → Program σ β) (g : β → Program σ γ) :
    (p.bind f).bind g = p.bind fun a => (f a).bind g := by
  induction p with
  | done a => rfl
  | ask op next ih => simp only [bind, ih]

instance : LawfulMonad (Program σ) :=
  LawfulMonad.mk' (Program σ) (fun p => bind_done p) (fun _ _ => rfl) bind_assoc

/-- Answers the operations of a program one after the other. -/
def run {m : Type → Type} [Monad m] (answer : (op : σ.Op) → m (σ.Answer op)) :
    Program σ α → m α
  | done a => pure a
  | ask op next => do run answer (next (← answer op))

/-- Replaces every operation of a program by a program over other operations. -/
def expand (f : (op : σ.Op) → Program τ (σ.Answer op)) : Program σ α → Program τ α
  | done a => done a
  | ask op next => (f op).bind fun answer => expand f (next answer)

/-- An operation that was asked for, with the answer it got. -/
abbrev Event (σ : Signature) : Type := (op : σ.Op) × σ.Answer op

/-- `Runs p es a`: asking for the operations of `es` in turn and getting the answers listed there,
the program `p` ends with `a`. -/
inductive Runs : Program σ α → List (Event σ) → α → Prop where
  /-- A program that has ended asks for nothing. -/
  | done (a : α) : Runs (done a) [] a
  /-- The first operation, then a run of the rest. -/
  | ask {op : σ.Op} {next : σ.Answer op → Program σ α} {answer : σ.Answer op}
      {es : List (Event σ)} {a : α} (rest : Runs (next answer) es a) :
      Runs (ask op next) (⟨op, answer⟩ :: es) a

/-- A run of two programs in sequence is a run of the one followed by a run of the other. -/
theorem runs_bind_iff {p : Program σ α} {f : α → Program σ β} {es : List (Event σ)} {b : β} :
    Runs (p.bind f) es b ↔
      ∃ es₁ es₂ a, es = es₁ ++ es₂ ∧ Runs p es₁ a ∧ Runs (f a) es₂ b := by
  induction p generalizing es with
  | done a =>
    refine ⟨fun h => ⟨[], es, a, rfl, .done a, h⟩, ?_⟩
    rintro ⟨es₁, es₂, a', rfl, h₁, h₂⟩
    cases h₁
    exact h₂
  | ask op next ih =>
    constructor
    · intro h
      cases h with
      | ask rest =>
        obtain ⟨es₁, es₂, a, rfl, h₁, h₂⟩ := (ih _).1 rest
        exact ⟨⟨op, _⟩ :: es₁, es₂, a, rfl, .ask h₁, h₂⟩
    · rintro ⟨es₁, es₂, a, rfl, h₁, h₂⟩
      cases h₁ with
      | ask rest => exact .ask ((ih _).2 ⟨_, _, a, rfl, rest, h₂⟩)

@[simp] theorem expand_bind (f : (op : σ.Op) → Program τ (σ.Answer op)) (p : Program σ α)
    (k : α → Program σ β) :
    (p.bind k).expand f = (p.expand f).bind fun a => (k a).expand f := by
  induction p with
  | done a => rfl
  | ask op next ih => simp only [bind, expand, ih, bind_assoc]

end Program

end KernelTrace
