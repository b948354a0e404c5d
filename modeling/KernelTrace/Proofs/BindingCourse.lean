import KernelTrace.Instances
import KernelTrace.Proofs.Runs

/-!
# The course of a binding

An instance is bound in one of two ways. An anonymous one is made under names drawn at random, up to
ten of them. One with a name is looked for and made if it is not there, and because somebody else
may make it in between, a creation that comes too late is followed by a second look.

`Naming` and `Finding` list the courses that the two can take, whatever the backend answers. What a
backend can answer is none of their business, so they serve for every backend, and for one that
others use at the same time.
-/

namespace KernelTrace

open Program Actions

namespace Instances

/-- What binding an instance may ask for: looking for it, creating it, a random number and log
records. -/
def IsBinding : Action Backend → Prop
  | .backend (.createInstance _) | .backend (.findInstance _) | .draw | .log _ => True
  | _ => False

theorem createFrom_asks (left : Nat) (failed : List TracingError) :
    Asks (σ := Actions Backend) IsBinding (createFrom left failed) := by
  induction left generalizing failed with
  | zero => exact asks_pure
  | succ left ih =>
      refine asks_bind (asks_perform.2 trivial) fun d => ?_
      refine asks_bind (asks_perform.2 trivial) fun created => ?_
      match created with
      | .ok i => exact asks_bind (asks_perform.2 trivial) fun _ => asks_pure
      | .error e => exact asks_bind (asks_perform.2 trivial) fun _ => ih _

theorem findOrCreate_asks (name : InstanceName) :
    Asks (σ := Actions Backend) IsBinding (findOrCreate name) := by
  refine asks_bind (asks_perform.2 trivial) fun found => ?_
  match found with
  | .error e => exact asks_pure
  | .ok (some i) => exact asks_bind (asks_perform.2 trivial) fun _ => asks_pure
  | .ok none =>
      refine asks_bind (asks_perform.2 trivial) fun created => ?_
      match created with
      | .ok i => exact asks_bind (asks_perform.2 trivial) fun _ => asks_pure
      | .error (.alreadyExists _) =>
          refine asks_bind (asks_perform.2 trivial) fun found' => ?_
          match found' with
          | .error e => exact asks_pure
          | .ok (some i) => exact asks_pure
          | .ok none => exact asks_pure
      | .error (.invalidName ..) | .error (.notFound _) | .error (.createFailed ..)
      | .error (.destroyFailed ..) | .error (.exhausted _) | .error (.writeFailed ..)
      | .error (.readFailed ..) => exact asks_pure

theorem bind_asks (name : Option InstanceName) :
    Asks (σ := Actions Backend) IsBinding (Instances.bind name) := by
  cases name with
  | none => exact createFrom_asks _ _
  | some name => exact findOrCreate_asks name

/-! ## Under a random name -/

/-- A creation under a random name that was refused. -/
structure Refusal where
  draw : Draw
  error : TracingError

def Refusal.event (r : Refusal) : Event Backend :=
  ⟨.createInstance (.random r.draw), .error r.error⟩

/-- `Naming left failed cs result`: the ways in which the creation under a random name can go if
there are `left` names to try. -/
inductive Naming (left : Nat) (failed : List TracingError) :
    List (Event Backend) → Except TracingError Instance → Prop where
  /-- Every attempt was refused, and every refusal is reported. -/
  | exhausted {refused : List Refusal} (all : refused.length = left) :
      Naming left failed (refused.map Refusal.event)
        (.error (.exhausted (failed ++ refused.map Refusal.error)))
  | created {refused : List Refusal} (fewer : refused.length < left) (d : Draw) (i : Instance) :
      Naming left failed (refused.map Refusal.event ++ [⟨.createInstance (.random d), .ok i⟩])
        (.ok i)

theorem runs_createFrom {left : Nat} {failed : List TracingError}
    {es : List (Event (Actions Backend))} {result : Except TracingError Instance}
    (h : Runs (createFrom left failed) es result) :
    Naming left failed (calls es) result := by
  induction left generalizing failed es with
  | zero =>
      obtain ⟨rfl, rfl⟩ := runs_pure.1 h
      have hnone := @Naming.exhausted 0 failed [] rfl
      rwa [List.map_nil, List.map_nil, List.append_nil] at hnone
  | succ left ih =>
      obtain ⟨d, rest, rfl, hcreate⟩ := runs_perform_bind.1 h
      obtain ⟨created, rest, rfl, h₁⟩ := runs_perform_bind.1 hcreate
      match created with
      | .ok i =>
          obtain ⟨_, rest, rfl, hend⟩ := runs_perform_bind.1 h₁
          obtain ⟨rfl, rfl⟩ := runs_pure.1 hend
          exact @Naming.created _ _ [] (Nat.zero_lt_succ left) d i
      | .error e =>
          obtain ⟨_, rest, rfl, hagain⟩ := runs_perform_bind.1 h₁
          have hrest := ih hagain
          change Naming _ _ (Refusal.event ⟨d, e⟩ :: Actions.calls rest) result
          generalize Actions.calls rest = cs at hrest
          cases hrest with
          | @exhausted refused all =>
              rw [List.append_assoc]
              exact @Naming.exhausted _ _ (⟨d, e⟩ :: refused) (congrArg Nat.succ all)
          | @created refused fewer d' i =>
              exact @Naming.created _ _ (⟨d, e⟩ :: refused) (Nat.succ_lt_succ fewer) d' i

/-- Creations under names drawn at random that were all refused. -/
def AllRefused (calls : List (Event Backend)) : Prop :=
  ∀ c ∈ calls, ∃ d e, c = ⟨.createInstance (.random d), .error e⟩

theorem allRefused_events (refused : List Refusal) : AllRefused (refused.map Refusal.event) := by
  intro c hc
  obtain ⟨r, -, rfl⟩ := List.mem_map.1 hc
  exact ⟨r.draw, r.error, rfl⟩

/-- Naming an anonymous instance is a series of creations that were refused, ended by the one that
was not. -/
theorem calls_of_createFrom {left : Nat} {failed : List TracingError}
    {es : List (Event (Actions Backend))} {result : Except TracingError Instance}
    (h : Runs (createFrom left failed) es result) :
    ∃ refused : List (Event Backend), AllRefused refused ∧
      ((∃ e, result = .error e ∧ calls es = refused) ∨
        ∃ i d, result = .ok i ∧ calls es = refused ++ [⟨.createInstance (.random d), .ok i⟩]) := by
  have hnaming := runs_createFrom h
  generalize Actions.calls es = cs at hnaming
  cases hnaming with
  | @exhausted refused => exact ⟨_, allRefused_events refused, .inl ⟨_, rfl, rfl⟩⟩
  | @created refused _ d i => exact ⟨_, allRefused_events refused, .inr ⟨i, d, rfl, rfl⟩⟩

/-! ## Under a given name -/

/-- What a second look comes to, after a creation that came too late. -/
def secondLook (name : InstanceName) :
    Except TracingError (Option Instance) → Except TracingError Instance
  | .error e => .error e
  | .ok (some i) => .ok i
  | .ok none => .error (.notFound name.text)

/-- `Finding name cs result`: the ways in which the search for an instance can go that is created if
it is not there. -/
inductive Finding (name : InstanceName) :
    List (Event Backend) → Except TracingError Instance → Prop where
  | unknown (e : TracingError) : Finding name [⟨.findInstance name, .error e⟩] (.error e)
  | found (i : Instance) : Finding name [⟨.findInstance name, .ok (some i)⟩] (.ok i)
  | created (i : Instance) :
      Finding name [⟨.findInstance name, .ok none⟩, ⟨.createInstance name, .ok i⟩] (.ok i)
  | refused (e : TracingError) (other : ∀ taken, e ≠ .alreadyExists taken) :
      Finding name [⟨.findInstance name, .ok none⟩, ⟨.createInstance name, .error e⟩] (.error e)
  /-- Somebody else has made the instance, so it is looked for once more. -/
  | overtaken (taken : InstanceName) (again : Except TracingError (Option Instance)) :
      Finding name [⟨.findInstance name, .ok none⟩,
        ⟨.createInstance name, .error (.alreadyExists taken)⟩, ⟨.findInstance name, again⟩]
        (secondLook name again)

theorem runs_findOrCreate {name : InstanceName} {es : List (Event (Actions Backend))}
    {result : Except TracingError Instance} (h : Runs (findOrCreate name) es result) :
    Finding name (calls es) result := by
  obtain ⟨found, rest, rfl, h₁⟩ := runs_perform_bind.1 h
  match found with
  | .error e =>
      obtain ⟨rfl, rfl⟩ := runs_pure.1 h₁
      exact .unknown e
  | .ok (some i) =>
      obtain ⟨_, rest, rfl, hend⟩ := runs_perform_bind.1 h₁
      obtain ⟨rfl, rfl⟩ := runs_pure.1 hend
      exact .found i
  | .ok none =>
      obtain ⟨created, rest, rfl, h₂⟩ := runs_perform_bind.1 h₁
      match created with
      | .ok i =>
          obtain ⟨_, rest, rfl, hend⟩ := runs_perform_bind.1 h₂
          obtain ⟨rfl, rfl⟩ := runs_pure.1 hend
          exact .created i
      | .error (.alreadyExists taken) =>
          obtain ⟨again, rest, rfl, h₃⟩ := runs_perform_bind.1 h₂
          have hcourse := @Finding.overtaken name taken again
          match again with
          | .error e | .ok (some i) | .ok none =>
              obtain ⟨rfl, rfl⟩ := runs_pure.1 h₃
              exact hcourse
      | .error (.invalidName ..) | .error (.notFound _) | .error (.createFailed ..)
      | .error (.destroyFailed ..) | .error (.exhausted _) | .error (.writeFailed ..)
      | .error (.readFailed ..) =>
          obtain ⟨rfl, rfl⟩ := runs_pure.1 h₂
          exact .refused _ nofun

/-! ## Whose instances are concerned -/

/-- The calls that binding makes, given the name if there is one. -/
def Concerns (inst : Option InstanceName) : Call → Prop
  | .createInstance name => inst = some name ∨ inst = none ∧ ∃ d, name = .random d
  | .findInstance name => inst = some name
  | _ => False

/-- The call that has given an instance. -/
def Gives (i : Instance) (e : Event Backend) : Prop :=
  (∃ name, e = ⟨.createInstance name, .ok i⟩) ∨ ∃ name, e = ⟨.findInstance name, .ok (some i)⟩

theorem Naming.concerns {left : Nat} {failed : List TracingError} {cs : List (Event Backend)}
    {result : Except TracingError Instance} (h : Naming left failed cs result) :
    (∀ e ∈ cs, Concerns none e.1) ∧ ∀ i, result = .ok i → ∃ e ∈ cs, Gives i e := by
  have hrefused : ∀ refused : List Refusal, ∀ e ∈ refused.map Refusal.event, Concerns none e.1 := by
    intro refused e he
    obtain ⟨r, -, rfl⟩ := List.mem_map.1 he
    exact .inr ⟨rfl, r.draw, rfl⟩
  cases h with
  | @exhausted refused _ => exact ⟨hrefused refused, nofun⟩
  | @created refused _ d i =>
      refine ⟨fun e he => ?_, fun i' hi => ?_⟩
      · rcases List.mem_append.1 he with he | he
        · exact hrefused refused e he
        · obtain rfl := List.mem_singleton.1 he
          exact .inr ⟨rfl, d, rfl⟩
      · cases hi
        exact ⟨_, List.mem_append_right _ (List.mem_singleton_self _), .inl ⟨_, rfl⟩⟩

theorem Finding.concerns {name : InstanceName} {cs : List (Event Backend)}
    {result : Except TracingError Instance} (h : Finding name cs result) :
    (∀ e ∈ cs, Concerns (some name) e.1) ∧ ∀ i, result = .ok i → ∃ e ∈ cs, Gives i e := by
  cases h with
  | unknown | refused => exact ⟨by simp [Concerns], nofun⟩
  | found i | created i => exact ⟨by simp [Concerns], by simp [Gives]⟩
  | overtaken taken again =>
      refine ⟨by simp [Concerns], ?_⟩
      match again with
      | .error e | .ok none => exact nofun
      | .ok (some i) => simp [Gives, secondLook]

theorem concerns_of_bind {inst : Option InstanceName} {es : List (Event (Actions Backend))}
    {a : Except TracingError Instance} (h : Runs (Instances.bind inst) es a) :
    (∀ e ∈ calls es, Concerns inst e.1) ∧ ∀ i, a = .ok i → ∃ e ∈ calls es, Gives i e := by
  cases inst with
  | none => exact (runs_createFrom h).concerns
  | some name => exact (runs_findOrCreate h).concerns

theorem calls_ne_nil_of_bind {name : Option InstanceName} {es : List (Event (Actions Backend))}
    {i : Instance} (h : Runs (Instances.bind name) es (.ok i)) : calls es ≠ [] := by
  cases name with
  | some name =>
      obtain ⟨found, rest, rfl, -⟩ := runs_perform_bind.1 h
      exact List.cons_ne_nil _ _
  | none =>
      obtain ⟨refused, -, ⟨e, heq, -⟩ | ⟨i', name, -, hcalls⟩⟩ := calls_of_createFrom h
      · cases heq
      · rw [hcalls]
        exact List.append_ne_nil_of_right_ne_nil _ (List.cons_ne_nil _ _)

end Instances

end KernelTrace
