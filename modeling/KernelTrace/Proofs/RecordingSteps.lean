import KernelTrace.Tracing.Recording
import KernelTrace.Proofs.SessionCourse

/-!
# What a call does to a recording

One inversion lemma for each call that sessions make says everything the call can do to the live
instances and to the failures that are still to come. Nothing after this file unfolds the backend.

A setting is either refused, and then no instance changes, or made, and then the state of its own
instance changes and no other. So the state of an instance is a fold over the settings made on it
(`InstanceState.replay`), whatever else the backend is asked for in between.
-/

namespace KernelTrace

open Program Actions

/-- The state after some settings: those that were refused leave it as it is. -/
def InstanceState.replay (st : InstanceState) : List SettingCall → InstanceState
  | [] => st
  | c :: calls =>
    match c.answer with
    | .ok () => (st.apply c.setting).replay calls
    | .error _ => st.replay calls

theorem InstanceState.replay_append (st : InstanceState) (calls calls' : List SettingCall) :
    st.replay (calls ++ calls') = (st.replay calls).replay calls' := by
  induction calls generalizing st with
  | nil => rfl
  | cons c calls ih =>
      obtain ⟨i, s, answer⟩ := c
      match answer with
      | .ok () => exact ih (st.apply s)
      | .error _ => exact ih st

/-- What every setting that was made preserves, the whole list preserves. -/
theorem InstanceState.replay_invariant {P : InstanceState → Prop} {st : InstanceState}
    {calls : List SettingCall} (hst : P st)
    (step : ∀ c ∈ calls, c.answer = .ok () → ∀ st, P st → P (st.apply c.setting)) :
    P (st.replay calls) := by
  induction calls generalizing st with
  | nil => exact hst
  | cons c calls ih =>
      have htail := fun c' hc' => step c' (List.mem_cons_of_mem c hc')
      rw [replay]
      split
      · next hmade => exact ih (step c List.mem_cons_self hmade st hst) htail
      · exact ih hst htail

namespace Recording

def responder : Responder Backend Recording := .ofFunction answer

variable {r r' : Recording}

/-- A setting is refused because a failure was arranged or the instance is not live, or it changes
the state of its instance. -/
theorem set_cases {i : Instance} {s : Setting} {a : Except TracingError Unit}
    (h : responder r (.set i s) a r') :
    r'.failingCreates = r.failingCreates ∧ (∀ k, r'.failing k ≤ r.failing k) ∧
      ((∃ e, a = .error e ∧ r'.instances = r.instances ∧
          (0 < r.failing s.knob ∨ r.instances.get? i.name.text = none)) ∨
        ∃ st, a = .ok () ∧ r.instances.get? i.name.text = some st ∧
          r'.instances = r.instances.insert i.name.text (st.apply s)) := by
  change r.set i s = (a, r') at h
  rw [set] at h
  split at h
  · next hfail =>
      cases h
      refine ⟨rfl, fun k => ?_, Or.inl ⟨_, rfl, rfl, Or.inl hfail⟩⟩
      show (if k = s.knob then r.failing k - 1 else r.failing k) ≤ r.failing k
      split <;> omega
  · split at h
    · next hnone =>
        cases h
        exact ⟨rfl, fun _ => Nat.le_refl _, Or.inl ⟨_, rfl, rfl, Or.inr hnone⟩⟩
    · next st hst =>
        cases h
        exact ⟨rfl, fun _ => Nat.le_refl _, Or.inr ⟨st, rfl, hst, rfl⟩⟩

/-- A creation fails and changes no instance, or it adds a fresh one under a name that was free. -/
theorem create_cases {name : InstanceName} {a : Except TracingError Instance}
    (h : responder r (.createInstance name) a r') :
    r'.failing = r.failing ∧ r'.failingCreates ≤ r.failingCreates ∧
      ((∃ e, a = .error e ∧ r'.instances = r.instances) ∨
        a = .ok (instanceOf name) ∧ r.instances.get? name.text = none ∧
          r'.instances = r.instances.insert name.text .fresh) := by
  change r.create name = (a, r') at h
  rw [create] at h
  split at h
  · cases h
    exact ⟨rfl, Nat.sub_le _ _, Or.inl ⟨_, rfl, rfl⟩⟩
  · split at h
    · cases h
      exact ⟨rfl, Nat.le_refl _, Or.inl ⟨_, rfl, rfl⟩⟩
    · next hfree =>
        cases h
        refine ⟨rfl, Nat.le_refl _, Or.inr ⟨rfl, ?_, rfl⟩⟩
        exact Option.not_isSome_iff_eq_none.1 hfree

/-- While no failure of a creation is arranged, one fails only because the name is taken. -/
theorem create_cases_of_room {name : InstanceName} {a : Except TracingError Instance}
    (hroom : r.failingCreates = 0) (h : responder r (.createInstance name) a r') :
    (a = .error (.alreadyExists name) ∧ r'.instances = r.instances ∧
        r.instances.get? name.text ≠ none) ∨
      (a = .ok (instanceOf name) ∧ r.instances.get? name.text = none ∧
        r'.instances = r.instances.insert name.text .fresh) := by
  change r.create name = (a, r') at h
  rw [create, note, hroom, if_neg (Nat.lt_irrefl 0)] at h
  split at h
  · next htaken =>
      cases h
      exact .inl ⟨rfl, rfl, Option.isSome_iff_ne_none.1 htaken⟩
  · next hfree =>
      cases h
      exact .inr ⟨rfl, Option.not_isSome_iff_eq_none.1 hfree, rfl⟩

/-- Looking for an instance changes nothing, and finds it if it is live. -/
theorem find_cases {name : InstanceName} {a : Except TracingError (Option Instance)}
    (h : responder r (.findInstance name) a r') :
    r' = r ∧ ((a = .ok none ∧ r.instances.get? name.text = none) ∨
      ∃ st, a = .ok (some (instanceOf name)) ∧ r.instances.get? name.text = some st) := by
  change (Except.ok (if r.instances.contains name.text then some (instanceOf name) else none), r)
    = (a, r') at h
  rw [SortedMap.contains] at h
  cases hget : r.instances.get? name.text with
  | none =>
      rw [hget] at h
      cases h
      exact ⟨rfl, Or.inl ⟨rfl, rfl⟩⟩
  | some st =>
      rw [hget] at h
      cases h
      exact ⟨rfl, Or.inr ⟨st, rfl, rfl⟩⟩

/-- A removal fails because the instance is in use or not live, and then it changes no instance, or
it takes one away that is live. -/
theorem destroy_cases {name : String} {a : Except TracingError Unit}
    (h : responder r (.destroyInstance name) a r') :
    r'.failingCreates = r.failingCreates ∧ r'.busy = r.busy ∧
      ((∃ e, a = .error e ∧ r'.instances = r.instances ∧
          (name ∈ r.busy ∨ r.instances.get? name = none)) ∨
        ∃ st, a = .ok () ∧ name ∉ r.busy ∧ r.instances.get? name = some st ∧
          r'.instances = r.instances.erase name) := by
  change r.destroy name = (a, r') at h
  rw [destroy] at h
  split at h
  · next hbusy =>
      cases h
      exact ⟨rfl, rfl, Or.inl ⟨_, rfl, rfl, Or.inl hbusy⟩⟩
  · next hbusy =>
      split at h
      · next hlive =>
          cases h
          obtain ⟨st, hst⟩ := Option.isSome_iff_exists.1 hlive
          exact ⟨rfl, rfl, Or.inr ⟨st, rfl, hbusy, hst, rfl⟩⟩
      · next hgone =>
          cases h
          refine ⟨rfl, rfl, Or.inl ⟨_, rfl, rfl, Or.inr ?_⟩⟩
          exact Option.not_isSome_iff_eq_none.1 hgone

/-- What is live stays live, unless it is removed. -/
theorem live_of_step {e : Event Backend} (h : responder r e.1 e.2 r') {name : String}
    (hlive : r.instances.get? name ≠ none) (hkept : e ≠ ⟨.destroyInstance name, .ok ()⟩) :
    r'.instances.get? name ≠ none := by
  obtain ⟨c, a⟩ := e
  match c with
  | .createInstance n =>
      obtain ⟨-, -, ⟨_, -, hsame⟩ | ⟨-, -, hins⟩⟩ := create_cases h
      · rwa [hsame]
      · rw [hins, SortedMap.get?_insert]
        split <;> simp [hlive]
  | .findInstance n =>
      obtain ⟨rfl, -⟩ := find_cases h
      exact hlive
  | .destroyInstance n =>
      obtain ⟨-, -, ⟨_, -, hsame, -⟩ | ⟨_, rfl, -, -, herase⟩⟩ := destroy_cases h
      · rwa [hsame]
      · have hne : name ≠ n := fun heq => hkept (heq ▸ rfl)
        rwa [herase, SortedMap.get?_erase, if_neg hne]
  | .set i s =>
      obtain ⟨-, -, ⟨_, -, hsame, -⟩ | ⟨_, -, -, hins⟩⟩ := set_cases h
      · rwa [hsame]
      · rw [hins, SortedMap.get?_insert]
        split <;> simp [hlive]
  | .instanceNames | .availableEvents _ =>
      cases h
      exact hlive

/-- Settings on one instance change no other, and its state as `replay` says. -/
theorem serves_settings {i : Instance} {es : List (Event Backend)} (h : responder.Serves r es r')
    (hes : ∀ e ∈ es, ∃ s a, e = ⟨.set i s, a⟩) :
    r'.instances.get? i.name.text =
        (r.instances.get? i.name.text).map (·.replay (settingCalls es)) ∧
      ∀ name, name ≠ i.name.text → r'.instances.get? name = r.instances.get? name := by
  induction h with
  | nil r => exact ⟨by simp [InstanceState.replay], fun _ _ => rfl⟩
  | @cons r mid r' op a es step _ ih =>
      obtain ⟨hown, hothers⟩ := ih fun e he => hes e (List.mem_cons_of_mem _ he)
      obtain ⟨s, a', heq⟩ := hes _ List.mem_cons_self
      cases heq
      obtain ⟨-, -, ⟨e, rfl, hsame, -⟩ | ⟨st, rfl, hst, hins⟩⟩ := set_cases step
      · rw [hsame] at hown hothers
        exact ⟨hown, hothers⟩
      · rw [hins] at hown hothers
        constructor
        · rw [hown, SortedMap.get?_insert_self, hst]
          rfl
        · intro name hne
          rw [hothers name hne, SortedMap.get?_insert_of_ne _ _ hne]

/-! ## Binding -/

/-- `Binds r i r'`: binding `i` takes `r` to `r'`. The instance was live, or it is new and fresh. -/
def Binds (r : Recording) (i : Instance) (r' : Recording) : Prop :=
  (∃ st, r.instances.get? i.name.text = some st ∧ r'.instances = r.instances) ∨
    (r.instances.get? i.name.text = none ∧
      r'.instances = r.instances.insert i.name.text .fresh)

theorem Binds.live {i : Instance} (h : Binds r i r') :
    ∃ st, r'.instances.get? i.name.text = some st := by
  obtain ⟨st, hst, heq⟩ | ⟨-, heq⟩ := h
  · exact ⟨st, heq ▸ hst⟩
  · exact ⟨.fresh, by rw [heq, SortedMap.get?_insert_self]⟩

theorem Binds.others {i : Instance} (h : Binds r i r') {name : String} (hne : name ≠ i.name.text) :
    r'.instances.get? name = r.instances.get? name := by
  obtain ⟨-, -, heq⟩ | ⟨-, heq⟩ := h
  · rw [heq]
  · rw [heq, SortedMap.get?_insert_of_ne _ _ hne]

/-- Every attempt that fails leaves the instances alone, so the one that succeeds starts from where
the first one started. -/
theorem runsOn_createFrom {left : Nat} {failed : List TracingError}
    {es : List (Event (Actions Backend))} {result : Except TracingError Instance}
    (h : RunsOn responder (Instances.createFrom left failed) r es result r') :
    (∃ e, result = .error e ∧ r'.instances = r.instances) ∨
      ∃ i, result = .ok i ∧ r.instances.get? i.name.text = none ∧
        r'.instances = r.instances.insert i.name.text .fresh := by
  induction left generalizing failed r es with
  | zero =>
      obtain ⟨-, rfl, rfl⟩ := runsOn_pure.1 h
      exact Or.inl ⟨_, rfl, rfl⟩
  | succ left ih =>
      obtain ⟨d, rest, rfl, hcreate⟩ := h.after_draw
      obtain ⟨created, rest, r₁, rfl, hstep, h₁⟩ := hcreate.after_backend
      obtain ⟨-, -, ⟨e, rfl, hsame⟩ | ⟨rfl, hfree, hins⟩⟩ := create_cases hstep
      · obtain ⟨rest, rfl, hagain⟩ := h₁.after_log
        rw [← hsame]
        exact ih hagain
      · obtain ⟨rest, rfl, hend⟩ := h₁.after_log
        obtain ⟨-, rfl, rfl⟩ := runsOn_pure.1 hend
        exact Or.inr ⟨_, rfl, hfree, hins⟩

theorem runsOn_findOrCreate {name : InstanceName} {es : List (Event (Actions Backend))}
    {i : Instance} (h : RunsOn responder (Instances.findOrCreate name) r es (.ok i) r') :
    i = instanceOf name ∧ Binds r i r' := by
  obtain ⟨found, rest, r₁, rfl, hfind, h₁⟩ := h.after_backend
  obtain ⟨rfl, ⟨rfl, hnone⟩ | ⟨st, rfl, hst⟩⟩ := find_cases hfind
  · obtain ⟨created, rest, r₂, rfl, hcreate, h₂⟩ := h₁.after_backend
    obtain ⟨-, -, ⟨e, rfl, hsame⟩ | ⟨rfl, hfree, hins⟩⟩ := create_cases hcreate
    · cases e with
      | alreadyExists _ =>
          -- nobody else is there to create it, so the second look finds what the first one found
          obtain ⟨found', rest, r₃, rfl, hfind', h₃⟩ := h₂.after_backend
          obtain ⟨rfl, ⟨rfl, -⟩ | ⟨st, rfl, hst⟩⟩ := find_cases hfind'
          · exact absurd (runsOn_pure.1 h₃).2.1 (by simp)
          · rw [hsame, hnone] at hst
            cases hst
      | _ => exact absurd (runsOn_pure.1 h₂).2.1 (by simp)
    · obtain ⟨rest, rfl, hend⟩ := h₂.after_log
      obtain ⟨-, heq, rfl⟩ := runsOn_pure.1 hend
      cases heq
      exact ⟨rfl, Or.inr ⟨hfree, hins⟩⟩
  · obtain ⟨rest, rfl, hend⟩ := h₁.after_log
    obtain ⟨-, heq, rfl⟩ := runsOn_pure.1 hend
    cases heq
    exact ⟨rfl, Or.inl ⟨st, hst, rfl⟩⟩

theorem runsOn_bindInstance {name : Option InstanceName} {es : List (Event (Actions Backend))}
    {i : Instance} (h : RunsOn responder (Instances.bind name) r es (.ok i) r') :
    Binds r i r' := by
  cases name with
  | some name => exact (runsOn_findOrCreate h).2
  | none =>
      obtain ⟨e, heq, -⟩ | ⟨i', heq, hfree, hins⟩ := runsOn_createFrom h
      · cases heq
      · cases heq
        exact Or.inr ⟨hfree, hins⟩

end Recording

end KernelTrace
