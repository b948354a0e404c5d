import KernelTrace.Proofs.RecordingSteps

/-!
# Which of the names drawn at random is taken

An anonymous instance is tried for under ten names at most, one after the other, and each attempt
costs a random number. Two things can make an attempt fail: creations that find no room, of which
so many are still to come, and names that are live already. Neither changes the live instances, so
which attempt succeeds can be told from the first state and the random numbers alone: it is the
first one that comes after the failures and draws a free name.

The random numbers are a stream given beforehand. The loop uses it up from the front, so what is
left to do after a refused attempt is the same question about the rest of the stream, asked of a
recording with one failure less to come. That shift is the whole induction (`succeeds_tail`,
`refusal_tail`, `afterAttempts_tail`).
-/

namespace KernelTrace

open Program Actions

/-! ## Random numbers from a stream -/

namespace Actions

variable {β : Signature} {S α : Type} {m : Responder β S} {stream : Nat → Draw}
  {es : List (Event (Actions β))}

/-- The random numbers that were drawn. -/
def drawn : List (Event (Actions β)) → List Draw
  | [] => []
  | ⟨.draw, d⟩ :: es => d :: drawn es
  | _ :: es => drawn es

/-- The random numbers that were drawn are those that a stream begins with. -/
def DrawsFrom (stream : Nat → Draw) (es : List (Event (Actions β))) : Prop :=
  ∀ i d, (drawn es)[i]? = some d → d = stream i

theorem drawn_cons_of_ne {op : Action β} {answer : op.Answer} (h : op ≠ .draw) :
    drawn (⟨op, answer⟩ :: es) = drawn es := by
  cases op with
  | draw => exact absurd rfl h
  | _ => rfl

theorem drawsFrom_cons_draw {d : Draw} :
    DrawsFrom stream (⟨.draw, d⟩ :: es) ↔ d = stream 0 ∧ DrawsFrom (fun i => stream (i + 1)) es := by
  constructor
  · exact fun h => ⟨h 0 d rfl, fun i d' hd => h (i + 1) d' hd⟩
  · rintro ⟨hfirst, hrest⟩ i d' hd
    match i with
    | 0 =>
        cases hd
        exact hfirst
    | i + 1 => exact hrest i d' hd

theorem drawsFrom_cons_of_ne {op : Action β} {answer : op.Answer} (h : op ≠ .draw) :
    DrawsFrom stream (⟨op, answer⟩ :: es) ↔ DrawsFrom stream es := by
  rw [DrawsFrom, DrawsFrom, drawn_cons_of_ne h]

/-- Over a backend that answers every operation, a program comes to its end whatever the random
numbers are. -/
theorem exists_runsOn_drawing (hm : ∀ s op, ∃ a t, m s op a t) (p : Program (Actions β) α)
    (stream : Nat → Draw) (s : S) : ∃ es a t, RunsOn m p s es a t ∧ DrawsFrom stream es := by
  induction p generalizing stream s with
  | done a => exact ⟨[], a, s, ⟨.done a, .nil s⟩, nofun⟩
  | ask op next ih =>
      by_cases hdraw : op = .draw
      · subst hdraw
        obtain ⟨es, a, u, ⟨hruns, hserved⟩, hfrom⟩ := ih (stream 0) (fun i => stream (i + 1)) s
        exact ⟨⟨.draw, stream 0⟩ :: es, a, u, ⟨.ask hruns, hserved⟩,
          drawsFrom_cons_draw.2 ⟨rfl, hfrom⟩⟩
      · obtain ⟨answer, t, hfirst⟩ := exists_answer hm s op
        obtain ⟨es, a, u, ⟨hruns, hserved⟩, hfrom⟩ := ih answer stream t
        refine ⟨⟨op, answer⟩ :: es, a, u, ⟨.ask hruns, ?_⟩, (drawsFrom_cons_of_ne hdraw).2 hfrom⟩
        rw [calls_cons]
        exact Responder.serves_append.2 ⟨t, hfirst, hserved⟩

end Actions

/-! ## What a name drawn at random looks like -/

/-- What a name made of a random number is. -/
structure InstanceName.Generated (d : Draw) (n : InstanceName) : Prop where
  text : n.text.toList = "kube_".toList ++ (d.hexDigits 32).take 11
  size : n.text.utf8ByteSize = 16
  accepted : parse n.text = .ok n
  owned : n.isOwned = true

theorem InstanceName.generated_random (d : Draw) : Generated d (random d) where
  text := by
    have hdigits : (d.hexDigits 32).take 11 = d.hexDigits randomDigits := by
      rw [Draw.hexDigits, Draw.hexDigits, ← List.map_take, List.take_range]
      rfl
    rw [hdigits]
    exact String.toList_ofList
  size := utf8ByteSize_randomChars d
  accepted := parse_text _
  owned := isOwnedText_random d

/-! ## One attempt after the other -/

namespace Recording

variable {r r' : Recording} {stream : Nat → Draw}

/-- Whether the attempt under the `i`-th name succeeds if all before it have failed: the creations
that find no room are over by then, and the name is free. -/
def Succeeds (r : Recording) (stream : Nat → Draw) (i : Nat) : Prop :=
  r.failingCreates ≤ i ∧ r.instances.get? (InstanceName.random (stream i)).text = none

/-- What the attempt under the `i`-th name is refused with otherwise. -/
def refusal (r : Recording) (stream : Nat → Draw) (i : Nat) : TracingError :=
  if i < r.failingCreates then .createFailed (.random (stream i)) (.os .noSpace)
  else .alreadyExists (.random (stream i))

/-- The attempt under the `i`-th name, refused. -/
def refusedAttempt (r : Recording) (stream : Nat → Draw) (i : Nat) : Event Backend :=
  ⟨.createInstance (.random (stream i)), .error (r.refusal stream i)⟩

/-- The recording once it has taken note of the first `count` attempts. -/
def afterAttempts (r : Recording) (stream : Nat → Draw) (count : Nat) : Recording :=
  { r with
    calls := r.calls ++ (List.range count).map fun i => .createInstance (.random (stream i))
    createCalls := r.createCalls + count
    failingCreates := r.failingCreates - count }

theorem create_of_succeeds (h : r.Succeeds stream 0) :
    r.create (.random (stream 0)) = (.ok (instanceOf (.random (stream 0))),
      (r.afterAttempts stream 1).withInstance (InstanceName.random (stream 0)).text) := by
  obtain ⟨hroom, hfree⟩ := h
  have hnone : r.failingCreates = 0 := Nat.le_zero.1 hroom
  rw [create, afterAttempts, SortedMap.contains, note, hnone, if_neg (Nat.lt_irrefl 0), hfree]
  rfl

theorem create_of_not_succeeds (h : ¬ r.Succeeds stream 0) :
    r.create (.random (stream 0)) = (.error (r.refusal stream 0), r.afterAttempts stream 1) := by
  rw [create, afterAttempts, refusal, note]
  by_cases hroom : 0 < r.failingCreates
  · rw [if_pos hroom, if_pos hroom]
    rfl
  · have hnone : r.failingCreates = 0 := Nat.eq_zero_of_not_pos hroom
    have htaken : r.instances.contains (InstanceName.random (stream 0)).text = true :=
      Option.isSome_iff_ne_none.2 fun hfree => h ⟨Nat.le_of_eq hnone, hfree⟩
    rw [hnone, if_neg (Nat.lt_irrefl 0), if_neg (Nat.lt_irrefl 0), if_pos htaken]
    rfl

theorem succeeds_tail (i : Nat) :
    (r.afterAttempts stream 1).Succeeds (fun i => stream (i + 1)) i ↔ r.Succeeds stream (i + 1) :=
  and_congr_left' Nat.sub_le_iff_le_add

theorem refusal_tail (i : Nat) :
    (r.afterAttempts stream 1).refusal (fun i => stream (i + 1)) i = r.refusal stream (i + 1) := by
  have hroom : i < r.failingCreates - 1 ↔ i + 1 < r.failingCreates := Nat.lt_sub_iff_add_lt
  simp only [refusal, afterAttempts, hroom]

theorem map_range_succ {α : Type} (f : Nat → α) (n : Nat) :
    (List.range (n + 1)).map f = f 0 :: (List.range n).map fun i => f (i + 1) := by
  rw [List.range_succ_eq_map, List.map_cons, List.map_map]
  rfl

theorem afterAttempts_tail (count : Nat) :
    (r.afterAttempts stream 1).afterAttempts (fun i => stream (i + 1)) count =
      r.afterAttempts stream (count + 1) := by
  simp only [afterAttempts, map_range_succ, List.append_assoc, Nat.add_assoc, Nat.sub_sub,
    Nat.add_comm 1 count]
  rfl

/-- `Tried r stream left failed cs result r'`: how the attempts under the first `left` names of a
stream go, what they make of the recording, and what they come to after `failed`. -/
inductive Tried (r : Recording) (stream : Nat → Draw) (left : Nat) (failed : List TracingError) :
    List (Event Backend) → Except TracingError Instance → Recording → Prop where
  | created {i : Nat} (within : i < left) (succeeds : r.Succeeds stream i)
      (first : ∀ j < i, ¬ r.Succeeds stream j) :
      Tried r stream left failed
        ((List.range i).map (r.refusedAttempt stream) ++
          [⟨.createInstance (.random (stream i)), .ok (instanceOf (.random (stream i)))⟩])
        (.ok (instanceOf (.random (stream i))))
        ((r.afterAttempts stream (i + 1)).withInstance (InstanceName.random (stream i)).text)
  | exhausted (none : ∀ i < left, ¬ r.Succeeds stream i) :
      Tried r stream left failed ((List.range left).map (r.refusedAttempt stream))
        (.error (.exhausted (failed ++ (List.range left).map (r.refusal stream))))
        (r.afterAttempts stream left)

theorem Tried.after_refusal {left : Nat} {failed : List TracingError} {cs : List (Event Backend)}
    {result : Except TracingError Instance} (hfirst : ¬ r.Succeeds stream 0)
    (h : Tried (r.afterAttempts stream 1) (fun i => stream (i + 1)) left
      (failed ++ [r.refusal stream 0]) cs result r') :
    Tried r stream (left + 1) failed (r.refusedAttempt stream 0 :: cs) result r' := by
  have hevent : (r.afterAttempts stream 1).refusedAttempt (fun i => stream (i + 1)) =
      fun i => r.refusedAttempt stream (i + 1) := by
    funext i
    rw [refusedAttempt, refusal_tail, refusedAttempt]
  have hnone : ∀ n, (∀ i < n, ¬ (r.afterAttempts stream 1).Succeeds (fun i => stream (i + 1)) i) →
      ∀ i < n + 1, ¬ r.Succeeds stream i := by
    intro n hn i hi
    match i with
    | 0 => exact hfirst
    | i + 1 => exact fun h => hn i (Nat.lt_of_succ_lt_succ hi) ((succeeds_tail i).2 h)
  cases h with
  | @created i within succeeds first =>
      rw [hevent, afterAttempts_tail, ← List.cons_append, ← map_range_succ]
      exact .created (Nat.succ_lt_succ within) ((succeeds_tail i).1 succeeds) (hnone i first)
  | exhausted none =>
      have hrefusals : (r.afterAttempts stream 1).refusal (fun i => stream (i + 1)) =
          fun i => r.refusal stream (i + 1) := funext refusal_tail
      rw [hevent, hrefusals, afterAttempts_tail, List.append_assoc, List.singleton_append,
        ← map_range_succ, ← map_range_succ (r.refusal stream)]
      exact .exhausted (hnone left none)

theorem tried_of_createFrom {left : Nat} {failed : List TracingError}
    {es : List (Event (Actions Backend))} {result : Except TracingError Instance}
    (h : RunsOn responder (Instances.createFrom left failed) r es result r')
    (hdraws : DrawsFrom stream es) : Tried r stream left failed (Actions.calls es) result r' := by
  induction left generalizing r stream failed es with
  | zero =>
      obtain ⟨rfl, rfl, rfl⟩ := runsOn_pure.1 h
      have hnone := @Tried.exhausted r' stream 0 failed nofun
      rw [List.range_zero, List.map_nil, List.map_nil, List.append_nil] at hnone
      have hsame : r'.afterAttempts stream 0 = r' := by
        rw [afterAttempts, List.range_zero, List.map_nil, List.append_nil]
        rfl
      rwa [hsame] at hnone
  | succ left ih =>
      obtain ⟨d, rest, rfl, hcreate⟩ := h.after_draw
      obtain ⟨rfl, hlater⟩ := drawsFrom_cons_draw.1 hdraws
      obtain ⟨created, rest, r₁, rfl, hstep, h₁⟩ := hcreate.after_backend
      change r.create (.random (stream 0)) = (created, r₁) at hstep
      by_cases hfirst : r.Succeeds stream 0
      · rw [create_of_succeeds hfirst] at hstep
        cases hstep
        obtain ⟨rest, rfl, hend⟩ := h₁.after_log
        obtain ⟨rfl, rfl, rfl⟩ := runsOn_pure.1 hend
        exact Tried.created (Nat.zero_lt_succ left) hfirst nofun
      · rw [create_of_not_succeeds hfirst] at hstep
        cases hstep
        obtain ⟨rest, rfl, hagain⟩ := h₁.after_log
        exact (ih hagain hlater).after_refusal hfirst

/-- Whatever is live, however many creations are still to find no room, and whatever the random
numbers are: the names made of them are tried one after the other, and the instance is the first of
ten attempts that succeeds. What was live stays as it was, and next to it there is one fresh instance,
under a name that was free. If none of the ten succeeds, their refusals are reported in order. -/
theorem createAnonymous_firstFree (r : Recording) (stream : Nat → Draw) :
    (∀ i, InstanceName.Generated (stream i) (.random (stream i))) ∧
    (∃ es result r', RunsOn responder Instances.createAnonymous r es result r' ∧
      DrawsFrom stream es) ∧
    ∀ es result r', RunsOn responder Instances.createAnonymous r es result r' →
      DrawsFrom stream es →
      (∃ i < 10, r.Succeeds stream i ∧ (∀ j < i, ¬ r.Succeeds stream j) ∧
        result = .ok (instanceOf (.random (stream i))) ∧
        Actions.calls es = (List.range i).map (r.refusedAttempt stream) ++
          [⟨.createInstance (.random (stream i)), .ok (instanceOf (.random (stream i)))⟩] ∧
        r' = (r.afterAttempts stream (i + 1)).withInstance
          (InstanceName.random (stream i)).text) ∨
      ((∀ i < 10, ¬ r.Succeeds stream i) ∧
        result = .error (.exhausted ((List.range 10).map (r.refusal stream))) ∧
        Actions.calls es = (List.range 10).map (r.refusedAttempt stream) ∧
        r' = r.afterAttempts stream 10 ∧ r'.instances = r.instances) := by
  refine ⟨fun i => InstanceName.generated_random (stream i),
    exists_runsOn_drawing (fun _ _ => ⟨_, _, rfl⟩) _ stream r, fun es result r' hrun hdraws => ?_⟩
  have htried : Tried r stream 10 [] (Actions.calls es) result r' :=
    tried_of_createFrom hrun hdraws
  generalize Actions.calls es = cs at htried ⊢
  cases htried with
  | @created i within succeeds first => exact .inl ⟨i, within, succeeds, first, rfl, rfl, rfl⟩
  | exhausted none => exact .inr ⟨none, rfl, rfl, rfl, rfl⟩

/-- The first attempt finds no room, the second draws the same number, whose name is taken, and the
third succeeds. -/
theorem createAnonymous_firstFree_third :
    let stream : Nat → Draw := fun i => if i < 2 then 0 else 1#128 <<< 127
    let r := (Recording.empty.withInstance "kube_00000000000").failNextCreates 1
    ∃ es r', RunsOn responder Instances.createAnonymous r es
        (.ok (instanceOf (.random (stream 2)))) r' ∧
      DrawsFrom stream es ∧ (InstanceName.random (stream 2)).text = "kube_80000000000" ∧
      r'.createCalls = 3 ∧ r'.failingCreates = 0 ∧
      r'.instances.keys = ["kube_00000000000", "kube_80000000000"] := by
  intro stream r
  obtain ⟨-, ⟨es, result, r', hrun, hdraws⟩, hall⟩ := createAnonymous_firstFree r stream
  have hthird : r.Succeeds stream 2 := ⟨by decide, by decide +kernel⟩
  have hbefore : ∀ i < 2, ¬ r.Succeeds stream i := by
    rintro i hi ⟨-, hfree⟩
    rw [show stream i = 0 from if_pos hi] at hfree
    exact absurd hfree (by decide +kernel)
  obtain ⟨i, -, hi, hfirst, rfl, -, rfl⟩ | ⟨hnone, -⟩ := hall es result r' hrun hdraws
  · obtain rfl : i = 2 := by
      obtain hlt | heq | hgt := Nat.lt_trichotomy i 2
      · exact absurd hi (hbefore i hlt)
      · exact heq
      · exact absurd hthird (hfirst 2 hgt)
    exact ⟨es, _, hrun, hdraws, by decide +kernel, by decide +kernel, by decide +kernel,
      by decide +kernel⟩
  · exact absurd hthird (hnone 2 (by decide))

end Recording

end KernelTrace
