import KernelTrace.Tracing.EventSet

/-!
# What a set of events is made of

A set of events is made by inserting pairs of a system and an event. The representation would allow
more, a system without any events for instance, so what is true of the sets that there are is got by
going along the insertions: a system has at least one event, and every event is there because it was
inserted (`madeOf_ofList`).
-/

namespace KernelTrace

namespace EventSet

/-- `s.MadeOf P`: every system of the set has events, and `P` holds of each of them. -/
def MadeOf (P : String → String → Prop) (s : EventSet) : Prop :=
  ∀ system events, s.systems.get? system = some events →
    events ≠ [] ∧ ∀ event ∈ events, P system event

variable {P : String → String → Prop} {s : EventSet}

theorem madeOf_empty : empty.MadeOf P := nofun

theorem MadeOf.insert (h : s.MadeOf P) {system event : String} (hevent : P system event) :
    (s.insert system event).MadeOf P := by
  have hold : ∀ e ∈ (s.systems.get? system).getD [], P system e := by
    cases hget : s.systems.get? system with
    | none => simp
    | some events => exact (h _ events hget).2
  intro system' events hget
  rw [EventSet.insert, SortedMap.get?_insert] at hget
  split at hget
  · next heq =>
      subst heq
      cases hget
      split
      · next hmem => exact ⟨List.ne_nil_of_mem hmem, hold⟩
      · refine ⟨by simp, fun e he => ?_⟩
        rcases List.mem_append.1 he with he | he
        · exact hold e he
        · exact List.mem_singleton.1 he ▸ hevent
  · exact h system' events hget

theorem madeOf_ofList {l : List (String × String)} (h : ∀ x ∈ l, P x.1 x.2) :
    (ofList l).MadeOf P := by
  -- inserting keeps what holds of the set so far
  suffices hall : ∀ s : EventSet, s.MadeOf P →
      (l.foldl (fun s e => s.insert e.1 e.2) s).MadeOf P from hall _ madeOf_empty
  induction l with
  | nil => exact fun _ hs => hs
  | cons x rest ih =>
      exact fun s hs => ih (fun e he => h e (List.mem_cons_of_mem x he)) _
        (hs.insert (h x List.mem_cons_self))

theorem eq_empty_of_toList (h : s.toList = []) : s = empty := by
  obtain ⟨⟨entries, ordered⟩⟩ := s
  obtain rfl : entries = [] := h
  rfl

end EventSet

end KernelTrace
