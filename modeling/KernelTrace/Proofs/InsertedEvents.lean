import Mathlib.Data.List.Basic
import KernelTrace.Proofs.EventSets
import KernelTrace.Proofs.FirstOccurrences
import KernelTrace.Proofs.TextPieces

/-!
# What a set of events lists

Events are switched off again by going through the set that they were switched on by. That each is
met once, and in the same order, is a matter of how the set was made. Inserting a pair looks at the
events of its own system only, so the insertions for one system can be read on their own, and what
they leave there is their events without the later occurrences (`get?_ofList`). Everything else that
a set lists follows from this: which pairs there are, in which order, and when there are none
(`inserted_listed`).

The systems come in the order of their bytes whatever is inserted when, for that is the order of the
map behind the set.
-/

namespace KernelTrace

namespace EventSet

variable {s s' : EventSet} {system system' event event' : String} {l : List (String × String)}

/-! ## One insertion -/

theorem ext_systems (h : ∀ k, s.systems.get? k = s'.systems.get? k) : s = s' := by
  cases s
  cases s'
  exact congrArg mk (SortedMap.ext_get? h)

/-- An insertion changes the events of its system only. -/
theorem get?_insert {events : List String} (h : (s.systems.get? system).getD [] = events)
    (event k : String) : (s.insert system event).systems.get? k =
      if k = system then some (if event ∈ events then events else events ++ [event])
      else s.systems.get? k := by
  subst h
  exact SortedMap.get?_insert ..

theorem insert_of_mem {events : List String} (hget : s.systems.get? system = some events)
    (hmem : event ∈ events) : s.insert system event = s := by
  refine ext_systems fun k => ?_
  rw [get?_insert (congrArg (Option.getD · []) hget), Option.getD_some, if_pos hmem]
  split
  · next hk => rw [hk, hget]
  · rfl

theorem insert_comm (h : system ≠ system') (s : EventSet) (event event' : String) :
    (s.insert system event).insert system' event' =
      (s.insert system' event').insert system event := by
  have hkept : ∀ {k k' : String}, k' ≠ k → ∀ e,
      ((s.insert k e).systems.get? k').getD [] = (s.systems.get? k').getD [] := fun hne e => by
    rw [get?_insert rfl, if_neg hne]
  refine ext_systems fun k => ?_
  rw [get?_insert (hkept h.symm event), get?_insert (hkept h event'), get?_insert rfl,
    get?_insert rfl]
  by_cases hk : k = system
  · rw [if_pos hk, if_neg (hk ▸ h), if_pos hk]
  · rw [if_neg hk, if_neg hk]

/-! ## Insertions in order -/

/-- The set with more pairs, inserted in order. -/
def insertAll (s : EventSet) (l : List (String × String)) : EventSet :=
  l.foldl (fun s e => s.insert e.1 e.2) s

/-- The events of one system, in the order of their pairs. -/
def eventsOf (l : List (String × String)) (system : String) : List String :=
  (l.filter (·.1 = system)).map (·.2)

theorem mem_eventsOf : event ∈ eventsOf l system ↔ (system, event) ∈ l := by
  simp [eventsOf]

theorem eventsOf_concat (l : List (String × String)) (system event k : String) :
    eventsOf (l ++ [(system, event)]) k =
      if k = system then eventsOf l k ++ [event] else eventsOf l k := by
  by_cases hk : k = system
  · simp [eventsOf, List.filter_append, hk]
  · simp [eventsOf, List.filter_append, hk, Ne.symm hk]

theorem ofList_concat (l : List (String × String)) (x : String × String) :
    ofList (l ++ [x]) = (ofList l).insert x.1 x.2 := by
  rw [ofList, List.foldl_append]
  rfl

/-- Under each system that came up stand its events, each where it came up first. -/
theorem get?_ofList (l : List (String × String)) (k : String) :
    (ofList l).systems.get? k =
      if eventsOf l k = [] then none else some (eventsOf l k).eraseDups := by
  induction l using List.reverseRecOn with
  | nil => rfl
  | append_singleton l x ih =>
      obtain ⟨system, event⟩ := x
      rw [ofList_concat, eventsOf_concat]
      by_cases hk : k = system
      · subst hk
        have hsofar : ((ofList l).systems.get? k).getD [] = (eventsOf l k).eraseDups := by
          rw [ih]
          split
          · next hnil => rw [hnil]; rfl
          · rfl
        have hne : eventsOf l k ++ [event] ≠ [] :=
          List.append_ne_nil_of_right_ne_nil _ (List.cons_ne_nil event [])
        rw [get?_insert hsofar, if_pos rfl, if_pos rfl, if_neg hne, eraseDups_concat]
      · rw [get?_insert rfl, if_neg hk, if_neg hk, ih]

theorem mem_toList_ofList {k : String} {events : List String} :
    (k, events) ∈ (ofList l).toList ↔
      eventsOf l k ≠ [] ∧ events = (eventsOf l k).eraseDups := by
  rw [toList, ← SortedMap.get?_eq_some_iff, get?_ofList]
  split
  · next hnil => simp [hnil]
  · next hne => simp [hne, eq_comm]

theorem eventsOf_cons (k e : String) (l : List (String × String)) (system : String) :
    eventsOf ((k, e) :: l) system =
      if k = system then e :: eventsOf l system else eventsOf l system := by
  by_cases hk : k = system <;> simp [eventsOf, hk]

/-- What comes first among the events of one system comes first among all pairs. -/
theorem idxOf_lt_of_eventsOf
    (h : (eventsOf l system).idxOf event < (eventsOf l system).idxOf event') :
    l.idxOf (system, event) < l.idxOf (system, event') := by
  induction l with
  | nil => exact absurd h (Nat.lt_irrefl 0)
  | cons x l ih =>
      obtain ⟨k, e⟩ := x
      have hother : ∀ {a}, (k, e) ≠ (system, a) →
          ((k, e) :: l).idxOf (system, a) = l.idxOf (system, a) + 1 :=
        fun hne => List.idxOf_cons_ne l hne
      rw [eventsOf_cons] at h
      by_cases hk : k = system
      · subst hk
        rw [if_pos rfl] at h
        have hlast : e ≠ event' := by
          rintro rfl
          rw [List.idxOf_cons_self] at h
          exact Nat.not_lt_zero _ h
        rw [hother fun heq => hlast (Prod.mk.inj heq).2]
        by_cases he : e = event
        · rw [he, List.idxOf_cons_self]
          exact Nat.succ_pos _
        · rw [List.idxOf_cons_ne _ he, List.idxOf_cons_ne _ hlast] at h
          rw [hother fun heq => he (Prod.mk.inj heq).2]
          exact Nat.succ_lt_succ (ih (Nat.lt_of_succ_lt_succ h))
      · rw [if_neg hk] at h
        rw [hother fun heq => hk (Prod.mk.inj heq).1, hother fun heq => hk (Prod.mk.inj heq).1]
        exact Nat.succ_lt_succ (ih h)

/-! ## What is listed -/

/-- The pairs that a set lists. -/
def Lists (s : EventSet) (system event : String) : Prop :=
  ∃ events, (system, events) ∈ s.toList ∧ event ∈ events

theorem lists_ofList : (ofList l).Lists system event ↔ (system, event) ∈ l := by
  constructor
  · rintro ⟨events, hlisted, hmem⟩
    obtain ⟨-, rfl⟩ := mem_toList_ofList.1 hlisted
    exact mem_eventsOf.1 (List.mem_eraseDups.1 hmem)
  · intro hmem
    have hevent := mem_eventsOf.2 hmem
    exact ⟨_, mem_toList_ofList.2 ⟨List.ne_nil_of_mem hevent, rfl⟩, List.mem_eraseDups.2 hevent⟩

theorem toList_ordered (s : EventSet) :
    s.toList.Pairwise fun a b => Utf8.encode a.1 < Utf8.encode b.1 :=
  s.systems.ordered.imp Utf8.encode_lt

theorem isEmpty_ofList : (ofList l).isEmpty = true ↔ l = [] := by
  constructor
  · intro hempty
    refine List.eq_nil_iff_forall_not_mem.2 fun x hx => ?_
    obtain ⟨events, hlisted, -⟩ := lists_ofList.2 hx
    have hnil : (ofList l).toList = [] := List.isEmpty_iff.1 hempty
    rw [hnil] at hlisted
    exact absurd hlisted List.not_mem_nil
  · rintro rfl
    rfl

/-- The pairs that have been inserted when a set is started with. -/
def startingPairs (start : Option String) : List (String × String) :=
  start.toList.map fun system => (system, "all")

theorem insertAll_eq (start : Option String) (l : List (String × String)) :
    (start.elim empty ofSystem).insertAll l = ofList (startingPairs start ++ l) := by
  rw [ofList, List.foldl_append]
  cases start <;> rfl

/-- A set that was made by insertions, with nothing or a whole system to start with, lists the
systems in the order of their bytes, each with the events that were inserted for it, once and in the
order of their first insertions. It lists what was inserted and nothing else, another insertion of
that changes nothing, and insertions into different systems can be exchanged. -/
theorem inserted_listed (start : Option String) (l : List (String × String)) :
    let s := (start.elim empty ofSystem).insertAll l
    let inserted := startingPairs start ++ l
    (s.toList.Pairwise fun a b => Utf8.encode a.1 < Utf8.encode b.1) ∧
      (∀ system events, (system, events) ∈ s.toList →
        events ≠ [] ∧ events.Nodup ∧ (∀ event, event ∈ events ↔ (system, event) ∈ inserted) ∧
          events.Pairwise fun e e' => inserted.idxOf (system, e) < inserted.idxOf (system, e')) ∧
      (∀ system event, s.Lists system event ↔ (system, event) ∈ inserted) ∧
      (∀ system event, s.Lists system event → s.insert system event = s) ∧
      (∀ system event system' event', system ≠ system' →
        (s.insert system event).insert system' event' =
          (s.insert system' event').insert system event) ∧
      (s.isEmpty = true ↔ inserted = []) := by
  intro s inserted
  have hs : s = ofList inserted := insertAll_eq start l
  clear_value s inserted
  subst hs
  refine ⟨toList_ordered _, fun system events hlisted => ?_, fun _ _ => lists_ofList,
    fun system event => ?_, fun system event system' event' h => insert_comm h _ event event',
    isEmpty_ofList⟩
  · obtain ⟨hne, rfl⟩ := mem_toList_ofList.1 hlisted
    have hpairwise : (eventsOf inserted system).eraseDups.Pairwise fun e e' =>
        inserted.idxOf (system, e) < inserted.idxOf (system, e') :=
      (pairwise_idxOf_eraseDups (eventsOf inserted system)).imp idxOf_lt_of_eventsOf
    refine ⟨mt eraseDups_eq_nil.1 hne, ?_, fun event => ?_, hpairwise⟩
    · refine hpairwise.imp fun hlt heq => ?_
      rw [heq] at hlt
      exact Nat.lt_irrefl _ hlt
    · rw [List.mem_eraseDups, mem_eventsOf]
  · rintro ⟨events, hlisted, hmem⟩
    exact insert_of_mem (((ofList inserted).systems.get?_eq_some_iff _ _).2 hlisted) hmem

example : ((ofSystem "syscalls").insertAll
      [("syscalls", "sys_enter_read"), ("sched", "wake"), ("syscalls", "all")]).toList =
    [("sched", ["wake"]), ("syscalls", ["all", "sys_enter_read"])] := by decide

end EventSet

end KernelTrace
