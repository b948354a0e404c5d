import KernelTrace.Proofs.FirstOccurrences
import KernelTrace.Proofs.SyscallsCourse

/-!
# Which events the names of system calls mean

A name stands for the event of that name if there is one, and else for the entry of the system call.
So what is chosen can be read off the names one by one: the first name that means nothing is refused,
and without one the events go into a set with one system, in the order in which they come up first.
What was chosen is available under its own name, which is why it chooses itself again.
-/

namespace KernelTrace

open Program Actions

/-! ## A set with one system -/

namespace EventSet

/-- The set with some events of one system. -/
def single (system : String) (events : List String) : EventSet :=
  ⟨SortedMap.empty.insert system events⟩

variable {system : String}

theorem insert_single (events : List String) (event : String) :
    (single system events).insert system event =
      single system (if event ∈ events then events else events ++ [event]) := by
  have hevents : (single system events).systems.get? system = some events :=
    SortedMap.get?_insert_self ..
  rw [EventSet.insert, hevents, Option.getD_some, single, single]
  congr 1
  refine SortedMap.ext_get? fun k => ?_
  simp only [SortedMap.get?_insert]
  split <;> rfl

theorem foldl_insert_single (events seen : List String) :
    (events.map fun e => (system, e)).foldl (fun s e => s.insert e.1 e.2) (single system seen) =
      single system
        (events.foldl (fun seen e => if e ∈ seen then seen else seen ++ [e]) seen) := by
  induction events generalizing seen with
  | nil => rfl
  | cons e rest ih => rw [List.map_cons, List.foldl_cons, insert_single, ih, List.foldl_cons]

end EventSet

namespace SystemCalls

variable {available names events : List String} {name : String}

theorem ofEvents_eq (h : events ≠ []) : ofEvents events = .single system events.eraseDups := by
  obtain ⟨event, rest, rfl⟩ := List.exists_cons_of_ne_nil h
  have hfold := foldl_unseen id rest [event]
  rw [List.map_id, List.singleton_append] at hfold
  rw [← hfold]
  exact EventSet.foldl_insert_single rest [event]

/-! ## Names one by one -/

/-- Whether a name means an event. -/
def Known (available : List String) (name : String) : Prop :=
  name ∈ available ∨ entryMark ++ name ∈ available

instance : Decidable (Known available name) := inferInstanceAs (Decidable (_ ∨ _))

/-- The event that a known name means. -/
def eventOf (available : List String) (name : String) : String :=
  if name ∈ available then name else entryMark ++ name

theorem eventOf?_eq : eventOf? available name =
    if Known available name then some (eventOf available name) else none := by
  by_cases hname : name ∈ available
  · simp [eventOf?, Known, eventOf, hname]
  · by_cases hentry : entryMark ++ name ∈ available
    · simp [eventOf?, Known, eventOf, hname, hentry]
    · simp [eventOf?, Known, hname, hentry]

theorem Known.mem (h : Known available name) : eventOf available name ∈ available := by
  rw [eventOf]
  split
  · next hname => exact hname
  · next hname => exact h.resolve_left hname

theorem resolve_of_known (h : ∀ n ∈ names, Known available n) :
    resolve available names = .ok (names.map (eventOf available)) := by
  induction names with
  | nil => rfl
  | cons name rest ih =>
      obtain ⟨hname, hrest⟩ := List.forall_mem_cons.1 h
      rw [resolve, eventOf?_eq, if_pos hname]
      dsimp only
      rw [ih hrest, List.map_cons]
      rfl

theorem resolve_of_unknown {before : List String} (after : List String)
    (h : ∀ n ∈ before, Known available n) (hname : ¬ Known available name) :
    resolve available (before ++ name :: after) = .error (.unknownCall name) := by
  induction before with
  | nil => rw [List.nil_append, resolve, eventOf?_eq, if_neg hname]
  | cons n rest ih =>
      obtain ⟨hn, hrest⟩ := List.forall_mem_cons.1 h
      rw [List.cons_append, resolve, eventOf?_eq, if_pos hn]
      dsimp only
      rw [ih hrest]
      rfl

/-- Either all names are known or there is a first one that is not. -/
theorem known_or_unknown (available names : List String) :
    (∀ n ∈ names, Known available n) ∨
      ∃ before name after, names = before ++ name :: after ∧
        (∀ n ∈ before, Known available n) ∧ ¬ Known available name := by
  cases hfirst : names.find? (¬ Known available ·) with
  | none => exact .inl fun n hn => by simpa using List.find?_eq_none.1 hfirst n hn
  | some name =>
      obtain ⟨hname, before, after, rfl, hbefore⟩ := List.find?_eq_some_iff_append.1 hfirst
      exact .inr ⟨before, name, after, rfl, fun n hn => by simpa using hbefore n hn,
        by simpa using hname⟩

theorem mem_of_resolve (h : resolve available names = .ok events) :
    ∀ event ∈ events, event ∈ available := by
  obtain hknown | ⟨before, name, after, rfl, hbefore, hname⟩ := known_or_unknown available names
  · rw [resolve_of_known hknown] at h
    cases h
    intro event hevent
    obtain ⟨n, hn, rfl⟩ := List.mem_map.1 hevent
    exact (hknown n hn).mem
  · rw [resolve_of_unknown after hbefore hname] at h
    cases h

/-! ## What is selected -/

/-- `Selects available names a`: with these events available, selecting by the names comes to `a`. -/
def Selects (available names : List String) (a : Except SelectionError EventSet) : Prop :=
  ∃ es, Runs (select names) es a ∧ calls es = [⟨.availableEvents system, .ok available⟩]

theorem selects_iff {a : Except SelectionError EventSet} :
    Selects available names a ↔ a = choose available names := by
  constructor
  · rintro ⟨es, hruns, hcalls⟩
    obtain ⟨listed, hlisted, rfl⟩ := runs_select hruns
    rw [hcalls] at hlisted
    cases hlisted
    rfl
  · rintro rfl
    exact ⟨[⟨.backend (.availableEvents system), .ok available⟩], .ask (.done _), rfl⟩

theorem isEntry_eq : isEntry = (·.startsWith entryMark) := by
  funext event
  rw [Bool.eq_iff_iff, isEntry, List.isPrefixOf_iff_prefix, String.startsWith_string_iff]

theorem choose_nil : choose available [] =
    .ok (if available.filter isEntry = [] then .ofSystem system
      else ofEvents (available.filter isEntry)) := if_pos rfl

theorem choose_entries (h : available.filter (·.startsWith entryMark) ≠ []) :
    choose available [] =
      .ok (.single system (available.filter (·.startsWith entryMark)).eraseDups) := by
  rw [choose_nil, isEntry_eq, if_neg h, ofEvents_eq h]

theorem choose_system (h : available.filter (·.startsWith entryMark) = []) :
    choose available [] = .ok (.ofSystem system) := by
  rw [choose_nil, isEntry_eq, if_pos h]

theorem choose_of_known (hne : names ≠ []) (h : ∀ n ∈ names, Known available n) :
    choose available names =
      .ok (.single system (names.map (eventOf available)).eraseDups) := by
  rw [choose, if_neg hne, resolve_of_known h, Except.map, ofEvents_eq (by simpa using hne)]

theorem choose_of_unknown {before after : List String} (h : ∀ n ∈ before, Known available n)
    (hname : ¬ Known available name) :
    choose available (before ++ name :: after) = .error (.unknownCall name) := by
  rw [choose, if_neg (by simp), resolve_of_unknown after h hname]
  rfl

/-- Events that are available choose themselves. -/
theorem choose_self (hne : events ≠ []) (h : ∀ e ∈ events, e ∈ available) :
    choose available events = .ok (.single system events.eraseDups) := by
  have hself : events.map (eventOf available) = events :=
    (List.map_congr_left fun e he => if_pos (h e he)).trans (List.map_id' events)
  rw [choose_of_known hne fun e he => .inl (h e he), hself]

/-- Whatever is available and whatever names are given, with names the selection succeeds just if
each of them is known. Then it is the events that they mean, each once and in the order in which they
come up first, all of them available, and naming these events selects the same again. Otherwise the
first unknown name is refused. Without names every entry is selected, or the whole system if there
is none. What is selected is never empty. -/
theorem select_chooses (available names : List String) :
    (∃ a, Selects available names a) ∧ ∀ a, Selects available names a →
      (names ≠ [] →
        ((∃ s, a = .ok s) ↔ ∀ n ∈ names, Known available n) ∧
        (∀ s, a = .ok s → ∃ chosen, chosen = (names.map (eventOf available)).eraseDups ∧
          s.toList = [("syscalls", chosen)] ∧ (∀ event ∈ chosen, event ∈ available) ∧
          ∀ again, Selects available chosen again → again = .ok s) ∧
        ∀ e, a = .error e → ∃ before n after, names = before ++ n :: after ∧
          (∀ n' ∈ before, Known available n') ∧ ¬ Known available n ∧ e = .unknownCall n) ∧
      (names = [] → ∀ entries, entries = available.filter (·.startsWith "sys_enter_") →
        (entries = [] → a = .ok (.ofSystem "syscalls")) ∧
        (entries ≠ [] → ∃ s, a = .ok s ∧ s.toList = [("syscalls", entries.eraseDups)])) ∧
      ∀ s, a = .ok s → s.isEmpty = false := by
  refine ⟨⟨_, selects_iff.2 rfl⟩, fun a ha => ?_⟩
  obtain rfl := selects_iff.1 ha
  by_cases hne : names = []
  · subst hne
    refine ⟨absurd rfl, fun _ entries hentries => ?_, fun s hs => ?_⟩
    · subst hentries
      exact ⟨choose_system, fun hsome => ⟨_, choose_entries hsome, rfl⟩⟩
    · by_cases hnone : available.filter (·.startsWith entryMark) = []
      · rw [choose_system hnone] at hs
        cases hs
        rfl
      · rw [choose_entries hnone] at hs
        cases hs
        rfl
  · obtain hknown | ⟨before, n, after, rfl, hbefore, hn⟩ := known_or_unknown available names
    · have hsome : names.map (eventOf available) ≠ [] := by simpa using hne
      have hmem := fun e (he : e ∈ (names.map (eventOf available)).eraseDups) =>
        mem_of_resolve (resolve_of_known hknown) e (List.mem_eraseDups.1 he)
      rw [choose_of_known hne hknown]
      refine ⟨fun _ => ⟨⟨fun _ => hknown, fun _ => ⟨_, rfl⟩⟩, fun s hs => ?_, nofun⟩,
        fun hnil => absurd hnil hne, fun s hs => ?_⟩
      · cases hs
        refine ⟨_, rfl, rfl, hmem, fun again hagain => ?_⟩
        rw [selects_iff.1 hagain, choose_self (mt eraseDups_eq_nil.1 hsome) hmem,
          eraseDups_eraseDups]
      · cases hs
        rfl
    · rw [choose_of_unknown hbefore hn]
      refine ⟨fun _ => ⟨⟨nofun, fun hall => absurd (hall n (by simp)) hn⟩, nofun, fun e he => ?_⟩,
        fun hnil => absurd hnil hne, nofun⟩
      cases he
      exact ⟨before, n, after, rfl, hbefore, hn, rfl⟩

/-- A name with the mark, one without it and two that are events as they stand: what they mean is
listed once, in the order of the names. -/
theorem select_chooses_collision :
    ∃ s, Selects ["sys_enter_read", "read", "sys_enter_openat"]
        ["openat", "read", "sys_enter_openat", "read"] (.ok s) ∧
      s.toList = [("syscalls", ["sys_enter_openat", "read"])] := by
  obtain ⟨⟨a, ha⟩, hall⟩ := select_chooses ["sys_enter_read", "read", "sys_enter_openat"]
    ["openat", "read", "sys_enter_openat", "read"]
  obtain ⟨⟨hknown, hchosen, -⟩, -, -⟩ := (hall a ha).imp_left fun h => h (by simp)
  obtain ⟨s, rfl⟩ := hknown.2 (by decide)
  obtain ⟨chosen, rfl, hs, -⟩ := hchosen s rfl
  exact ⟨s, ha, hs.trans (by decide)⟩

end SystemCalls

end KernelTrace
