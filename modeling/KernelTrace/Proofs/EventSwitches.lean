import KernelTrace.Proofs.InsertedEvents
import KernelTrace.Proofs.SettingAnswers

/-!
# Switching events in any order

Events are switched in the order in which they were chosen, and that goes on up to the first that
cannot be switched. So the order shows if something is missing. It does not show otherwise: where a
path leads does not depend on what was written, so which of the files cannot be written is settled
before the first of them is, and if all can be, all of them end up with the same value
(`ControlFiles.get?_of_written`).

What remains is that the files are a matter of the chosen pairs alone and not of how they were put
together (`ControlFiles.mem_eventFiles`). The event that stands for its whole system takes all other
events of that system out, also those that were chosen before it.
-/

namespace KernelTrace

open Program Actions

namespace FileTree

variable {cwd loc : Location} {t t' : FileTree}

/-! ## The same tree -/

/-- The root has no entry that an operation could change. -/
theorem perform_root (t : FileTree) (cwd : Location) (op : FileOp) :
    (t.perform cwd op).2.entries.get? [] = t.entries.get? [] := by
  have hput : ∀ loc e, (t.put loc e).entries.get? [] = t.entries.get? [] := by
    intro loc e
    rw [put]
    split
    · rfl
    · next hne => exact SortedMap.get?_insert_of_ne _ _ (Ne.symm hne)
  cases op with
  | makeDir p =>
      rw [perform]
      cases hmake : t.makeDir cwd p with
      | error e => rfl
      | ok made =>
          obtain ⟨dir, n, -, rfl⟩ := makeDir_eq_ok hmake
          exact hput _ _
  | removeDir p =>
      rw [perform]
      cases hremove : t.removeDir cwd p with
      | error e => rfl
      | ok removed =>
          obtain ⟨dir, n, -, -, -, rfl⟩ := removeDir_eq_ok hremove
          exact (SortedMap.get?_erase ..).trans (if_neg (by simp))
  | overwrite p content =>
      rw [perform, overwrite]
      cases t.find cwd p with
      | error e => rfl
      | ok found =>
          obtain ⟨loc, entry⟩ := found
          cases entry with
          | file _ mode => exact hput _ _
          | directory | link _ => rfl
  | _ => rfl

/-- Two courses of operations on a tree that leave the same everywhere leave the same tree. -/
theorem eq_of_serves {fs fs' : List (Event FileSystem)} {u u' : FileTree}
    (h : (responder cwd).Serves t fs u) (h' : (responder cwd).Serves t fs' u')
    (hget : ∀ loc, u.get? loc = u'.get? loc) : u = u' := by
  have hroot : ∀ {fs u}, (responder cwd).Serves t fs u →
      u.entries.get? [] = t.entries.get? [] := fun h =>
    h.invariant (P := fun v => v.entries.get? [] = t.entries.get? []) (Q := fun _ => True)
      (fun {v w e} _ step hv => by
        have hw : (v.perform cwd e.1).2 = w := congrArg Prod.snd step
        rw [← hw, perform_root, hv])
      (fun _ _ => trivial) rfl
  obtain ⟨m⟩ := u
  obtain ⟨m'⟩ := u'
  refine congrArg mk (SortedMap.ext_get? fun loc => ?_)
  by_cases hloc : loc = []
  · rw [hloc]
    exact (hroot h).trans (hroot h').symm
  · have hsame := hget loc
    rwa [get?, get?, if_neg hloc, if_neg hloc] at hsame

theorem mem_rewritable_of_isFile {ps : List Path} (h : ∀ p ∈ ps, t.IsFile cwd p) :
    loc ∈ (t.rewritable cwd ps).1 ↔ ∃ p ∈ ps, t.fileAt cwd p = .ok loc := by
  refine ⟨exists_of_mem_rewritable, ?_⟩
  rintro ⟨p, hp, hat⟩
  induction ps with
  | nil => cases hp
  | cons q ps ih =>
      obtain ⟨⟨loc', hq⟩, hps⟩ := (List.forall_mem_cons.1 h).imp_left isFile_iff.1
      rw [rewritable_cons_of_ok hq]
      rcases List.mem_cons.1 hp with rfl | hp
      · rw [hat] at hq
        cases hq
        exact List.mem_cons_self
      · exact List.mem_cons_of_mem _ (ih hps hp)

end FileTree

namespace ControlFiles

variable {cwd loc : Location} {t u : FileTree} {i : Instance} {l l' : List (String × String)}
  {p : Path}

/-! ## The files of chosen events -/

/-- The control file that switches a system as a whole. -/
def systemSwitch (i : Instance) (system : String) : Path :=
  ((i.dir.join "events").join system).join "enable"

/-- The control file that switches one event. -/
def eventSwitch (i : Instance) (system event : String) : Path :=
  (((i.dir.join "events").join system).join event).join "enable"

/-- `Selected i l p`: the pairs of a system and an event select the control file `p`. -/
inductive Selected (i : Instance) (l : List (String × String)) : Path → Prop where
  | whole {system : String} (all : (system, "all") ∈ l) :
      Selected i l (systemSwitch i system)
  | single {system event : String} (one : (system, event) ∈ l)
      (part : (system, "all") ∉ l) : Selected i l (eventSwitch i system event)

theorem Selected.congr (hsame : ∀ x, x ∈ l ↔ x ∈ l') : Selected i l p ↔ Selected i l' p := by
  have himp : ∀ {l l' : List (String × String)}, (∀ x, x ∈ l ↔ x ∈ l') → Selected i l p →
      Selected i l' p := by
    rintro l l' hsame (hall | ⟨hone, hpart⟩)
    · exact .whole ((hsame _).1 hall)
    · exact .single ((hsame _).1 hone) (mt (hsame _).2 hpart)
  exact ⟨himp hsame, himp fun x => (hsame x).symm⟩

theorem coversSystem_eventsOf {system : String} :
    EventSet.coversSystem (EventSet.eventsOf l system).eraseDups = true ↔
      (system, "all") ∈ l := by
  rw [EventSet.coversSystem, List.contains_iff_mem, List.mem_eraseDups, EventSet.mem_eventsOf,
    EventSet.wholeSystem]

/-- The files of a set are those that its pairs select. -/
theorem mem_eventFiles : p ∈ eventFiles i (.ofList l) ↔ Selected i l p := by
  rw [eventFiles, List.mem_flatMap]
  constructor
  · rintro ⟨⟨system, events⟩, hlisted, hp⟩
    obtain ⟨-, rfl⟩ := EventSet.mem_toList_ofList.1 hlisted
    rw [systemFiles] at hp
    split at hp
    · next hcovers =>
        rw [List.mem_singleton.1 hp]
        exact .whole (coversSystem_eventsOf.1 hcovers)
    · next hcovers =>
        obtain ⟨event, hevent, rfl⟩ := List.mem_map.1 hp
        exact .single (EventSet.mem_eventsOf.1 (List.mem_eraseDups.1 hevent))
          (mt coversSystem_eventsOf.2 hcovers)
  · have hlisted : ∀ {system event}, (system, event) ∈ l →
        (system, (EventSet.eventsOf l system).eraseDups) ∈ (EventSet.ofList l).toList :=
      fun hmem => EventSet.mem_toList_ofList.2
        ⟨List.ne_nil_of_mem (EventSet.mem_eventsOf.2 hmem), rfl⟩
    rintro (hall | ⟨hone, hpart⟩)
    · refine ⟨_, hlisted hall, ?_⟩
      rw [systemFiles, if_pos (coversSystem_eventsOf.2 hall)]
      exact List.mem_singleton_self _
    · refine ⟨_, hlisted hone, ?_⟩
      rw [systemFiles, if_neg (mt coversSystem_eventsOf.1 hpart)]
      exact List.mem_map_of_mem (List.mem_eraseDups.2 (EventSet.mem_eventsOf.2 hone))

/-! ## Switching them -/

section Switched

variable {events : EventSet} {on : Bool} {es : List (Event (Actions FileSystem))}
  {a : Except TracingError Unit}

theorem set_events_eq_ok_iff
    (h : RunsOn (FileTree.responder cwd) (set i (.events events on)) t es a u) :
    a = .ok () ↔ ∀ p ∈ eventFiles i events, t.IsFile cwd p := by
  rw [(runsOn_set h).2, Setting.verdict_eq_ok_iff]
  refine forall₂_congr fun p _ => or_iff_left ?_
  rintro ⟨hoptional, -⟩
  cases hoptional

/-- If every file can be written, each of them holds the value and nothing else has changed. -/
theorem get?_of_written
    (h : RunsOn (FileTree.responder cwd) (set i (.events events on)) t es (.ok ()) u)
    (loc : Location) :
    (∀ p ∈ eventFiles i events, t.fileAt cwd p = .ok loc →
      u.get? loc = (t.get? loc).map (Entry.fill (Utf8.encode (if on then "1" else "0")))) ∧
    ((∀ p ∈ eventFiles i events, t.fileAt cwd p ≠ .ok loc) → u.get? loc = t.get? loc) := by
  have hfilled := (runsOn_set h).1.filled
  change t.Filled (t.rewritable cwd (eventFiles i events)).1
    (Utf8.encode (if on then "1" else "0")) u at hfilled
  have hmem : loc ∈ (t.rewritable cwd (eventFiles i events)).1 ↔
      ∃ p ∈ eventFiles i events, t.fileAt cwd p = .ok loc :=
    FileTree.mem_rewritable_of_isFile ((set_events_eq_ok_iff h).1 rfl)
  refine ⟨fun p hp hat => hfilled.inside loc (hmem.2 ⟨p, hp, hat⟩), fun hnone => ?_⟩
  refine hfilled.outside loc fun hloc => ?_
  obtain ⟨p, hp, hat⟩ := hmem.1 hloc
  exact hnone p hp hat

end Switched

/-- Where the switch of a system or of an event is, the names tell. -/
theorem place_systemSwitch {system : String} (h : Path.IsName (Utf8.encode system)) :
    FileTree.place cwd (systemSwitch i system) = FileTree.place cwd i.dir ++
      [Utf8.encode "events", Utf8.encode system, Utf8.encode "enable"] := by
  have hnames : ∀ n ∈ [Utf8.encode "events", Utf8.encode system, Utf8.encode "enable"],
      Path.IsName n := by
    simp only [List.forall_mem_cons]
    exact ⟨by decide, h, by decide, nofun⟩
  exact FileTree.place_joinNames hnames i.dir cwd

theorem place_eventSwitch {system event : String} (hsystem : Path.IsName (Utf8.encode system))
    (hevent : Path.IsName (Utf8.encode event)) :
    FileTree.place cwd (eventSwitch i system event) = FileTree.place cwd i.dir ++
      [Utf8.encode "events", Utf8.encode system, Utf8.encode event, Utf8.encode "enable"] := by
  have hnames : ∀ n ∈ [Utf8.encode "events", Utf8.encode system, Utf8.encode event,
      Utf8.encode "enable"], Path.IsName n := by
    simp only [List.forall_mem_cons]
    exact ⟨by decide, hsystem, hevent, by decide, nofun⟩
  exact FileTree.place_joinNames hnames i.dir cwd

/-- Where a system is switched as a whole, no selected file is that of one of its events. -/
theorem Selected.place_ne (cwd : Location) (hnamed : ∀ x ∈ l, Path.IsName (Utf8.encode x.1) ∧
      Path.IsName (Utf8.encode x.2)) {system event : String}
    (hall : (system, "all") ∈ l) (hevent : Path.IsName (Utf8.encode event))
    (hp : Selected i l p) :
    FileTree.place cwd p ≠ FileTree.place cwd (eventSwitch i system event) := by
  intro heq
  rw [place_eventSwitch (hnamed _ hall).1 hevent] at heq
  cases hp with
  | whole hwhole =>
      rw [place_systemSwitch (hnamed _ hwhole).1] at heq
      have hlength := congrArg List.length (List.append_cancel_left heq)
      simp at hlength
  | @single system' event' hone hpart =>
      rw [place_eventSwitch (hnamed _ hone).1 (hnamed _ hone).2] at heq
      obtain ⟨-, htail⟩ := List.cons.inj (List.append_cancel_left heq)
      have hsystem : system' = system := Utf8.encode_injective (List.cons.inj htail).1
      exact hpart (hsystem ▸ hall)

/-- Switching a set of events depends on the pairs that were inserted and not on their order or on
how often they were. It succeeds exactly if every file that the pairs select is there. Then there is
one tree that it leaves, in which each of these files holds the value, those of the single events of
a system that is switched as a whole are as they were, and so is everything else. -/
theorem set_events_same (ht : t.NoLinks) (cwd : Location) (i : Instance) (on : Bool)
    (hnamed : ∀ x ∈ l, Path.IsName (Utf8.encode x.1) ∧ Path.IsName (Utf8.encode x.2))
    (hsame : ∀ x, x ∈ l ↔ x ∈ l') :
    Ensures (FileTree.responder cwd) (set i (.events (.ofList l) on)) t fun _ a u =>
      Ensures (FileTree.responder cwd) (set i (.events (.ofList l') on)) t fun _ a' u' =>
        (a = .ok () ↔ a' = .ok ()) ∧
        (a = .ok () ↔ ∀ p, Selected i l p → t.IsFile cwd p) ∧
        (a = .ok () → u = u' ∧
          (∀ p, Selected i l p → ∃ loc content mode,
            t.find cwd p = .ok (loc, .file content mode) ∧
              u.get? loc = some (.file (Utf8.encode (if on then "1" else "0")) mode)) ∧
          (∀ system event, (system, "all") ∈ l → Path.IsName (Utf8.encode event) →
            ∀ loc content mode, t.find cwd (eventSwitch i system event) =
              .ok (loc, .file content mode) → u.get? loc = some (.file content mode)) ∧
          ∀ loc, (∀ p, Selected i l p → ∀ content mode,
            t.find cwd p ≠ .ok (loc, .file content mode)) → u.get? loc = t.get? loc) := by
  refine ⟨FileTree.exists_runsOn _ t cwd, fun es a u h => ?_⟩
  refine ⟨FileTree.exists_runsOn _ t cwd, fun es' a' u' h' => ?_⟩
  have hok := set_events_eq_ok_iff h
  have hok' := set_events_eq_ok_iff h'
  simp only [mem_eventFiles] at hok hok'
  simp only [← Selected.congr hsame] at hok'
  refine ⟨hok.trans hok'.symm, hok, ?_⟩
  rintro rfl
  obtain rfl : a' = .ok () := hok'.2 (hok.1 rfl)
  have hget := get?_of_written h
  have hget' := get?_of_written h'
  simp only [mem_eventFiles] at hget hget'
  simp only [← Selected.congr hsame] at hget'
  have hother : ∀ loc, (∀ p, Selected i l p → ∀ content mode,
      t.find cwd p ≠ .ok (loc, .file content mode)) → u.get? loc = t.get? loc := by
    refine fun loc hnone => (hget loc).2 fun p hp hat => ?_
    obtain ⟨content, mode, hfind⟩ := FileTree.fileAt_eq_ok.1 hat
    exact hnone p hp content mode hfind
  refine ⟨FileTree.eq_of_serves h.served h'.served fun loc => ?_, fun p hp => ?_, ?_, hother⟩
  · by_cases hsome : ∃ p, Selected i l p ∧ t.fileAt cwd p = .ok loc
    · obtain ⟨p, hp, hat⟩ := hsome
      rw [(hget loc).1 p hp hat, (hget' loc).1 p hp hat]
    · have hnone : ∀ p, Selected i l p → t.fileAt cwd p ≠ .ok loc :=
        fun p hp hat => hsome ⟨p, hp, hat⟩
      rw [(hget loc).2 hnone, (hget' loc).2 hnone]
  · obtain ⟨content, loc, mode, hfind⟩ := hok.1 rfl p hp
    refine ⟨loc, content, mode, hfind, ?_⟩
    rw [(hget loc).1 p hp (FileTree.fileAt_eq_ok.2 ⟨content, mode, hfind⟩),
      FileTree.get?_of_find hfind]
    rfl
  · intro system event hall hevent loc content mode hfind
    rw [← FileTree.get?_of_find hfind]
    refine hother loc fun p hp content' mode' hfind' => ?_
    refine hp.place_ne cwd hnamed hall hevent ?_
    rw [← FileTree.eq_place_of_find ht hfind', FileTree.eq_place_of_find ht hfind]

def schedSwitch : Path := "/t/instances/a/events/sched/enable"

/-- The tree of `leftOn`, where the system `sched` has a switch of its own. It says the same as the
switch of the event. -/
def systemSwitchable (content : String) : FileTree :=
  [schedSwitch, wakeSwitch].foldl
    (fun t p => t.put p.steps (.file (Utf8.encode content) 0o644)) leftOn

theorem noLinks_systemSwitchable {content : String} (h : content = "0" ∨ content = "1") :
    (systemSwitchable content).NoLinks := by
  obtain rfl | rfl := h
  all_goals exact FileTree.noLinks_of_entries (by decide)

theorem find_systemSwitchable {content : String} (h : content = "0" ∨ content = "1") :
    let i := instanceOf ⟨"a", by decide⟩
    (systemSwitchable content).find [] (systemSwitch i "sched") =
        .ok (schedSwitch.steps, .file (Utf8.encode content) 0o644) ∧
      (systemSwitchable content).find [] (eventSwitch i "sched" "wake") =
        .ok (wakeSwitch.steps, .file (Utf8.encode content) 0o644) := by
  obtain rfl | rfl := h
  all_goals
    constructor
    all_goals
      exact FileTree.find_of_get? rfl (by decide) (by decide) (by decide) nofun (by decide)

/-- With the whole system among the pairs, before or after an event of it, the switch of the system
is turned on or off and that of the event stays as it is. -/
theorem set_events_same_whole :
    let i := instanceOf ⟨"a", by decide⟩
    let Turns (on : Bool) (before after : String) : Prop :=
      Ensures (FileTree.responder [])
        (set i (.events (.ofList [("sched", "wake"), ("sched", "all")]) on))
        (systemSwitchable before) fun _ a u => Ensures (FileTree.responder [])
          (set i (.events (.ofList [("sched", "all"), ("sched", "wake"), ("sched", "all")]) on))
          (systemSwitchable before) fun _ a' u' => a = .ok () ∧ a' = .ok () ∧ u = u' ∧
            u.get? schedSwitch.steps = some (.file (Utf8.encode after) 0o644) ∧
            u.get? wakeSwitch.steps = some (.file (Utf8.encode before) 0o644)
    Turns true "0" "1" ∧ Turns false "1" "0" := by
  intro i Turns
  have hpairs : ∀ x, x ∈ [("sched", "wake"), ("sched", "all")] ↔
      x ∈ [("sched", "all"), ("sched", "wake"), ("sched", "all")] := by
    simp [or_comm]
  have hselected : ∀ p, Selected i [("sched", "wake"), ("sched", "all")] p ↔
      p = systemSwitch i "sched" := by
    intro p
    rw [← mem_eventFiles, show eventFiles i (.ofList [("sched", "wake"), ("sched", "all")]) =
      [systemSwitch i "sched"] by decide, List.mem_singleton]
  have hturns : ∀ on before, before = "0" ∨ before = "1" →
      Turns on before (if on then "1" else "0") := by
    intro on before hbefore
    obtain ⟨hwhole, hwake⟩ := find_systemSwitchable hbefore
    obtain ⟨hends, hall⟩ :=
      set_events_same (noLinks_systemSwitchable hbefore) [] i on (by decide) hpairs
    refine ⟨hends, fun es a u h => ?_⟩
    obtain ⟨hends', hall'⟩ := hall es a u h
    refine ⟨hends', fun es' a' u' h' => ?_⟩
    obtain ⟨hsame, hfiles, hdone⟩ := hall' es' a' u' h'
    have hok : a = .ok () := by
      refine hfiles.2 fun p hp => ?_
      rw [(hselected p).1 hp]
      exact ⟨_, _, _, hwhole⟩
    obtain ⟨htree, hheld, hsingle, -⟩ := hdone hok
    obtain ⟨loc, content, mode, hfind, hget⟩ := hheld _ ((hselected _).2 rfl)
    rw [hwhole] at hfind
    cases hfind
    exact ⟨hok, hsame.1 hok, htree, hget,
      hsingle "sched" "wake" (by decide) (by decide) _ _ _ hwake⟩
  exact ⟨hturns true "0" (.inl rfl), hturns false "1" (.inr rfl)⟩

end ControlFiles

end KernelTrace
