import KernelTrace.Proofs.Interleaving
import KernelTrace.Proofs.PlainBinding
import KernelTrace.Proofs.SessionFiles

/-!
# Sessions that share a file tree

Sessions for different instances write to one tree, a file at a time and in any order, and none of
them locks anything. That they do not notice each other is a fact about paths. A session looks for
the directory of its instance, and if that is there it overwrites files below it and does nothing
else (`WorksIn`). In a tree without links these are files that no other instance has, and
overwriting them moves nothing, so every path of every session leads to where it led at the start.

What carries the proof is a second tree for each session, the one that the session would have left
if its turns had been the only ones. Every turn keeps the shared tree in agreement with it below the
directory of the session (`Unhindered`).
-/

namespace KernelTrace

open Program Actions

/-! ## Programs that backend and waits determine -/

namespace Actions

variable {β : Signature} {S α : Type}

/-- The reasons for which the waits have ended. -/
def wakes : List (Event (Actions β)) → List WakeReason
  | [] => []
  | ⟨.wait .., wake⟩ :: es => wake :: wakes es
  | _ :: es => wakes es

/-- Operations that nobody but the backend and whoever ends a wait has an answer to. -/
def IsSteady : Action β → Prop
  | .backend _ | .log _ | .wait .. => True
  | _ => False

/-- Over a backend that has one answer to each operation, runs whose waits end for the same reasons
are the same. -/
theorem RunsOn.unique {answer : S → (op : β.Op) → β.Answer op × S} {p : Program (Actions β) α}
    {s t t' : S} {es es' : List (Event (Actions β))} {a a' : α}
    (h : RunsOn (.ofFunction answer) p s es a t) (hsteady : ∀ e ∈ es, IsSteady e.1)
    (h' : RunsOn (.ofFunction answer) p s es' a' t') (hwakes : wakes es' = wakes es) :
    es' = es ∧ a' = a ∧ t' = t := by
  obtain ⟨hruns, hserved⟩ := h
  obtain ⟨hruns', hserved'⟩ := h'
  induction hruns generalizing s es' with
  | done a =>
      cases hruns'
      exact ⟨rfl, rfl, (Responder.serves_nil.1 hserved').trans (Responder.serves_nil.1 hserved).symm⟩
  | @ask op next reply es a _ ih =>
      cases hruns' with
      | @ask _ _ reply' es' _ hrest =>
          obtain ⟨hfirst, hlater⟩ := List.forall_mem_cons.1 hsteady
          suffices hsame : reply' = reply ∧ wakes es' = wakes es ∧
              ∃ u, (Responder.ofFunction answer).Serves u (calls es) t ∧
                (Responder.ofFunction answer).Serves u (calls es') t' by
            obtain ⟨rfl, hwakes, u, hserved, hserved'⟩ := hsame
            obtain ⟨rfl, rfl, rfl⟩ := ih hlater hwakes hserved hrest hserved'
            exact ⟨rfl, rfl, rfl⟩
          cases op with
          | backend c =>
              obtain ⟨u, hstep, hserved⟩ := Responder.serves_cons.1 hserved
              obtain ⟨u', hstep', hserved'⟩ := Responder.serves_cons.1 hserved'
              have heq : (reply, u) = (reply', u') := hstep.symm.trans hstep'
              cases heq
              exact ⟨rfl, hwakes, u, hserved, hserved'⟩
          | log record => exact ⟨rfl, hwakes, s, hserved, hserved'⟩
          | wait deadline targets =>
              obtain ⟨hwake, hwakes⟩ := List.cons.inj hwakes
              exact ⟨hwake, hwakes, s, hserved, hserved'⟩
          | draw | shieldStop | listen | announce | flush | relay | invoke => exact hfirst.elim

end Actions

/-! ## Programs that work in one directory -/

section WorksIn

variable {α : Type} {dir : Path}

/-- Whether a program looks for a directory and, if that is there, overwrites files below it and
does nothing else. -/
inductive WorksIn (dir : Path) : ControlFiles.Files α → Prop
  | looking {next : Except IoError FileStatus → ControlFiles.Files α}
      (found : ∀ status, FileStatus.isDirectory status = true →
        Asks (σ := Actions FileSystem) (ControlFiles.Rewrites dir.IsAbove) (next status)) :
      WorksIn dir (.ask (.backend (.status dir)) next)
  | writing {p : ControlFiles.Files α}
      (asks : Asks (σ := Actions FileSystem) (ControlFiles.Rewrites dir.IsAbove) p) :
      WorksIn dir p

theorem isAbove_of_mem_files {r : TraceRequest} (hevents : r.events.IsNamed) {s : Setting}
    (hs : s ∈ r.arming ∨ s = .tracing true ∨ s ∈ r.draining) (i : Instance) :
    ∀ p ∈ s.files i, i.dir.IsAbove p := by
  intro p hp
  obtain ⟨names, hnames, heq, -⟩ := Setting.exists_names_of_mem_files hp fun chosen on hchosen =>
    (TraceRequest.events_of_mem hs hchosen).symm ▸ hevents
  exact ⟨names, hnames, heq⟩

theorem realize_conduct_asks {r : TraceRequest} (hevents : r.events.IsNamed) (root : TracingRoot)
    (i : Instance) :
    Asks (σ := Actions FileSystem) (ControlFiles.Rewrites i.dir.IsAbove)
      (ControlFiles.realize root (Session.conduct r i)) := by
  refine asks_expand (Session.conduct_sets r i) fun op hop => ?_
  match op with
  | .backend (.set j s) =>
      obtain ⟨rfl, hs⟩ := hop
      exact ControlFiles.set_asks (isAbove_of_mem_files hevents hs j)
  | .log _ | .wait .. => exact asks_perform.2 trivial

theorem worksIn_execute {r : TraceRequest} {name : InstanceName} (root : TracingRoot)
    (hname : r.inst = some name) (hevents : r.events.IsNamed) :
    WorksIn (root.instanceDir name.text) (ControlFiles.realize root (Session.execute r)) := by
  rw [Session.execute_eq, hname]
  split
  · refine WorksIn.looking fun status hstatus => ?_
    simp only [Program.bind, hstatus, if_true]
    exact ⟨trivial, fun _ => realize_conduct_asks hevents root ⟨name, root.instanceDir name.text⟩⟩
  · exact .writing ⟨trivial, fun _ => trivial⟩

end WorksIn

/-! ## One turn on two trees -/

section TwoTrees

variable {cwd dir loc : Location} {path : Path} {t u u' now now' : FileTree}

/-- Trees that agree below a directory still agree there when the same file is rewritten in both. -/
theorem FileTree.Filled.agree {content : Bytes} (hfilled : now.Filled [loc] content now')
    (hfilled' : u.Filled [loc] content u')
    (hagree : ∀ l, dir <+: l → now.get? l = u.get? l) :
    ∀ l, dir <+: l → now'.get? l = u'.get? l := by
  intro l hl
  by_cases hmem : l ∈ [loc]
  · rw [hfilled.inside l hmem, hfilled'.inside l hmem, hagree l hl]
  · rw [hfilled.outside l hmem, hfilled'.outside l hmem, hagree l hl]

/-- `Keeps cwd t dir u now e now'`: the event `e` has taken the tree `now` to `now'` and changed
nothing outside of `dir`, and with the same answer it takes `u` to a tree that agrees with `now'`
below `dir`. -/
structure Keeps (cwd : Location) (t : FileTree) (dir : Location) (u : FileTree)
    (e : Event (Actions FileSystem)) (now now' : FileTree) : Prop where
  shape : t.SameShape now'
  outside : ∀ loc, ¬ dir <+: loc → now'.get? loc = now.get? loc
  below : ∃ u', (FileTree.responder cwd).Serves u (calls [e]) u' ∧ t.SameShape u' ∧
    ∀ loc, dir <+: loc → now'.get? loc = u'.get? loc

theorem keeps_same {e : Event (Actions FileSystem)} (hu : t.SameShape u) (hnow : t.SameShape now)
    (hagree : ∀ loc, dir <+: loc → now.get? loc = u.get? loc)
    (hserved : (FileTree.responder cwd).Serves u (calls [e]) u) : Keeps cwd t dir u e now now :=
  ⟨hnow, fun _ _ => rfl, u, hserved, hu, hagree⟩

theorem keeps_overwrite {q : Path} {content : Bytes} {answer : Except IoError Unit}
    (hbelow : dir <+: FileTree.place cwd q) (ht : t.NoLinks)
    (hu : t.SameShape u) (hnow : t.SameShape now)
    (hagree : ∀ loc, dir <+: loc → now.get? loc = u.get? loc)
    (hstep : now.perform cwd (.overwrite q content) = (answer, now')) :
    Keeps cwd t dir u ⟨.backend (.overwrite q content), answer⟩ now now' := by
  -- the path leads in both trees to where it has led at the start
  have hplace := (FileTree.fileAt_congr hnow cwd q).symm.trans (FileTree.fileAt_congr hu cwd q)
  obtain ⟨l, t₁, hat, hperform, hfilled⟩ | ⟨e, hat, hperform⟩ :=
    now.perform_overwrite cwd q content
  · rw [hat] at hplace
    obtain ⟨l', t₂, hat', hperform', hfilled'⟩ | ⟨e', hat', -⟩ := u.perform_overwrite cwd q content
    · rw [hat'] at hplace
      cases hplace
      rw [hperform] at hstep
      cases hstep
      obtain ⟨_, _, hfile⟩ := FileTree.fileAt_eq_ok.1 hat
      rw [← FileTree.eq_place_of_find (hnow.noLinks ht) hfile] at hbelow
      refine ⟨hnow.trans hfilled.sameShape, fun loc hloc => hfilled.outside loc ?_, t₂,
        .cons hperform' (.nil t₂), hu.trans hfilled'.sameShape, hfilled.agree hfilled' hagree⟩
      rw [List.mem_singleton]
      rintro rfl
      exact hloc hbelow
    · rw [hat'] at hplace
      cases hplace
  · rw [hat] at hplace
    obtain ⟨l', t₂, hat', -⟩ | ⟨e', hat', hperform'⟩ := u.perform_overwrite cwd q content
    · rw [hat'] at hplace
      cases hplace
    · rw [hat'] at hplace
      cases hplace
      rw [hperform] at hstep
      cases hstep
      exact keeps_same hu hnow hagree (.cons hperform' (.nil u))

/-- A program that works in a directory gets the same answers from two trees that agree below it. -/
theorem keeps_of_serves {op : Action FileSystem} {answer : op.Answer}
    (hop : op = .backend (.status path) ∨ ControlFiles.Rewrites path.IsAbove op)
    (ht : t.NoLinks) (hfind : t.find cwd path = .ok (dir, .directory))
    (hu : t.SameShape u) (hnow : t.SameShape now)
    (hagree : ∀ loc, dir <+: loc → now.get? loc = u.get? loc)
    (hserved : (FileTree.responder cwd).Serves now (calls [⟨op, answer⟩]) now') :
    Keeps cwd t dir u ⟨op, answer⟩ now now' := by
  rcases hop with rfl | hop
  · obtain ⟨_, hstep, hend⟩ := Responder.serves_cons.1 hserved
    obtain rfl := Responder.serves_nil.1 hend
    change now.perform cwd (.status path) = (answer, now') at hstep
    rw [FileTree.perform, FileTree.status_of_find (hnow.find_directory hfind)] at hstep
    cases hstep
    refine keeps_same hu hnow hagree (.cons ?_ (.nil u))
    change u.perform cwd (.status path) = _
    rw [FileTree.perform, FileTree.status_of_find (hu.find_directory hfind)]
  · cases op with
    | log | wait =>
        obtain rfl := Responder.serves_nil.1 hserved
        exact keeps_same hu hnow hagree (.nil u)
    | backend c =>
        cases c with
        | overwrite q content =>
            obtain ⟨_, hstep, hend⟩ := Responder.serves_cons.1 hserved
            obtain rfl := Responder.serves_nil.1 hend
            refine keeps_overwrite ?_ ht hu hnow hagree hstep
            rw [FileTree.eq_place_of_find ht hfind]
            exact FileTree.prefix_place hop cwd
        | _ => exact hop.elim
    | _ => exact hop.elim

end TwoTrees

/-! ## What every turn preserves -/

section Turns

variable {ι α : Type} [DecidableEq ι] {cwd : Location} {t now now' : FileTree} {paths : ι → Path}
  {dirs : ι → Location} {left left' programs : ι → ControlFiles.Files α}
  {tr : List (ι × Event (Actions FileSystem))} {k : ι} {e : Event (Actions FileSystem)}

/-- Every program still works in its directory, where the tree is as it would be if only the turns
of that program had been taken, and outside of the directories nothing has changed. -/
structure Unhindered (cwd : Location) (t : FileTree) (paths : ι → Path) (dirs : ι → Location)
    (tr : List (ι × Event (Actions FileSystem))) (left : ι → ControlFiles.Files α)
    (now : FileTree) : Prop where
  shape : t.SameShape now
  works : ∀ k, WorksIn (paths k) (left k)
  steady : ∀ k, ∀ e ∈ turnsOf k tr, IsSteady e.1
  alone : ∀ k, ∃ u, (FileTree.responder cwd).Serves t (calls (turnsOf k tr)) u ∧ t.SameShape u ∧
    ∀ loc, dirs k <+: loc → now.get? loc = u.get? loc
  outside : ∀ loc, (∀ k, ¬ dirs k <+: loc) → now.get? loc = t.get? loc

theorem WorksIn.turn (hworks : WorksIn (paths k) (left k))
    (hfind : now.find cwd (paths k) = .ok (dirs k, .directory))
    (hturn : Turn (FileTree.responder cwd) left now k e left' now') :
    (e.1 = .backend (.status (paths k)) ∨ ControlFiles.Rewrites (paths k).IsAbove e.1) ∧
      IsSteady e.1 ∧ WorksIn (paths k) (left' k) := by
  cases hturn with
  | @intro op next answer _ hasks hserved =>
      rw [hasks] at hworks
      rw [leave_self]
      cases hworks with
      | looking found =>
          obtain ⟨_, hstep, -⟩ := Responder.serves_cons.1 hserved
          change now.perform cwd (.status (paths k)) = _ at hstep
          rw [FileTree.perform, FileTree.status_of_find hfind] at hstep
          cases hstep
          exact ⟨.inl rfl, trivial, .writing (found _ rfl)⟩
      | writing asks =>
          refine ⟨.inr asks.1, ?_, .writing (asks.2 answer)⟩
          have hop := asks.1
          cases op with
          | log | wait | backend => trivial
          | _ => exact hop.elim

theorem Unhindered.turn (h : Unhindered cwd t paths dirs tr left now)
    (ht : t.NoLinks) (hlive : ∀ k, t.find cwd (paths k) = .ok (dirs k, .directory))
    (hapart : ∀ j k loc, dirs j <+: loc → dirs k <+: loc → j = k)
    (hturn : Turn (FileTree.responder cwd) left now k e left' now') :
    Unhindered cwd t paths dirs (tr ++ [(k, e)]) left' now' := by
  obtain ⟨hop, hsteady, hworks⟩ := (h.works k).turn (h.shape.find_directory (hlive k)) hturn
  obtain ⟨u, hserves, hu, hagree⟩ := h.alone k
  cases hturn with
  | @intro op next answer _ hasks hserved =>
      obtain ⟨hshape, houtside, u', hserves', hu', hagree'⟩ :=
        keeps_of_serves hop ht (hlive k) hu h.shape hagree hserved
      refine ⟨hshape, fun j => ?_, fun j => ?_, fun j => ?_, fun loc hloc => ?_⟩
      · by_cases hjk : j = k
        · exact hjk ▸ hworks
        · rw [leave_of_ne hjk]
          exact h.works j
      · by_cases hjk : j = k
        · subst hjk
          rw [turnsOf_append_self]
          exact List.forall_mem_append.2 ⟨h.steady j, List.forall_mem_singleton.2 hsteady⟩
        · rw [turnsOf_append_of_ne hjk]
          exact h.steady j
      · by_cases hjk : j = k
        · subst hjk
          rw [turnsOf_append_self, calls_append]
          exact ⟨u', Responder.serves_append.2 ⟨u, hserves, hserves'⟩, hu', hagree'⟩
        · obtain ⟨v, hserves, hv, hagree⟩ := h.alone j
          rw [turnsOf_append_of_ne hjk]
          refine ⟨v, hserves, hv, fun loc hloc => ?_⟩
          rw [houtside loc fun hk => hjk (hapart j k loc hloc hk), hagree loc hloc]
      · rw [houtside loc (hloc k), h.outside loc hloc]

theorem unhindered_of_interleaved (hworks : ∀ k, WorksIn (paths k) (programs k))
    (ht : t.NoLinks) (hlive : ∀ k, t.find cwd (paths k) = .ok (dirs k, .directory))
    (hapart : ∀ j k loc, dirs j <+: loc → dirs k <+: loc → j = k)
    (h : Interleaved (FileTree.responder cwd) programs t tr left now) :
    Unhindered cwd t paths dirs tr left now := by
  induction h with
  | start =>
      exact ⟨.refl t, hworks, fun _ => nofun, fun _ => ⟨t, .nil t, .refl t, fun _ _ => rfl⟩,
        fun _ _ => rfl⟩
  | turn soFar last ih => exact ih.turn ht hlive hapart last

end Turns

/-! ## Sessions for instances that are there -/

/-- Nothing is in the directories of two instances. -/
theorem eq_of_prefix_instanceDir {root : TracingRoot} {cwd : Location} {n n' : InstanceName}
    {loc : Location} (h : FileTree.place cwd (root.instanceDir n.text) <+: loc)
    (h' : FileTree.place cwd (root.instanceDir n'.text) <+: loc) : n = n' :=
  InstanceName.text_inj
    (Utf8.encode_injective (FileTree.eq_of_prefix_place n.isName n'.isName h h'))

/-- Sessions for different instances of a tree without links take turns, a file at a time. However
the turns fall, a session that has ended has come to what it comes to by itself if its wait ends for
the same reason, and the directory of its instance is as it would be then. Nothing outside of the
directories of the instances has changed, and a session that has not ended can always go on. -/
theorem sessions_share_files {ι : Type} [DecidableEq ι] {requests : ι → TraceRequest}
    {names : ι → InstanceName} {root : TracingRoot} {cwd : Location} {dirs : ι → Location}
    {t now : FileTree} {tr : List (ι × Event (Actions FileSystem))}
    {left : ι → ControlFiles.Files (Except SessionError SessionReport)} (hlinks : t.NoLinks)
    (hnames : ∀ k, (requests k).inst = some (names k))
    (hapart : ∀ j k, names j = names k → j = k)
    (hlive : ∀ k, t.find cwd (root.instanceDir (names k).text) = .ok (dirs k, .directory))
    (hevents : ∀ k, (requests k).events.IsNamed)
    (h : Interleaved (FileTree.responder cwd)
      (fun k => ControlFiles.realize root (Session.execute (requests k))) t tr left now) :
    (∀ k result, left k = .done result → ∃ alone,
      RunsOn (FileTree.responder cwd) (ControlFiles.realize root (Session.execute (requests k))) t
        (turnsOf k tr) result alone ∧
      (∀ loc, dirs k <+: loc → now.get? loc = alone.get? loc) ∧
      ∀ es result' t', RunsOn (FileTree.responder cwd)
          (ControlFiles.realize root (Session.execute (requests k))) t es result' t' →
        wakes es = wakes (turnsOf k tr) → result' = result ∧ t' = alone) ∧
    (∀ loc, (∀ k, ¬ dirs k <+: loc) → now.get? loc = t.get? loc) ∧
    ∀ k, (∀ result, left k ≠ .done result) →
      ∃ e left' next, Turn (FileTree.responder cwd) left now k e left' next := by
  have hdirs := fun k => FileTree.eq_place_of_find hlinks (hlive k)
  have hinvariant := unhindered_of_interleaved
    (fun k => worksIn_execute root (hnames k) (hevents k)) hlinks hlive
    (fun j k loc hj hk => hapart j k (eq_of_prefix_instanceDir (hdirs j ▸ hj) (hdirs k ▸ hk))) h
  refine ⟨fun k result hdone => ?_, hinvariant.outside, fun k hleft =>
    exists_turn (fun s op => ⟨_, _, rfl⟩) hleft⟩
  obtain ⟨alone, hserves, -, hagree⟩ := hinvariant.alone k
  have hrun : RunsOn (FileTree.responder cwd)
      (ControlFiles.realize root (Session.execute (requests k))) t (turnsOf k tr) result alone :=
    ⟨h.runs hdone, hserves⟩
  exact ⟨alone, hrun, hagree, fun es result' t' hrun' hwakes =>
    (hrun.unique (hinvariant.steady k) hrun' hwakes).2⟩

/-- A tree with the instance that somebody left with tracing on and one that knows no events. -/
def leftOnAndBare : FileTree :=
  (leftOn.put (Path.ofString "/t/instances/b").steps .directory).put
    (Path.ofString "/t/instances/b/options").steps .directory

theorem valid_ab (second : Bool) : instanceNameFault? (if second then "b" else "a") = none := by
  cases second <;> decide

def nameOf (second : Bool) : InstanceName := ⟨if second then "b" else "a", valid_ab second⟩

def requestOf (second : Bool) : TraceRequest := { halfKnown with inst := some (nameOf second) }

/-- The two sessions take some turns one after the other, and then each of them goes on to its
end. -/
theorem sessions_share_files_leftOn :
    let root : TracingRoot := ⟨"/t", .tracefs⟩
    let programs second := ControlFiles.realize root (Session.execute (requestOf second))
    let dirs second : Location := ["t", "instances", (nameOf second).text].map Utf8.encode
    ∃ tr left now, Interleaved (FileTree.responder []) programs leftOnAndBare tr left now ∧
      (∀ second, ∃ result alone, left second = .done result ∧
        RunsOn (FileTree.responder []) (programs second) leftOnAndBare (turnsOf second tr) result
          alone ∧
        ∀ loc, dirs second <+: loc → now.get? loc = alone.get? loc) ∧
      now.get? (Path.ofString "/t/instances").steps = some .directory := by
  intro root programs dirs
  have hlinks : leftOnAndBare.NoLinks :=
    FileTree.noLinks_put (FileTree.noLinks_put noLinks_leftOn _) _
  have hapart : ∀ j k, nameOf j = nameOf k → j = k := by decide
  have hlive : ∀ second, leftOnAndBare.find [] (root.instanceDir (nameOf second).text) =
      .ok (dirs second, .directory) := by
    intro second
    cases second <;>
    exact FileTree.find_of_get? rfl (by decide +kernel) (by decide +kernel) (by decide +kernel)
      nofun (by decide +kernel)
  have hevents : ∀ second, (requestOf second).events.IsNamed := by
    intro second system events hget
    have hall : ∀ e ∈ halfKnown.events.systems.entries,
        Path.IsName (Utf8.encode e.1) ∧ ∀ event ∈ e.2, Path.IsName (Utf8.encode event) := by
      decide +kernel
    exact hall _ ((SortedMap.get?_eq_some_iff _ _ _).1 hget)
  have htotal : ∀ (s : FileTree) (op : FileSystem.Op), ∃ a t, FileTree.responder [] s op a t :=
    fun s op => ⟨_, _, rfl⟩
  let w : Surroundings := ⟨0, .deadline, fun _ => .error (.wait (.os .notFound))⟩
  have hturns := interleaved_takeTurns (β := FileSystem) (fun t op => FileTree.perform t [] op)
    [(false, w), (true, w), (true, w), (false, w), (true, w), (true, w), (false, w)]
    programs leftOnAndBare
  obtain ⟨es, left, s, hfirst, ⟨first, hfalse⟩, -⟩ := hturns.exists_finish htotal false
  obtain ⟨es', left', now, hboth, ⟨second, htrue⟩, hsame⟩ := hfirst.exists_finish htotal true
  obtain ⟨hended, houtside, -⟩ :=
    sessions_share_files hlinks (fun _ => rfl) hapart hlive hevents hboth
  refine ⟨_, left', now, hboth, fun k => ?_, ?_⟩
  · have hdone : ∃ result, left' k = .done result := by
      cases k with
      | false => exact ⟨first, (hsame false (by decide)).trans hfalse⟩
      | true => exact ⟨second, htrue⟩
    obtain ⟨result, hdone⟩ := hdone
    obtain ⟨alone, hrun, hagree, -⟩ := hended k result hdone
    exact ⟨result, alone, hdone, hrun, hagree⟩
  · rw [houtside _ (by decide +kernel)]
    decide +kernel

end KernelTrace
