import Mathlib.Data.List.Forall2
import KernelTrace.Proofs.PlainTrees
import KernelTrace.Proofs.SyscallsCourse

/-!
# Binding an instance in a plain tree

In a tree that is none of the kernel's no directory comes with control files in it, so nothing in it
can become an instance. What is left of an attempt to make one is then the question, and the answer
is nothing: the directory that was made is removed again, and removing it succeeds because nothing
can be in it.

So every creation is refused, and for one of three reasons (`Refused`), which the tree decides. The
two ways to bind an instance are series of looks and creations, and neither of the two changes the
tree. Hence every one of them sees the tree that the first saw.
-/

namespace KernelTrace

open Program Actions ControlFiles

/-! ## The directory of an instance -/

theorem instanceNameFault?_eq_none {s : String} :
    instanceNameFault? s = none ↔ s ≠ "" ∧ s.utf8ByteSize ≤ maxInstanceName ∧
      s ≠ "." ∧ s ≠ ".." ∧ ∀ c ∈ s.toList, isInstanceNameChar c = true := by
  rw [instanceNameFault?]
  grind

namespace InstanceName

theorem notMem_encode (n : InstanceName) {c : Char} (hascii : c.toNat < 0x80)
    (hc : isInstanceNameChar c = false) : UInt8.ofNat c.toNat ∉ Utf8.encode n.text := by
  intro hmem
  have hall := (instanceNameFault?_eq_none.1 n.valid).2.2.2.2
  rw [hall c ((Utf8.mem_encode_ascii hascii).1 hmem)] at hc
  cases hc

theorem isName (n : InstanceName) : Path.IsName (Utf8.encode n.text) := by
  obtain ⟨hempty, -, hdot, hdots, -⟩ := instanceNameFault?_eq_none.1 n.valid
  refine ⟨?_, n.notMem_encode (c := '/') (by decide) (by decide), ?_, ?_⟩
  · exact fun heq => hempty (Utf8.encode_injective (b := "") heq)
  · exact fun heq => hdot (Utf8.encode_injective (b := ".") heq)
  · exact fun heq => hdots (Utf8.encode_injective (b := "..") heq)

theorem zero_notMem (n : InstanceName) : 0 ∉ Utf8.encode n.text :=
  n.notMem_encode (c := '\x00') (by decide) (by decide)

theorem length_le (n : InstanceName) : (Utf8.encode n.text).length ≤ FileTree.maxName :=
  Nat.le_trans (instanceNameFault?_eq_none.1 n.valid).2.1 (by decide)

end InstanceName

theorem TracingRoot.bytes_instancesDir (root : TracingRoot) : root.instancesDir.bytes ≠ [] :=
  Path.bytes_join_ne_nil (by decide) _

theorem TracingRoot.bytes_instanceDir (root : TracingRoot) (name : InstanceName) :
    (root.instanceDir name.text).bytes ≠ [] :=
  Path.bytes_join_ne_nil name.isName _

/-! ## A creation -/

variable {cwd : Location} {t t' : FileTree} {es : List (Event (Actions FileSystem))}
  {root : TracingRoot} {name : InstanceName}

/-- `Refused t cwd root name fs e`: the creation of an instance that is refused with `e`, after it
has done to the files what `fs` lists. -/
inductive Refused (t : FileTree) (cwd : Location) (root : TracingRoot) (name : InstanceName) :
    List (Event FileSystem) → TracingError → Prop where
  | taken (occupied : t.Occupied cwd (root.instanceDir name.text)) :
      Refused t cwd root name [⟨.makeDir (root.instanceDir name.text), .error (.os .exists)⟩]
        (.alreadyExists name)
  /-- There is no directory to make it in, or the path to it is longer than the system takes. -/
  | unreachable (e : IoError) (free : ¬ t.Occupied cwd (root.instanceDir name.text))
      (blocked : t.isDirectory cwd root.instancesDir = false ∨
        FileTree.maxPath < (root.instanceDir name.text).bytes.length) :
      Refused t cwd root name [⟨.makeDir (root.instanceDir name.text), .error e⟩]
        (.createFailed name e)
  /-- The directory was made, it is no instance, and it was removed again. -/
  | undone (e : IoError) (free : ¬ t.Occupied cwd (root.instanceDir name.text))
      (parent : t.isDirectory cwd root.instancesDir = true)
      (short : (root.instanceDir name.text).bytes.length ≤ FileTree.maxPath) :
      Refused t cwd root name
        [⟨.makeDir (root.instanceDir name.text), .ok ()⟩,
          ⟨.overwrite (tracingFile ⟨name, root.instanceDir name.text⟩) (Utf8.encode "0"),
            .error e⟩,
          ⟨.removeDir (root.instanceDir name.text), .ok ()⟩]
        (.writeFailed (tracingFile ⟨name, root.instanceDir name.text⟩) "0" e)

theorem Refused.alreadyExists_iff {fs : List (Event FileSystem)} {e : TracingError}
    (h : Refused t cwd root name fs e) :
    e = .alreadyExists name ↔ t.Occupied cwd (root.instanceDir name.text) := by
  cases h with
  | taken occupied => exact ⟨fun _ => occupied, fun _ => rfl⟩
  | unreachable _ free | undone _ free => exact ⟨nofun, fun occupied => absurd occupied free⟩

/-- What making the directory of an instance comes to (`FileTree.makeDir_cases`), as an answer. -/
theorem FileTree.Plain.perform_makeDir (ht : t.Plain) (cwd : Location) (root : TracingRoot)
    (name : InstanceName) :
    let dir := root.instanceDir name.text
    (t.Occupied cwd dir ∧ t.perform cwd (.makeDir dir) = (.error (.os .exists), t)) ∨
      (¬ t.Occupied cwd dir ∧
        (t.isDirectory cwd root.instancesDir = false ∨ FileTree.maxPath < dir.bytes.length) ∧
        ∃ e, e ≠ .os .exists ∧ t.perform cwd (.makeDir dir) = (.error e, t)) ∨
      (¬ t.Occupied cwd dir ∧ t.isDirectory cwd root.instancesDir = true ∧
        dir.bytes.length ≤ FileTree.maxPath ∧
        ∃ made, t.perform cwd (.makeDir dir) = (.ok (), made) ∧
          (∃ e, made.perform cwd (.overwrite (tracingFile ⟨name, dir⟩) (Utf8.encode "0")) =
            (.error e, made)) ∧
          made.perform cwd (.removeDir dir) = (.ok (), t)) := by
  intro dir
  have hn := name.isName
  have hq := root.bytes_instancesDir
  obtain ⟨hoccupied, hmake⟩ | ⟨hfree, hblocked, e, he, hmake⟩ |
    ⟨hfree, hparent, hcheck, l, hl, hnone, hmake⟩ := FileTree.makeDir_cases hn hq cwd
      ht.noLinks name.zero_notMem name.length_le
  · exact .inl ⟨hoccupied, congrArg t.attempt hmake⟩
  · exact .inr (.inl ⟨hfree, hblocked, e, he, congrArg t.attempt hmake⟩)
  · obtain ⟨e, hwrite⟩ := FileTree.overwrite_in_put hn ht name.length_le hl hnone
      (m := Utf8.encode "tracing_on") (by decide) (by decide)
      (Utf8.encode "0")
    have hremove := FileTree.removeDir_put hn ht name.length_le hl hnone hcheck
    exact .inr (.inr ⟨hfree, hparent, (FileTree.checkPath_eq_ok.1 hcheck).2.2, _,
      congrArg t.attempt hmake, ⟨e, congrArg (FileTree.attempt _) hwrite⟩,
      congrArg (FileTree.attempt _) hremove⟩)

theorem FileTree.answer_of_serves {op : FileOp} {a b : op.Answer} {fs : List (Event FileSystem)}
    {u : FileTree} (hperform : t.perform cwd op = (b, u))
    (h : (FileTree.responder cwd).Serves t (⟨op, a⟩ :: fs) t') :
    a = b ∧ (FileTree.responder cwd).Serves u fs t' := by
  obtain ⟨_, hstep, hrest⟩ := Responder.serves_cons.1 h
  cases hperform.symm.trans hstep
  exact ⟨rfl, hrest⟩

/-- A tree in which nothing can become an instance refuses every creation, and is as it was. -/
theorem FileTree.Plain.create (ht : t.Plain) {a : Except TracingError Instance}
    (h : RunsOn (FileTree.responder cwd) (create root name) t es a t') :
    t' = t ∧ ∃ e, a = .error e ∧ Refused t cwd root name (calls es) e := by
  have hcourse := runs_create h.runs
  have hserved := h.served
  generalize Actions.calls es = fs at hcourse hserved ⊢
  obtain ⟨hoccupied, hmake⟩ | ⟨hfree, hblocked, e', he', hmake⟩ |
    ⟨hfree, hparent, hshort, made, hmake, ⟨e', hwrite⟩, hremove⟩ := ht.perform_makeDir cwd root name
  · cases hcourse with
    | refused e =>
        obtain ⟨heq, hend⟩ := FileTree.answer_of_serves hmake hserved
        cases heq
        exact ⟨Responder.serves_nil.1 hend, _, rfl, .taken hoccupied⟩
    | undone | created => cases (FileTree.answer_of_serves hmake hserved).1
  · cases hcourse with
    | refused e =>
        obtain ⟨heq, hend⟩ := FileTree.answer_of_serves hmake hserved
        cases heq
        rw [creationError, if_neg he']
        exact ⟨Responder.serves_nil.1 hend, _, rfl, .unreachable _ hfree hblocked⟩
    | undone | created => cases (FileTree.answer_of_serves hmake hserved).1
  · cases hcourse with
    | refused e => cases (FileTree.answer_of_serves hmake hserved).1
    | undone e removed =>
        obtain ⟨-, hundone⟩ := FileTree.answer_of_serves hmake hserved
        obtain ⟨heq, hremoved⟩ := FileTree.answer_of_serves hwrite hundone
        cases heq
        obtain ⟨rfl, hend⟩ := FileTree.answer_of_serves hremove hremoved
        exact ⟨Responder.serves_nil.1 hend, _, rfl, .undone _ hfree hparent hshort⟩
    | created =>
        obtain ⟨-, hwritten⟩ := FileTree.answer_of_serves hmake hserved
        cases (FileTree.answer_of_serves hwrite hwritten).1

/-! ## Binding -/

/-- `Answered t cwd root e own`: what a call that belongs to binding is answered in a plain tree,
and the operations on files that it takes. -/
inductive Answered (t : FileTree) (cwd : Location) (root : TracingRoot) :
    Event Backend → List (Event FileSystem) → Prop where
  | refused {name : InstanceName} {own : List (Event FileSystem)} {e : TracingError}
      (why : Refused t cwd root name own e) :
      Answered t cwd root ⟨.createInstance name, .error e⟩ own
  | looked {name : InstanceName} {found : Except TracingError (Option Instance)}
      (answer : found = .ok (if t.isDirectory cwd (root.instanceDir name.text) then
        some ⟨name, root.instanceDir name.text⟩ else none)) :
      Answered t cwd root ⟨.findInstance name, found⟩
        [⟨.status (root.instanceDir name.text),
          t.status cwd true (root.instanceDir name.text)⟩]

variable {fs : List (Event FileSystem)}

/-- Each of the calls is answered in the tree that was there at first. -/
theorem FileTree.Plain.answered (ht : t.Plain) {cs : List (Event Backend)}
    (hbinding : ∀ e ∈ cs, Instances.IsBinding (.backend e.1))
    (h : Carries (FileTree.responder cwd) (answer root) t cs fs t') :
    t' = t ∧ ∃ own, List.Forall₂ (Answered t cwd root) cs own ∧ fs = own.flatten := by
  induction h with
  | nil => exact ⟨rfl, [], .nil, rfl⟩
  | @cons t u t' op a cs own fs first _ ih =>
      have hop := hbinding _ List.mem_cons_self
      have hrest := fun e he => hbinding e (List.mem_cons_of_mem _ he)
      suffices hfirst : u = t ∧ Answered t cwd root ⟨op, a⟩ (calls own) by
        obtain ⟨rfl, hanswered⟩ := hfirst
        obtain ⟨rfl, owns, hall, rfl⟩ := ih ht hrest
        exact ⟨rfl, calls own :: owns, .cons hanswered hall, rfl⟩
      cases op with
      | createInstance name =>
          obtain ⟨rfl, e, rfl, hrefused⟩ := ht.create first
          exact ⟨rfl, .refused hrefused⟩
      | findInstance name =>
          obtain ⟨rfl, hcalls, rfl⟩ := runsOn_find first
          rw [hcalls]
          exact ⟨rfl, .looked rfl⟩
      | _ => exact hop.elim

theorem exists_answered {cs : List (Event Backend)} {own : List (List (Event FileSystem))}
    (h : List.Forall₂ (Answered t cwd root) cs own) {e : Event Backend} (he : e ∈ cs) :
    ∃ fs, Answered t cwd root e fs := by
  induction h with
  | nil => cases he
  | cons hfirst _ ih =>
      rcases List.mem_cons.1 he with rfl | he
      · exact ⟨_, hfirst⟩
      · exact ih he

theorem answered_error {name : InstanceName} {e : TracingError} {own : List (Event FileSystem)} :
    Answered t cwd root ⟨.createInstance name, .error e⟩ own ↔ Refused t cwd root name own e :=
  ⟨fun h => by cases h; assumption, .refused⟩

theorem not_answered_ok {name : InstanceName} {i : Instance} :
    ¬ Answered t cwd root ⟨.createInstance name, .ok i⟩ fs := nofun

theorem answered_found {name : InstanceName} {found : Except TracingError (Option Instance)}
    (h : Answered t cwd root ⟨.findInstance name, found⟩ fs) :
    found = .ok (if t.isDirectory cwd (root.instanceDir name.text) then
      some ⟨name, root.instanceDir name.text⟩ else none) := by
  cases h
  assumption

section Courses

variable {abstract : List (Event (Actions Backend))} {a : Except TracingError Instance}

/-- What a binding that has asked for `abstract` finds in the tree. -/
theorem FileTree.Plain.binding (ht : t.Plain)
    {p : Program (Actions Backend) (Except TracingError Instance)}
    (hp : Asks (σ := Actions Backend) Instances.IsBinding p) (hruns : Runs p abstract a)
    (h : Carries (FileTree.responder cwd) (answer root) t (calls abstract) fs t') :
    t' = t ∧ ∃ own, List.Forall₂ (Answered t cwd root) (calls abstract) own ∧ fs = own.flatten :=
  ht.answered (fun _ he => hruns.of_asks hp (mem_calls.1 he)) h

/-- Without a name every attempt is refused, and the refusals are reported in order. -/
theorem FileTree.Plain.createAnonymous (ht : t.Plain)
    (hruns : Runs Instances.createAnonymous abstract a)
    (h : Carries (FileTree.responder cwd) (answer root) t (calls abstract) fs t') :
    t' = t ∧ ∃ refused own, refused.length = Instances.maxAttempts ∧
      List.Forall₂ (fun r fs => Refused t cwd root (.random r.draw) fs r.error) refused own ∧
      fs = own.flatten ∧ a = .error (.exhausted (refused.map Instances.Refusal.error)) := by
  obtain ⟨rfl, own, hall, hown⟩ := ht.binding (Instances.createFrom_asks _ _) hruns h
  have hnaming := Instances.runs_createFrom hruns
  generalize Actions.calls abstract = cs at hall hnaming
  cases hnaming with
  | @exhausted refused hlength =>
      refine ⟨rfl, refused, own, hlength, ?_, hown, rfl⟩
      exact (List.forall₂_map_left_iff.1 hall).imp fun _ _ => answered_error.1
  | created _ d i =>
      obtain ⟨fs, hanswered⟩ :=
        exists_answered hall (List.mem_append_right _ (List.mem_singleton.2 rfl))
      exact (not_answered_ok hanswered).elim

/-- With a name, what is bound is what was there. -/
theorem FileTree.Plain.findOrCreate (ht : t.Plain)
    (hruns : Runs (Instances.findOrCreate name) abstract a)
    (h : Carries (FileTree.responder cwd) (answer root) t (calls abstract) fs t') :
    t' = t ∧ ∀ i, a = .ok i ↔ t.isDirectory cwd (root.instanceDir name.text) = true ∧
      i = ⟨name, root.instanceDir name.text⟩ := by
  obtain ⟨rfl, own, hall, -⟩ := ht.binding (Instances.findOrCreate_asks name) hruns h
  have hfinding := Instances.runs_findOrCreate hruns
  generalize Actions.calls abstract = cs at hall hfinding
  have hlook : ∀ found, (⟨.findInstance name, found⟩ : Event Backend) ∈ cs →
      found = .ok (if t'.isDirectory cwd (root.instanceDir name.text) then
        some ⟨name, root.instanceDir name.text⟩ else none) := by
    intro found hmem
    obtain ⟨fs, hanswered⟩ := exists_answered hall hmem
    exact answered_found hanswered
  refine ⟨rfl, fun i => ?_⟩
  cases hfinding with
  | unknown e => cases hlook _ List.mem_cons_self
  | found i' =>
      have hfound := Except.ok.inj (hlook _ List.mem_cons_self)
      split at hfound
      · next hdir =>
          cases hfound
          simp [hdir, eq_comm]
      · cases hfound
  | created i' =>
      obtain ⟨fs, hanswered⟩ := exists_answered hall (List.mem_cons_of_mem _ List.mem_cons_self)
      exact (not_answered_ok hanswered).elim
  | refused e =>
      have hnone := hlook _ List.mem_cons_self
      simp_all
  | overtaken taken again =>
      have hnone := hlook _ List.mem_cons_self
      have hagain := hlook again (by simp)
      simp_all [Instances.secondLook]

/-- Binding leaves a plain tree alone, and binds nothing but an instance that was there. -/
theorem FileTree.Plain.bind (ht : t.Plain) {inst : Option InstanceName}
    (hruns : Runs (Instances.bind inst) abstract a)
    (h : Carries (FileTree.responder cwd) (answer root) t (calls abstract) fs t') :
    t' = t ∧ ∀ i, a = .ok i ↔ ∃ name, inst = some name ∧
      t.isDirectory cwd (root.instanceDir name.text) = true ∧
      i = ⟨name, root.instanceDir name.text⟩ := by
  cases inst with
  | none =>
      obtain ⟨rfl, refused, own, -, -, -, rfl⟩ := ht.createAnonymous hruns h
      exact ⟨rfl, by simp⟩
  | some name =>
      obtain ⟨rfl, hbound⟩ := ht.findOrCreate hruns h
      exact ⟨rfl, fun i => by simp [hbound]⟩

end Courses

/-! ## Failing before arming -/

/-- A session that binds nothing leaves a plain tree alone, and fails. -/
theorem FileTree.Plain.execute (ht : t.Plain) {r : TraceRequest}
    {result : Except SessionError SessionReport}
    (h : RunsOn (FileTree.responder cwd) (realize root (Session.execute r)) t es result t') :
    (t' = t ∧ ∃ e, result = .error e) ∨
      ¬ (r.pids = [] ∧ r.parents = []) ∧ ∃ name, r.inst = some name ∧
        t.isDirectory cwd (root.instanceDir name.text) = true := by
  obtain ⟨abstract, hruns, hcarries⟩ := exists_runs_of_expand h
  generalize Actions.calls es = fs at hcarries
  obtain ⟨-, ⟨hquiet, -⟩, rfl⟩ | ⟨before, after, bound, rfl, htarget, hbind, hrest⟩ :=
    Session.runs_execute hruns
  · rw [hquiet] at hcarries
    cases hcarries
    exact .inl ⟨rfl, _, rfl⟩
  · rw [calls_append] at hcarries
    obtain ⟨fs₁, fs₂, u, rfl, hbefore, hafter⟩ := carries_append.1 hcarries
    obtain ⟨rfl, hbound⟩ := ht.bind hbind hbefore
    match bound with
    | .ok i =>
        obtain ⟨name, hname, hdir, -⟩ := (hbound i).1 rfl
        exact .inr ⟨Session.hasTarget_eq_true.1 htarget, name, hname, hdir⟩
    | .error e =>
        obtain ⟨⟨hquiet, -⟩, rfl⟩ := hrest
        rw [hquiet] at hafter
        cases hafter
        exact .inl ⟨rfl, _, rfl⟩

/-- Whether the command comes as far as an instance: the events are known, there is something to
trace, and there is a directory of the instance's name. -/
def Arms (t : FileTree) (cwd : Location) (o : Commands.SyscallsOptions) : Prop :=
  let root := TracingRoot.seenIn t cwd o.config.overrides
  (∃ events, SystemCalls.chosenIn t cwd root o.syscalls = .ok events) ∧
    ¬ (o.pids = [] ∧ o.parents = []) ∧
    ∃ name, o.inst = some name ∧ t.isDirectory cwd (root.instanceDir name.text) = true

/-- A command that does not come as far as an instance leaves a plain tree alone, and fails. -/
theorem FileTree.Plain.course (ht : t.Plain) {o : Commands.SyscallsOptions}
    {a : Except Failure Unit} (h : Commands.Course cwd o t es a t') :
    (t' = t ∧ ∃ f, a = .error f) ∨
      Arms t cwd o ∧ (⟨.listen, .ok ()⟩ : Event (Actions FileSystem)) ∈ es := by
  cases h with
  | unchosen | deaf => exact .inl ⟨rfl, _, rfl⟩
  | traced after reads chosen listening ran quiet outcome =>
      obtain ⟨rfl, e, rfl⟩ | ⟨htarget, name, hname, hdir⟩ := ht.execute ran
      · refine .inl ⟨rfl, ?_⟩
        match a with
        | .ok () => cases (outcome.1 rfl).choose_spec
        | .error f => exact ⟨f, rfl⟩
      · refine .inr ⟨⟨⟨_, chosen⟩, htarget, name, hname, hdir⟩, ?_⟩
        exact List.mem_append_left _ (List.mem_append_left _ listening)

/-! ## The whole of it -/

/-- Whatever creates or binds an instance leaves a plain tree as it was. Creating one is refused
because something is there, because there is no way to the directory it would be in, or because what
was made is no instance. Without a name there are ten such refusals, and with one there is an
instance exactly if there is a directory. So a trace that does not come as far as an instance leaves
the tree alone as well. -/
theorem binding_leaves_plain (ht : t.Plain) (cwd : Location) (root : TracingRoot) :
    (∀ name, Ensures (FileTree.responder cwd) (create root name) t fun es a t' =>
      t' = t ∧ ∃ e, a = .error e ∧ Refused t cwd root name (calls es) e ∧
        (e = .alreadyExists name ↔ t.Occupied cwd (root.instanceDir name.text))) ∧
    (Ensures (FileTree.responder cwd) (realize root Instances.createAnonymous) t fun es a t' =>
      t' = t ∧ ∃ refused own, refused.length = 10 ∧
        List.Forall₂ (fun r fs => Refused t cwd root (.random r.draw) fs r.error) refused own ∧
        calls es = own.flatten ∧ a = .error (.exhausted (refused.map Instances.Refusal.error))) ∧
    (∀ name, Ensures (FileTree.responder cwd) (realize root (Instances.findOrCreate name)) t
      fun _ a t' => t' = t ∧
        ((∃ i, a = .ok i) ↔ t.isDirectory cwd (root.instanceDir name.text) = true)) ∧
    (∀ inst, Ensures (FileTree.responder cwd) (realize root (Instances.bind inst)) t
      fun _ a t' => t' = t ∧ ((∃ i, a = .ok i) ↔
        ∃ name, inst = some name ∧ t.isDirectory cwd (root.instanceDir name.text) = true)) ∧
    ∀ env args, Ensures (FileTree.responder cwd) (Commands.traceSyscalls env args) t
      fun es code t' =>
        (t' = t ∧ ∀ o, Commands.SyscallsOptions.read env args = .ok o → o.describe = false →
          code = Commands.failed) ∨
        ∃ o, Commands.SyscallsOptions.read env args = .ok o ∧ o.describe = false ∧
          Arms t cwd o ∧ (⟨.listen, .ok ()⟩ : Event (Actions FileSystem)) ∈ es := by
  refine ⟨fun name => ⟨FileTree.exists_runsOn .., fun es a t' h => ?_⟩,
    ⟨FileTree.exists_runsOn .., fun es a t' h => ?_⟩,
    fun name => ⟨FileTree.exists_runsOn .., fun es a t' h => ?_⟩,
    fun inst => ⟨FileTree.exists_runsOn .., fun es a t' h => ?_⟩,
    fun env args => ⟨FileTree.exists_runsOn .., fun es code t' h => ?_⟩⟩
  · obtain ⟨hsame, e, rfl, hrefused⟩ := ht.create h
    exact ⟨hsame, e, rfl, hrefused, hrefused.alreadyExists_iff⟩
  · obtain ⟨abstract, hruns, hcarries⟩ := exists_runs_of_expand h
    exact ht.createAnonymous hruns hcarries
  · obtain ⟨abstract, hruns, hcarries⟩ := exists_runs_of_expand h
    obtain ⟨hsame, hbound⟩ := ht.findOrCreate hruns hcarries
    exact ⟨hsame, by simp [hbound]⟩
  · obtain ⟨abstract, hruns, hcarries⟩ := exists_runs_of_expand h
    obtain ⟨hsame, hbound⟩ := ht.bind hruns hcarries
    refine ⟨hsame, ?_⟩
    simp only [hbound]
    exact ⟨fun ⟨_, name, hname, hdir, _⟩ => ⟨name, hname, hdir⟩,
      fun ⟨name, hname, hdir⟩ => ⟨_, name, hname, hdir, rfl⟩⟩
  · obtain ⟨hsame, -, hdescribe⟩ | ⟨o, full, a, hread, hdescribe, hcourse, -, rfl, hlisten⟩ :=
      Commands.runsOn_traceSyscalls h
    · refine .inl ⟨hsame, fun o hread hnot => ?_⟩
      rw [hdescribe o hread] at hnot
      cases hnot
    · obtain ⟨hsame, f, rfl⟩ | ⟨harms, hlistened⟩ := ht.course hcourse
      · exact .inl ⟨hsame, fun _ _ _ => rfl⟩
      · exact .inr ⟨o, hread, hdescribe, harms, hlisten _ hlistened⟩

/-- A tree with a directory for instances, and a file in it. -/
def bare : FileTree :=
  ((FileTree.empty.put [Utf8.encode "instances"] .directory).put
    [Utf8.encode "instances", Utf8.encode "taken"] (.file [] 0o644))

theorem plain_bare : bare.Plain := FileTree.plain_of_entries (by decide)

/-- Below a root that is written with separators only, the tree has its directory for instances. -/
theorem enters_bare (root : TracingRoot) (h : root.path.names = []) :
    bare.Enters [] root.instancesDir [Utf8.encode "instances"] := by
  have hstart : FileTree.startOf [] root.path = [] := by
    rw [FileTree.startOf, ite_self]
  have htop := FileTree.enters_of_names_eq_nil bare [] h
  rw [hstart] at htop
  exact htop.join (by decide) (by decide) (by decide)

/-- A name that nothing has is tried, and the directory is removed again. -/
theorem binding_leaves_plain_undone :
    let root : TracingRoot := ⟨"/", .tracefs⟩
    let name : InstanceName := ⟨"free", by decide⟩
    bare.Plain ∧ ¬ bare.Occupied [] (root.instanceDir name.text) ∧
      ∃ es e, RunsOn (FileTree.responder []) (create root name) bare es
        (.error (.writeFailed (tracingFile ⟨name, root.instanceDir name.text⟩) "0" e)) bare := by
  intro root name
  have henters := enters_bare root (by decide)
  have hfree : ¬ bare.Occupied [] (root.instanceDir name.text) :=
    FileTree.not_occupied_join name.isName plain_bare.noLinks name.length_le henters (by decide)
  obtain ⟨⟨es, a, t', hrun⟩, hall⟩ := (binding_leaves_plain plain_bare [] root).1 name
  obtain ⟨rfl, e, rfl, hrefused, -⟩ := hall es a t' hrun
  refine ⟨plain_bare, hfree, es, ?_⟩
  generalize Actions.calls es = fs at hrefused
  cases hrefused with
  | taken occupied => exact absurd occupied hfree
  | unreachable e _ blocked =>
      rw [henters.isDirectory (by decide)] at blocked
      exact absurd blocked (by decide)
  | undone e => exact ⟨e, hrun⟩

/-- Where the path to an instance is longer than the system takes, its directory cannot be made,
although there is a directory for it and nothing in its place. -/
theorem create_longPath :
    let root : TracingRoot := ⟨⟨List.replicate 4080 Path.separator⟩, .tracefs⟩
    let name : InstanceName := ⟨"abcdef", by decide⟩
    bare.Plain ∧ bare.isDirectory [] root.instancesDir = true ∧
      ¬ bare.Occupied [] (root.instanceDir name.text) ∧
      bare.get? [Utf8.encode "instances", Utf8.encode name.text] = none ∧
      ∃ es e, RunsOn (FileTree.responder []) (create root name) bare es
        (.error (.createFailed name e)) bare := by
  intro root name
  have hlong : FileTree.maxPath < (root.instanceDir name.text).bytes.length := by decide +kernel
  have henters := enters_bare root (Path.names_separators 4080)
  have hfree : ¬ bare.Occupied [] (root.instanceDir name.text) :=
    FileTree.not_occupied_join name.isName plain_bare.noLinks name.length_le henters
      (by decide +kernel)
  refine ⟨plain_bare, henters.isDirectory (by decide +kernel), hfree, by decide +kernel, ?_⟩
  obtain ⟨es, a, t', hrun⟩ :=
    FileTree.exists_runsOn (create root name) bare []
  obtain ⟨rfl, e, rfl, hrefused⟩ := plain_bare.create hrun
  generalize Actions.calls es = fs at hrefused
  cases hrefused with
  | taken occupied => exact absurd occupied hfree
  | unreachable e => exact ⟨es, e, hrun⟩
  | undone _ _ _ short => exact absurd hlong (Nat.not_lt.2 short)

end KernelTrace
