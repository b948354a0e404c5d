import KernelTrace.Tracing.ControlFiles
import KernelTrace.Proofs.FileContents
import KernelTrace.Proofs.Runs

/-!
# What a setting does to the control files

A setting is written to the files of one list, one after the other up to the first that cannot be
written. Which files these are depends on the knob and on the shape of the tree, but not on the
value: `FileTree.rewritable` says it for both directions of a switch. That is the whole of what the
programs of the backend have to tell, so this file turns each of them into one statement about what
it writes and answers, and nothing after it unfolds them.
-/

namespace KernelTrace

open Program Actions

/-- A file tree as a file system, seen from the working directory `cwd`. -/
def FileTree.responder (cwd : Location) : Responder FileSystem FileTree :=
  .ofFunction fun t op => t.perform cwd op

/-- Every program over a file tree comes to its end. -/
theorem FileTree.exists_runsOn {α : Type} (p : Program (Actions FileSystem) α) (t : FileTree)
    (cwd : Location) : ∃ es a t', RunsOn (responder cwd) p t es a t' :=
  exists_runsOn_of_answers (fun _ _ => ⟨_, _, rfl⟩) p t

namespace Setting

open ControlFiles

def files (i : Instance) : Setting → List Path
  | .option o _ => [optionFile i o]
  | .eventPids _ => [eventPidFile i]
  | .functionPids _ => [functionPidFile i]
  | .tracing _ => [tracingFile i]
  | .events chosen _ => eventFiles i chosen

/-- What a file shows once the setting is made: a digit, or process numbers with spaces between
them. -/
def value : Setting → String
  | .option _ on | .tracing on | .events _ on => if on then "1" else "0"
  | .eventPids pids | .functionPids pids => " ".intercalate (pids.map toString)

/-- Whether the kernel may be without the knob. -/
def isOptional : Setting → Bool
  | .option .functionFork _ | .functionPids _ => true
  | _ => false

/-- What a setting comes to, given the first file that could not be written. -/
def verdict (s : Setting) : Option (Path × IoError) → Except TracingError Unit
  | none => .ok ()
  | some (p, e) =>
    if s.isOptional ∧ e = .os .notFound then .ok () else .error (.writeFailed p s.value e)

end Setting

namespace ControlFiles

variable {cwd : Location} {t t' : FileTree} {es : List (Event (Actions FileSystem))}

/-- `Written cwd ps value t fs t'`: with the operations `fs`, `value` has been written to the files
of `ps` up to the first that could not be written. -/
structure Written (cwd : Location) (ps : List Path) (value : String) (t : FileTree)
    (fs : List (Event FileSystem)) (t' : FileTree) : Prop where
  filled : t.Filled (t.rewritable cwd ps).1 (Utf8.encode value) t'
  overwrites : ∀ e ∈ fs, ∃ p ∈ ps, ∃ a, e = ⟨.overwrite p (Utf8.encode value), a⟩ ∧
    (a = .ok () → ∃ loc ∈ (t.rewritable cwd ps).1, t.fileAt cwd p = .ok loc)

def writeVerdict (value : String) : Option (Path × IoError) → Except TracingError Unit
  | none => .ok ()
  | some (p, e) => .error (.writeFailed p value e)

theorem runsOn_write {p : Path} {value : String} {a : Except TracingError Unit}
    (h : RunsOn (FileTree.responder cwd) (write p value) t es a t') :
    Written cwd [p] value t (calls es) t' ∧ a = writeVerdict value (t.rewritable cwd [p]).2 := by
  obtain ⟨rest, rfl, h₁⟩ := h.after_log
  obtain ⟨answer, rest, t₁, rfl, hstep, h₂⟩ := h₁.after_backend
  change t.perform cwd (.overwrite p (Utf8.encode value)) = (answer, t₁) at hstep
  rw [calls_log, calls_backend]
  obtain ⟨loc, t₂, hat, hperform, hfilled⟩ | ⟨e, hat, hperform⟩ :=
    t.perform_overwrite cwd p (Utf8.encode value)
  · rw [hperform] at hstep
    cases hstep
    obtain ⟨rfl, rfl, rfl⟩ := runsOn_pure.1 h₂
    have hone : t.rewritable cwd [p] = ([loc], none) := FileTree.rewritable_cons_of_ok hat []
    rw [hone]
    refine ⟨⟨?_, ?_⟩, rfl⟩
    · rw [hone]
      exact hfilled
    · rw [hone]
      intro e he
      obtain rfl := List.mem_singleton.1 he
      exact ⟨p, List.mem_cons_self, _, rfl, fun _ => ⟨loc, List.mem_cons_self, hat⟩⟩
  · rw [hperform] at hstep
    cases hstep
    obtain ⟨rfl, rfl, rfl⟩ := runsOn_pure.1 h₂
    have hnone := FileTree.rewritable_cons_of_error hat []
    rw [hnone]
    refine ⟨⟨?_, ?_⟩, rfl⟩
    · rw [hnone]
      exact FileTree.filled_nil _ _
    · intro e' he
      obtain rfl := List.mem_singleton.1 he
      refine ⟨p, List.mem_cons_self, _, rfl, fun hok => ?_⟩
      cases hok

theorem Written.nil (cwd : Location) (value : String) (t : FileTree) :
    Written cwd [] value t [] t :=
  ⟨FileTree.filled_nil _ _, fun _ he => absurd he List.not_mem_nil⟩

/-- Where the first file cannot be written, the others are not tried. -/
theorem Written.cons_of_error {p : Path} {value : String} {fs : List (Event FileSystem)}
    (h : Written cwd [p] value t fs t') {e : IoError} (hat : t.fileAt cwd p = .error e)
    (ps : List Path) : Written cwd (p :: ps) value t fs t' := by
  have hone := FileTree.rewritable_cons_of_error hat []
  have hall := FileTree.rewritable_cons_of_error hat ps
  refine ⟨?_, fun e' he => ?_⟩
  · rw [hall, ← hone]
    exact h.filled
  · obtain ⟨q, hq, answer, rfl, hok⟩ := h.overwrites e' he
    rw [hone] at hok
    rw [hall]
    exact ⟨q, List.mem_cons.2 (Or.inl (List.mem_singleton.1 hq)), answer, rfl, hok⟩

/-- Where the first file has been written, the others are still where they were. -/
theorem Written.cons_of_ok {p : Path} {value : String} {ps : List Path} {t'' : FileTree}
    {fs fs' : List (Event FileSystem)} (h : Written cwd [p] value t fs t') {loc : Location}
    (hat : t.fileAt cwd p = .ok loc) (h' : Written cwd ps value t' fs' t'') :
    Written cwd (p :: ps) value t (fs ++ fs') t'' := by
  have hone := FileTree.rewritable_cons_of_ok hat []
  have hall := FileTree.rewritable_cons_of_ok hat ps
  have hshape := h.filled.sameShape
  have hfilled := h.filled
  have hfilled' := h'.filled
  rw [hone] at hfilled
  rw [← FileTree.rewritable_congr hshape] at hfilled'
  refine ⟨?_, fun e he => ?_⟩
  · rw [hall]
    exact hfilled.append hfilled'
  · rw [hall]
    rcases List.mem_append.1 he with he | he
    · obtain ⟨q, hq, answer, rfl, hok⟩ := h.overwrites e he
      refine ⟨q, List.mem_cons.2 (Or.inl (List.mem_singleton.1 hq)), answer, rfl, fun ha => ?_⟩
      obtain ⟨loc', hloc, hat'⟩ := hok ha
      rw [hone] at hloc
      exact ⟨loc', List.mem_cons.2 (Or.inl (List.mem_singleton.1 hloc)), hat'⟩
    · obtain ⟨q, hq, answer, rfl, hok⟩ := h'.overwrites e he
      refine ⟨q, List.mem_cons_of_mem p hq, answer, rfl, fun ha => ?_⟩
      obtain ⟨loc', hloc, hat'⟩ := hok ha
      rw [← FileTree.rewritable_congr hshape] at hloc
      rw [← FileTree.fileAt_congr hshape] at hat'
      exact ⟨loc', List.mem_cons_of_mem loc hloc, hat'⟩

theorem runsOn_writeAll {ps : List Path} {value : String} {a : Except TracingError Unit}
    (h : RunsOn (FileTree.responder cwd) (writeAll value ps) t es a t') :
    Written cwd ps value t (calls es) t' ∧ a = writeVerdict value (t.rewritable cwd ps).2 := by
  induction ps generalizing t es with
  | nil =>
      obtain ⟨rfl, rfl, rfl⟩ := runsOn_pure.1 h
      exact ⟨.nil cwd value t', rfl⟩
  | cons p ps ih =>
      obtain ⟨es₁, es₂, answer, t₁, rfl, hwrite, h₁⟩ := runsOn_bind.1 h
      obtain ⟨hwritten, rfl⟩ := runsOn_write hwrite
      rw [calls_append]
      cases hat : t.fileAt cwd p with
      | error e =>
          rw [FileTree.rewritable_cons_of_error hat] at h₁
          obtain ⟨rfl, rfl, rfl⟩ := runsOn_pure.1 h₁
          rw [FileTree.rewritable_cons_of_error hat, calls_nil, List.append_nil]
          exact ⟨hwritten.cons_of_error hat ps, rfl⟩
      | ok loc =>
          rw [FileTree.rewritable_cons_of_ok hat] at h₁
          obtain ⟨hrest, rfl⟩ := ih h₁
          rw [FileTree.rewritable_cons_of_ok hat, FileTree.rewritable_congr hwritten.filled.sameShape]
          exact ⟨hwritten.cons_of_ok hat hrest, rfl⟩

theorem tolerateMissing_eq_pure {p : Path} {value : String} {e : IoError}
    (he : e ≠ .os .notFound) :
    tolerateMissing (.error (.writeFailed p value e)) = pure (.error (.writeFailed p value e)) := by
  unfold tolerateMissing
  split
  · next heq =>
      cases heq
      exact absurd rfl he
  · rfl

theorem runsOn_tolerateMissing {s : Setting} (hs : s.isOptional = true)
    {failure : Option (Path × IoError)} {a : Except TracingError Unit}
    (h : RunsOn (FileTree.responder cwd) (tolerateMissing (writeVerdict s.value failure)) t es
      a t') :
    t' = t ∧ calls es = [] ∧ a = s.verdict failure := by
  match failure with
  | none =>
      obtain ⟨rfl, rfl, rfl⟩ := runsOn_pure.1 h
      exact ⟨rfl, rfl, rfl⟩
  | some (p, e) =>
      rw [Setting.verdict]
      by_cases he : e = .os .notFound
      · subst he
        obtain ⟨rest, rfl, h₁⟩ := h.after_log
        obtain ⟨rfl, rfl, rfl⟩ := runsOn_pure.1 h₁
        exact ⟨rfl, rfl, (if_pos ⟨hs, rfl⟩).symm⟩
      · rw [writeVerdict, tolerateMissing_eq_pure he] at h
        obtain ⟨rfl, rfl, rfl⟩ := runsOn_pure.1 h
        exact ⟨rfl, rfl, (if_neg fun hmissing => he hmissing.2).symm⟩

theorem verdict_of_required {s : Setting} (hs : s.isOptional = false)
    (failure : Option (Path × IoError)) : s.verdict failure = writeVerdict s.value failure := by
  match failure with
  | none => rfl
  | some (p, e) =>
      rw [Setting.verdict, hs, if_neg (by simp)]
      rfl

/-- A knob that the kernel may be without is written like any other, and then a missing file is
taken for success. -/
theorem runsOn_write_optional {s : Setting} (hs : s.isOptional = true) {p : Path}
    {a : Except TracingError Unit}
    (h : RunsOn (FileTree.responder cwd) (write p s.value >>= tolerateMissing) t es a t') :
    Written cwd [p] s.value t (calls es) t' ∧ a = s.verdict (t.rewritable cwd [p]).2 := by
  obtain ⟨es₁, es₂, answer, t₁, rfl, hwrite, h₁⟩ := runsOn_bind.1 h
  obtain ⟨hwritten, rfl⟩ := runsOn_write hwrite
  obtain ⟨rfl, hcalls, rfl⟩ := runsOn_tolerateMissing hs h₁
  rw [calls_append, hcalls, List.append_nil]
  exact ⟨hwritten, rfl⟩

/-- A setting is written to its files up to the first that cannot be written. -/
theorem runsOn_set {i : Instance} {s : Setting} {a : Except TracingError Unit}
    (h : RunsOn (FileTree.responder cwd) (set i s) t es a t') :
    Written cwd (s.files i) s.value t (calls es) t' ∧
      a = s.verdict (t.rewritable cwd (s.files i)).2 := by
  match s with
  | .option .functionFork _ | .functionPids _ => exact runsOn_write_optional rfl h
  | .option .eventFork _ | .eventPids _ | .tracing _ =>
      rw [verdict_of_required rfl]
      exact runsOn_write h
  | .events _ _ =>
      rw [verdict_of_required rfl]
      exact runsOn_writeAll h

/-! ## What a setting asks for -/

/-- Operations that touch no files but those of which `P` holds, and only to overwrite them. -/
def Rewrites (P : Path → Prop) : Action FileSystem → Prop
  | .backend (.overwrite p _) => P p
  | .log _ | .wait .. => True
  | _ => False

section Rewrites

variable {P : Path → Prop}

theorem write_asks {p : Path} (hp : P p) (value : String) :
    Asks (σ := Actions FileSystem) (Rewrites P) (write p value) := by
  refine asks_bind (asks_perform.2 trivial) fun _ => asks_bind (asks_perform.2 hp) fun written => ?_
  match written with
  | .ok () | .error e => exact asks_pure

theorem tolerateMissing_asks (result : Except TracingError Unit) :
    Asks (σ := Actions FileSystem) (Rewrites P) (tolerateMissing result) := by
  rw [tolerateMissing.eq_def]
  split
  · exact asks_bind (asks_perform.2 trivial) fun _ => asks_pure
  · exact asks_pure

theorem writeAll_asks {ps : List Path} (hps : ∀ p ∈ ps, P p) (value : String) :
    Asks (σ := Actions FileSystem) (Rewrites P) (writeAll value ps) := by
  induction ps with
  | nil => exact asks_pure
  | cons p ps ih =>
      obtain ⟨hp, hps⟩ := List.forall_mem_cons.1 hps
      refine asks_bind (write_asks hp value) fun written => ?_
      match written with
      | .ok () => exact ih hps
      | .error e => exact asks_pure

theorem set_asks {i : Instance} {s : Setting} (h : ∀ p ∈ s.files i, P p) :
    Asks (σ := Actions FileSystem) (Rewrites P) (set i s) := by
  match s with
  | .option .eventFork _ | .eventPids _ | .tracing _ => exact write_asks (h _ List.mem_cons_self) _
  | .option .functionFork _ | .functionPids _ =>
      exact asks_bind (write_asks (h _ List.mem_cons_self) _) fun _ => tolerateMissing_asks _
  | .events .. => exact writeAll_asks h _

end Rewrites

/-! ## Creating and finding -/

theorem runs_write {p : Path} {value : String} {a : Except TracingError Unit}
    (h : Runs (write p value) es a) :
    ∃ written, calls es = [⟨.overwrite p (Utf8.encode value), written⟩] ∧
      a = written.mapError (.writeFailed p value) := by
  obtain ⟨_, rest, rfl, h₁⟩ := runs_perform_bind.1 h
  obtain ⟨written, rest, rfl, h₂⟩ := runs_perform_bind.1 h₁
  match written with
  | .ok () | .error e =>
      obtain ⟨rfl, rfl⟩ := runs_pure.1 h₂
      exact ⟨_, rfl, rfl⟩

/-- What a refused directory says of the instance that it was to become. -/
def creationError (name : InstanceName) (e : IoError) : TracingError :=
  if e = .os .exists then .alreadyExists name else .createFailed name e

/-- `Creation i fs a`: the ways in which the creation of `i` can go, whatever the file system
answers. -/
inductive Creation (i : Instance) : List (Event FileSystem) → Except TracingError Instance → Prop where
  /-- The directory could not be made. -/
  | refused (e : IoError) :
      Creation i [⟨.makeDir i.dir, .error e⟩] (.error (creationError i.name e))
  /-- The directory was made but is no instance, so it was removed again. -/
  | undone (e : IoError) (removed : Except IoError Unit) :
      Creation i [⟨.makeDir i.dir, .ok ()⟩,
        ⟨.overwrite (tracingFile i) (Utf8.encode "0"), .error e⟩,
        ⟨.removeDir i.dir, removed⟩] (.error (.writeFailed (tracingFile i) "0" e))
  | created :
      Creation i [⟨.makeDir i.dir, .ok ()⟩,
        ⟨.overwrite (tracingFile i) (Utf8.encode "0"), .ok ()⟩] (.ok i)

theorem runs_create {root : TracingRoot} {name : InstanceName} {a : Except TracingError Instance}
    (h : Runs (create root name) es a) :
    Creation ⟨name, root.instanceDir name.text⟩ (calls es) a := by
  obtain ⟨made, rest, rfl, h₁⟩ := runs_perform_bind.1 h
  match made with
  | .error e =>
      have hrefused := Creation.refused (i := ⟨name, root.instanceDir name.text⟩) e
      rw [creationError] at hrefused
      split at h₁
      · next heq =>
          cases heq
          obtain ⟨rfl, rfl⟩ := runs_pure.1 h₁
          exact hrefused
      · next hother heq =>
          cases heq
          obtain ⟨rfl, rfl⟩ := runs_pure.1 h₁
          rw [if_neg hother] at hrefused
          exact hrefused
      · next heq => cases heq
  | .ok () =>
      obtain ⟨es₁, es₂, switched, rfl, hwrite, h₂⟩ := runs_bind.1 h₁
      obtain ⟨written, hcalls, rfl⟩ := runs_write hwrite
      rw [calls_backend, calls_append, hcalls]
      match written with
      | .error e =>
          obtain ⟨removed, rest, rfl, h₃⟩ := runs_perform_bind.1 h₂
          obtain ⟨rfl, rfl⟩ := runs_pure.1 h₃
          exact .undone e removed
      | .ok () =>
          obtain ⟨_, rest, rfl, h₃⟩ := runs_perform_bind.1 h₂
          obtain ⟨rfl, rfl⟩ := runs_pure.1 h₃
          exact .created

theorem runs_find {root : TracingRoot} {name : InstanceName}
    {a : Except TracingError (Option Instance)} (h : Runs (find root name) es a) :
    ∃ status, calls es = [⟨.status (root.instanceDir name.text), status⟩] ∧
      a = .ok (if FileStatus.isDirectory status then some ⟨name, root.instanceDir name.text⟩
        else none) := by
  obtain ⟨status, rest, rfl, h₁⟩ := runs_perform_bind.1 h
  obtain ⟨rfl, rfl⟩ := runs_pure.1 h₁
  exact ⟨status, rfl, rfl⟩

theorem isDirectory_status (t : FileTree) (cwd : Location) (p : Path) :
    FileStatus.isDirectory (t.status cwd true p) = t.isDirectory cwd p := by
  unfold FileTree.status FileTree.isDirectory FileTree.find
  match t.resolve cwd true p with
  | .error _ | .ok (.vacant ..) => rfl
  | .ok (.present _ e) => cases e <;> rfl

/-- Looking for an instance changes nothing, and finds it where its directory is. -/
theorem runsOn_find {root : TracingRoot} {name : InstanceName}
    {a : Except TracingError (Option Instance)}
    (h : RunsOn (FileTree.responder cwd) (find root name) t es a t') :
    let dir := root.instanceDir name.text
    t' = t ∧ calls es = [⟨.status dir, t.status cwd true dir⟩] ∧
      a = .ok (if t.isDirectory cwd dir then some ⟨name, dir⟩ else none) := by
  intro dir
  obtain ⟨status, hcalls, rfl⟩ := runs_find h.runs
  have hserved := h.served
  rw [hcalls] at hserved
  obtain ⟨t₁, hstep, hend⟩ := Responder.serves_cons.1 hserved
  obtain rfl := Responder.serves_nil.1 hend
  change (t.status cwd true dir, t) = (status, t') at hstep
  cases hstep
  exact ⟨rfl, hcalls, by rw [isDirectory_status]⟩

def directoryNames (entries : List (Bytes × Entry)) : List String :=
  (entries.filter (·.2.isDirectory)).filterMap fun e => Utf8.decode? e.1

theorem runsOn_subdirectories {dir : Path} {a : Except TracingError (List String)}
    (h : RunsOn (FileTree.responder cwd) (subdirectories dir) t es a t') :
    t' = t ∧ calls es = [⟨.list dir, t.list cwd dir⟩] ∧
      a = ((t.list cwd dir).map directoryNames).mapError (.readFailed dir) := by
  obtain ⟨answer, rest, t₁, rfl, hstep, h₁⟩ := h.after_backend
  change (t.list cwd dir, t) = (answer, t₁) at hstep
  cases hstep
  rw [calls_backend]
  generalize t.list cwd dir = listed at h₁ ⊢
  match listed with
  | .ok entries | .error e =>
      obtain ⟨rfl, rfl, rfl⟩ := runsOn_pure.1 h₁
      exact ⟨rfl, rfl, rfl⟩

/-! ## Programs over the files -/

section Realize

variable {α β S : Type} {m : Responder FileSystem S} {root : TracingRoot} {s u : S}

theorem runsOn_realize_bind {p : Program (Actions Backend) α} {f : α → Program (Actions Backend) β}
    {b : β} :
    RunsOn m (realize root (p >>= f)) s es b u ↔ ∃ es₁ es₂ a mid, es = es₁ ++ es₂ ∧
      RunsOn m (realize root p) s es₁ a mid ∧ RunsOn m (realize root (f a)) mid es₂ b u := by
  have hbind : realize root (p >>= f) = realize root p >>= fun a => realize root (f a) :=
    expand_bind ..
  rw [hbind]
  exact runsOn_bind

theorem after_call {c : Call} {f : c.Answer → Program (Actions Backend) α} {a : α}
    (h : RunsOn m (realize root (backend (β := Backend) c >>= f)) s es a u) :
    ∃ own rest answered mid, es = own ++ rest ∧ RunsOn m (answer root c) s own answered mid ∧
      RunsOn m (realize root (f answered)) mid rest a u :=
  runsOn_bind.1 h

end Realize

end ControlFiles

end KernelTrace
