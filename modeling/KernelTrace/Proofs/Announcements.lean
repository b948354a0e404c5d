import KernelTrace.Proofs.LossyText
import KernelTrace.Proofs.SharedRoot

/-!
# Where the trace is said to be

Whoever wants to read a trace opens the path that was announced. The announcement is text, and a path
need not be one: a mount point may hold any bytes, and the mount table spells them out. The path is
announced as it would be shown, so a path that is a text is announced byte by byte, and every other
path as something that it is not.

Which of the two it is depends on the tracing root alone. The path of a trace is that of the root
with three more names, all of them texts, and bytes are a text exactly if all names in them are
(`Path.isText_iff_names`). So every instance below one root is announced as it is, or none
(`run_announces`).
-/

namespace KernelTrace

open Program Actions

/-! ## Paths that are texts -/

theorem Path.isText_iff_names {q : Path} :
    Utf8.IsText q.bytes ↔ ∀ n ∈ q.names, Utf8.IsText n := by
  have hpieces : Utf8.IsText q.bytes ↔ ∀ p ∈ pieces q.bytes, Utf8.IsText p :=
    Utf8.isText_iff_pieces (a := '/') (by decide)
  have hempty : Utf8.IsText [] := ⟨"", Utf8.decode?_encode ""⟩
  rw [hpieces, names]
  constructor
  · intro h n hn
    exact h n (List.mem_of_mem_filter hn)
  · intro h p hp
    by_cases hnil : p = []
    · exact hnil ▸ hempty
    · exact h p (List.mem_filter.2 ⟨hp, decide_eq_true hnil⟩)

theorem Path.isText_join {n : Bytes} (hn : IsName n) (htext : Utf8.IsText n) {q : Path} :
    Utf8.IsText (q.join ⟨n⟩).bytes ↔ Utf8.IsText q.bytes := by
  rw [isText_iff_names, isText_iff_names, names_join hn, List.forall_mem_append,
    List.forall_mem_singleton, and_iff_left htext]

/-- The path of a trace is a text exactly if the tracing root is one. -/
theorem Instance.isText_tracePath {root : TracingRoot} {i : Instance}
    (h : i.dir = root.instanceDir i.name.text) :
    Utf8.IsText i.tracePath.bytes ↔ Utf8.IsText root.path.bytes := by
  have htext : ∀ s : String, Utf8.IsText (Utf8.encode s) := fun s => ⟨s, Utf8.decode?_encode s⟩
  calc Utf8.IsText i.tracePath.bytes
      ↔ Utf8.IsText i.dir.bytes := Path.isText_join (by decide) (htext "trace")
    _ ↔ Utf8.IsText root.instancesDir.bytes := by
        rw [h]
        exact Path.isText_join i.name.isName (htext i.name.text)
    _ ↔ Utf8.IsText root.path.bytes := Path.isText_join (by decide) (htext "instances")

/-! ## What is announced -/

/-- A text that was given to the output, whether or not it was taken. -/
def Deed.text? : Deed → Option Bytes
  | wrote text _ => some text
  | _ => none

namespace Dispatcher

theorem texts_announce {β : Signature} {i : Instance} {es : List (Event (Actions β))}
    {a : Except IoError Unit} (h : Runs (announce i) es a) :
    (deeds es).filterMap Deed.text? = [announcement i] := by
  obtain ⟨written, rest, rfl, hrest⟩ := runs_perform_bind.1 h
  match written with
  | .error e =>
      obtain ⟨rfl, rfl⟩ := runs_pure.1 hrest
      rfl
  | .ok () =>
      obtain rfl := runs_perform.1 hrest
      rfl

theorem texts_ranEach (calls : List Invocation) : (ranEach calls).filterMap Deed.text? = [] := by
  induction calls with
  | nil => rfl
  | cons call rest ih => exact ih

variable {S : Type} {m : Responder Backend S} {s t : S} {d : Dispatcher} {r : RunRequest}

/-- A run announces nothing if it has no instance, and otherwise the one that its hooks are told. -/
theorem texts_run {es : List (Event (Actions Backend))}
    {result : Except HookError (List HookOutput)} (h : RunsOn m (d.run r) s es result t) :
    (∃ e, result = .error e ∧ Unbound m d r s t e ∧ (deeds es).filterMap Deed.text? = []) ∨
    ∃ binding i bound, RunsOn m (Instances.bind r.inst) s binding (.ok i) bound ∧
      (deeds es).filterMap Deed.text? = [announcement i] ∧
      ∀ call, .ran call ∈ deeds es → call.run.args = hookArgs r i := by
  have hshown := shown_of_run h
  generalize deeds es = ds at hshown ⊢
  cases hshown with
  | @unbound _ e unbound shielding =>
      refine .inl ⟨e, rfl, unbound, List.filterMap_eq_nil_iff.2 fun deed hdeed => ?_⟩
      obtain ⟨answer, rfl⟩ := shielding deed hdeed
      rfl
  | @unannounced binding announcing i e bind announced =>
      refine .inr ⟨binding, i, t, bind, texts_announce announced, fun call hran => ?_⟩
      rw [List.mem_cons, or_iff_right nofun] at hran
      exact absurd hran (Commands.ran_notMem_announce announced)
  | @ran binding announcing i bound calls outputs bind announced each =>
      refine .inr ⟨binding, i, bound, bind, ?_, fun call hran => ?_⟩
      · rw [List.filterMap_append, texts_ranEach, List.append_nil]
        exact texts_announce announced
      · rw [List.cons_append, List.mem_cons, or_iff_right nofun, List.mem_append,
          or_iff_right (Commands.ran_notMem_announce announced)] at hran
        obtain ⟨call', hcall, heq⟩ := List.mem_map.1 hran
        cases heq
        exact (each call hcall).1

/-- Whatever becomes of a run of hooks over the files below a tracing root, it announces the path of
the trace in the instance that it has bound, and its hooks are told of, once. What is announced is
that path byte by byte exactly if the tracing root is a text. -/
theorem run_announces {F : Type} {fs : Responder FileSystem F} {root : TracingRoot} {s t : F}
    {es : List (Event (Actions FileSystem))} {result : Except HookError (List HookOutput)}
    (h : RunsOn fs (ControlFiles.realize root (d.run r)) s es result t) :
    (∃ e, result = .error e ∧ Unbound (through fs (ControlFiles.answer root)) d r s t e ∧
      (deeds es).filterMap Deed.text? = []) ∨
    ∃ binding i bound line,
      RunsOn (through fs (ControlFiles.answer root)) (Instances.bind r.inst) s binding (.ok i)
        bound ∧
      i.dir = root.instanceDir i.name.text ∧
      (∀ call, .ran call ∈ deeds es → call.run.args = hookArgs r i) ∧
      (deeds es).filterMap Deed.text? = [line ++ Utf8.encode "\n"] ∧
      (line = i.tracePath.bytes ↔ Utf8.IsText root.path.bytes) := by
  obtain ⟨dispatch, hrun, hdeeds⟩ := ControlFiles.runsOn_realize h
  rw [← hdeeds]
  refine (texts_run hrun).imp_right ?_
  rintro ⟨binding, i, bound, hbind, htexts, hargs⟩
  have hdir := Commands.dir_of_bind hbind
  refine ⟨binding, i, bound, Utf8.encode i.tracePath.display, hbind, hdir, hargs, ?_, ?_⟩
  · rw [htexts, announcement, ← Utf8.encode_append]
    rfl
  · exact Utf8.encode_decodeLossy_eq_iff.trans (Instance.isText_tracePath hdir)

/-! ## One letter in two encodings -/

/-- A directory with a tracing root of some name in it, and in that an instance whose trace says
"x". -/
def tracedIn (top : Bytes) : FileTree :=
  let trace := [top, Utf8.encode "instances", Utf8.encode "a", Utf8.encode "trace"]
  (FileTree.empty.putParents trace).put trace (.file (Utf8.encode "x") 0o444)

def rootIn (top : Bytes) : TracingRoot := ⟨⟨Path.separator :: top⟩, .tracefs⟩

theorem instanceNameFault?_a : instanceNameFault? "a" = none := by decide

def instanceIn (top : Bytes) : Instance :=
  let name : InstanceName := ⟨"a", instanceNameFault?_a⟩
  ⟨name, (rootIn top).instanceDir name.text⟩

/-- Running one hook in the instance of `tracedIn`. -/
def programIn (top : Bytes) : ControlFiles.Files (Except HookError (List HookOutput)) :=
  ControlFiles.realize (rootIn top) (single.run ⟨"noop", [], some (instanceIn top).name, false⟩)

/-- What the system tells about directories. -/
def directoryAnswer : (op : FileOp) → op.Answer
  | .status p | .linkStatus p => .ok ⟨p.steps, .directory⟩
  | .list _ | .read _ | .readIn .. => .error (.os .notFound)
  | .makeDir _ | .removeDir _ | .overwrite .. => .ok ()

def runIn (top : Bytes) :
    List (Event (Actions FileSystem)) × Except HookError (List HookOutput) × Unit :=
  drive (fun _ op => (directoryAnswer op, ())) ⟨0, .deadline, fun _ => .ok ⟨.code 0, [], []⟩⟩
    (programIn top) ()

theorem runsOn_runIn {top : Bytes}
    (hlooks : ∀ op ∈ (calls (runIn top).1).map Sigma.fst, op = .status (instanceIn top).dir)
    (hfind : (tracedIn top).find [] (instanceIn top).dir =
      .ok ((instanceIn top).dir.steps, .directory)) :
    RunsOn (FileTree.responder []) (programIn top) (tracedIn top) (runIn top).1 (runIn top).2.1
      (tracedIn top) := by
  have hdrive := runsOn_drive (fun (_ : Unit) op => (directoryAnswer op, ()))
    ⟨0, .deadline, fun _ => .ok ⟨.code 0, [], []⟩⟩ (programIn top) ()
  refine ⟨hdrive.runs, Responder.serves_of_unchanged fun e he => ?_⟩
  obtain ⟨_, _, _, _, _, _, hstep, _⟩ := hdrive.served.exists_of_mem he
  have hanswer : directoryAnswer e.1 = e.2 := congrArg Prod.fst hstep
  have hperform : (tracedIn top).perform [] e.1 = (directoryAnswer e.1, tracedIn top) := by
    rw [hlooks e.1 (List.mem_map_of_mem he), FileTree.perform, FileTree.status_of_find hfind]
    rfl
  exact hperform.trans (congrArg (·, tracedIn top) hanswer)

/-- The letter é as it is encoded in a text. -/
theorem run_announces_accented :
    let top := Utf8.encode "é"
    RunsOn (FileTree.responder []) (programIn top) (tracedIn top) (runIn top).1 (runIn top).2.1
      (tracedIn top) ∧
    ∃ (i : Instance) (line : Bytes), i.dir = (rootIn top).instanceDir i.name.text ∧
      (deeds (runIn top).1).filterMap Deed.text? = [line ++ Utf8.encode "\n"] ∧
      line = i.tracePath.bytes := by
  intro top
  have hfind : (tracedIn top).find [] (instanceIn top).dir =
      .ok ((instanceIn top).dir.steps, .directory) :=
    FileTree.find_of_get? rfl (by decide +kernel) (by decide +kernel) (by decide +kernel) nofun
      (by decide +kernel)
  have hlooks : ∀ op ∈ (calls (runIn top).1).map Sigma.fst, op = .status (instanceIn top).dir := by
    decide +kernel
  have hrun := runsOn_runIn hlooks hfind
  obtain ⟨e, hfailed, -, -⟩ | ⟨-, i, -, line, -, hdir, -, htexts, hexact⟩ := run_announces hrun
  · have hok : (runIn top).2.1.isOk = true := by decide +kernel
    rw [hfailed] at hok
    cases hok
  · have htext : Utf8.IsText (rootIn top).path.bytes := by
      refine ⟨"/é", ?_⟩
      decide +kernel
    exact ⟨hrun, i, line, hdir, htexts, hexact.2 htext⟩

/-- The same letter as a single byte is announced as U+FFFD. The trace cannot be read where it is
said to be. -/
theorem run_announces_latin :
    let top : Bytes := [0xE9]
    let announced := Utf8.encode "/\ufffd/instances/a/trace"
    RunsOn (FileTree.responder []) (programIn top) (tracedIn top) (runIn top).1 (runIn top).2.1
      (tracedIn top) ∧
    (∃ outputs, (runIn top).2.1 = .ok outputs) ∧
    (deeds (runIn top).1).filterMap Deed.text? = [announced ++ Utf8.encode "\n"] ∧
    announced ≠ (instanceIn top).tracePath.bytes ∧
    (tracedIn top).read [] (instanceIn top).tracePath = .ok (Utf8.encode "x") ∧
    (tracedIn top).read [] ⟨announced⟩ = .error (.os .notFound) := by
  intro top announced
  have hfind : (tracedIn top).find [] (instanceIn top).dir =
      .ok ((instanceIn top).dir.steps, .directory) :=
    FileTree.find_of_get? rfl (by decide +kernel) (by decide +kernel) (by decide +kernel) nofun
      (by decide +kernel)
  have htrace : (tracedIn top).find [] (instanceIn top).tracePath =
      .ok ((instanceIn top).tracePath.steps, .file (Utf8.encode "x") 0o444) :=
    FileTree.find_of_get? rfl (by decide +kernel) (by decide +kernel) (by decide +kernel) nofun
      (by decide +kernel)
  have hnowhere : (tracedIn top).find [] ⟨announced⟩ = .error (.os .notFound) :=
    FileTree.find_of_get?_eq_none 0 rfl (by decide +kernel)
  refine ⟨runsOn_runIn (by decide +kernel) hfind, ?_, by decide +kernel, by decide +kernel, ?_, ?_⟩
  · cases hresult : (runIn top).2.1 with
    | ok outputs => exact ⟨outputs, rfl⟩
    | error e =>
        have hok : (runIn top).2.1.isOk = true := by decide +kernel
        rw [hresult] at hok
        cases hok
  · rw [FileTree.read, htrace]
    rfl
  · rw [FileTree.read, hnowhere]
    rfl

end Dispatcher

end KernelTrace
