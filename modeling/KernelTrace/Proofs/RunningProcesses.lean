import KernelTrace.Proofs.LinkedPaths
import KernelTrace.Proofs.RootResolution
import KernelTrace.Proofs.StatusLines

/-!
# Which processes are running

A trace ends when none of its processes runs any more, so a process must not pass for exited while it
runs. What is asked for is one file, and every way in which that can fail counts as exited: there is
no process of that number, its status cannot be read or is no status line, or it says that the
process has ended (`TargetWatch.Exited`). A process has no part in this but for its command, and the
command does not matter (`StatLine.ofBytes?_content`).
-/

namespace KernelTrace

open Program Actions

variable {t t' : FileTree} {cwd : Location} {procfs : Path} {pid : Pid}
  {es : List (Event (Actions FileSystem))}

namespace ProcessStat

/-- What the tree says about a process. -/
def statIn (t : FileTree) (cwd : Location) (procfs : Path) (pid : Pid) :
    Option ProcessStat :=
  match t.find cwd (dirOf procfs pid) with
  | .ok (home, .directory) =>
    match t.read home "stat" with
    | .ok content => ofBytes? content
    | .error _ => none
  | _ => none

section StatIn

variable {home : Location}

theorem statIn_of_missing (absent : ∀ home, t.find cwd (dirOf procfs pid) ≠ .ok (home, .directory)) :
    statIn t cwd procfs pid = none := by
  rw [statIn]
  split
  · next home hfind => exact absurd hfind (absent home)
  · rfl

variable (found : t.find cwd (dirOf procfs pid) = .ok (home, .directory))

include found

theorem statIn_of_refused {e : IoError} (refused : t.read home "stat" = .error e) :
    statIn t cwd procfs pid = none := by
  rw [statIn, found]
  dsimp only
  rw [refused]

theorem statIn_of_read {content : Bytes} (read : t.read home "stat" = .ok content) :
    statIn t cwd procfs pid = ofBytes? content := by
  rw [statIn, found]
  dsimp only
  rw [read]

end StatIn

theorem isRunning_eq_false {s : ProcessStat} :
    s.isRunning = false ↔ s.state = 'Z' ∨ s.state = 'X' := by
  simp [isRunning, or_iff_not_imp_left]

theorem runsOn_look {a : Except ProcessFault ProcessStat}
    (h : RunsOn (FileTree.responder cwd) (ofBackend (look procfs pid)) t es a t') :
    t' = t ∧ a.toOption = statIn t cwd procfs pid := by
  rw [statIn]
  obtain ⟨status, rest, t₁, rfl, hstep, h₁⟩ := h.after_perform
  cases hstep
  rw [FileTree.status_eq] at h₁
  cases hfind : t.find cwd (dirOf procfs pid) with
  | error e =>
      rw [hfind] at h₁
      obtain ⟨-, rfl, rfl⟩ := runsOn_pure.1 h₁
      exact ⟨rfl, rfl⟩
  | ok found =>
      rw [hfind] at h₁
      match found with
      | (_, .file ..) | (_, .link _) =>
          obtain ⟨-, rfl, rfl⟩ := runsOn_pure.1 h₁
          exact ⟨rfl, rfl⟩
      | (home, .directory) =>
          obtain ⟨read, rest, t₁, rfl, hstep, h₂⟩ := h₁.after_perform
          cases hstep
          dsimp only
          cases hread : t.read home "stat" with
          | error e =>
              rw [hread] at h₂
              obtain ⟨-, rfl, rfl⟩ := runsOn_pure.1 h₂
              exact ⟨rfl, rfl⟩
          | ok content =>
              rw [hread] at h₂
              obtain ⟨-, rfl, rfl⟩ := runsOn_pure.1 h₂
              refine ⟨rfl, ?_⟩
              dsimp only
              cases ofBytes? content <;> rfl

end ProcessStat

namespace TargetWatch

/-- `Exited t cwd procfs pid`: there is nothing in a tree that says that a process is running. -/
inductive Exited (t : FileTree) (cwd : Location) (procfs : Path) (pid : Pid) : Prop
  | missing
      (absent : ∀ home, t.find cwd (ProcessStat.dirOf procfs pid) ≠ .ok (home, .directory)) :
      Exited t cwd procfs pid
  | unreadable {home : Location} {e : IoError}
      (found : t.find cwd (ProcessStat.dirOf procfs pid) = .ok (home, .directory))
      (refused : t.read home "stat" = .error e) : Exited t cwd procfs pid
  | malformed {home : Location} {content : Bytes}
      (found : t.find cwd (ProcessStat.dirOf procfs pid) = .ok (home, .directory))
      (read : t.read home "stat" = .ok content)
      (noLine : ∀ s, ¬ ProcessStat.Describes (Blank.trim (Utf8.lossyChars content)) s) :
      Exited t cwd procfs pid
  | ended {home : Location} {content : Bytes} {s : ProcessStat}
      (found : t.find cwd (ProcessStat.dirOf procfs pid) = .ok (home, .directory))
      (read : t.read home "stat" = .ok content)
      (line : ProcessStat.Describes (Blank.trim (Utf8.lossyChars content)) s)
      (state : s.state = 'Z' ∨ s.state = 'X') : Exited t cwd procfs pid

theorem exited_iff : Exited t cwd procfs pid ↔
    (ProcessStat.statIn t cwd procfs pid).any ProcessStat.isRunning = false := by
  constructor
  · intro h
    cases h with
    | missing absent =>
        rw [ProcessStat.statIn_of_missing absent]
        rfl
    | unreadable found refused =>
        rw [ProcessStat.statIn_of_refused found refused]
        rfl
    | malformed found read noLine =>
        rw [ProcessStat.statIn_of_read found read]
        cases hstat : ProcessStat.ofBytes? _ with
        | none => rfl
        | some s => exact absurd (ProcessStat.ofChars?_eq_some.1 hstat) (noLine s)
    | ended found read line state =>
        rw [ProcessStat.statIn_of_read found read, ProcessStat.ofBytes?,
          ProcessStat.ofChars?_eq_some.2 line]
        exact ProcessStat.isRunning_eq_false.2 state
  · intro h
    by_cases hfind : ∃ home, t.find cwd (ProcessStat.dirOf procfs pid) = .ok (home, .directory)
    · obtain ⟨home, hfind⟩ := hfind
      cases hread : t.read home "stat" with
      | error e => exact .unreadable hfind hread
      | ok content =>
          rw [ProcessStat.statIn_of_read hfind hread] at h
          cases hstat : ProcessStat.ofBytes? content with
          | none =>
              refine .malformed hfind hread fun s hline => ?_
              rw [ProcessStat.ofBytes?, ProcessStat.ofChars?_eq_some.2 hline] at hstat
              cases hstat
          | some s =>
              rw [hstat] at h
              exact .ended hfind hread (ProcessStat.ofChars?_eq_some.1 hstat)
                (ProcessStat.isRunning_eq_false.1 h)
    · exact .missing fun home hhome => hfind ⟨home, hhome⟩

theorem runsOn_isAlive {alive : Bool}
    (h : RunsOn (FileTree.responder cwd) (ofBackend (isAlive procfs pid)) t es alive t') :
    t' = t ∧ (alive = false ↔ Exited t cwd procfs pid) := by
  rw [exited_iff]
  rw [isAlive, ofBackend_bind] at h
  obtain ⟨es₁, es₂, found, t₁, rfl, hlook, hrest⟩ := runsOn_bind.1 h
  obtain ⟨rfl, hstat⟩ := ProcessStat.runsOn_look hlook
  rw [← hstat]
  match found with
  | .ok _ | .error _ =>
      obtain ⟨-, rfl, rfl⟩ := runsOn_pure.1 hrest
      exact ⟨rfl, Iff.rfl⟩

theorem runsOn_anyAlive {pids : List Pid} {alive : Bool}
    (h : RunsOn (FileTree.responder cwd) (ofBackend (anyOf (isAlive procfs) pids)) t es alive t') :
    t' = t ∧ (alive = false ↔ ∀ pid ∈ pids, Exited t cwd procfs pid) := by
  induction pids generalizing es with
  | nil =>
      obtain ⟨-, rfl, rfl⟩ := runsOn_pure.1 h
      simp
  | cons pid rest ih =>
      rw [anyOf, ofBackend_bind] at h
      obtain ⟨es₁, es₂, first, t₁, rfl, hfirst, hrest⟩ := runsOn_bind.1 h
      obtain ⟨rfl, hexited⟩ := runsOn_isAlive hfirst
      cases first with
      | true =>
          obtain ⟨-, rfl, rfl⟩ := runsOn_pure.1 hrest
          refine ⟨rfl, nofun, fun hall => hexited.2 (hall pid List.mem_cons_self)⟩
      | false =>
          obtain ⟨rfl, hothers⟩ := ih hrest
          rw [hothers, List.forall_mem_cons]
          exact ⟨rfl, ⟨fun h => ⟨hexited.1 rfl, h⟩, fun h => h.2⟩⟩

/-- Whatever a process calls itself, it counts as exited just if its status is that it is a zombie or
dead. The status is what the system says of it in a line of this form. And processes count as exited
together just if each of them does: there is no directory of it, its status cannot be read or is no
status line, or it says that the process is a zombie or dead. -/
theorem isAlive_of_status (t : FileTree) (cwd : Location) (procfs : Path) :
    (∀ (pid : Pid) (l : StatLine) (ending : String) (home : Location),
      t.find cwd (ProcessStat.dirOf procfs pid) = .ok (home, .directory) →
      (ending = "" ∨ ending = "\n") →
      t.read home "stat" = .ok (l.content ++ Utf8.encode ending) →
      Ensures (FileTree.responder cwd) (ofBackend (isAlive procfs pid)) t fun _ alive t' =>
        t' = t ∧ (alive = false ↔ l.state = 'Z' ∨ l.state = 'X')) ∧
    ∀ pids : List Pid,
      Ensures (FileTree.responder cwd) (ofBackend (anyAlive ⟨procfs, pids⟩)) t fun _ alive t' =>
        t' = t ∧ (alive = false ↔ ∀ pid ∈ pids, Exited t cwd procfs pid) := by
  refine ⟨fun pid l ending home hfind hending hread =>
    ⟨FileTree.exists_runsOn _ t cwd, fun es alive t' h => ?_⟩, fun pids =>
    ⟨FileTree.exists_runsOn _ t cwd, fun es alive t' h => runsOn_anyAlive h⟩⟩
  obtain ⟨rfl, hexited⟩ := runsOn_isAlive h
  refine ⟨rfl, hexited.trans ?_⟩
  rw [exited_iff, ProcessStat.statIn_of_read hfind hread, l.ofBytes?_content hending]
  exact ProcessStat.isRunning_eq_false

/-- A running process with a command that looks like the end of the status line of a zombie. -/
def disguisedLine : StatLine where
  pid := 7
  command := Utf8.encode "a) Z 1 1 (" ++ [0xFF, 0x0A]
  state := 'S'
  numbers := ProcessStat.fields.map fun _ => 1
  more := []
  pid_holds := by decide
  state_letter := by decide
  numbers_hold := List.forall₂_map_right_iff.2 (List.forall₂_same.2 (by decide))

def disguisedTree : FileTree :=
  let home := [Utf8.encode "proc", Utf8.encode "7"]
  ((FileTree.empty.put [Utf8.encode "proc"] .directory).put home .directory).put
    (home ++ [Utf8.encode "stat"]) (.file (disguisedLine.content ++ Utf8.encode "\n") 0o444)

theorem isAlive_of_status_disguised : ∃ es,
    RunsOn (FileTree.responder []) (ofBackend (isAlive "/proc" 7)) disguisedTree es true
      disguisedTree := by
  have hfind : disguisedTree.find [] (ProcessStat.dirOf "/proc" 7) =
      .ok ([Utf8.encode "proc", Utf8.encode "7"], .directory) :=
    FileTree.find_of_get? (by decide) (by decide) (by decide) (by decide) nofun (by decide)
  have hstat : disguisedTree.find [Utf8.encode "proc", Utf8.encode "7"] "stat" =
      .ok ([Utf8.encode "proc", Utf8.encode "7", Utf8.encode "stat"],
        .file (disguisedLine.content ++ Utf8.encode "\n") 0o444) :=
    FileTree.find_of_get? (by decide) (by decide) (by decide) (FileTree.get?_put_self ..) nofun
      (by decide)
  have hread : disguisedTree.read [Utf8.encode "proc", Utf8.encode "7"] "stat" =
      .ok (disguisedLine.content ++ Utf8.encode "\n") := by
    rw [FileTree.read, hstat]
    rfl
  obtain ⟨⟨es, alive, t', hrun⟩, hall⟩ :=
    (isAlive_of_status disguisedTree [] "/proc").1 7 disguisedLine "\n" _ hfind (.inr rfl) hread
  obtain ⟨rfl, hstate⟩ := hall es alive t' hrun
  cases alive with
  | true => exact ⟨es, hrun⟩
  | false => exact absurd (hstate.1 rfl) (by decide)

end TargetWatch

end KernelTrace
