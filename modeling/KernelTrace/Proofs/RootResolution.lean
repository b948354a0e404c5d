import KernelTrace.Mount.Resolution
import KernelTrace.Proofs.ControlFilesSteps
import KernelTrace.Proofs.MountTable

/-!
# Which tracing root is found

Without overrides the tracing root is the well-known place, and no mount table is read. With any of
them it is what the mount table selects: the first native mount, if the table is a text up to there,
and otherwise, if the whole table is a text that lists none, the `tracing` directory of the first
debug file system, if that is a directory. Whatever else is the case, the well-known place is all
that is left.

Finding the root asks only for the content of one file and for directories, so the answers are those
of the tree it started with. That takes the programs out of the question: what they come to is a
function of the tree (`runsOn_ofMountTable`), and what that function selects is settled on the lines
of the table.
-/

namespace KernelTrace

open Program Actions

/-! ## What a table selects -/

namespace MountTable

/-- Whether a line is a text of at least three fields that lists a type at a place. -/
def Lists (line : Bytes) (kind place : String) : Prop :=
  ∃ text device more, Utf8.decode? line = some text ∧
    Blank.fields text = device :: place :: kind :: more

/-- Where a place as it is written in the table is. -/
def placePath (place : String) : Path := ⟨unescape (Utf8.encode place)⟩

/-- Whether a table selects a tracing root, given which paths are directories. -/
inductive Selects (isDirectory : Path → Bool) (sysfs : Option Path) (table : Bytes) :
    TracingRoot → Prop where
  /-- The first native mount, whatever else is listed and whatever follows it. -/
  | native {before after : List Bytes} {line : Bytes} {place : String}
      (lines_eq : lines table = before ++ line :: after)
      (text : ∀ l ∈ before, Utf8.IsText l)
      (first : ∀ l ∈ before, ∀ place, ¬ Lists l tracingKind place)
      (listed : Lists line tracingKind place) :
      Selects isDirectory sysfs table ⟨MountScan.rebase (placePath place) sysfs, .tracefs⟩
  /-- The `tracing` directory of the first debug file system. -/
  | debug {before after : List Bytes} {line : Bytes} {place : String}
      (text : Utf8.IsText table)
      (none : ∀ l ∈ lines table, ∀ place, ¬ Lists l tracingKind place)
      (lines_eq : lines table = before ++ line :: after)
      (first : ∀ l ∈ before, ∀ place, ¬ Lists l debugKind place)
      (listed : Lists line debugKind place)
      (directory : isDirectory (MountScan.rebase ((placePath place).join "tracing") sysfs) = true) :
      Selects isDirectory sysfs table
        ⟨MountScan.rebase ((placePath place).join "tracing") sysfs, .debugfs⟩

variable {isDirectory : Path → Bool} {sysfs : Option Path} {table : Bytes} {root : TracingRoot}

theorem lists_iff {line : Bytes} {kind place : String} :
    Lists line kind place ↔ ∃ r, recordAt? line = some r ∧ r.kind = kind ∧ r.place = place := by
  constructor
  · rintro ⟨text, device, more, hdecode, hfields⟩
    refine ⟨⟨device, place, kind⟩, ?_, rfl, rfl⟩
    rw [recordAt?, hdecode, Option.bind_some]
    exact recordOf?_eq_some.2 ⟨more, hfields⟩
  · rintro ⟨r, hrecord, rfl, rfl⟩
    obtain ⟨text, hdecode, hr⟩ := Option.bind_eq_some_iff.1 hrecord
    obtain ⟨more, hfields⟩ := recordOf?_eq_some.1 hr
    exact ⟨text, r.device, more, hdecode, hfields⟩

theorem passed_iff {l : Bytes} :
    Passed l ↔ Utf8.IsText l ∧ ∀ place, ¬ Lists l tracingKind place := by
  simp only [lists_iff]
  constructor
  · rintro ⟨htext, hother⟩
    refine ⟨htext, ?_⟩
    rintro place ⟨r, hrecord, hkind, -⟩
    exact hother r hrecord hkind
  · rintro ⟨htext, hnone⟩
    exact ⟨htext, fun r hrecord hkind => hnone r.place ⟨r, hrecord, hkind, rfl⟩⟩

theorem debugAt?_eq_some {l : Bytes} {p : Path} :
    debugAt? l = some p ↔ ∃ place, Lists l debugKind place ∧ p = placePath place := by
  simp only [debugAt?, debugPath?, Option.bind_eq_some_iff, Option.ite_none_right_eq_some,
    Option.some.injEq, lists_iff]
  constructor
  · rintro ⟨r, hrecord, hkind, rfl⟩
    exact ⟨r.place, ⟨r, hrecord, hkind, rfl⟩, rfl⟩
  · rintro ⟨-, ⟨r, hrecord, hkind, rfl⟩, rfl⟩
    exact ⟨r, hrecord, hkind, rfl⟩

/-! ## What the scan comes to -/

theorem scan_native {before after : List Bytes} {line : Bytes} {place : String}
    (hlines : lines table = before ++ line :: after) (hbefore : ∀ l ∈ before, Passed l)
    (hlisted : Lists line tracingKind place) :
    scan table = .ok ⟨some (placePath place), before.findSome? debugAt?⟩ := by
  obtain ⟨r, hrecord, hkind, rfl⟩ := lists_iff.1 hlisted
  rw [scan, hlines, scanLines_passed hbefore, scanLines_record hrecord, if_pos hkind,
    Option.none_or]
  rfl

theorem scan_passed (h : ∀ l ∈ lines table, Passed l) :
    scan table = .ok ⟨none, (lines table).findSome? debugAt?⟩ := by
  have hall := scanLines_passed h none []
  rw [List.append_nil, Option.none_or] at hall
  exact hall

theorem scan_notText {before after : List Bytes} {line : Bytes}
    (hlines : lines table = before ++ line :: after) (hbefore : ∀ l ∈ before, Passed l)
    (hline : ¬ Utf8.IsText line) : scan table = .error .notText := by
  rw [scan, hlines, scanLines_passed hbefore, scanLines_notText hline]

/-- What is selected of what a scan has found. -/
def chosen (isDirectory : Path → Bool) (sysfs : Option Path) (scan : MountScan) :
    Option TracingRoot :=
  (scan.select sysfs).run (m := Id) isDirectory

theorem chosen_native (p : Path) (debugfs : Option Path) :
    chosen isDirectory sysfs ⟨some p, debugfs⟩ = some ⟨MountScan.rebase p sysfs, .tracefs⟩ :=
  rfl

theorem chosen_debug (p : Path) :
    chosen isDirectory sysfs ⟨none, some p⟩ =
      if isDirectory (MountScan.rebase (p.join "tracing") sysfs) = true then
        some ⟨MountScan.rebase (p.join "tracing") sysfs, .debugfs⟩
      else none := by
  have hrun : chosen isDirectory sysfs ⟨none, some p⟩ =
      ((if isDirectory (MountScan.rebase (p.join "tracing") sysfs) = true then
        pure (some ⟨MountScan.rebase (p.join "tracing") sysfs, .debugfs⟩)
      else pure none : Program DirectoryTest (Option TracingRoot)).run (m := Id) isDirectory) := rfl
  rw [hrun]
  split <;> rfl

theorem chosen_none : chosen isDirectory sysfs ⟨none, none⟩ = none := rfl

theorem debugAt?_eq_none {l : Bytes} : debugAt? l = none ↔ ∀ place, ¬ Lists l debugKind place := by
  rw [Option.eq_none_iff_forall_ne_some]
  simp only [ne_eq, debugAt?_eq_some]
  exact ⟨fun h place hlisted => h _ ⟨place, hlisted, rfl⟩,
    fun h p ⟨place, hlisted, _⟩ => h place hlisted⟩

/-- What is selected is what the lines of the table select. -/
theorem selects_iff :
    Selects isDirectory sysfs table root ↔
      ∃ found, scan table = .ok found ∧ chosen isDirectory sysfs found = some root := by
  constructor
  · rintro (⟨hlines, htext, hfirst, hlisted⟩ | ⟨htext, hnone, hlines, hfirst, hlisted, hdir⟩)
    · exact ⟨_, scan_native hlines (fun l hl => passed_iff.2 ⟨htext l hl, hfirst l hl⟩) hlisted,
        chosen_native _ _⟩
    · rw [isText_iff_lines] at htext
      refine ⟨_, scan_passed fun l hl => passed_iff.2 ⟨htext l hl, hnone l hl⟩, ?_⟩
      have hfound := List.findSome?_eq_some_iff.2 ⟨_, _, _, hlines,
        debugAt?_eq_some.2 ⟨_, hlisted, rfl⟩, fun l hl => debugAt?_eq_none.2 (hfirst l hl)⟩
      rw [hfound, chosen_debug, if_pos hdir]
  · rintro ⟨found, hscan, hchosen⟩
    -- the scan has come to the end, or it has stopped at a line that it has not passed
    obtain hall | ⟨before, line, after, hlines, hbefore, hline⟩ := passed_or_first (lines table)
    · rw [scan_passed hall] at hscan
      obtain rfl := Except.ok.inj hscan
      cases hfound : (lines table).findSome? debugAt? with
      | none =>
          rw [hfound, chosen_none] at hchosen
          cases hchosen
      | some p =>
          rw [hfound, chosen_debug, Option.ite_none_right_eq_some] at hchosen
          obtain ⟨hdir, hroot⟩ := hchosen
          obtain rfl := Option.some.inj hroot
          obtain ⟨before, line, after, hlines, hat, hfirst⟩ := List.findSome?_eq_some_iff.1 hfound
          obtain ⟨place, hlisted, rfl⟩ := debugAt?_eq_some.1 hat
          exact .debug (isText_iff_lines.2 fun l hl => (hall l hl).isText)
            (fun l hl => (passed_iff.1 (hall l hl)).2) hlines
            (fun l hl => debugAt?_eq_none.1 (hfirst l hl)) hlisted hdir
    · by_cases htext : Utf8.IsText line
      · obtain ⟨place, hlisted⟩ : ∃ place, Lists line tracingKind place :=
          Classical.byContradiction fun hnone =>
            hline (passed_iff.2 ⟨htext, fun place hlisted => hnone ⟨place, hlisted⟩⟩)
        rw [scan_native hlines hbefore hlisted] at hscan
        obtain rfl := Except.ok.inj hscan
        rw [chosen_native] at hchosen
        obtain rfl := Option.some.inj hchosen
        exact .native hlines (fun l hl => (hbefore l hl).isText)
          (fun l hl => (passed_iff.1 (hbefore l hl)).2) hlisted
      · rw [scan_notText hlines hbefore htext] at hscan
        cases hscan

end MountTable

/-! ## What the programs ask for and come to -/

/-- The operations that only look at a path. -/
def FileOp.IsStatus : FileOp → Prop
  | .status _ => True
  | _ => False

namespace TracingRoot

variable {α : Type} {cwd : Location} {t t' : FileTree} {es : List (Event (Actions FileSystem))}
  {o : RootOverrides} {root : TracingRoot}

/-- What was asked for has only looked at the tree `t`, and it is left. -/
structure Looked (t : FileTree) (es : List (Event (Actions FileSystem))) (t' : FileTree) :
    Prop where
  same : t' = t
  status : ∀ e ∈ calls es, e.1.IsStatus

theorem Looked.nil (t : FileTree) : Looked t [] t := ⟨rfl, fun _ he => absurd he List.not_mem_nil⟩

theorem Looked.append {u : FileTree} {fs : List (Event (Actions FileSystem))}
    (h : Looked t es u) (h' : Looked u fs t') : Looked t (es ++ fs) t' := by
  refine ⟨h'.same.trans h.same, fun e he => ?_⟩
  rw [calls_append] at he
  exact (List.mem_append.1 he).elim (h.status e) (h'.status e)

theorem runsOn_isDirectory {p : Path} {a : Bool}
    (h : RunsOn (FileTree.responder cwd) (ofBackend (isDirectory p)) t es a t') :
    Looked t es t' ∧ a = t.isDirectory cwd p := by
  have hprogram : ofBackend (isDirectory p) = backend (β := FileSystem) (.status p) >>=
      fun status => pure (FileStatus.isDirectory status) := rfl
  rw [hprogram] at h
  obtain ⟨status, rest, t₁, rfl, hstep, h₁⟩ := h.after_backend
  change (t.status cwd true p, t) = (status, t₁) at hstep
  cases hstep
  obtain ⟨rfl, rfl, rfl⟩ := runsOn_pure.1 h₁
  refine ⟨⟨rfl, fun e he => ?_⟩, ControlFiles.isDirectory_status t' cwd p⟩
  obtain rfl := List.mem_singleton.1 he
  trivial

theorem runsOn_expand_isDirectory {p : Program DirectoryTest α} {a : α}
    (h : RunsOn (FileTree.responder cwd) (ofBackend (p.expand isDirectory)) t es a t') :
    Looked t es t' ∧ a = p.run (m := Id) (t.isDirectory cwd) := by
  induction p generalizing es t with
  | done b =>
      obtain ⟨rfl, rfl, rfl⟩ := runsOn_pure.1 h
      exact ⟨.nil t', rfl⟩
  | ask q next ih =>
      rw [show (ask q next).expand isDirectory =
        isDirectory q >>= fun answer => (next answer).expand isDirectory from rfl,
        ofBackend_bind] at h
      obtain ⟨es₁, es₂, answer, t₁, rfl, hfirst, hrest⟩ := runsOn_bind.1 h
      obtain ⟨hlooked, rfl⟩ := runsOn_isDirectory hfirst
      obtain ⟨hlooked', rfl⟩ := ih _ hrest
      obtain rfl := hlooked.same
      exact ⟨hlooked.append hlooked', rfl⟩

/-- The place that is assumed when nothing else is known. -/
def assumedIn (isDirectory : Path → Bool) : TracingRoot :=
  ⟨if isDirectory nativePlace then nativePlace
    else if isDirectory debugPlace then debugPlace
    else nativePlace, .assumed⟩

theorem runsOn_wellKnown
    (h : RunsOn (FileTree.responder cwd) (ofBackend wellKnown) t es root t') :
    Looked t es t' ∧ root = assumedIn (t.isDirectory cwd) := by
  rw [wellKnown, ofBackend_bind] at h
  obtain ⟨es₁, es₂, answer, t₁, rfl, hnative, h₁⟩ := runsOn_bind.1 h
  obtain ⟨hlooked, rfl⟩ := runsOn_isDirectory hnative
  obtain rfl := hlooked.same
  rw [assumedIn]
  cases hdir : t₁.isDirectory cwd nativePlace with
  | true =>
      rw [hdir] at h₁
      obtain ⟨rfl, rfl, rfl⟩ := runsOn_pure.1 h₁
      exact ⟨hlooked.append (.nil _), rfl⟩
  | false =>
      rw [hdir, if_neg Bool.false_ne_true, ofBackend_bind] at h₁
      obtain ⟨es₂, es₃, answer, t₂, rfl, hdebug, h₂⟩ := runsOn_bind.1 h₁
      obtain ⟨hlooked', rfl⟩ := runsOn_isDirectory hdebug
      obtain rfl := hlooked'.same
      cases hdir' : t₂.isDirectory cwd debugPlace with
      | true =>
          rw [hdir'] at h₂
          obtain ⟨rfl, rfl, rfl⟩ := runsOn_pure.1 h₂
          exact ⟨hlooked.append (hlooked'.append (.nil _)), rfl⟩
      | false =>
          rw [hdir'] at h₂
          obtain ⟨rfl, rfl, rfl⟩ := runsOn_pure.1 h₂
          exact ⟨hlooked.append (hlooked'.append (.nil _)), rfl⟩

/-- What reading the root off the mount table of a tree comes to. -/
def ofTree (t : FileTree) (cwd : Location) (o : RootOverrides) : Except MountFault TracingRoot :=
  match t.read cwd o.mountTable with
  | .error e => .error (.unreadable o.mountTable e)
  | .ok table =>
    match MountTable.scan table with
    | .error e => .error (.unreadable o.mountTable e)
    | .ok found =>
      match MountTable.chosen (t.isDirectory cwd) o.sysfs found with
      | some root => .ok root
      | none => .error (.notMounted o.mountTable)

/-- The mount table is read first, and after that there is only looking. -/
def ReadsTable (t : FileTree) (cwd : Location) (o : RootOverrides)
    (es : List (Event (Actions FileSystem))) : Prop :=
  ∃ rest, calls es = ⟨.read o.mountTable, t.read cwd o.mountTable⟩ :: rest ∧
    ∀ e ∈ rest, e.1.IsStatus

theorem runsOn_ofMountTable {a : Except MountFault TracingRoot}
    (h : RunsOn (FileTree.responder cwd) (ofBackend (ofMountTable o)) t es a t') :
    t' = t ∧ ReadsTable t cwd o es ∧ a = ofTree t cwd o := by
  rw [ofMountTable, ofBackend_bind] at h
  obtain ⟨content, rest, t₁, rfl, hstep, h₁⟩ := h.after_backend
  change (t.read cwd o.mountTable, t) = (content, t₁) at hstep
  obtain ⟨rfl, rfl⟩ := Prod.mk.inj hstep
  suffices hrest : Looked t rest t' ∧ a = ofTree t cwd o from
    ⟨hrest.1.same, ⟨calls rest, rfl, hrest.1.status⟩, hrest.2⟩
  rw [ofTree]
  cases hread : t.read cwd o.mountTable with
  | error e =>
      rw [hread] at h₁
      obtain ⟨rfl, rfl, rfl⟩ := runsOn_pure.1 h₁
      exact ⟨.nil _, rfl⟩
  | ok table =>
      rw [hread] at h₁
      dsimp only at h₁ ⊢
      cases hscan : MountTable.scan table with
      | error e =>
          rw [hscan] at h₁
          obtain ⟨rfl, rfl, rfl⟩ := runsOn_pure.1 h₁
          exact ⟨.nil _, rfl⟩
      | ok found =>
          rw [hscan] at h₁
          dsimp only at h₁ ⊢
          rw [ofBackend_bind] at h₁
          obtain ⟨es₁, es₂, answer, t₂, rfl, hselect, h₂⟩ := runsOn_bind.1 h₁
          obtain ⟨hlooked, rfl⟩ := runsOn_expand_isDirectory hselect
          rw [← MountTable.chosen] at h₂
          cases hchosen : MountTable.chosen (t.isDirectory cwd) o.sysfs found with
          | none =>
              rw [hchosen] at h₂
              obtain ⟨rfl, rfl, rfl⟩ := runsOn_pure.1 h₂
              exact ⟨hlooked.append (.nil _), rfl⟩
          | some root =>
              rw [hchosen] at h₂
              obtain ⟨rfl, rfl, rfl⟩ := runsOn_pure.1 h₂
              exact ⟨hlooked.append (.nil _), rfl⟩

/-- Whether the mount table of a tree can be read and selects a root. -/
def Selected (t : FileTree) (cwd : Location) (o : RootOverrides) (root : TracingRoot) : Prop :=
  ∃ table, t.read cwd o.mountTable = .ok table ∧
    MountTable.Selects (t.isDirectory cwd) o.sysfs table root

theorem ofTree_eq_ok : ofTree t cwd o = .ok root ↔ Selected t cwd o root := by
  simp only [Selected, MountTable.selects_iff]
  rw [ofTree]
  cases hread : t.read cwd o.mountTable with
  | error e => simp
  | ok table =>
      cases hscan : MountTable.scan table with
      | error e => simp [hscan]
      | ok found =>
          cases hchosen : MountTable.chosen (t.isDirectory cwd) o.sysfs found <;>
            simp [hscan, hchosen]

/-- What finding the tracing root comes to in a tree, and what it asks for. -/
structure Resolved (t : FileTree) (cwd : Location) (o : RootOverrides)
    (es : List (Event (Actions FileSystem))) (root : TracingRoot) : Prop where
  unread : o.isEmpty = true →
    (∀ e ∈ calls es, e.1.IsStatus) ∧ root = assumedIn (t.isDirectory cwd)
  read : o.isEmpty = false → ReadsTable t cwd o es
  selected : o.isEmpty = false → ∀ r, Selected t cwd o r → root = r
  assumed : o.isEmpty = false → (∀ r, ¬ Selected t cwd o r) →
    root = assumedIn (t.isDirectory cwd)

theorem runsOn_resolve (h : RunsOn (FileTree.responder cwd) (resolve o) t es root t') :
    t' = t ∧ Resolved t cwd o es root := by
  rw [resolve] at h
  cases hempty : o.isEmpty with
  | true =>
      rw [hempty, if_pos rfl] at h
      obtain ⟨hlooked, rfl⟩ := runsOn_wellKnown h
      refine ⟨hlooked.same, ⟨fun _ => ⟨hlooked.status, rfl⟩, ?_, ?_, ?_⟩⟩ <;>
        exact fun hfull => absurd (hempty.symm.trans hfull) (by simp)
  | false =>
      rw [hempty, if_neg Bool.false_ne_true] at h
      obtain ⟨es₁, es₂, a, t₁, rfl, htable, h₁⟩ := runsOn_bind.1 h
      obtain ⟨rfl, ⟨rest, hcalls, hrest⟩, rfl⟩ := runsOn_ofMountTable htable
      -- whatever comes after the table has been read only looks
      have hreads : Looked t₁ es₂ t' → ReadsTable t₁ cwd o (es₁ ++ es₂) := fun hlooked => by
        refine ⟨rest ++ calls es₂, by rw [calls_append, hcalls, List.cons_append], fun e he => ?_⟩
        exact (List.mem_append.1 he).elim (hrest e) (hlooked.status e)
      have hunread : ∀ {p : Prop}, o.isEmpty = true → p := fun hfull =>
        absurd (hempty.symm.trans hfull) (by simp)
      cases htree : ofTree t₁ cwd o with
      | ok selected =>
          rw [htree] at h₁
          obtain ⟨es₂, rfl, h₂⟩ := h₁.after_log
          obtain ⟨rfl, rfl, rfl⟩ := runsOn_pure.1 h₂
          refine ⟨rfl, hunread, fun _ => hreads ⟨rfl, fun _ he => nomatch he⟩, fun _ r hr => ?_,
            fun _ hnone => absurd (ofTree_eq_ok.1 htree) (hnone _)⟩
          exact Except.ok.inj (htree.symm.trans (ofTree_eq_ok.2 hr))
      | error fault =>
          rw [htree] at h₁
          obtain ⟨es₂, es₃, root', t₂, rfl, hknown, h₂⟩ := runsOn_bind.1 h₁
          obtain ⟨hlooked, rfl⟩ := runsOn_wellKnown hknown
          obtain ⟨es₃, rfl, h₃⟩ := h₂.after_log
          obtain ⟨rfl, rfl, rfl⟩ := runsOn_pure.1 h₃
          obtain rfl := hlooked.same
          refine ⟨rfl, hunread, fun _ => hreads ⟨rfl, ?_⟩, fun _ r hr => ?_, fun _ _ => rfl⟩
          · rw [calls_append, calls_log, calls_nil, List.append_nil]
            exact hlooked.status
          · cases htree.symm.trans (ofTree_eq_ok.2 hr)

end TracingRoot

end KernelTrace
