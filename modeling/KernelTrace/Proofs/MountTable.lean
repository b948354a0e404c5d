import KernelTrace.Mount.Table
import KernelTrace.Proofs.TextPieces

/-!
# Reading what the kernel has written

A mount table is read back from a text that somebody else has written, and parts of that text are
up to whoever mounts something. The kernel protects the separators: in a field it writes a space, a
tab, a newline and a backslash as a backslash and three octal digits. Undoing that gives the field
back byte for byte (`MountTable.unescape_escape`).

The fields of a line are cut at every blank of Unicode, though, and of those the kernel protects
three. So a line is read as it was written exactly if no other blank is in its first three fields
(`MountTable.recordOf?_line`), and a table of such lines gives what it should
(`MountTable.scan_written`). With another blank in its mount point, a file system of any type can
pass for the tracing one.
-/

namespace KernelTrace

/-! ## What the kernel writes -/

/-- What the kernel lists as one line. -/
structure Mount where
  device : String
  place : String
  kind : String
  options : String
  device_ne : device ≠ ""
  place_ne : place ≠ ""
  kind_ne : kind ≠ ""

namespace Mount

/-- A character of a field as the kernel writes it. -/
def escapeChar : Char → List Char
  | ' ' => ['\\', '0', '4', '0']
  | '\t' => ['\\', '0', '1', '1']
  | '\n' => ['\\', '0', '1', '2']
  | '\\' => ['\\', '1', '3', '4']
  | c => [c]

def escape (field : String) : String := .ofList (field.toList.flatMap escapeChar)

/-- The line of a mount. The two numbers at its end are always there and have no meaning. -/
def line (m : Mount) : String :=
  escape m.device ++ " " ++ escape m.place ++ " " ++ escape m.kind ++ " " ++ escape m.options
    ++ " 0 0"

def table (ms : List Mount) : Bytes :=
  ms.flatMap fun m => Utf8.encode m.line ++ [MountTable.newline]

/-- What reading the line of a mount should give. -/
def record (m : Mount) : MountRecord := ⟨escape m.device, escape m.place, escape m.kind⟩

def path (m : Mount) : Path := .ofString m.place

/-- The mounts up to the first tracing file system. -/
def consulted : List Mount → List Mount
  | [] => []
  | m :: ms => if m.kind = MountTable.tracingKind then [m] else m :: consulted ms

/-- What scanning the table of some mounts should give. -/
def wanted (ms : List Mount) : MountScan where
  tracefs := (ms.find? (·.kind = MountTable.tracingKind)).map path
  debugfs := ((consulted ms).find? (·.kind = MountTable.debugKind)).map path

/-- Whether every blank of a field is one that the kernel writes as an escape. -/
def BlanksEscaped (field : String) : Prop :=
  ∀ c ∈ field.toList, Blank.isBlank c = true → c = ' ' ∨ c = '\t' ∨ c = '\n'

instance (field : String) : Decidable (BlanksEscaped field) :=
  List.decidableBAll _ field.toList

/-- Whether the fields that are looked at have no blank but those that are escaped. -/
structure Legible (m : Mount) : Prop where
  device : BlanksEscaped m.device
  place : BlanksEscaped m.place
  kind : BlanksEscaped m.kind

instance (m : Mount) : Decidable m.Legible :=
  decidable_of_iff (BlanksEscaped m.device ∧ BlanksEscaped m.place ∧ BlanksEscaped m.kind)
    ⟨fun ⟨hdevice, hplace, hkind⟩ => ⟨hdevice, hplace, hkind⟩,
      fun h => ⟨h.device, h.place, h.kind⟩⟩

/-! ## Escapes and separators -/

theorem isBlank_escapeChar {c : Char} :
    (∀ c' ∈ escapeChar c, Blank.isBlank c' = false) ↔
      (Blank.isBlank c = true → c = ' ' ∨ c = '\t' ∨ c = '\n') := by
  unfold escapeChar
  split
  · simp [Blank.isBlank]
  · simp [Blank.isBlank]
  · simp [Blank.isBlank]
  · simp [Blank.isBlank]
  · next h₁ h₂ h₃ h₄ =>
      rw [List.forall_mem_singleton, or_iff_right h₁, or_iff_right h₂, ← Bool.not_eq_true]
      exact ⟨fun h hb => absurd hb h, fun h hb => h₃ (h hb)⟩

theorem newline_notMem_escapeChar (c : Char) : '\n' ∉ escapeChar c := by
  unfold escapeChar
  split
  · decide
  · decide
  · decide
  · decide
  · next h₁ h₂ h₃ h₄ => exact fun hmem => h₃ (List.mem_singleton.1 hmem).symm

theorem escapeChar_ne_nil (c : Char) : escapeChar c ≠ [] := by
  unfold escapeChar
  split <;> exact List.cons_ne_nil _ _

variable {field : String}

theorem toList_escape (field : String) : (escape field).toList = field.toList.flatMap escapeChar :=
  String.toList_ofList

theorem blanksEscaped_iff :
    BlanksEscaped field ↔ ∀ c ∈ (escape field).toList, Blank.isBlank c = false := by
  simp only [BlanksEscaped, toList_escape, List.mem_flatMap, ← isBlank_escapeChar]
  exact ⟨fun h c ⟨d, hd, hc⟩ => h d hd c hc, fun h d hd c hc => h c ⟨d, hd, hc⟩⟩

theorem escape_ne (h : field ≠ "") : (escape field).toList ≠ [] := by
  rw [toList_escape]
  intro hnil
  rw [List.flatMap_eq_nil_iff] at hnil
  obtain ⟨c, hc⟩ := List.exists_mem_of_ne_nil field.toList (mt String.toList_eq_nil_iff.1 h)
  exact escapeChar_ne_nil c (hnil c hc)

theorem newline_notMem_escape (field : String) : '\n' ∉ (escape field).toList := by
  rw [toList_escape, List.mem_flatMap]
  rintro ⟨c, -, hc⟩
  exact newline_notMem_escapeChar c hc

theorem toList_line (m : Mount) : m.line.toList = (escape m.device).toList ++ ' ' ::
    ((escape m.place).toList ++ ' ' :: ((escape m.kind).toList ++ ' ' ::
      ((escape m.options).toList ++ " 0 0".toList))) := by
  simp [line]

theorem newline_notMem_line (m : Mount) : '\n' ∉ m.line.toList := by
  rw [toList_line]
  simp [newline_notMem_escape]

end Mount

namespace MountTable

open Mount

/-! ## Undoing the escapes -/

theorem unescape_cons {b : UInt8} (hb : b ≠ 0x5C) (rest : Bytes) :
    unescape (b :: rest) = b :: unescape rest := by
  match rest with
  | [] | [_] | [_, _] => rfl
  | _ :: _ :: _ :: _ => rw [unescape, escaped?, if_neg hb]

theorem unescape_append {bs : Bytes} (h : 0x5C ∉ bs) (rest : Bytes) :
    unescape (bs ++ rest) = bs ++ unescape rest := by
  induction bs with
  | nil => rfl
  | cons b bs ih =>
      have hb : b ≠ 0x5C := fun heq => h (heq ▸ List.mem_cons_self)
      rw [List.cons_append, unescape_cons hb, ih fun hmem => h (List.mem_cons_of_mem b hmem),
        List.cons_append]

theorem unescape_escapeChar (c : Char) (rest : Bytes) :
    unescape ((escapeChar c).flatMap String.utf8EncodeChar ++ rest) =
      String.utf8EncodeChar c ++ unescape rest := by
  unfold escapeChar
  split
  · rfl
  · rfl
  · rfl
  · rfl
  · next h₁ h₂ h₃ h₄ =>
      rw [List.flatMap_singleton]
      exact unescape_append (Utf8.notMem_utf8EncodeChar (a := '\\') (by decide) h₄) rest

/-- Undoing the escapes of a field gives the field, byte for byte. -/
theorem unescape_escape (field : String) :
    unescape (Utf8.encode (escape field)) = Utf8.encode field := by
  -- character by character, each with whatever follows it
  have hchars : ∀ l : List Char, unescape ((l.flatMap escapeChar).flatMap String.utf8EncodeChar) =
      l.flatMap String.utf8EncodeChar := by
    intro l
    induction l with
    | nil => rfl
    | cons c l ih =>
        rw [List.flatMap_cons, List.flatMap_append, unescape_escapeChar, ih, List.flatMap_cons]
  rw [escape, Utf8.encode_ofList, hchars, ← Utf8.encode_eq_flatMap]

theorem escape_injective {field field' : String} (h : escape field = escape field') :
    field = field' := by
  have hbytes := congrArg (fun s => unescape (Utf8.encode s)) h
  simp only [unescape_escape] at hbytes
  exact Utf8.encode_injective hbytes

/-- The names of types have nothing in them to escape. -/
theorem kind_record (m : Mount) {kind : String} (hkind : escape kind = kind) :
    m.record.kind = kind ↔ m.kind = kind :=
  ⟨fun h => escape_injective (h.trans hkind.symm), fun h => (congrArg escape h).trans hkind⟩

theorem path_record (m : Mount) : MountRecord.path m.record = m.path :=
  congrArg Path.mk (unescape_escape m.place)

/-! ## Lines -/

theorem recordOf?_eq_some {text : String} {r : MountRecord} :
    recordOf? text = some r ↔
      ∃ more, Blank.fields text = r.device :: r.place :: r.kind :: more := by
  unfold recordOf?
  split
  · next device place kind more heq =>
      rw [heq, Option.some.injEq]
      constructor
      · rintro rfl
        exact ⟨more, rfl⟩
      · rintro ⟨more', hfields⟩
        cases hfields
        rfl
  · next hshort =>
      refine ⟨fun h => (nomatch h), ?_⟩
      rintro ⟨more, hfields⟩
      exact absurd hfields (hshort _ _ _ _)

/-- The line of a mount is read as it was written exactly if its fields have no blanks but those
that are escaped. -/
theorem recordOf?_line (m : Mount) : recordOf? m.line = some m.record ↔ m.Legible := by
  constructor
  · intro h
    obtain ⟨more, hfields⟩ := recordOf?_eq_some.1 h
    -- no field that was cut out of a line has a blank in it
    have hblank : ∀ {field : String}, escape field ∈ Blank.fields m.line → BlanksEscaped field := by
      intro field hmem
      obtain ⟨f, hf, heq⟩ := List.mem_map.1 hmem
      rw [blanksEscaped_iff, ← heq, String.toList_ofList]
      exact Blank.isBlank_of_mem_fieldsOf hf
    rw [hfields] at hblank
    exact ⟨hblank (by simp [record]), hblank (by simp [record]), hblank (by simp [record])⟩
  · rintro ⟨hdevice, hplace, hkind⟩
    -- what is escaped to the end is cut off where it was put, at the space after it
    have hfield : ∀ {field : String}, field ≠ "" → BlanksEscaped field → ∀ rest,
        Blank.fieldsOf ((escape field).toList ++ ' ' :: rest) =
          (escape field).toList :: Blank.fieldsOf rest := fun hne hescaped rest =>
      Blank.fieldsOf_append (escape_ne hne) (blanksEscaped_iff.1 hescaped) (by decide) rest
    have hfields : Blank.fieldsOf m.line.toList = (escape m.device).toList ::
        (escape m.place).toList :: (escape m.kind).toList ::
          Blank.fieldsOf ((escape m.options).toList ++ " 0 0".toList) := by
      rw [toList_line, hfield m.device_ne hdevice, hfield m.place_ne hplace,
        hfield m.kind_ne hkind]
    refine recordOf?_eq_some.2
      ⟨(Blank.fieldsOf ((escape m.options).toList ++ " 0 0".toList)).map String.ofList, ?_⟩
    rw [Blank.fields, hfields, List.map_cons, List.map_cons, List.map_cons, String.ofList_toList,
      String.ofList_toList, String.ofList_toList]
    rfl

theorem lines_cons {l : Bytes} (h : newline ∉ l) (rest : Bytes) :
    lines (l ++ newline :: rest) = l :: lines rest := by
  have hne := pieces_ne_nil newline rest
  simp only [lines, pieces_append, pieces_of_notMem h, List.singleton_append,
    List.getLast?_cons_of_ne_nil hne, List.dropLast_cons_of_ne_nil hne]
  split <;> rfl

theorem lines_table (ms : List Mount) :
    lines (table ms) = ms.map fun m => Utf8.encode m.line := by
  induction ms with
  | nil => rfl
  | cons m ms ih =>
      have hline : newline ∉ Utf8.encode m.line := fun hmem =>
        newline_notMem_line m ((Utf8.mem_encode_ascii (a := '\n') (by decide)).1 hmem)
      rw [table, List.flatMap_cons, List.append_assoc, List.singleton_append, lines_cons hline,
        List.map_cons, ← ih]
      rfl

/-! ## The scan -/

/-- The mount that a line of bytes describes, if it is a text that describes one. -/
def recordAt? (line : Bytes) : Option MountRecord := (Utf8.decode? line).bind recordOf?

/-- Where a debug file system is mounted, if that is what is mounted. -/
def debugPath? (r : MountRecord) : Option Path :=
  if r.kind = debugKind then some (MountRecord.path r) else none

theorem scanLines_record {l : Bytes} {r : MountRecord} (h : recordAt? l = some r)
    (debugfs : Option Path) (rest : List Bytes) :
    scanLines debugfs (l :: rest) =
      if r.kind = tracingKind then .ok ⟨some (MountRecord.path r), debugfs⟩
      else scanLines (debugfs.or (debugPath? r)) rest := by
  obtain ⟨text, hdecode, hrecord⟩ := Option.bind_eq_some_iff.1 h
  simp only [scanLines, hdecode, hrecord, debugPath?]
  split
  · rfl
  · cases debugfs with
    | none => by_cases hdebug : r.kind = debugKind <;> simp [hdebug]
    | some p => simp

theorem scanLines_none {l : Bytes} (htext : Utf8.IsText l) (h : recordAt? l = none)
    (debugfs : Option Path) (rest : List Bytes) :
    scanLines debugfs (l :: rest) = scanLines debugfs rest := by
  obtain ⟨text, hdecode⟩ := htext
  rw [recordAt?, hdecode, Option.bind_some] at h
  simp only [scanLines, hdecode, h]

theorem scanLines_notText {l : Bytes} (h : ¬ Utf8.IsText l) (debugfs : Option Path)
    (rest : List Bytes) : scanLines debugfs (l :: rest) = .error .notText := by
  have hdecode : Utf8.decode? l = none :=
    Option.eq_none_iff_forall_ne_some.2 fun text heq => h ⟨text, heq⟩
  simp only [scanLines, hdecode]

/-- Whether the scan goes on after a line: a text that lists no tracing file system. -/
structure Passed (l : Bytes) : Prop where
  isText : Utf8.IsText l
  other : ∀ r, recordAt? l = some r → r.kind ≠ tracingKind

/-- Where a line lists a debug file system. -/
def debugAt? (l : Bytes) : Option Path := (recordAt? l).bind debugPath?

/-- Of the lines that the scan has passed, the first debug file system is left. -/
theorem scanLines_passed {before : List Bytes} (h : ∀ l ∈ before, Passed l)
    (debugfs : Option Path) (after : List Bytes) :
    scanLines debugfs (before ++ after) =
      scanLines (debugfs.or (before.findSome? debugAt?)) after := by
  induction before generalizing debugfs with
  | nil => rw [List.nil_append, List.findSome?_nil, Option.or_none]
  | cons l before ih =>
      have hl := h l List.mem_cons_self
      have hrest := ih fun l' hl' => h l' (List.mem_cons_of_mem l hl')
      rw [List.cons_append, List.findSome?_cons]
      cases hrecord : recordAt? l with
      | none =>
          rw [scanLines_none hl.isText hrecord, hrest, debugAt?, hrecord]
          rfl
      | some r =>
          rw [scanLines_record hrecord, if_neg (hl.other r hrecord), hrest, debugAt?, hrecord,
            Option.bind_some, Option.or_assoc]
          cases debugPath? r <;> rfl

theorem passed_or_first (ls : List Bytes) :
    (∀ l ∈ ls, Passed l) ∨
      ∃ before l after, ls = before ++ l :: after ∧ (∀ l' ∈ before, Passed l') ∧ ¬ Passed l := by
  induction ls with
  | nil => exact Or.inl fun l hl => absurd hl List.not_mem_nil
  | cons l ls ih =>
      by_cases hl : Passed l
      · obtain hall | ⟨before, l', after, rfl, hbefore, hl'⟩ := ih
        · exact Or.inl (List.forall_mem_cons.2 ⟨hl, hall⟩)
        · exact Or.inr ⟨l :: before, l', after, rfl, List.forall_mem_cons.2 ⟨hl, hbefore⟩, hl'⟩
      · exact Or.inr ⟨[], l, ls, rfl, fun l' hl' => absurd hl' List.not_mem_nil, hl⟩

theorem isText_iff_lines {table : Bytes} :
    Utf8.IsText table ↔ ∀ l ∈ lines table, Utf8.IsText l := by
  rw [Utf8.isText_iff_pieces (show '\n'.toNat < 0x80 by decide)]
  change (∀ p ∈ pieces newline table, Utf8.IsText p) ↔ _
  simp only [lines]
  split
  · next hlast =>
      obtain ⟨ps, hps⟩ := List.getLast?_eq_some_iff.1 hlast
      have hempty : Utf8.IsText [] := ⟨"", rfl⟩
      rw [hps, List.dropLast_concat, List.forall_mem_append, List.forall_mem_singleton]
      exact and_iff_left hempty
  · exact Iff.rfl

/-! ## Tables that the kernel has written -/

theorem wanted_cons_native {m : Mount} (h : m.kind = tracingKind) (ms : List Mount) :
    wanted (m :: ms) = ⟨some m.path, none⟩ := by
  have hdebug : m.kind ≠ debugKind := h ▸ by decide
  simp only [wanted, consulted, if_pos h, List.find?_cons, decide_eq_true h,
    decide_eq_false hdebug]
  rfl

theorem wanted_cons_other {m : Mount} (h : m.kind ≠ tracingKind) (ms : List Mount) :
    wanted (m :: ms) = ⟨(wanted ms).tracefs,
      (if m.kind = debugKind then some m.path else none).or (wanted ms).debugfs⟩ := by
  simp only [wanted, consulted, if_neg h, List.find?_cons, decide_eq_false h]
  by_cases hdebug : m.kind = debugKind
  · rw [decide_eq_true hdebug, if_pos hdebug]
    rfl
  · rw [decide_eq_false hdebug, if_neg hdebug]
    rfl

theorem recordAt?_line {m : Mount} (h : m.Legible) :
    recordAt? (Utf8.encode m.line) = some m.record := by
  rw [recordAt?, Utf8.decode?_encode, Option.bind_some, recordOf?_line]
  exact h

theorem debugPath?_record (m : Mount) :
    debugPath? m.record = if m.kind = debugKind then some m.path else none := by
  simp only [debugPath?, path_record, kind_record m (show escape debugKind = debugKind by decide)]

theorem scanLines_table {ms : List Mount} (h : ∀ m ∈ consulted ms, m.Legible)
    (debugfs : Option Path) :
    scanLines debugfs (ms.map fun m => Utf8.encode m.line) =
      .ok ⟨(wanted ms).tracefs, debugfs.or (wanted ms).debugfs⟩ := by
  induction ms generalizing debugfs with
  | nil => simp [scanLines, wanted, consulted]
  | cons m ms ih =>
      rw [consulted] at h
      have hm : m.Legible := h m (by split <;> exact List.mem_cons_self)
      rw [List.map_cons, scanLines_record (recordAt?_line hm)]
      simp only [path_record, kind_record m (show escape tracingKind = tracingKind by decide)]
      by_cases hkind : m.kind = tracingKind
      · rw [if_pos hkind, wanted_cons_native hkind, Option.or_none]
      · rw [if_neg hkind] at h ⊢
        rw [ih fun m' hm' => h m' (List.mem_cons_of_mem m hm'), wanted_cons_other hkind,
          debugPath?_record, Option.or_assoc]

/-- The line of a mount is read as it was written exactly if it is legible, and a table that is
legible as far as it is looked at gives the mount points of the first tracing file system and of the
first debug file system before it. -/
theorem scan_written (ms : List Mount) :
    (∀ m ∈ ms, recordOf? m.line = some m.record ↔ m.Legible) ∧
      ((∀ m ∈ consulted ms, m.Legible) → scan (table ms) = .ok (wanted ms)) := by
  refine ⟨fun m _ => recordOf?_line m, fun h => ?_⟩
  rw [scan, lines_table, scanLines_table h, Option.none_or]

/-- Two file systems in places with blanks and a backslash in their names. -/
theorem scan_written_escapes :
    let debug : Mount :=
      ⟨"debugfs", "/mnt/a tracefs\t\\040", "debugfs", "rw", by decide, by decide, by decide⟩
    let native : Mount :=
      ⟨"tracefs", "/mnt/\n tracing", "tracefs", "rw", by decide, by decide, by decide⟩
    (∀ m ∈ consulted [debug, native], m.Legible) ∧
      scan (table [debug, native]) = .ok ⟨some native.path, some debug.path⟩ := by
  intro debug native
  have hlegible : ∀ m ∈ consulted [debug, native], m.Legible := by decide +kernel
  exact ⟨hlegible, (scan_written [debug, native]).2 hlegible⟩

/-- A file system of another type whose mount point has a no-break space in it passes for a tracing
file system. -/
theorem scan_written_noBreakSpace :
    let user : Mount :=
      ⟨"x", "/mnt/a\u00a0tracefs", "fuse", "rw", by decide, by decide, by decide⟩
    user.kind ≠ tracingKind ∧ scan (table [user]) = .ok ⟨some "/mnt/a", none⟩ ∧
      scan (table [user]) ≠ .ok (wanted [user]) := by
  intro user
  have hrecord : recordAt? (Utf8.encode user.line) = some ⟨"x", "/mnt/a", "tracefs"⟩ := by
    decide +kernel
  have hscan : scan (table [user]) = .ok ⟨some "/mnt/a", none⟩ := by
    rw [scan, lines_table, List.map_singleton, scanLines_record hrecord]
    exact if_pos rfl
  refine ⟨by decide, hscan, ?_⟩
  rw [hscan]
  exact fun h => absurd (Except.ok.inj h) (by decide)

end MountTable

end KernelTrace
