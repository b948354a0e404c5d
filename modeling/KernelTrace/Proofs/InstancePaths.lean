import KernelTrace.Proofs.FileFrames
import KernelTrace.Proofs.PlainBinding
import KernelTrace.Proofs.SessionFiles

/-!
# One directory for each instance

Nothing but their names keeps two instances apart: both are directories in one, and everything that
is done to an instance is done to its directory or to files that are reached from there by names. So
it is a matter of what a name can be. A name that is accepted is one component that is neither `.`
nor `..`, and joining it adds just that component, however the tracing root is written
(`Path.components_join`). Then no path starts with the directories of two instances, and without
links no file is reached from both (`Path.apart_join`).
-/

namespace KernelTrace

open Program Actions ControlFiles

/-! ## What a name can be -/

/-- The characters of names: those of ASCII words, and three others. -/
def IsNameChar (c : Char) : Prop :=
  ('a' ≤ c ∧ c ≤ 'z') ∨ ('A' ≤ c ∧ c ≤ 'Z') ∨ ('0' ≤ c ∧ c ≤ '9') ∨ c = '_' ∨ c = '-' ∨ c = '.'

/-- What an instance can be called. -/
structure CanName (s : String) : Prop where
  nonempty : 1 ≤ (Utf8.encode s).length
  short : (Utf8.encode s).length ≤ 16
  characters : ∀ c ∈ s.toList, IsNameChar c
  notHere : s ≠ "."
  notUp : s ≠ ".."

theorem isInstanceNameChar_iff {c : Char} : isInstanceNameChar c = true ↔ IsNameChar c := by
  have hupper : c.isUpper = decide ('A' ≤ c ∧ c ≤ 'Z') := rfl
  have hlower : c.isLower = (decide ('a' ≤ c) && decide (c ≤ 'z')) := rfl
  have hdigit : c.isDigit = (decide ('0' ≤ c) && decide (c ≤ '9')) := rfl
  have hword : c.isAlphanum = (c.isUpper || c.isLower || c.isDigit) := rfl
  simp only [isInstanceNameChar, hword, hupper, hlower, hdigit, Bool.or_eq_true, Bool.and_eq_true,
    decide_eq_true_eq]
  rw [IsNameChar]
  grind

theorem canName_iff {s : String} : CanName s ↔ instanceNameFault? s = none := by
  have hempty : 1 ≤ (Utf8.encode s).length ↔ s ≠ "" := by
    rw [Nat.one_le_iff_ne_zero, Ne, List.length_eq_zero_iff]
    exact not_congr ⟨fun h => Utf8.encode_injective (b := "") h, fun h => h ▸ rfl⟩
  rw [instanceNameFault?_eq_none]
  constructor
  · rintro ⟨hne, hshort, hchars, hhere, hup⟩
    exact ⟨hempty.1 hne, hshort, hhere, hup, fun c hc => isInstanceNameChar_iff.2 (hchars c hc)⟩
  · rintro ⟨hne, hshort, hhere, hup, hchars⟩
    exact ⟨hempty.2 hne, hshort, fun c hc => isInstanceNameChar_iff.1 (hchars c hc), hhere, hup⟩

theorem InstanceName.parse_eq_ok {s : String} {n : InstanceName} :
    parse s = .ok n ↔ n.text = s := by
  constructor
  · intro h
    unfold parse at h
    split at h <;> cases h
    rfl
  · rintro rfl
    exact parse_text n

theorem InstanceName.exists_parse_iff {s : String} : (∃ n, parse s = .ok n) ↔ CanName s := by
  simp only [parse_eq_ok, canName_iff]
  constructor
  · rintro ⟨n, rfl⟩
    exact n.valid
  · exact fun h => ⟨⟨s, h⟩, rfl⟩

/-! ## A name in a directory -/

namespace Path

theorem pieces_join_of_getLast? {m n : Bytes} {q : Path} (hn : IsName n)
    (hlast : (pieces q.bytes).getLast? = some m) (hm : m ≠ []) :
    pieces (q.join ⟨n⟩).bytes = pieces q.bytes ++ [n] := by
  obtain ⟨hq, -⟩ | ⟨init, hq, -⟩ | ⟨-, heq⟩ := bytes_join_relative (p := q) hn.isAbsolute
  · rw [hq] at hlast
    exact absurd (Option.some.inj hlast).symm hm
  · have hend : pieces q.bytes = pieces init ++ [[]] := by
      rw [hq]
      exact pieces_append init []
    rw [hend, List.getLast?_concat] at hlast
    exact absurd (Option.some.inj hlast).symm hm
  · rw [heq]
    exact (pieces_append q.bytes n).trans (congrArg _ (pieces_of_notMem hn.2.1))

theorem dropWhile_reverse_drop {m : Bytes} {ps : List Bytes} (hlast : ps.getLast? = some m)
    (hm : isVoid m = false) (k : Nat) :
    (ps.drop k).reverse.dropWhile isVoid = (ps.drop k).reverse := by
  cases hback : (ps.drop k).reverse with
  | nil => rfl
  | cons l rest =>
      have hl : (ps.drop k).getLast? = some l := by
        rw [← List.head?_reverse, hback]
        rfl
      rw [List.getLast?_drop, hlast] at hl
      split at hl
      · cases hl
      · obtain rfl := Option.some.inj hl
        exact List.dropWhile_cons_of_neg (by simp [hm])

/-- Taking the last name off a path gives the directory that it was joined to, if that ends in
something. -/
theorem parent?_join {m n : Bytes} {q : Path} (hn : IsName n)
    (hlast : (pieces q.bytes).getLast? = some m) (hm : isVoid m = false) :
    (q.join ⟨n⟩).parent? = some q := by
  have hne : m ≠ [] := fun hnil => by simp [hnil, isVoid] at hm
  have hvoid : isVoid n = false := by simp [isVoid, hn.1, hn.2.2.1]
  have hcomponents : (q.join ⟨n⟩).components.getLast? = some (.name n) := by
    rw [components_join hn, List.getLast?_concat]
  have hkept : ∀ lead ≤ 1, (pieces q.bytes ++ [n]).take lead ++
      (((((pieces q.bytes ++ [n]).drop lead).reverse.dropWhile isVoid).drop 1).dropWhile
        isVoid).reverse = pieces q.bytes := by
    intro lead hlead
    have hlen : lead ≤ (pieces q.bytes).length :=
      Nat.le_trans hlead (List.length_pos_iff.2 (pieces_ne_nil separator q.bytes))
    rw [List.take_append_of_le_length hlen, List.drop_append_of_le_length hlen, List.reverse_append,
      List.reverse_singleton, List.singleton_append, List.dropWhile_cons_of_neg (by simp [hvoid]),
      List.drop_succ_cons, List.drop_zero, dropWhile_reverse_drop hlast hm, List.reverse_reverse,
      List.take_append_drop]
  have hwhole : pieces q.bytes ≠ [[]] := by
    intro heq
    rw [heq] at hlast
    exact hne (Option.some.inj hlast).symm
  rw [parent?, hcomponents, pieces_join_of_getLast? hn hlast hne]
  dsimp only
  rw [hkept _ (by split <;> decide), if_neg hwhole]
  exact congrArg (fun bytes => some (Path.mk bytes)) (intercalate_pieces separator q.bytes)

/-- `EntryOf dir p n`: the path is that of the name in the directory. -/
structure EntryOf (dir p : Path) (n : Bytes) : Prop where
  parent : p.parent? = some dir
  fileName : p.fileName? = some n
  components : p.components = dir.components ++ [.name n]

theorem entryOf_join {m n : Bytes} {q : Path} (hm : IsName m) (hn : IsName n) :
    EntryOf (q.join ⟨m⟩) ((q.join ⟨m⟩).join ⟨n⟩) n := by
  have hvoid : isVoid m = false := by simp [isVoid, hm.1, hm.2.2.1]
  refine ⟨parent?_join hn (getLast?_pieces_join hm q) hvoid, ?_, components_join hn _⟩
  rw [fileName?, components_join hn, List.getLast?_concat]

/-- Two directories that have nothing in common: neither begins with the other, no path leads from
both of them, and without links no file is reached from both. -/
structure Apart (p q : Path) : Prop where
  ne : p ≠ q
  left : p.startsWith q = false
  right : q.startsWith p = false
  below : ∀ r r', p.IsAbove r → q.IsAbove r' → r.components ≠ r'.components
  files : ∀ {t : FileTree} {cwd : Location} {r r' : Path} {x y : Location × Entry}, t.NoLinks →
    p.IsAbove r → q.IsAbove r' → t.find cwd r = .ok x → t.find cwd r' = .ok y → x.1 ≠ y.1

/-- Two names lead apart. -/
theorem apart_join {m n : Bytes} {dir : Path} (hm : IsName m) (hn : IsName n) (h : m ≠ n) :
    Apart (dir.join ⟨m⟩) (dir.join ⟨n⟩) := by
  have hbelow : ∀ {k : Bytes} {r : Path}, IsName k → (dir.join ⟨k⟩).IsAbove r →
      ∃ more, r.components = dir.components ++ .name k :: more := by
    rintro k r hk ⟨names, hnames, rfl⟩
    exact ⟨_, by rw [components_joinNames hnames, components_join hk, List.append_assoc]; rfl⟩
  have happart : ∀ r r', (dir.join ⟨m⟩).IsAbove r → (dir.join ⟨n⟩).IsAbove r' →
      r.components ≠ r'.components := by
    intro r r' hr hr' heq
    obtain ⟨more, hmore⟩ := hbelow hm hr
    obtain ⟨more', hmore'⟩ := hbelow hn hr'
    rw [hmore, hmore'] at heq
    exact h (Component.name.inj (List.cons.inj (List.append_cancel_left heq)).1)
  have hstarts : ∀ {k l : Bytes}, IsName k → IsName l → k ≠ l →
      (dir.join ⟨k⟩).startsWith (dir.join ⟨l⟩) = false := by
    intro k l hk hl hne
    rw [startsWith, ← Bool.not_eq_true, List.isPrefixOf_iff_prefix, components_join hk,
      components_join hl, List.prefix_append_right_inj, List.cons_prefix_cons]
    rintro ⟨hname, -⟩
    exact hne (Component.name.inj hname).symm
  refine ⟨?_, hstarts hm hn h, hstarts hn hm h.symm, happart, ?_⟩
  · exact fun heq => happart _ _ (isAbove_self _) (heq ▸ isAbove_self _) rfl
  · rintro t cwd r r' ⟨x, e⟩ ⟨y, e'⟩ ht hr hr' hx hy (rfl : x = y)
    have hplace : ∀ {p r : Path} {e : Entry}, p.IsAbove r → t.find cwd r = .ok (x, e) →
        FileTree.place cwd p <+: x := by
      intro p r e hr hfind
      rw [FileTree.eq_place_of_find ht hfind]
      exact FileTree.prefix_place hr cwd
    exact h (FileTree.eq_of_prefix_place hm hn (hplace hr hx) (hplace hr' hy))

end Path

/-! ## What is done to an instance -/

/-- The path that an operation starts from. -/
def FileOp.path : FileOp → Path
  | makeDir p | removeDir p | overwrite p _ | read p | readIn _ p | list p | status p
  | linkStatus p => p

namespace ControlFiles

/-- Operations on the files at paths of which `P` holds. -/
def Uses (P : Path → Prop) : Action FileSystem → Prop
  | .backend op => P op.path
  | .log _ | .wait .. => True
  | _ => False

/-- Calls that name an instance, or were given it. What events they switch are names in the
directory of the events. -/
inductive Addresses (root : TracingRoot) (name : InstanceName) : Call → Prop where
  | create : Addresses root name (.createInstance name)
  | find : Addresses root name (.findInstance name)
  | destroy : Addresses root name (.destroyInstance name.text)
  | set {i : Instance} {s : Setting} (dir : i.dir = root.instanceDir name.text)
      (named : ∀ chosen on, s = .events chosen on → chosen.IsNamed) :
      Addresses root name (.set i s)

theorem Rewrites.uses {P : Path → Prop} {op : Action FileSystem} (h : Rewrites P op) :
    Uses P op := by
  match op with
  | .backend (.overwrite ..) => exact h
  | .log _ | .wait .. => trivial

/-- Whatever is done to an instance is done to its directory, or below it. -/
theorem answer_uses {root : TracingRoot} {name : InstanceName} {c : Call}
    (h : Addresses root name c) :
    Asks (σ := Actions FileSystem) (Uses (root.instanceDir name.text).IsAbove) (answer root c) := by
  have hself := (root.instanceDir name.text).isAbove_self
  cases h with
  | create =>
      have hfile : (root.instanceDir name.text).IsAbove
          (tracingFile ⟨name, root.instanceDir name.text⟩) :=
        ⟨[Utf8.encode "tracing_on"], by decide +kernel, rfl⟩
      refine asks_bind (asks_perform.2 hself) fun made => ?_
      split
      · exact asks_pure
      · exact asks_pure
      · refine asks_bind ((write_asks hfile _).mono fun _ => Rewrites.uses) fun switched => ?_
        match switched with
        | .error e => exact asks_bind (asks_perform.2 hself) fun _ => asks_pure
        | .ok () => exact asks_bind (asks_perform.2 trivial) fun _ => asks_pure
  | find => exact asks_bind (asks_perform.2 hself) fun _ => asks_pure
  | destroy =>
      refine asks_bind (asks_perform.2 hself) fun removed => ?_
      split
      · exact asks_pure
      · exact asks_pure
      · exact asks_bind (asks_perform.2 trivial) fun _ => asks_pure
  | set dir named =>
      refine (set_asks fun p hp => ?_).mono fun _ => Rewrites.uses
      obtain ⟨names, hnames, rfl, -⟩ := Setting.exists_names_of_mem_files hp named
      exact ⟨names, hnames, by rw [dir]⟩

end ControlFiles

namespace InstanceName

/-- Exactly the texts that can be names are accepted, and whatever the tracing root, each of them is
an entry of the directory of instances. Two of them lead apart, and what is done to an instance is
done at its entry. -/
theorem parse_separates :
    (∀ s, ((∃ n, parse s = .ok n) ↔ CanName s) ∧ ∀ n, parse s = .ok n → n.text = s) ∧
    ∀ (root : TracingRoot) (n : InstanceName),
      Path.EntryOf root.instancesDir (root.instanceDir n.text) (Utf8.encode n.text) ∧
      (∀ m : InstanceName, m ≠ n →
        Path.Apart (root.instanceDir m.text) (root.instanceDir n.text)) ∧
      ∀ c, ControlFiles.Addresses root n c →
        Asks (σ := Actions FileSystem) (ControlFiles.Uses (root.instanceDir n.text).IsAbove)
          (ControlFiles.answer root c) := by
  refine ⟨fun s => ⟨exists_parse_iff, fun n => parse_eq_ok.1⟩, fun root n => ⟨?_, ?_, ?_⟩⟩
  · exact Path.entryOf_join (by decide) n.isName
  · intro m hne
    refine Path.apart_join m.isName n.isName fun heq => hne (text_inj ?_)
    exact Utf8.encode_injective heq
  · exact fun c => ControlFiles.answer_uses

/-- One name is the beginning of the other, and neither directory begins with the other. -/
theorem parse_separates_prefix :
    let root : TracingRoot := ⟨"/t//", .tracefs⟩
    ∃ m n, parse "..." = .ok m ∧ parse "...a" = .ok n ∧ m ≠ n ∧
      (root.instanceDir n.text).parent? = some "/t//instances" ∧
      (root.instanceDir m.text).bytes <+: (root.instanceDir n.text).bytes ∧
      Path.Apart (root.instanceDir m.text) (root.instanceDir n.text) := by
  intro root
  obtain ⟨hparse, hroot⟩ := parse_separates
  obtain ⟨m, hm⟩ := (hparse "...").1.2 (canName_iff.2 (by decide))
  obtain ⟨n, hn⟩ := (hparse "...a").1.2 (canName_iff.2 (by decide))
  have hne : m ≠ n := by
    rintro rfl
    exact absurd ((parse_eq_ok.1 hm).symm.trans (parse_eq_ok.1 hn)) (by decide)
  refine ⟨m, n, hm, hn, hne, (hroot root n).1.parent, ?_, (hroot root n).2.1 m hne⟩
  rw [parse_eq_ok.1 hm, parse_eq_ok.1 hn]
  decide +kernel

end InstanceName

end KernelTrace
