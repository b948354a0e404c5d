import KernelTrace.Mount.Resolution
import KernelTrace.Proofs.PathNames
import KernelTrace.Proofs.Runs

/-!
# Mounts seen from elsewhere

A mount table speaks of `/sys`, and whoever reads it may see what is there in another directory. So a
mount point below `/sys` is looked for below that directory, and every other one where it is listed.
Which of the two it is depends on the components of the mount point, as does what is left of it
below `/sys`: doubled separators and dots do not count, and `/sysfs` is not below `/sys`.

What is left is cut out of the bytes, and it keeps the separators and dots inside of it. What matters
is how it begins, because that decides what joining makes of it: not with a separator, which would
replace the other directory, and not with a dot. That is so because the void pieces at both ends are
taken off (`trimmed`), and then joining is appending components (`components_join_relative`).
-/

namespace KernelTrace

open Program

namespace Path

/-! ## Void pieces -/

theorem bodyComponents_cons_void {p : Bytes} (h : isVoid p = true) (ps : List Bytes) :
    bodyComponents (p :: ps) = bodyComponents ps := by
  rw [bodyComponents, bodyComponents, List.filter_cons_of_neg (by simp [h])]

theorem bodyComponents_append (ps qs : List Bytes) :
    bodyComponents (ps ++ qs) = bodyComponents ps ++ bodyComponents qs := by
  rw [bodyComponents, bodyComponents, bodyComponents, List.filter_append, List.map_append]

theorem bodyComponents_of_void {ps : List Bytes} (h : ∀ p ∈ ps, isVoid p = true) :
    bodyComponents ps = [] := by
  rw [bodyComponents, List.filter_eq_nil_iff.2 fun p hp => by simp [h p hp]]
  rfl

/-- Pieces without the void ones at both ends. -/
def trimmed (ps : List Bytes) : List Bytes :=
  ((ps.dropWhile isVoid).reverse.dropWhile isVoid).reverse

theorem exists_trimmed (ps : List Bytes) :
    ∃ before after, ps = before ++ trimmed ps ++ after ∧ (∀ p ∈ before, isVoid p = true) ∧
      ∀ p ∈ after, isVoid p = true := by
  let inner := ps.dropWhile isVoid
  have hvoid : ∀ l : List Bytes, ∀ p ∈ l.takeWhile isVoid, isVoid p = true :=
    fun l => List.all_eq_true.1 List.all_takeWhile
  refine ⟨ps.takeWhile isVoid, (inner.reverse.takeWhile isVoid).reverse, ?_, hvoid ps,
    fun p hp => hvoid _ p (List.mem_reverse.1 hp)⟩
  rw [trimmed, List.append_assoc, ← List.reverse_append, List.takeWhile_append_dropWhile,
    List.reverse_reverse, List.takeWhile_append_dropWhile]

theorem bodyComponents_trimmed (ps : List Bytes) :
    bodyComponents (trimmed ps) = bodyComponents ps := by
  obtain ⟨before, after, hps, hbefore, hafter⟩ := exists_trimmed ps
  calc bodyComponents (trimmed ps)
      = bodyComponents (before ++ trimmed ps ++ after) := by
        rw [bodyComponents_append, bodyComponents_append, bodyComponents_of_void hbefore,
          bodyComponents_of_void hafter, List.append_nil, List.nil_append]
    _ = bodyComponents ps := by rw [← hps]

theorem isVoid_head_trimmed (ps : List Bytes) : ∀ p ∈ (trimmed ps).head?, isVoid p = false := by
  -- what is taken off the end leaves the beginning of what is left
  have hprefix : trimmed ps <+: ps.dropWhile isVoid := by
    rw [trimmed, ← List.reverse_suffix, List.reverse_reverse]
    exact List.dropWhile_suffix _
  intro p hp
  obtain ⟨rest, heq⟩ := List.head?_eq_some_iff.1 hp
  obtain ⟨more, hmore⟩ := hprefix
  have hhead := List.head?_dropWhile_not isVoid ps
  rw [← hmore, heq] at hhead
  simpa using hhead

/-! ## What is left below a directory -/

theorem dropNames_suffix (n : Nat) (ps : List Bytes) : dropNames n ps <:+ ps := by
  fun_induction dropNames n ps with
  | case1 ps => exact List.suffix_refl ps
  | case2 => exact List.suffix_refl []
  | case3 n p ps _ ih => exact ih.trans (List.suffix_cons p ps)
  | case4 n p ps _ ih => exact ih.trans (List.suffix_cons p ps)

theorem bodyComponents_dropNames (n : Nat) (ps : List Bytes) :
    bodyComponents (dropNames n ps) = (bodyComponents ps).drop n := by
  fun_induction dropNames n ps with
  | case1 ps => rfl
  | case2 => rfl
  | case3 n p ps hvoid ih => rw [ih, bodyComponents_cons_void hvoid]
  | case4 n p ps hvoid ih =>
      rw [ih, bodyComponents, bodyComponents, List.filter_cons_of_pos (by simpa using hvoid),
        List.map_cons, List.drop_succ_cons]

theorem root_notMem_bodyComponents (ps : List Bytes) : .root ∉ bodyComponents ps := by
  intro h
  obtain ⟨p, -, hp⟩ := List.mem_map.1 h
  split at hp <;> cases hp

theorem components_of_isAbsolute {p : Path} (h : p.isAbsolute = true) :
    p.components = .root :: bodyComponents (pieces p.bytes) := by
  rw [components, if_pos h]

/-- Only the components of an absolute path begin with the root. -/
theorem isAbsolute_of_components {p : Path} {rest : List Component}
    (h : p.components = .root :: rest) : p.isAbsolute = true := by
  rw [components] at h
  split at h
  · assumption
  · split at h
    · cases h
    · exact absurd (h ▸ List.mem_cons_self) (root_notMem_bodyComponents (pieces p.bytes))

/-- Pieces that begin with something are a relative path that begins with no dot. -/
theorem components_intercalate {ps : List Bytes} (hsep : ∀ p ∈ ps, separator ∉ p)
    (hfirst : ∀ p ∈ ps.head?, isVoid p = false) :
    let q : Path := ⟨[separator].intercalate ps⟩
    q.isAbsolute = false ∧ (pieces q.bytes).head? ≠ some dot ∧
      q.components = bodyComponents ps := by
  intro q
  cases ps with
  | nil => exact ⟨rfl, by decide, rfl⟩
  | cons p rest =>
      have hvoid : isVoid p = false := hfirst p rfl
      have hpieces : pieces q.bytes = p :: rest :=
        pieces_intercalate hsep (List.cons_ne_nil p rest)
      have hne : p ≠ [] := fun hnil => by simp [hnil, isVoid] at hvoid
      have hdot : p ≠ dot := fun hdot => by simp [hdot, isVoid] at hvoid
      have hrelative : q.isAbsolute = false := by
        refine Bool.not_eq_true _ ▸ fun habsolute => ?_
        obtain ⟨bytes, hbytes⟩ : ∃ bytes, q.bytes = separator :: bytes := by
          rw [isAbsolute, beq_iff_eq] at habsolute
          exact List.head?_eq_some_iff.1 habsolute
        have hempty : pieces q.bytes = [] :: pieces bytes := by
          rw [hbytes]
          exact pieces_append [] bytes
        exact hne (List.cons.inj (hpieces.symm.trans hempty)).1
      have hhead : (pieces q.bytes).head? ≠ some dot := by
        rw [hpieces]
        exact fun heq => hdot (Option.some.inj heq)
      refine ⟨hrelative, hhead, ?_⟩
      rw [components, hrelative, if_neg Bool.false_ne_true, if_neg hhead, hpieces]

theorem stripTop?_of_components {p top : Path} {below : List Component}
    (htop : top.isAbsolute = true) (h : p.components = top.components ++ below) :
    ∃ rest, p.stripTop? top = some rest ∧ rest.isAbsolute = false ∧
      (pieces rest.bytes).head? ≠ some dot ∧ rest.components = below := by
  have htops := components_of_isAbsolute htop
  have hp : p.isAbsolute = true := isAbsolute_of_components (by rw [h, htops]; rfl)
  have hstarts : p.startsWith top = true :=
    List.isPrefixOf_iff_prefix.2 ⟨below, h.symm⟩
  let ps := dropNames (top.components.length - 1) (pieces p.bytes)
  have hsep : ∀ q ∈ trimmed ps, separator ∉ q := by
    intro q hq
    obtain ⟨before, after, hps, -⟩ := exists_trimmed ps
    have hmem : q ∈ ps := by
      rw [hps]
      exact List.mem_append_left _ (List.mem_append_right _ hq)
    exact sep_notMem_of_mem_pieces separator ((dropNames_suffix _ _).subset hmem)
  obtain ⟨hrelative, hdot, hcomponents⟩ :=
    components_intercalate hsep (isVoid_head_trimmed ps)
  refine ⟨⟨[separator].intercalate (trimmed ps)⟩, ?_, hrelative, hdot, ?_⟩
  · rw [stripTop?, hp, hstarts]
    rfl
  · rw [hcomponents, bodyComponents_trimmed, bodyComponents_dropNames]
    rw [components_of_isAbsolute hp, htops, List.cons_append] at h
    rw [(List.cons.inj h).2, htops]
    exact List.drop_left

theorem stripTop?_eq_none {p top : Path} (h : ¬ top.components <+: p.components) :
    p.stripTop? top = none := by
  have hstarts : p.startsWith top = false := by
    rw [startsWith, ← Bool.not_eq_true, List.isPrefixOf_iff_prefix]
    exact h
  rw [stripTop?, hstarts, Bool.and_false]
  rfl

end Path

namespace MountScan

/-! ## Where a mount is seen -/

/-- `Seen sysfs p q`: a mount at `p` is seen at `q` by who sees the system information at `sysfs`. -/
inductive Seen : Option Path → Path → Path → Prop where
  | unchanged (p : Path) : Seen none p p
  | outside {sysfs p : Path} (outside : ¬ [.root, .name (Utf8.encode "sys")] <+: p.components) :
      Seen (some sysfs) p p
  | below {sysfs p q : Path} {rest : List Path.Component}
      (below : p.components = .root :: .name (Utf8.encode "sys") :: rest)
      (moved : q.components = sysfs.components ++ rest) : Seen (some sysfs) p q

theorem seen_rebase (p : Path) (sysfs : Option Path) : Seen sysfs p (rebase p sysfs) := by
  have htop : systemTop.components = [.root, .name (Utf8.encode "sys")] := by decide +kernel
  match sysfs with
  | none => exact .unchanged p
  | some s =>
      by_cases h : systemTop.components <+: p.components
      · obtain ⟨below, hbelow⟩ := h
        obtain ⟨rest, hstrip, hrelative, hdot, hrest⟩ :=
          Path.stripTop?_of_components (by decide +kernel) hbelow.symm
        have hbelow : p.components = .root :: .name (Utf8.encode "sys") :: below := by
          rw [← hbelow, htop]
          rfl
        refine .below hbelow ?_
        have hrebase : rebase p (some s) = s.join rest := by
          simp only [rebase, hstrip]
        rw [hrebase, ← hrest]
        exact Path.components_join_relative hrelative hdot
      · have hrebase : rebase p (some s) = p := by
          simp only [rebase, Path.stripTop?_eq_none h]
        rw [hrebase]
        exact .outside (htop ▸ h)

/-- What is selected of a scan by who sees the system information at `sysfs`, and which paths it is
asked about first whether they are directories. -/
inductive Selection (isDirectory : Path → Bool) (sysfs : Option Path) :
    MountScan → List Path → Option TracingRoot → Prop where
  | native {p q : Path} {debugfs : Option Path} (seen : Seen sysfs p q) :
      Selection isDirectory sysfs ⟨some p, debugfs⟩ [] (some ⟨q, .tracefs⟩)
  | debug {p q : Path} (seen : Seen sysfs (p.join "tracing") q) (directory : isDirectory q = true) :
      Selection isDirectory sysfs ⟨none, some p⟩ [q] (some ⟨q, .debugfs⟩)
  | missing {p q : Path} (seen : Seen sysfs (p.join "tracing") q)
      (missing : isDirectory q = false) : Selection isDirectory sysfs ⟨none, some p⟩ [q] none
  | empty : Selection isDirectory sysfs ⟨none, none⟩ [] none

/-- Paths that were asked about, with the answers that `isDirectory` gives. -/
def answers (isDirectory : Path → Bool) (asked : List Path) : List (Event DirectoryTest) :=
  asked.map fun q => ⟨q, isDirectory q⟩

theorem answers_eq_cons {isDirectory : Path → Bool} {asked : List Path} {q : Path} {answer : Bool}
    {es : List (Event DirectoryTest)} (h : answers isDirectory asked = ⟨q, answer⟩ :: es) :
    ∃ more, asked = q :: more ∧ answer = isDirectory q ∧ answers isDirectory more = es := by
  obtain ⟨q', more, rfl, hhead, htail⟩ := List.map_eq_cons_iff.1 h
  cases hhead
  exact ⟨more, rfl, rfl, htail⟩

/-- Selecting asks about nothing but the one directory that it then gives. Where that is, and where a
native mount is, is where the mount point is seen. -/
theorem select_seen (scan : MountScan) (sysfs : Option Path) (isDirectory : Path → Bool) :
    (∃ asked found, Runs (scan.select sysfs) (answers isDirectory asked) found) ∧
    ∀ asked found, Runs (scan.select sysfs) (answers isDirectory asked) found →
      Selection isDirectory sysfs scan asked found := by
  have hunasked : ∀ {asked}, answers isDirectory asked = [] → asked = [] := List.map_eq_nil_iff.1
  match scan with
  | ⟨some p, debugfs⟩ =>
      refine ⟨⟨[], _, .done _⟩, fun asked found h => ?_⟩
      obtain ⟨hasked, rfl⟩ := runs_pure.1 h
      obtain rfl := hunasked hasked
      exact .native (seen_rebase p sysfs)
  | ⟨none, some p⟩ =>
      have hseen := seen_rebase (p.join "tracing") sysfs
      constructor
      · refine ⟨[rebase (p.join "tracing") sysfs], ?_⟩
        rw [answers, List.map_singleton]
        cases isDirectory (rebase (p.join "tracing") sysfs) with
        | true => exact ⟨_, .ask (.done _)⟩
        | false => exact ⟨_, .ask (.done _)⟩
      · intro asked found h
        obtain ⟨answer, rest, hasked, hrest⟩ := runs_perform_bind.1 h
        obtain ⟨more, rfl, hdir, hmore⟩ := answers_eq_cons hasked
        match answer with
        | true =>
            obtain ⟨rfl, rfl⟩ := runs_pure.1 hrest
            obtain rfl := hunasked hmore
            exact .debug hseen hdir.symm
        | false =>
            obtain ⟨rfl, rfl⟩ := runs_pure.1 hrest
            obtain rfl := hunasked hmore
            exact .missing hseen hdir.symm
  | ⟨none, none⟩ =>
      refine ⟨⟨[], _, .done _⟩, fun asked found h => ?_⟩
      obtain ⟨hasked, rfl⟩ := runs_pure.1 h
      obtain rfl := hunasked hasked
      exact .empty

/-- A debug file system listed with more separators and dots than it needs, seen below a directory
that ends in a separator. -/
theorem select_seen_doubled :
    let scan : MountScan := ⟨none, some "//sys/./kernel//debug/"⟩
    let q : Path := "host/sys/kernel//debug/tracing"
    let asked := answers (fun _ => true) [q]
    Runs (scan.select (some "host/sys/")) asked (some ⟨q, .debugfs⟩) ∧
      Selection (fun _ => true) (some "host/sys/") scan [q] (some ⟨q, .debugfs⟩) := by
  intro scan q asked
  have hplace : rebase (Path.join "//sys/./kernel//debug/" "tracing") (some "host/sys/") = q := by
    decide +kernel
  have hrun : Runs (scan.select (some "host/sys/")) asked (some ⟨q, .debugfs⟩) := by
    rw [← hplace]
    exact .ask (.done _)
  exact ⟨hrun, (select_seen scan _ _).2 _ _ hrun⟩

end MountScan

end KernelTrace
