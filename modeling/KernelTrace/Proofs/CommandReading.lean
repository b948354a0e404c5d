import KernelTrace.CommandLine.Reading

/-!
# How a command line is read

Reading goes from word to word, and only the end of the line adds anything to that: the option that
is still collecting values is taken. So a line that is continued is read as far as it was read
before, and goes on from there (`Reading.words_append`).

What can be said of any reading that has got somewhere is `Reading.Sound`: everything it has taken
is an option of the command with values that were checked, and what it is waiting for belongs to an
option of the command. It is proved from the inside out, one lemma for each function that a word
goes through.
-/

namespace KernelTrace.CommandLine

theorem bind_eq_ok {α β : Type} {x : Except Halt α} {f : α → Except Halt β} {b : β} :
    (x >>= f) = .ok b ↔ ∃ a, x = .ok a ∧ f a = .ok b := by
  cases x with
  | error e => exact ⟨fun h => (nomatch h), fun ⟨_, h, _⟩ => (nomatch h)⟩
  | ok a =>
      refine ⟨fun h => ⟨a, rfl, h⟩, ?_⟩
      rintro ⟨a', h, hf⟩
      cases h
      exact hf

namespace Reading

variable {options : List Opt} {r r' : Reading} {o : Opt} {values : List String}

/-! ## What a step comes to -/

theorem take_eq_ok : r.take o values = .ok r' ↔
    (o.needsValue = true → values ≠ []) ∧ (o.isMany = false → r.taken.has o.long = false) ∧
      o.kind.checkAll values = .ok () ∧ o.purpose = .setting ∧
      r' = { r with taken := r.taken ++ [(o.long, values)] } := by
  rw [take]
  by_cases hvalue : o.needsValue = true ∧ values = []
  · rw [if_pos hvalue]
    exact ⟨fun h => (nomatch h), fun h => absurd hvalue.2 (h.1 hvalue.1)⟩
  · by_cases hagain : ¬ o.isMany = true ∧ r.taken.has o.long = true
    · rw [if_neg hvalue, if_pos hagain]
      refine ⟨fun h => (nomatch h), fun h => ?_⟩
      have hfresh := h.2.1 (eq_false_of_ne_true hagain.1)
      exact absurd (hagain.2.symm.trans hfresh) (by simp)
    · rw [if_neg hvalue, if_neg hagain, bind_eq_ok]
      have hgiven : o.needsValue = true → values ≠ [] := fun hneeds hnil => hvalue ⟨hneeds, hnil⟩
      have hfresh : o.isMany = false → r.taken.has o.long = false := fun hone =>
        eq_false_of_ne_true fun hhas => hagain ⟨by simp [hone], hhas⟩
      constructor
      · rintro ⟨⟨⟩, hcheck, h⟩
        cases hpurpose : o.purpose with
        | setting =>
            rw [hpurpose] at h
            exact ⟨hgiven, hfresh, hcheck, rfl, (Except.ok.inj h).symm⟩
        | help | version =>
            rw [hpurpose] at h
            cases h
      · rintro ⟨-, -, hcheck, hpurpose, rfl⟩
        refine ⟨(), hcheck, ?_⟩
        rw [hpurpose]

theorem settle_of_none (h : r.pending = none) : r.settle = .ok r := by
  rw [settle, h]

theorem settle_of_some (h : r.pending = some (o, values)) :
    r.settle = { r with pending := none }.take o values := by
  rw [settle, h]

theorem settle_ne_ok (h : r.pending = some (o, [])) (ho : o.needsValue = true) :
    r.settle ≠ .ok r' := by
  rw [settle_of_some h]
  exact fun htake => (take_eq_ok.1 htake).1 ho rfl

theorem settleAndTake_eq_ok : r.settleAndTake o values = .ok r' ↔
    ∃ r₁ r₂, r.settle = .ok r₁ ∧ r₁.take o values = .ok r₂ ∧
      r' = { r₂ with expecting := .option } := by
  rw [settleAndTake, bind_eq_ok]
  constructor
  · rintro ⟨r₁, hsettle, h⟩
    obtain ⟨r₂, htake, h⟩ := bind_eq_ok.1 h
    exact ⟨r₁, r₂, hsettle, htake, (Except.ok.inj h).symm⟩
  · rintro ⟨r₁, r₂, hsettle, htake, rfl⟩
    exact ⟨r₁, hsettle, bind_eq_ok.2 ⟨r₂, htake, rfl⟩⟩

theorem collect_eq_ok : r.collect o = .ok r' ↔
    ∃ r₁, r.settle = .ok r₁ ∧ r' = { r₁ with pending := some (o, []), expecting := .valueOf o } := by
  rw [collect, bind_eq_ok]
  constructor
  · rintro ⟨r₁, hsettle, h⟩
    exact ⟨r₁, hsettle, (Except.ok.inj h).symm⟩
  · rintro ⟨r₁, hsettle, rfl⟩
    exact ⟨r₁, hsettle, rfl⟩

/-! ## Lines that are continued -/

/-- Reads words and leaves open what the last of them has begun. -/
def feed (options : List Opt) : Reading → List String → Except Halt Reading
  | r, [] => .ok r
  | r, w :: rest => do feed options (← r.word options w) rest

theorem words_append (ws ws' : List String) :
    words options r (ws ++ ws') = feed options r ws >>= fun r => words options r ws' := by
  induction ws generalizing r with
  | nil => rfl
  | cons w ws ih =>
      rw [List.cons_append, words, feed]
      cases r.word options w with
      | error e => rfl
      | ok r₁ => exact ih

theorem words_eq_feed (ws : List String) : words options r ws = feed options r ws >>= settle := by
  have h : words options r (ws ++ []) = feed options r ws >>= fun r => words options r [] :=
    words_append ws []
  rwa [List.append_nil] at h

/-! ## What has been read is sound -/

/-- What holds of a reading at every point of a line without a terminator. -/
structure Sound (options : List Opt) (r : Reading) : Prop where
  taken : ∀ e ∈ r.taken, ∃ o ∈ options, o.long = e.1 ∧ (o.needsValue = true → e.2 ≠ []) ∧
    o.kind.checkAll e.2 = .ok ()
  pending : ∀ o values, r.pending = some (o, values) → o ∈ options
  expecting : ∀ o, r.expecting = .valueOf o → o ∈ options
  unended : r.expecting ≠ .nothing

theorem sound_start (options : List Opt) : Sound options start :=
  ⟨fun _ he => absurd he List.not_mem_nil, fun _ _ h => (nomatch h), fun _ h => (nomatch h),
    fun h => (nomatch h)⟩

namespace Sound

theorem take (h : Sound options r) (ho : o ∈ options) (htake : r.take o values = .ok r') :
    Sound options r' := by
  obtain ⟨hgiven, -, hcheck, -, rfl⟩ := take_eq_ok.1 htake
  refine ⟨fun e he => ?_, h.pending, h.expecting, h.unended⟩
  rcases List.mem_append.1 he with he | he
  · exact h.taken e he
  · obtain rfl := List.mem_singleton.1 he
    exact ⟨o, ho, rfl, hgiven, hcheck⟩

theorem settle (h : Sound options r) (hsettle : r.settle = .ok r') : Sound options r' := by
  cases hpending : r.pending with
  | none =>
      rw [settle_of_none hpending] at hsettle
      obtain rfl := Except.ok.inj hsettle
      exact h
  | some p =>
      rw [settle_of_some hpending] at hsettle
      have hcleared : Sound options { r with pending := none } :=
        ⟨h.taken, fun _ _ hnone => (nomatch hnone), h.expecting, h.unended⟩
      exact hcleared.take (h.pending _ _ hpending) hsettle

theorem settleAndTake (h : Sound options r) (ho : o ∈ options)
    (hstep : r.settleAndTake o values = .ok r') : Sound options r' := by
  obtain ⟨r₁, r₂, hsettle, htake, rfl⟩ := settleAndTake_eq_ok.1 hstep
  have htaken := (h.settle hsettle).take ho htake
  exact ⟨htaken.taken, htaken.pending, fun _ h => (nomatch h), fun h => (nomatch h)⟩

theorem collect (h : Sound options r) (ho : o ∈ options) (hstep : r.collect o = .ok r') :
    Sound options r' := by
  obtain ⟨r₁, hsettle, rfl⟩ := collect_eq_ok.1 hstep
  refine ⟨(h.settle hsettle).taken, ?_, ?_, fun h => (nomatch h)⟩
  · rintro o' values ⟨⟩
    exact ho
  · rintro o' ⟨⟩
    exact ho

theorem long {word : List Char} (h : Sound options r) (hstep : r.long options word = .ok r') :
    Sound options r' := by
  rw [Reading.long] at hstep
  cases hfind : options.find? (·.long.toList = word.takeWhile (· ≠ '=')) with
  | none =>
      rw [hfind] at hstep
      cases hstep
  | some o =>
      have ho := List.mem_of_find?_eq_some hfind
      rw [hfind] at hstep
      dsimp only at hstep
      split at hstep
      · split at hstep
        · exact h.settleAndTake ho hstep
        · exact h.collect ho hstep
      · split at hstep
        · cases hstep
        · exact h.settleAndTake ho hstep

theorem letters {word : List Char} (h : Sound options r)
    (hstep : r.letters options word = .ok r') : Sound options r' := by
  induction word generalizing r with
  | nil =>
      obtain rfl := Except.ok.inj hstep
      exact h
  | cons c rest ih =>
      rw [Reading.letters] at hstep
      cases hfind : options.find? (·.short = some c) with
      | none =>
          rw [hfind] at hstep
          cases hstep
      | some o =>
          have ho := List.mem_of_find?_eq_some hfind
          rw [hfind] at hstep
          dsimp only at hstep
          split at hstep
          · split at hstep
            · exact h.collect ho hstep
            · exact h.settleAndTake ho hstep
            · exact h.settleAndTake ho hstep
          · obtain ⟨r₁, hfirst, hrest⟩ := bind_eq_ok.1 hstep
            exact ih (h.settleAndTake ho hfirst) hrest

theorem value {word : String} (h : Sound options r) (hstep : r.value word = .ok r') :
    Sound options r' := by
  rw [Reading.value] at hstep
  split at hstep
  · next o p values hexpecting hpending =>
      obtain rfl := Except.ok.inj hstep
      have ho := h.expecting o hexpecting
      have hp := h.pending p values hpending
      refine ⟨h.taken, ?_, ?_, ?_⟩
      · rintro o' values' ⟨⟩
        exact hp
      · intro o' heq
        dsimp only at heq
        split at heq
        · cases heq
          exact ho
        · cases heq
      · dsimp only
        split <;> simp
  · cases hstep

theorem word {w : String} (h : Sound options r) (hw : w ≠ "--")
    (hstep : r.word options w = .ok r') : Sound options r' := by
  rw [Reading.word] at hstep
  split at hstep
  · cases hstep
  · split at hstep
    · exact h.value hstep
    · split at hstep
      -- only the terminator leaves nothing to expect
      · next heq => exact absurd (String.toList_inj.1 heq) hw
      · exact h.long hstep
      · exact h.letters hstep
      · exact h.value hstep

theorem feed {ws : List String} (h : Sound options r) (hws : "--" ∉ ws)
    (hfeed : Reading.feed options r ws = .ok r') : Sound options r' := by
  induction ws generalizing r with
  | nil =>
      obtain rfl := Except.ok.inj hfeed
      exact h
  | cons w ws ih =>
      obtain ⟨r₁, hword, hrest⟩ := bind_eq_ok.1 hfeed
      have hw : w ≠ "--" := fun heq => hws (heq ▸ List.mem_cons_self)
      exact ih (h.word hw hword) (fun hmem => hws (List.mem_cons_of_mem w hmem)) hrest

end Sound

/-! ## Words and values -/

/-- A dash with something after it. Where an option is due, such a word is no value. -/
def LooksLikeOption (w : String) : Prop := ∃ c rest, w.toList = '-' :: c :: rest

theorem takesAnything_eq_false (h : Sound options r)
    (hplain : ∀ o ∈ options, o.takesHyphens = false) : r.takesAnything = false := by
  rw [takesAnything]
  split
  · next o hexpecting => exact hplain o (h.expecting o hexpecting)
  · rfl

theorem word_eq_long {w : String} {c : Char} {rest : List Char} (h : r.expecting ≠ .nothing)
    (hplain : r.takesAnything = false) (hw : w.toList = '-' :: '-' :: c :: rest) :
    r.word options w = r.long options (c :: rest) := by
  rw [word, hplain, hw]
  split
  · next hnothing => exact absurd hnothing h
  · rfl

theorem word_eq_value {w : String} (h : r.expecting ≠ .nothing) (hw : ¬ LooksLikeOption w) :
    r.word options w = r.value w := by
  rw [word]
  split
  · next hnothing => exact absurd hnothing h
  · split
    · rfl
    · split
      · next heq => exact absurd ⟨_, _, heq⟩ hw
      · next heq => exact absurd ⟨_, _, heq⟩ hw
      · next heq => exact absurd ⟨_, _, heq⟩ hw
      · rfl

/-! ## An option in the place of a missing value -/

theorem settleAndTake_ne_ok (h : ∀ r', r.settle ≠ .ok r') : r.settleAndTake o values ≠ .ok r' :=
  fun hstep => (settleAndTake_eq_ok.1 hstep).elim fun r₁ ⟨_, hsettle, _⟩ => h r₁ hsettle

theorem collect_ne_ok (h : ∀ r', r.settle ≠ .ok r') : r.collect o ≠ .ok r' :=
  fun hstep => (collect_eq_ok.1 hstep).elim fun r₁ ⟨hsettle, _⟩ => h r₁ hsettle

theorem long_ne_ok (h : ∀ r', r.settle ≠ .ok r') (word : List Char) :
    r.long options word ≠ .ok r' := by
  intro hstep
  rw [Reading.long] at hstep
  split at hstep
  · cases hstep
  · split at hstep
    · split at hstep
      · exact settleAndTake_ne_ok h hstep
      · exact collect_ne_ok h hstep
    · split at hstep
      · cases hstep
      · exact settleAndTake_ne_ok h hstep

theorem letters_ne_ok (h : ∀ r', r.settle ≠ .ok r') (c : Char) (rest : List Char) :
    r.letters options (c :: rest) ≠ .ok r' := by
  intro hstep
  rw [Reading.letters] at hstep
  split at hstep
  · cases hstep
  · split at hstep
    · split at hstep
      · exact collect_ne_ok h hstep
      · exact settleAndTake_ne_ok h hstep
      · exact settleAndTake_ne_ok h hstep
    · obtain ⟨r₁, hfirst, -⟩ := bind_eq_ok.1 hstep
      exact settleAndTake_ne_ok h hfirst

/-- Where a value is due, a word that looks like an option ends the line in a failure. -/
theorem words_ne_ok {w : String} (hpending : r.pending = some (o, [])) (ho : o.needsValue = true)
    (hplain : r.takesAnything = false) (hw : LooksLikeOption w) :
    words options r [w] ≠ .ok r' := by
  have hmissing : ∀ r', r.settle ≠ .ok r' := fun r' => settle_ne_ok hpending ho
  intro hwords
  obtain ⟨r₁, hword, hsettle⟩ := bind_eq_ok.1 hwords
  obtain ⟨c, rest, heq⟩ := hw
  rw [word, hplain, heq] at hword
  split at hword
  · cases hword
  · rw [if_neg Bool.false_ne_true] at hword
    split at hword
    -- the terminator, which ends the line without the value
    · obtain rfl := Except.ok.inj hword
      exact settle_ne_ok (r := { r with expecting := .nothing }) hpending ho hsettle
    · exact long_ne_ok hmissing _ hword
    · exact letters_ne_ok hmissing _ _ hword
    · next hother => exact absurd rfl (hother c rest)

end Reading

/-! ## What was given -/

theorem ValueKind.checkAll_eq_ok {k : ValueKind} {values : List String} :
    k.checkAll values = .ok () ↔ ∀ s ∈ values, k.check s = .ok () := by
  induction values with
  | nil => exact ⟨fun _ _ hs => absurd hs List.not_mem_nil, fun _ => rfl⟩
  | cons s values ih =>
      rw [ValueKind.checkAll, bind_eq_ok, List.forall_mem_cons, ← ih]
      exact ⟨fun ⟨_, hs, hrest⟩ => ⟨hs, hrest⟩, fun ⟨hs, hrest⟩ => ⟨(), hs, hrest⟩⟩

namespace Matches

variable {m : Matches} {long long' : String} {values : List String}

theorem has_concat_of_ne (h : long' ≠ long) : (m ++ [(long', values)]).has long = m.has long := by
  simp [has, h]

theorem values_concat_of_ne (h : long' ≠ long) :
    (m ++ [(long', values)]).values long = m.values long := by
  simp [Matches.values, h]

theorem values_of_has_eq_false (h : m.has long = false) : m.values long = [] := by
  rw [has, List.any_eq_false] at h
  rw [Matches.values, List.flatMap_eq_nil_iff]
  exact fun e he => if_neg fun heq => h e he (decide_eq_true heq)

/-- Of an option that was given, and has values, one is the first. -/
theorem exists_value? (h : m.has long = true) (hvalues : ∀ e ∈ m, e.1 = long → e.2 ≠ []) :
    ∃ s values, m.value? long = some s ∧ s ∈ values ∧ (long, values) ∈ m := by
  rw [has, List.any_eq_true] at h
  obtain ⟨e, he, heq⟩ := h
  obtain ⟨s', hs'⟩ := List.exists_mem_of_ne_nil _ (hvalues e he (of_decide_eq_true heq))
  have hmem : s' ∈ m.values long :=
    List.mem_flatMap.2 ⟨e, he, by rwa [if_pos (of_decide_eq_true heq)]⟩
  cases hfirst : m.value? long with
  | none => rw [List.head?_eq_none_iff.1 hfirst] at hmem; cases hmem
  | some s =>
      obtain ⟨⟨long', values⟩, he', hs⟩ := List.mem_flatMap.1 (List.mem_of_head? hfirst)
      split at hs
      · next hlong => exact ⟨s, values, rfl, hs, hlong ▸ he'⟩
      · cases hs

end Matches

/-- An option that no variable stands for does not change what the variables have to be. -/
theorem checkVariables_concat {env : Environment} {m : Matches} {long : String}
    {values : List String} {options : List Opt}
    (h : ∀ o ∈ options, o.envName ≠ none → long ≠ o.long) :
    checkVariables env (m ++ [(long, values)]) options = checkVariables env m options := by
  induction options with
  | nil => rfl
  | cons o options ih =>
      have hrest := ih fun o' ho' => h o' (List.mem_cons_of_mem o ho')
      rw [checkVariables, checkVariables, hrest]
      cases hvar : o.envName.bind env.get? with
      | none => rfl
      | some v =>
          have henv : o.envName ≠ none := fun hnone => by
            rw [hnone] at hvar
            cases hvar
          dsimp only
          rw [Matches.has_concat_of_ne (h o List.mem_cons_self henv)]

theorem Command.read_eq_ok {c : Command} {env : Environment} {args : List String} {m : Matches} :
    c.read env args = .ok m ↔
      ∃ r, Reading.start.words c.allOptions args = .ok r ∧
        checkVariables env r.taken c.options = .ok () ∧ m = r.taken := by
  rw [Command.read, bind_eq_ok]
  constructor
  · rintro ⟨r, hwords, h⟩
    obtain ⟨⟨⟩, hvars, h⟩ := bind_eq_ok.1 h
    exact ⟨r, hwords, hvars, (Except.ok.inj h).symm⟩
  · rintro ⟨r, hwords, hvars, rfl⟩
    exact ⟨r, hwords, bind_eq_ok.2 ⟨(), hvars, rfl⟩⟩

end KernelTrace.CommandLine
