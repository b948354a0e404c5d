import KernelTrace.Commands.Tracer
import KernelTrace.Proofs.HookArguments

/-!
# Settings that a hook inherits

`tracer` hands its overrides to a hook as environment variables, and the hook reads its own command
line and those variables again. An option that no word of a line gives may as well not be there
(`Reading.words_filter`), so a hook whose arguments leave the overrides alone looks at the variables;
and a variable that `tracer` has not set is one that it has not found either.

Nothing that is handed on is refused, because no command accepts an empty path.
-/

namespace KernelTrace

namespace CommandLine

/-- Whether a word gives the option with a long name, with a value attached or not. -/
def Gives (long w : String) : Prop :=
  ∃ rest, w.toList = '-' :: '-' :: rest ∧ rest.takeWhile (· ≠ '=') = long.toList

instance {long w : String} : Decidable (Gives long w) :=
  decidable_of_iff (w.toList.take 2 = ['-', '-'] ∧
    (w.toList.drop 2).takeWhile (· ≠ '=') = long.toList) <| by
      constructor
      · rintro ⟨hdashes, hrest⟩
        exact ⟨_, by rw [← List.take_append_drop 2 w.toList, hdashes]; rfl, hrest⟩
      · rintro ⟨rest, h, hrest⟩
        rw [h]
        exact ⟨rfl, hrest⟩

namespace Reading

variable {options : List Opt} {r r' : Reading} {long : String}

/-! ## Options that are not given -/

theorem find?_filter {test : Opt → Bool}
    (h : ∀ o ∈ options, test o = true → o.long ≠ long) :
    (options.filter (·.long ≠ long)).find? test = options.find? test := by
  induction options with
  | nil => rfl
  | cons o rest ih =>
      have hrest := ih fun o' ho' => h o' (List.mem_cons_of_mem o ho')
      rw [List.filter_cons]
      split
      · rw [List.find?_cons, List.find?_cons, hrest]
      · next hout =>
          have hlong : o.long = long := by simpa using hout
          have htest : test o = false :=
            eq_false_of_ne_true fun hyes => h o List.mem_cons_self hyes hlong
          rw [hrest, List.find?_cons, htest]

theorem long_filter {word : List Char} (hword : word.takeWhile (· ≠ '=') ≠ long.toList) :
    r.long (options.filter (·.long ≠ long)) word = r.long options word := by
  rw [Reading.long, Reading.long, find?_filter fun o _ htest heq => ?_]
  rw [← heq] at hword
  exact hword (of_decide_eq_true htest).symm

theorem letters_filter (hshort : ∀ o ∈ options, o.long = long → o.short = none)
    (word : List Char) :
    r.letters (options.filter (·.long ≠ long)) word = r.letters options word := by
  induction word generalizing r with
  | nil => rfl
  | cons c rest ih =>
      have hfind : (options.filter (·.long ≠ long)).find? (·.short = some c) =
          options.find? (·.short = some c) :=
        find?_filter fun o ho htest heq => by
          rw [hshort o ho heq] at htest
          cases of_decide_eq_true htest
      simp only [Reading.letters, hfind, ih]

theorem word_filter (hshort : ∀ o ∈ options, o.long = long → o.short = none) {w : String}
    (hw : ¬ Gives long w) :
    r.word (options.filter (·.long ≠ long)) w = r.word options w := by
  rw [Reading.word, Reading.word]
  split
  · rfl
  · split
    · rfl
    · split
      · rfl
      · next rest _ heq => exact long_filter fun hlong => hw ⟨rest, heq, hlong⟩
      · exact letters_filter hshort _
      · rfl

/-- An option that no word gives may as well not be there. -/
theorem words_filter (hshort : ∀ o ∈ options, o.long = long → o.short = none) {ws : List String}
    (hws : ∀ w ∈ ws, ¬ Gives long w) :
    words (options.filter (·.long ≠ long)) r ws = words options r ws := by
  induction ws generalizing r with
  | nil => rfl
  | cons w ws ih =>
      obtain ⟨hw, hrest⟩ := List.forall_mem_cons.1 hws
      simp only [words, word_filter hshort hw, ih hrest]

/-! ## What an accepted line has given -/

theorem take_expecting {o : Opt} {values : List String} (e : Expecting)
    (h : r.take o values = .ok r') :
    { r with expecting := e }.take o values = .ok { r' with expecting := e } := by
  obtain ⟨hgiven, hfresh, hcheck, hpurpose, rfl⟩ := take_eq_ok.1 h
  exact take_eq_ok.2 ⟨hgiven, hfresh, hcheck, hpurpose, rfl⟩

theorem settle_expecting (e : Expecting) (h : r.settle = .ok r') :
    { r with expecting := e }.settle = .ok { r' with expecting := e } := by
  obtain ⟨taken, pending, expecting⟩ := r
  cases pending with
  | none =>
      cases h
      rfl
  | some p => exact take_expecting e h

/-- A line goes on as it should, or its options have been ended. -/
theorem Sound.feed_or {ws : List String} (h : Sound options r)
    (hfeed : Reading.feed options r ws = .ok r') :
    Sound options r' ∨ ∃ r₀, Sound options r₀ ∧ r' = { r₀ with expecting := .nothing } := by
  induction ws generalizing r with
  | nil =>
      cases hfeed
      exact .inl h
  | cons w ws ih =>
      obtain ⟨r₁, hword, hrest⟩ := bind_eq_ok.1 hfeed
      by_cases hw : w = "--"
      · subst hw
        rw [Reading.word] at hword
        split at hword
        · cases hword
        · split at hword
          · exact ih (h.value hword) hrest
          · cases hword
            cases ws with
            | nil =>
                cases hrest
                exact .inr ⟨r, h, rfl⟩
            | cons => cases hrest
      · exact ih (h.word hw hword) hrest

/-- All that an accepted line has given are options of the command, with values of their kind. -/
theorem taken_of_words {ws : List String} (h : Reading.start.words options ws = .ok r) :
    ∀ e ∈ r.taken, ∃ o ∈ options, o.long = e.1 ∧ (o.needsValue = true → e.2 ≠ []) ∧
      o.kind.checkAll e.2 = .ok () := by
  rw [words_eq_feed] at h
  obtain ⟨r₁, hfeed, hsettle⟩ := bind_eq_ok.1 h
  obtain hsound | ⟨r₀, hsound, rfl⟩ := (sound_start options).feed_or hfeed
  · exact (hsound.settle hsettle).taken
  · have hopen := settle_expecting (r := { r₀ with expecting := .nothing }) r₀.expecting hsettle
    exact (hsound.settle hopen).taken

theorem has_eq_false_of_words (hshort : ∀ o ∈ options, o.long = long → o.short = none)
    {ws : List String} (hws : ∀ w ∈ ws, ¬ Gives long w)
    (h : Reading.start.words options ws = .ok r) : r.taken.has long = false := by
  rw [← words_filter hshort hws] at h
  refine List.any_eq_false.2 fun e he heq => ?_
  obtain ⟨o, ho, hlong, -⟩ := taken_of_words h e he
  have hne := (List.mem_filter.1 ho).2
  rw [hlong, of_decide_eq_true heq] at hne
  simp at hne

end Reading

/-! ## Variables -/

theorem checkVariables_eq_ok {env : Environment} {m : Matches} {options : List Opt} :
    checkVariables env m options = .ok () ↔
      ∀ o ∈ options, ∀ v, o.envName.bind env.get? = some v → m.has o.long = true ∨
        if o.takesValues then v ≠ [] else v = Utf8.encode "true" ∨ v = Utf8.encode "false" := by
  induction options with
  | nil => exact ⟨fun _ o ho => absurd ho List.not_mem_nil, fun _ => rfl⟩
  | cons o rest ih =>
      rw [checkVariables, List.forall_mem_cons, ← ih]
      cases o.envName.bind env.get? with
      | none => simp
      | some v => grind

section Paths

variable {c : Command} {env env' : Environment} {args : List String} {m m' : Matches} {o : Opt}
  {name : String}

/-- A path that is accepted is not empty, and if there is none it was neither given nor found in the
environment. -/
theorem path?_of_read (hread : c.read env args = .ok m) (ho : o ∈ c.options)
    (hunique : ∀ o' ∈ c.allOptions, o'.long = o.long → o' = o) (harity : o.arity = .one)
    (hkind : o.kind = .path) (hname : o.envName = some name) :
    (m.path? env o = none → env.get? name = none) ∧ ∀ p, m.path? env o = some p → p.bytes ≠ [] := by
  obtain ⟨r, hwords, hvars, rfl⟩ := Command.read_eq_ok.1 hread
  have hneeds : o.needsValue = true := by rw [Opt.needsValue, harity]; rfl
  have htakes : o.takesValues = true := by rw [Opt.takesValues, harity]; rfl
  have hgiven : ∀ e ∈ r.taken, e.1 = o.long → e.2 ≠ [] ∧ ∀ s ∈ e.2, s ≠ "" := by
    intro e he hlong
    obtain ⟨o', ho', heq, hvalues, hcheck⟩ := Reading.taken_of_words hwords e he
    obtain rfl := hunique o' ho' (heq.trans hlong)
    refine ⟨hvalues hneeds, fun s hs hempty => ?_⟩
    have hs := ValueKind.checkAll_eq_ok.1 hcheck s hs
    rw [hkind, ValueKind.check, if_pos hempty] at hs
    cases hs
  rw [Matches.path?]
  split
  · next hhas =>
      obtain ⟨s, values, hvalue, hs, hmem⟩ :=
        Matches.exists_value? hhas fun e he hlong => (hgiven e he hlong).1
      rw [hvalue]
      refine ⟨fun hnone => absurd hnone (Option.some_ne_none _), ?_⟩
      rintro p ⟨⟩
      exact fun hnil => (hgiven _ hmem rfl).2 s hs (Utf8.encode_injective (b := "") hnil)
  · next hhas =>
      rw [hname, Option.bind_some]
      refine ⟨Option.map_eq_none_iff.1, fun p hp => ?_⟩
      obtain ⟨v, hv, rfl⟩ := Option.map_eq_some_iff.1 hp
      have hvalue := (checkVariables_eq_ok.1 hvars o ho v (by rw [hname]; exact hv)).resolve_left hhas
      rwa [if_pos htakes] at hvalue

/-- What stands in for an option that is not given is what was handed on in its variable. -/
theorem path?_inherited (hname : o.envName = some name) (hungiven : m'.has o.long = false)
    (hnone : m.path? env o = none → env.get? name = none)
    (hvar : env'.get? name = ((m.path? env o).map Path.bytes).or (env.get? name)) :
    m'.path? env' o = m.path? env o := by
  rw [Matches.path?, hungiven, if_neg Bool.false_ne_true, hname, Option.bind_some, hvar]
  cases hpath : m.path? env o with
  | some p => rfl
  | none => rw [hnone hpath]; rfl

end Paths

end CommandLine

/-! ## What a dispatcher hands on -/

/-- The environment of a hook that is run from the environment `env`. -/
def HookRun.environment (run : HookRun) (env : Environment) : Environment :=
  env.setAll (run.env.map fun v => (v.1, v.2.bytes))

namespace Commands

open CommandLine

variable {env : Environment} {args : List String} {o : TracerOptions} {run : HookRun}
  {o' : SyscallsOptions}

theorem TracerOptions.read_eq_ok : TracerOptions.read env args = .ok o ↔
    ∃ m, command.read env args = .ok m ∧ o = ofMatches env m := by
  rw [TracerOptions.read]
  cases command.read env args with
  | error e => simp [Except.map]
  | ok m => simp [Except.map, eq_comm]

theorem get?_environment {c : Config} (h : run.env = c.env) (name : String) :
    (run.environment env).get? name =
      if name = Config.procfsVariable then (c.procfs.map Path.bytes).or (env.get? name)
      else if name = Config.sysfsVariable then (c.sysfs.map Path.bytes).or (env.get? name)
      else env.get? name := by
  have hne : Config.sysfsVariable ≠ Config.procfsVariable := by decide
  obtain ⟨procfs, sysfs, verbose⟩ := c
  rw [HookRun.environment, h, Config.env]
  cases procfs <;> cases sysfs <;>
    simp [Environment.setAll, Environment.set, Environment.get?, SortedMap.get?_insert] <;> grind

/-- Whether a word overrides where process or system information is read from. -/
def Overrides (w : String) : Prop := Gives procfsOption.long w ∨ Gives sysfsOption.long w
  deriving Decidable

theorem path?_of_tracer {m : Matches} (hread : TracerOptions.command.read env args = .ok m) :
    ((m.path? env procfsOption = none → env.get? Config.procfsVariable = none) ∧
        ∀ p, m.path? env procfsOption = some p → p.bytes ≠ []) ∧
      (m.path? env sysfsOption = none → env.get? Config.sysfsVariable = none) ∧
        ∀ p, m.path? env sysfsOption = some p → p.bytes ≠ [] :=
  ⟨path?_of_read hread (by decide +kernel) (by decide +kernel) rfl rfl rfl,
    path?_of_read hread (by decide +kernel) (by decide +kernel) rfl rfl rfl⟩

/-- A hook whose own arguments leave the overrides alone has those of `tracer`. -/
theorem overrides_inherited (hread : TracerOptions.read env args = .ok o)
    (henv : run.env = o.config.env) (hown : ∀ w ∈ run.args, ¬ Overrides w)
    (hhook : SyscallsOptions.read (run.environment env) run.args = .ok o') :
    o'.config.overrides = o.config.overrides := by
  obtain ⟨m, hmatches, rfl⟩ := TracerOptions.read_eq_ok.1 hread
  obtain ⟨r, hwords, -, rfl⟩ := SyscallsOptions.read_eq_ok.1 hhook
  obtain ⟨⟨hprocfs, -⟩, hsysfs, -⟩ := path?_of_tracer hmatches
  have hp : r.taken.path? (run.environment env) procfsOption = m.path? env procfsOption :=
    path?_inherited rfl
      (Reading.has_eq_false_of_words (by decide +kernel) (fun w hw h => hown w hw (.inl h)) hwords)
      hprocfs ((get?_environment henv _).trans (if_pos rfl))
  have hs : r.taken.path? (run.environment env) sysfsOption = m.path? env sysfsOption :=
    path?_inherited rfl
      (Reading.has_eq_false_of_words (by decide +kernel) (fun w hw h => hown w hw (.inr h)) hwords)
      hsysfs ((get?_environment henv _).trans ((if_neg (by decide)).trans (if_pos rfl)))
  simp only [SyscallsOptions.ofMatches, TracerOptions.ofMatches, configOf, Config.overrides, hp, hs]

theorem envName_of_mem : ∀ o ∈ SyscallsOptions.command.options, o.envName ≠ none →
    o = procfsOption ∨ o = sysfsOption ∨ o = verboseOption := by
  decide +kernel

/-- What is handed on is never refused: a hook understands its arguments if it would understand them
in the environment of `tracer`. -/
theorem read_inherited (hread : TracerOptions.read env args = .ok o)
    (henv : run.env = o.config.env) {o₁ : SyscallsOptions}
    (h : SyscallsOptions.read env run.args = .ok o₁) :
    ∃ o', SyscallsOptions.read (run.environment env) run.args = .ok o' := by
  obtain ⟨m, hmatches, rfl⟩ := TracerOptions.read_eq_ok.1 hread
  obtain ⟨r, hwords, hvars, -⟩ := SyscallsOptions.read_eq_ok.1 h
  refine ⟨_, SyscallsOptions.read_eq_ok.2 ⟨r, hwords, ?_, rfl⟩⟩
  obtain ⟨⟨-, hprocfs⟩, -, hsysfs⟩ := path?_of_tracer hmatches
  rw [checkVariables_eq_ok] at hvars ⊢
  intro opt hopt v hv
  have hold := hvars opt hopt v
  -- a variable has the value that was handed on, or the one that it had
  have hvalue : ∀ {handed : Option Path} {name : String}, (∀ p, handed = some p → p.bytes ≠ []) →
      (handed.map Path.bytes).or (env.get? name) = some v → v ≠ [] ∨ env.get? name = some v := by
    intro handed name hpath hor
    match handed with
    | some p =>
        cases hor
        exact .inl (hpath p rfl)
    | none => exact .inr hor
  have hnamed : opt.envName ≠ none := fun hnone => by
    rw [hnone] at hv
    cases hv
  obtain rfl | rfl | rfl := envName_of_mem opt hopt hnamed
  · rw [show procfsOption.envName = some Config.procfsVariable from rfl, Option.bind_some,
      get?_environment henv, if_pos rfl] at hv
    exact (hvalue hprocfs hv).elim .inr hold
  · rw [show sysfsOption.envName = some Config.sysfsVariable from rfl, Option.bind_some,
      get?_environment henv, if_neg (by decide), if_pos rfl] at hv
    exact (hvalue hsysfs hv).elim .inr hold
  · rw [show verboseOption.envName = some Config.verboseVariable from rfl, Option.bind_some,
      get?_environment henv, if_neg (by decide), if_neg (by decide)] at hv
    exact hold hv

/-- A hook that understands what a dispatcher has made of its arguments has been told the instance. -/
theorem inst_of_hookArgs {q : RunRequest} {i : Instance}
    (h : SyscallsOptions.read env (Dispatcher.hookArgs q i) = .ok o') : o'.inst = some i.name := by
  obtain ⟨r, hwords, -, rfl⟩ := SyscallsOptions.read_eq_ok.1 h
  rw [Dispatcher.hookArgs, Reading.words_append] at hwords
  obtain ⟨r₁, hfeed, hrest⟩ := bind_eq_ok.1 hwords
  obtain ⟨r₂, hoption, hname⟩ := bind_eq_ok.1 hrest
  obtain hsound | ⟨r₀, -, rfl⟩ := (Reading.sound_start _).feed_or hfeed
  · have hcollect : r₁.word SyscallsOptions.command.allOptions "--instance" =
        r₁.collect SyscallsOptions.instanceOption :=
      Reading.word_eq_long hsound.unended
        (Reading.takesAnything_eq_false hsound SyscallsOptions.takesHyphens_eq_false)
        (show "--instance".toList = '-' :: '-' :: 'i' :: "nstance".toList by rfl)
    rw [hcollect] at hoption
    obtain ⟨settled, -, rfl⟩ := Reading.collect_eq_ok.1 hoption
    have hplain : ¬ Reading.LooksLikeOption i.name.text := fun hlooks =>
      Reading.words_ne_ok rfl rfl rfl hlooks hname
    obtain ⟨r₃, hvalue, hsettle⟩ := bind_eq_ok.1 hname
    rw [Reading.word_eq_value (by simp) hplain] at hvalue
    cases hvalue
    have htake : Reading.take ⟨settled.taken, none, .option⟩ SyscallsOptions.instanceOption
        [i.name.text] = .ok r := hsettle
    obtain ⟨-, hfresh, -, -, rfl⟩ := Reading.take_eq_ok.1 htake
    exact congrArg SyscallsOptions.inst (SyscallsOptions.ofMatches_concat (hfresh rfl) i.name)
  · -- nothing follows once the options have been ended
    cases hoption

end Commands

end KernelTrace
