import KernelTrace.Commands.TraceSyscalls
import KernelTrace.Hooks.Dispatch
import KernelTrace.Proofs.CommandReading

/-!
# What a dispatcher passes on, read by a hook

A dispatcher adds two words to the arguments it was given: the option for the instance and the name
of the instance. Whatever option the last of the given arguments belongs to, the first of the two
words ends it, because no option of `trace_syscalls` takes a word that looks like another one. For
the same reason the second word is taken for a value only if it does not look like an option itself.
The names of instances are not kept from that: a name may start with a dash, and then the hook does
not understand its command line (`SyscallsOptions.read_hookArgs`).
-/

namespace KernelTrace.Commands.SyscallsOptions

open CommandLine

variable {env : Environment} {args : List String} {o : SyscallsOptions}

theorem read_eq_ok : read env args = .ok o ↔
    ∃ r, Reading.start.words command.allOptions args = .ok r ∧
      checkVariables env r.taken command.options = .ok () ∧ o = ofMatches env r.taken := by
  have hmap : read env args = .ok o ↔ ∃ m, command.read env args = .ok m ∧ o = ofMatches env m := by
    rw [read]
    cases command.read env args with
    | error e => exact ⟨fun h => (nomatch h), fun ⟨_, h, _⟩ => (nomatch h)⟩
    | ok m =>
        refine ⟨fun h => ⟨m, rfl, (Except.ok.inj h).symm⟩, ?_⟩
        rintro ⟨m', h, rfl⟩
        cases h
        rfl
  rw [hmap]
  constructor
  · rintro ⟨m, hread, rfl⟩
    obtain ⟨r, hwords, hvars, rfl⟩ := Command.read_eq_ok.1 hread
    exact ⟨r, hwords, hvars, rfl⟩
  · rintro ⟨r, hwords, hvars, rfl⟩
    exact ⟨r.taken, Command.read_eq_ok.2 ⟨r, hwords, hvars, rfl⟩, rfl⟩

/-! ## The option for the instance -/

theorem takesHyphens_eq_false : ∀ o ∈ command.allOptions, o.takesHyphens = false := by
  decide +kernel

theorem eq_instanceOption : ∀ o ∈ command.allOptions, o.long = "instance" → o = instanceOption := by
  decide +kernel

theorem has_instance_eq_false {r : Reading} (hr : r.Sound command.allOptions)
    (hnone : (ofMatches env r.taken).inst = none) : r.taken.has "instance" = false := by
  refine eq_false_of_ne_true fun hhas => ?_
  have hsound : ∀ e ∈ r.taken, e.1 = "instance" →
      e.2 ≠ [] ∧ ∀ s ∈ e.2, ValueKind.instanceName.check s = .ok () := by
    intro e he hlong
    obtain ⟨o, ho, heq, hgiven, hcheck⟩ := hr.taken e he
    obtain rfl := eq_instanceOption o ho (heq.trans hlong)
    exact ⟨hgiven rfl, ValueKind.checkAll_eq_ok.1 hcheck⟩
  obtain ⟨s, values, hvalue, hs, hmem⟩ :=
    Matches.exists_value? hhas fun e he hlong => (hsound e he hlong).1
  have hvalid : instanceNameFault? s = none := by
    have hcheck := (hsound _ hmem rfl).2 s hs
    rw [ValueKind.check] at hcheck
    split at hcheck
    · next hnone => exact Option.isNone_iff_eq_none.1 hnone
    · cases hcheck
  have hinst : (ofMatches env r.taken).inst = some ⟨s, hvalid⟩ := by
    change (r.taken.value? "instance").bind _ = _
    rw [hvalue]
    exact congrArg Except.toOption (InstanceName.parse_text ⟨s, hvalid⟩)
  rw [hinst] at hnone
  cases hnone

theorem ofMatches_concat {m : Matches} (hfresh : m.has "instance" = false) (name : InstanceName) :
    ofMatches env (m ++ [("instance", [name.text])]) =
      { ofMatches env m with inst := some name } := by
  have hinst : instanceOf (m ++ [("instance", [name.text])]) instanceOption = some name := by
    have hvalue : Matches.value? (m ++ [("instance", [name.text])]) "instance" = some name.text := by
      rw [Matches.value?, Matches.values, List.flatMap_append]
      change (Matches.values m "instance" ++ _).head? = _
      rw [Matches.values_of_has_eq_false hfresh]
      rfl
    change (Matches.value? _ "instance").bind _ = _
    rw [hvalue]
    exact congrArg Except.toOption (InstanceName.parse_text name)
  simp (disch := decide) only [ofMatches, hinst, pidsOf, configOf, Matches.path?, Matches.isSet,
    Matches.value?, Matches.values_concat_of_ne, Matches.has_concat_of_ne]

/-- The first of the two words begins the option for the instance, whatever was before it. -/
theorem word_instance {r settled : Reading} (hr : r.Sound command.allOptions)
    (hsettle : r.settle = .ok settled) :
    r.word command.allOptions "--instance" =
      .ok { settled with
        pending := some (instanceOption, [])
        expecting := .valueOf instanceOption } := by
  rw [Reading.word_eq_long hr.unended (Reading.takesAnything_eq_false hr takesHyphens_eq_false)
    (show "--instance".toList = '-' :: '-' :: 'i' :: "nstance".toList by rfl)]
  have hlong : r.long command.allOptions ('i' :: "nstance".toList) = r.collect instanceOption := by
    rfl
  rw [hlong]
  exact Reading.collect_eq_ok.2 ⟨settled, hsettle, rfl⟩

/-- The second word is taken for the name if it does not look like an option. -/
theorem words_name {r : Reading} (hexpecting : r.expecting = .valueOf instanceOption)
    (hpending : r.pending = some (instanceOption, [])) (hfresh : r.taken.has "instance" = false)
    (name : InstanceName) (hname : ¬ Reading.LooksLikeOption name.text) :
    r.words command.allOptions [name.text] = .ok
      ⟨r.taken ++ [("instance", [name.text])], none, .option⟩ := by
  have hvalue : r.word command.allOptions name.text =
      .ok ⟨r.taken, some (instanceOption, [name.text]), .option⟩ := by
    rw [Reading.word_eq_value (by rw [hexpecting]; exact fun h => (nomatch h)) hname, Reading.value,
      hexpecting, hpending]
    rfl
  refine bind_eq_ok.2 ⟨_, hvalue, ?_⟩
  have hcheck : ValueKind.instanceName.checkAll [name.text] = .ok () := by
    refine ValueKind.checkAll_eq_ok.2 fun s hs => ?_
    obtain rfl := List.mem_singleton.1 hs
    rw [ValueKind.check, name.valid]
    rfl
  exact (Reading.settle_of_some rfl).trans (Reading.take_eq_ok.2
    ⟨fun _ => List.cons_ne_nil _ _, fun _ => hfresh, hcheck, rfl, rfl⟩)

/-- A hook understands what a dispatcher makes of arguments that it understands by themselves, with
the instance and nothing else changed, exactly if the name of the instance does not look like an
option. -/
theorem read_hookArgs {q : RunRequest} (hread : read env q.args = .ok o) (hopen : "--" ∉ q.args)
    (hnone : o.inst = none) (i : Instance) :
    read env (Dispatcher.hookArgs q i) = .ok { o with inst := some i.name } ↔
      ¬ Reading.LooksLikeOption i.name.text := by
  obtain ⟨settled, hwords, hvars, rfl⟩ := read_eq_ok.1 hread
  rw [Reading.words_eq_feed] at hwords
  obtain ⟨r, hfeed, hsettle⟩ := bind_eq_ok.1 hwords
  have hr := (Reading.sound_start command.allOptions).feed hopen hfeed
  have hfresh := has_instance_eq_false (hr.settle hsettle) hnone
  -- what was read of the arguments by themselves is settled by the first of the two words
  have hargs : Reading.start.words command.allOptions (Dispatcher.hookArgs q i) =
      Reading.words command.allOptions
        { settled with
          pending := some (instanceOption, [])
          expecting := .valueOf instanceOption } [i.name.text] := by
    rw [Dispatcher.hookArgs, Reading.words_append, hfeed]
    change (r.word command.allOptions "--instance" >>= fun r => r.words _ [i.name.text]) = _
    rw [word_instance hr hsettle]
    rfl
  constructor
  · intro h hlooks
    obtain ⟨final, hfinal, -⟩ := read_eq_ok.1 h
    rw [hargs] at hfinal
    exact Reading.words_ne_ok rfl rfl rfl hlooks hfinal
  · intro hname
    have hname' := words_name (r := ⟨settled.taken, _, _⟩) rfl rfl hfresh i.name hname
    refine read_eq_ok.2 ⟨_, hargs.trans hname', ?_, ?_⟩
    · exact (checkVariables_concat (by decide +kernel)).trans hvars
    · exact (ofMatches_concat hfresh i.name).symm

/-- After an option that takes values to its end. -/
theorem read_hookArgs_calls :
    let q : RunRequest := ⟨"trace_syscalls", ["-p", "1", "-s", "openat"], none, true⟩
    let i : Instance := ⟨⟨"kube_0123456789a", by decide⟩, "/t/instances/kube_0123456789a"⟩
    ∃ o, read .empty q.args = .ok o ∧ "--" ∉ q.args ∧ o.inst = none ∧
      read .empty (Dispatcher.hookArgs q i) = .ok { o with inst := some i.name } := by
  intro q i
  have hread : read .empty q.args =
      .ok ⟨[1], [], none, 0, false, ["openat"], ⟨none, none, false⟩⟩ := by rfl
  refine ⟨_, hread, by decide, rfl, (read_hookArgs hread (by decide) rfl i).2 ?_⟩
  rintro ⟨c, rest, h⟩
  have hfirst : "kube_0123456789a".toList.head? = some 'k' := by decide
  exact absurd ((congrArg List.head? h).symm.trans hfirst) (by simp)

/-- A name with a dash in front is valid, and the hook does not take it. -/
theorem read_hookArgs_dash :
    let q : RunRequest := ⟨"trace_syscalls", ["-p", "1"], some ⟨"-x", by decide⟩, false⟩
    let i : Instance := ⟨⟨"-x", by decide⟩, "/t/instances/-x"⟩
    ∃ o, read .empty q.args = .ok o ∧ "--" ∉ q.args ∧ o.inst = none ∧
      read .empty (Dispatcher.hookArgs q i) = .error .unknownWord ∧
      read .empty (Dispatcher.hookArgs q i) ≠ .ok { o with inst := some i.name } := by
  intro q i
  have hread : read .empty q.args =
      .ok ⟨[1], [], none, 0, false, [], ⟨none, none, false⟩⟩ := by rfl
  have hunknown : read .empty ["-p", "1", "--instance", "-x"] = .error .unknownWord := by rfl
  refine ⟨_, hread, by decide, rfl, hunknown, fun h => ?_⟩
  cases hunknown.symm.trans h

end KernelTrace.Commands.SyscallsOptions
