import Mathlib
import KernelTrace.Processes.Stat
import KernelTrace.Proofs.LossyText
import KernelTrace.Proofs.Numerals

/-!
# What a status line says

The command in a status line is whatever the process calls itself, so it can look like the end of one
status line and the beginning of another. What it cannot do is move the parentheses around it. In
front of the first there is a number, behind the last there are a letter and numbers, and none of
them has a parenthesis in it; nor can bytes that are no text swallow a parenthesis, which is ASCII.
So a line is taken apart where it was put together (`StatLine.ofBytes?_content`).

That rests on two things read back: numbers from their decimal digits (`Number.integer?_toString`)
and lines from their parts, for which there is a grammar (`ProcessStat.ofChars?_eq_some`).
-/

namespace KernelTrace

/-! ## The grammar of a status line -/

namespace StatField

/-- Whether a number is in the range of the field's type. -/
def Holds : StatField → Int → Prop
  | signed bits, n => -2 ^ (bits - 1) ≤ n ∧ n < 2 ^ (bits - 1)
  | unsigned bits, n => 0 ≤ n ∧ n < 2 ^ bits

instance (f : StatField) (n : Int) : Decidable (f.Holds n) :=
  match f with
  | signed _ => inferInstanceAs (Decidable (_ ∧ _))
  | unsigned _ => inferInstanceAs (Decidable (_ ∧ _))

theorem Holds.accepts {f : StatField} {n : Int} (h : f.Holds n) :
    f.accepts (toString n).toList = true := by
  cases f with
  | signed bits =>
      rw [StatField.accepts, Number.integer?_toString h.1 h.2]
      rfl
  | unsigned bits =>
      obtain ⟨hlow, hhigh⟩ := h
      rw [Number.two_pow] at hhigh
      obtain ⟨m, rfl⟩ := Int.eq_ofNat_of_zero_le hlow
      have hm : m < Nat.pow 2 bits := by
        change m < 2 ^ bits
        omega
      have hread : Number.natural? bits (toString m).toList = some m :=
        Number.unsigned?_toString hm
      change (Number.natural? bits (toString m).toList).isSome = true
      rw [hread]
      rfl

end StatField

namespace ProcessStat

/-- `Describes line s`: a line is a number, a character, the command in parentheses, a character and
what is behind it, in which the state and the integers are separated by single spaces. The command
is in the outermost parentheses of the line. -/
inductive Describes : List Char → ProcessStat → Prop
  | intro {front command rest extra : List Char} {gap gap' state : Char} {pid : Int}
      {numbers : List (List Char)}
      (opening : '(' ∉ front ++ [gap])
      (closing : ')' ∉ gap' :: rest)
      (number : Number.integer? 32 front = some pid)
      (separated : pieces ' ' rest = (state :: extra) :: numbers)
      (integers : acceptsAll fields numbers = true) :
      Describes (front ++ [gap] ++ '(' :: (command ++ ')' :: gap' :: rest))
        ⟨pid, .ofList command, state⟩

variable {c : Char} {cs a b : List Char}

theorem splitLast?_append (h : c ∉ b) : splitLast? c (a ++ c :: b) = some (a, b) := by
  have hreverse : (a ++ c :: b).reverse = b.reverse ++ c :: a.reverse := by simp
  have hb : c ∉ b.reverse := mt List.mem_reverse.1 h
  rw [splitLast?, if_pos (by simp), hreverse, takeWhile_ne_append hb (by simp),
    dropWhile_ne_append hb (by simp)]
  simp

theorem splitLast?_eq_some : splitLast? c cs = some (a, b) ↔ cs = a ++ c :: b ∧ c ∉ b := by
  constructor
  · intro h
    by_cases hmem : c ∈ cs
    · -- the last occurrence is the first one from behind
      obtain ⟨back, front, hreverse, hback⟩ :=
        List.eq_append_cons_of_mem (List.mem_reverse.2 hmem)
      obtain rfl : cs = front.reverse ++ c :: back.reverse := by
        rw [← List.reverse_reverse cs, hreverse]
        simp
      have hlast : c ∉ back.reverse := mt List.mem_reverse.1 hback
      rw [splitLast?_append hlast] at h
      cases h
      exact ⟨rfl, hlast⟩
    · rw [splitLast?, if_neg hmem] at h
      cases h
  · rintro ⟨rfl, h⟩
    exact splitLast?_append h

theorem stateOf?_eq_some {state : Char} : stateOf? cs = some state ↔
    ∃ extra numbers, pieces ' ' cs = (state :: extra) :: numbers ∧
      acceptsAll fields numbers = true := by
  rw [stateOf?]
  match pieces ' ' cs with
  | [] | [] :: _ => simp
  | (c :: extra) :: numbers =>
      dsimp only
      constructor
      · intro h
        split at h
        · next haccepts =>
            cases h
            exact ⟨extra, numbers, rfl, haccepts⟩
        · cases h
      · rintro ⟨_, _, heq, haccepts⟩
        cases heq
        rw [if_pos haccepts]

/-- A text is read as a status line just if it is one. -/
theorem ofChars?_eq_some {s : ProcessStat} :
    ofChars? cs = some s ↔ Describes (Blank.trim cs) s := by
  rw [ofChars?]
  generalize Blank.trim cs = line
  constructor
  · intro h
    obtain ⟨⟨command, rest⟩, hsplit, h⟩ := Option.bind_eq_some_iff.1 h
    obtain ⟨hline, hclosing⟩ := splitLast?_eq_some.1 hsplit
    dsimp only at h
    split at h
    · cases h
    next hfront =>
    obtain ⟨pid, hpid, h⟩ := Option.bind_eq_some_iff.1 h
    split at h
    · cases h
    next hrest =>
    obtain ⟨state, hstate, h⟩ := Option.bind_eq_some_iff.1 h
    cases h
    obtain ⟨extra, numbers, hpieces, haccepts⟩ := stateOf?_eq_some.1 hstate
    have hmem : '(' ∈ line := by
      by_contra hnone
      rw [← List.append_nil line, dropWhile_ne_append hnone (by simp)] at hline
      simp at hline
    obtain ⟨front, after, rfl, hopening⟩ := List.eq_append_cons_of_mem hmem
    rw [dropWhile_ne_append hopening (by simp)] at hline
    rw [takeWhile_ne_append hopening (by simp)] at hfront hpid
    obtain ⟨front, gap, rfl⟩ := List.eq_nil_or_concat front |>.resolve_left hfront
    obtain ⟨gap', rest, rfl⟩ := List.exists_cons_of_ne_nil hrest
    obtain rfl : after = command ++ ')' :: gap' :: rest := hline
    rw [List.concat_eq_append] at hopening hpid ⊢
    rw [List.dropLast_concat] at hpid
    exact .intro hopening hclosing hpid hpieces haccepts
  · rintro ⟨opening, closing, number, separated, integers⟩
    rw [takeWhile_ne_append opening (by simp), dropWhile_ne_append opening (by simp),
      List.drop_succ_cons, List.drop_zero, splitLast?_append closing]
    simp only [bind, Option.bind_some]
    rw [if_neg (by simp), List.dropLast_concat, number]
    simp only [Option.bind_some]
    rw [if_neg (by simp), List.drop_succ_cons, List.drop_zero,
      stateOf?_eq_some.2 ⟨_, _, separated, integers⟩]
    rfl

end ProcessStat

/-! ## What the system writes -/

/-- What the system has to say about a process. The command is any bytes. -/
structure StatLine where
  pid : Int
  command : Bytes
  state : Char
  numbers : List Int
  /-- What later systems tell in addition. -/
  more : List Int
  pid_holds : (StatField.signed 32).Holds pid
  state_letter : state.isAlpha = true
  numbers_hold : List.Forall₂ StatField.Holds ProcessStat.fields numbers

namespace StatLine

variable {c : Char} {n : Int} {cs : List Char}

/-- The characters of a number. -/
def numeral (n : Int) : List Char := (toString n).toList

/-- The state and the numbers, separated by single spaces. -/
def status (l : StatLine) : List Char :=
  [l.state] ++ (l.numbers ++ l.more).flatMap fun n => ' ' :: numeral n

/-- The line that the system writes. -/
def content (l : StatLine) : Bytes :=
  Utf8.encode (toString l.pid ++ " (") ++ l.command ++ Utf8.encode (") " ++ .ofList l.status)

/-- The record that the line stands for. -/
def stat (l : StatLine) : ProcessStat := ⟨l.pid, Utf8.decodeLossy l.command, l.state⟩

/-- Whether a character can be in front of the command or behind it. -/
def IsPlain (c : Char) : Prop := c = ' ' ∨ c = '-' ∨ c.isAlphanum = true

theorem IsPlain.range (h : IsPlain c) (hne : c ≠ ' ') : 45 ≤ c.toNat ∧ c.toNat ≤ 122 := by
  rcases h with rfl | rfl | h
  · exact absurd rfl hne
  · decide
  · simp only [Char.isAlphanum, Char.isAlpha, Char.isUpper, Char.isLower, Char.isDigit,
      Bool.or_eq_true, Bool.and_eq_true, decide_eq_true_eq, ge_iff_le, UInt32.le_iff_toNat_le,
      Char.toNat_val, Char.reduceToNat] at h
    omega

theorem not_isPlain_of_parenthesis (h : c = '(' ∨ c = ')') : ¬ IsPlain c := by
  rintro hplain
  rcases h with rfl | rfl <;> exact absurd (hplain.range (by decide)).1 (by decide)

theorem IsPlain.not_blank (h : IsPlain c) (hne : c ≠ ' ') : Blank.isBlank c = false := by
  have := h.range hne
  simp only [Blank.isBlank, Bool.or_eq_false_iff, Bool.and_eq_false_iff, decide_eq_false_iff_not]
  omega

theorem isPlain_of_mem_numeral (h : c ∈ numeral n) : IsPlain c ∧ c ≠ ' ' := by
  obtain hdigit | rfl := Number.mem_toString h
  · refine ⟨.inr (.inr ?_), ?_⟩
    · rw [Char.isAlphanum, hdigit, Bool.or_true]
    · rintro rfl
      exact absurd hdigit (by decide)
  · exact ⟨.inr (.inl rfl), by decide⟩

theorem numeral_ne_nil (n : Int) : numeral n ≠ [] := by
  cases n with
  | ofNat m =>
      change (toString m).toList ≠ []
      rw [Number.toList_toString]
      exact Nat.toDigits_ne_nil
  | negSucc m =>
      have htext : numeral (.negSucc m) = '-' :: (toString (m + 1)).toList := String.toList_append
      rw [htext]
      exact List.cons_ne_nil _ _

theorem pieces_status (hcs : ' ' ∉ cs) (ns : List Int) :
    pieces ' ' (cs ++ ns.flatMap fun n => ' ' :: numeral n) = cs :: ns.map numeral := by
  induction ns generalizing cs with
  | nil => rw [List.flatMap_nil, List.append_nil, pieces_of_notMem hcs, List.map_nil]
  | cons n rest ih =>
      have hn : ' ' ∉ numeral n := fun h => (isPlain_of_mem_numeral h).2 rfl
      rw [List.flatMap_cons, List.cons_append, pieces_append, pieces_of_notMem hcs, ih hn,
        List.map_cons, List.singleton_append]

theorem acceptsAll_numerals {fs : List StatField} {ns : List Int}
    (h : List.Forall₂ StatField.Holds fs ns) (more : List Int) :
    ProcessStat.acceptsAll fs ((ns ++ more).map numeral) = true := by
  induction h with
  | nil => rfl
  | cons hn _ ih =>
      rw [List.cons_append, List.map_cons, ProcessStat.acceptsAll, ih, Bool.and_true]
      exact hn.accepts

theorem getLast?_status (hcs : ∀ c ∈ cs.getLast?, Blank.isBlank c = false) (ns : List Int) :
    ∀ c ∈ (cs ++ ns.flatMap fun n => ' ' :: numeral n).getLast?, Blank.isBlank c = false := by
  induction ns generalizing cs with
  | nil => rwa [List.flatMap_nil, List.append_nil]
  | cons n rest ih =>
      rw [List.flatMap_cons, ← List.append_assoc]
      refine ih fun c hc => ?_
      have hlast : c ∈ (numeral n).getLast? := by
        rwa [List.append_cons, List.getLast?_append_of_ne_nil _ (numeral_ne_nil n)] at hc
      obtain ⟨hplain, hne⟩ := isPlain_of_mem_numeral (List.mem_of_getLast? hlast)
      exact hplain.not_blank hne

variable (l : StatLine)

theorem state_plain : IsPlain l.state ∧ l.state ≠ ' ' := by
  refine ⟨.inr (.inr ?_), fun heq => ?_⟩
  · rw [Char.isAlphanum, l.state_letter, Bool.true_or]
  · have hletter := l.state_letter
    rw [heq] at hletter
    exact absurd hletter (by decide)

theorem isPlain_status : ∀ c ∈ l.status, IsPlain c := by
  intro c hc
  rcases List.mem_append.1 hc with hc | hc
  · rw [List.mem_singleton.1 hc]
    exact l.state_plain.1
  · obtain ⟨n, -, hc⟩ := List.mem_flatMap.1 hc
    rcases List.mem_cons.1 hc with rfl | hc
    · exact .inl rfl
    · exact (isPlain_of_mem_numeral hc).1

theorem isPlain_front : ∀ c ∈ numeral l.pid ++ [' '], IsPlain c := by
  intro c hc
  rcases List.mem_append.1 hc with hc | hc
  · exact (isPlain_of_mem_numeral hc).1
  · exact .inl (List.mem_singleton.1 hc)

theorem isPlain_back : ∀ c ∈ ' ' :: l.status, IsPlain c :=
  List.forall_mem_cons.2 ⟨.inl rfl, l.isPlain_status⟩

/-- The characters that the line is read as. -/
def line (l : StatLine) : List Char :=
  numeral l.pid ++ [' '] ++ '(' :: (Utf8.lossyChars l.command ++ ')' :: ' ' :: l.status)

theorem describes_line : ProcessStat.Describes l.line l.stat := by
  have hopening : '(' ∉ numeral l.pid ++ [' '] := fun hmem =>
    not_isPlain_of_parenthesis (.inl rfl) (l.isPlain_front _ hmem)
  have hclosing : ')' ∉ ' ' :: l.status := fun hmem =>
    not_isPlain_of_parenthesis (.inr rfl) (l.isPlain_back _ hmem)
  have hstate : ' ' ∉ [l.state] := fun hmem => l.state_plain.2 (List.mem_singleton.1 hmem).symm
  exact .intro hopening hclosing (Number.integer?_toString l.pid_holds.1 l.pid_holds.2)
    (pieces_status hstate _) (acceptsAll_numerals l.numbers_hold l.more)

theorem content_eq (ending : String) : l.content ++ Utf8.encode ending =
    Utf8.encode (toString l.pid ++ " ") ++ 0x28 ::
      (l.command ++ 0x29 :: Utf8.encode (" " ++ .ofList l.status ++ ending)) := by
  have hopen : Utf8.encode " (" = Utf8.encode " " ++ [0x28] := by decide
  have hclose : Utf8.encode ") " = [0x29] ++ Utf8.encode " " := by decide
  simp only [content, Utf8.encode_append, hopen, hclose, List.append_assoc, List.cons_append,
    List.nil_append]

theorem eq_newline_of_mem {ending : String} (h : ending = "" ∨ ending = "\n")
    (hc : c ∈ ending.toList) : c = '\n' := by
  rcases h with rfl | rfl
  · cases hc
  · exact List.mem_singleton.1 hc

/-- Cut at the parentheses, the line is read piece by piece. -/
theorem lossyChars_content (ending : String) :
    Utf8.lossyChars (l.content ++ Utf8.encode ending) = l.line ++ ending.toList := by
  have hfrontChars : (toString l.pid ++ " ").toList = numeral l.pid ++ [' '] := String.toList_append
  have hbackChars : (" " ++ .ofList l.status ++ ending).toList =
      ' ' :: l.status ++ ending.toList := by
    have hspace : " ".toList = [' '] := rfl
    rw [String.toList_append, String.toList_append, hspace, String.toList_ofList]
    rfl
  rw [content_eq, Utf8.lossyChars_append (by decide), Utf8.lossyChars_append (by decide),
    Utf8.lossyChars_encode, Utf8.lossyChars_encode, hfrontChars, hbackChars, line]
  simp only [List.append_assoc, List.cons_append]
  rfl

theorem trim_line {ending : String} (h : ending = "" ∨ ending = "\n") :
    Blank.trim (l.line ++ ending.toList) = l.line := by
  have hlast : ∀ c ∈ l.status.getLast?, Blank.isBlank c = false :=
    getLast?_status (fun c hc => by
      obtain rfl := Option.some.inj hc
      exact l.state_plain.1.not_blank l.state_plain.2) _
  refine Blank.trim_append (by simp [line]) (fun c hc => ?_) (fun c hc => ?_) fun c hc => ?_
  · obtain ⟨first, rest, hnumeral⟩ := List.exists_cons_of_ne_nil (numeral_ne_nil l.pid)
    rw [line, hnumeral] at hc
    obtain rfl : first = c := Option.some.inj hc
    obtain ⟨hplain, hne⟩ := isPlain_of_mem_numeral (hnumeral ▸ List.mem_cons_self)
    exact hplain.not_blank hne
  · have hsplit : l.line =
        numeral l.pid ++ [' '] ++ '(' :: Utf8.lossyChars l.command ++ [')', ' '] ++ l.status := by
      simp [line]
    rw [hsplit, List.getLast?_append_of_ne_nil _ (show l.status ≠ [] from nofun)] at hc
    exact hlast c hc
  · rw [eq_newline_of_mem h hc]
    decide

/-- What the system writes about a process is read as it was meant, whatever the command is. -/
theorem ofBytes?_content {ending : String} (h : ending = "" ∨ ending = "\n") :
    ProcessStat.ofBytes? (l.content ++ Utf8.encode ending) = some l.stat := by
  rw [ProcessStat.ofBytes?, ProcessStat.ofChars?_eq_some, l.lossyChars_content ending, l.trim_line h]
  exact l.describes_line

end StatLine

end KernelTrace
