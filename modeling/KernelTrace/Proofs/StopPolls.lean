import KernelTrace.Proofs.Runs
import KernelTrace.Stop

/-!
# What a poll can come to while stops are requested

A poll asks its receiver more than one thing, and between any two of them somebody may request a
stop or leave. So what is said of a poll is said for every such course of the channel: `Ends Q p v`
holds if `p`, begun with `v`, can only end in `Q`, whatever becomes of the channel before each of
its operations is answered. What does not concern the channel (the time, the processes, the branch
to begin with) gets any answer at all.

There is one lemma for each part of a poll. A part that is ready has a reason that is borne out by
what was asked and answered (`Given.Warrants`), and a part that is not leaves the wait in order
(`Given.Fits`). What makes stops last is the invariant that a wait looks for changes only as long as
its receiver has seen none. So a poll that begins after a stop was requested finds it, and is ready
(`poll_ready`).

`Waiting.await` is polls with pauses between them, and how many polls it has left has no part in
what it returns (`polls_of_awaitFrom`, `Polls.runs_awaitFrom`).
-/

namespace KernelTrace

open Program

/-! ## What can become of a channel -/

/-- Stops and the departure of those who request them can make `c'` of `c`. -/
inductive StopChannel.Becomes (c : StopChannel) : StopChannel → Prop where
  | refl : Becomes c c
  | stop {c' : StopChannel} (soFar : Becomes c c') (s : Signal) : Becomes c (c'.stop s)
  | close {c' : StopChannel} (soFar : Becomes c c') : Becomes c c'.close

namespace StopChannel

variable {c c' c'' : StopChannel}

theorem Becomes.trans (h : c.Becomes c') (h' : c'.Becomes c'') : c.Becomes c'' := by
  induction h' with
  | refl => exact h
  | stop _ s ih => exact ih.stop s
  | close _ ih => exact ih.close

theorem stop_of_open (h : c.isOpen = true) (s : Signal) :
    (c.stop s).latest = some s ∧ (c.stop s).isOpen = true := by
  rw [StopChannel.stop, if_pos h]
  exact ⟨rfl, rfl⟩

theorem stop_of_closed (h : c.isOpen = false) (s : Signal) : c.stop s = c :=
  if_neg (by rw [h]; exact Bool.false_ne_true)

theorem Becomes.latest_ne_none (h : c.Becomes c') (hlatest : c.latest ≠ none) :
    c'.latest ≠ none := by
  induction h with
  | refl => exact hlatest
  | @stop c' _ s ih =>
      cases hopen : c'.isOpen with
      | false =>
          rw [stop_of_closed hopen]
          exact ih
      | true =>
          rw [(stop_of_open hopen s).1]
          exact Option.some_ne_none s
  | close _ ih => exact ih

/-- A closed channel stays as it is. -/
theorem Becomes.of_closed (h : c.Becomes c') (hclosed : c.isOpen = false) :
    c'.isOpen = false ∧ c'.latest = c.latest := by
  induction h with
  | refl => exact ⟨hclosed, rfl⟩
  | stop _ s ih =>
      rw [stop_of_closed ih.1]
      exact ih
  | close _ ih => exact ⟨rfl, ih.2⟩

/-- `c.Hears seen op a seen'`: a receiver of `c` that has seen so many changes can be answered `a`
to `op`, and has seen `seen'` changes then. -/
def Hears (c : StopChannel) (seen : Nat) : (op : WaitOp) → op.Answer → Nat → Prop
  | .channel op, a, seen' => c.answer seen op = (a, seen')
  | _, _, seen' => seen' = seen

end StopChannel

/-! ## How a program ends -/

namespace Waiting

/-- What a receiver has before it in the course of a poll. -/
structure View where
  channel : StopChannel
  /-- How many changes it has seen. -/
  seen : Nat
  /-- What was asked and answered in this poll, latest first. -/
  asked : List (Event Waiting)

/-- `v.Hears op a v'`: whatever has become of the channel, `op` can be answered with `a`. -/
def View.Hears (v : View) (op : WaitOp) (a : op.Answer) (v' : View) : Prop :=
  v.channel.Becomes v'.channel ∧ v'.channel.Hears v.seen op a v'.seen ∧
    v'.asked = ⟨op, a⟩ :: v.asked

/-- `Ends Q p v`: begun with `v`, the program `p` can only end in `Q`. -/
def Ends {α : Type} (Q : α → View → Prop) : Program Waiting α → View → Prop
  | .done a, v => Q a v
  | .ask op next, v => ∀ a v', v.Hears op a v' → Ends Q (next a) v'

section Ends

variable {α β : Type} {Q Q' : α → View → Prop} {p : Program Waiting α} {v v' : View}

@[simp] theorem ends_pure {a : α} : Ends Q (pure a) v ↔ Q a v := Iff.rfl

@[simp] theorem ends_bind {R : β → View → Prop} {f : α → Program Waiting β} :
    Ends R (p >>= f) v ↔ Ends (fun a v' => Ends R (f a) v') p v := by
  induction p generalizing v with
  | done a => rfl
  | ask op next ih =>
      exact forall_congr' fun a => forall_congr' fun v' => imp_congr_right fun _ => ih a

@[simp] theorem ends_ask {op : WaitOp} {Q : op.Answer → View → Prop} :
    Ends Q (ask op) v ↔ ∀ a v', v.Hears op a v' → Q a v' := Iff.rfl

theorem Ends.mono (h : Ends Q p v) (hQ : ∀ a v', Q a v' → Q' a v') : Ends Q' p v := by
  induction p generalizing v with
  | done a => exact hQ a v h
  | ask op next ih => exact fun a v' hears => ih a (h a v' hears)

theorem Ends.and (h : Ends Q p v) (h' : Ends Q' p v) : Ends (fun a v' => Q a v' ∧ Q' a v') p v := by
  induction p generalizing v with
  | done a => exact ⟨h, h'⟩
  | ask op next ih => exact fun a v' hears => ih a (h a v' hears) (h' a v' hears)

/-- While a program runs, nothing that was asked is forgotten and no stop is taken back. -/
theorem ends_later (p : Program Waiting α) (v : View) :
    Ends (fun _ v' => v.channel.Becomes v'.channel ∧ v.asked ⊆ v'.asked) p v := by
  induction p generalizing v with
  | done a => exact ⟨.refl, List.Subset.refl _⟩
  | ask op next ih =>
      rintro a v' ⟨hbecomes, _, hasked⟩
      refine (ih a v').mono fun _ v'' h => ⟨hbecomes.trans h.1, fun e he => h.2 ?_⟩
      rw [hasked]
      exact List.mem_cons_of_mem _ he

end Ends

/-! ## What a receiver is told -/

theorem View.Hears.take {v v' : View} {latest : Option Signal}
    (h : v.Hears (.channel .take) latest v') :
    latest = v'.channel.latest ∧ v'.seen = v'.channel.changes := by
  obtain ⟨rfl, hseen⟩ := Prod.mk.inj h.2.1
  exact ⟨rfl, hseen.symm⟩

theorem View.Hears.peek {v v' : View} {latest : Option Signal}
    (h : v.Hears (.channel .peek) latest v') :
    latest = v'.channel.latest ∧ v'.seen = v.seen := by
  obtain ⟨rfl, hseen⟩ := Prod.mk.inj h.2.1
  exact ⟨rfl, hseen.symm⟩

/-- A receiver is told that the channel is closed only if it has seen every change. -/
theorem View.Hears.change {v v' : View} {news : ChangeNews}
    (h : v.Hears (.channel .change) news v') :
    (news = .changed ∧ v.seen ≠ v'.channel.changes) ∨
      v'.seen = v.seen ∧ v.seen = v'.channel.changes ∧
        (news = .pending ∨ news = .closed ∧ v'.channel.isOpen = false) := by
  have hanswer := h.2.1
  rw [StopChannel.Hears, StopChannel.answer] at hanswer
  split at hanswer
  · next hnew =>
      obtain ⟨rfl, -⟩ := Prod.mk.inj hanswer
      exact Or.inl ⟨rfl, hnew⟩
  · next hold =>
      obtain ⟨hnews, hseen⟩ := Prod.mk.inj hanswer
      refine Or.inr ⟨hseen.symm, Decidable.not_not.1 hold, ?_⟩
      split at hnews
      · exact Or.inl hnews.symm
      · next hshut => exact Or.inr ⟨hnews.symm, eq_false_of_ne_true hshut⟩

theorem View.Hears.asked_subset {v v' : View} {op : WaitOp} {a : op.Answer} (h : v.Hears op a v') :
    v.asked ⊆ v'.asked := by
  rw [h.2.2]
  exact List.subset_cons_self _ _

theorem View.Hears.mem_asked {v v' : View} {op : WaitOp} {a : op.Answer} (h : v.Hears op a v') :
    (⟨op, a⟩ : Event Waiting) ∈ v'.asked := by
  rw [h.2.2]
  exact List.mem_cons_self

/-! ## What a wait that is in order may report -/

/-- What a wait was begun with, and what it had asked in earlier polls. -/
structure Given where
  deadline : Option Nat
  targets : Option TargetWatch
  before : List (Event Waiting)

/-- A wait may end for the reason at this point of a poll. -/
def Given.Warrants (g : Given) (v : View) : WakeReason → Prop
  | .signal s => v.channel.latest = some s
  | .deadline => ∃ ms began now, g.deadline = some ms ∧
      (⟨.now, began⟩ : Event Waiting) ∈ v.asked ++ g.before ∧
      (⟨.now, now⟩ : Event Waiting) ∈ v.asked ∧ began + ms * 1000 ≤ now
  | .targetsExited => ∃ watch, g.targets = some watch ∧
      ∀ pid ∈ watch.pids, (⟨.isAlive watch.procfs pid, false⟩ : Event Waiting) ∈ v.asked
  | .closed => g.deadline = none ∧ g.targets = none ∧ v.channel.isOpen = false ∧
      v.channel.latest = none

/-- A wait is as far as it can have come at this point of a poll. -/
structure Given.Fits (g : Given) (v : View) (w : Progress) : Prop where
  deadline : w.deadline = g.deadline
  targets : w.targets = g.targets
  /-- It looks for changes only as long as its receiver has seen none. -/
  awaiting : w.awaitsChange = true → v.seen = 0
  closed : w.isClosed = true → v.channel.isOpen = false ∧ v.channel.latest = none
  due : ∀ due, w.due = some due → ∃ ms began, g.deadline = some ms ∧
    (⟨.now, began⟩ : Event Waiting) ∈ v.asked ++ g.before ∧ due = began + ms * 1000

/-- A wait is in order and may end for the reason. -/
def Given.FitsWarranted (g : Given) (v : View) (w : Progress) (reason : WakeReason) : Prop :=
  g.Fits v w ∧ g.Warrants v reason

/-- A wait is in order and a stop was requested. -/
def Given.Alerted (g : Given) (v : View) (w : Progress) : Prop :=
  g.Fits v w ∧ v.channel.latest ≠ none

/-- How a part of a poll ends: it is not ready and `N` holds, or it is ready and `R` holds. -/
def Polled {α : Type} (N : View → Progress → Prop) (R : View → Progress → α → Prop) :
    Option α × Progress → View → Prop
  | (none, w), v => N v w
  | (some a, w), v => R v w a

/-- Polled where `P` holds, a part of a poll leaves `N` if it is not ready, and `R` if it is. -/
def Branch.Meets {α : Type} (P N : View → Progress → Prop) (R : View → Progress → α → Prop)
    (b : Branch α) : Prop :=
  ∀ v w, P v w → Ends (Polled N R) (b w) v

/-- What is left by a part of a poll that is always ready. -/
abbrev Never : View → Progress → Prop := fun _ _ => False

variable {g : Given} {v v' : View} {w : Progress}

/-- A wait stays in order whatever is asked and answered, if it looks for changes only as long as
its receiver has seen none. -/
theorem Given.Fits.later (h : g.Fits v w) (hbecomes : v.channel.Becomes v'.channel)
    (hasked : v.asked ⊆ v'.asked) {awaits : Bool} (hawaits : awaits = true → v'.seen = 0) :
    g.Fits v' { w with awaitsChange := awaits } where
  deadline := h.deadline
  targets := h.targets
  awaiting := hawaits
  closed hclosed :=
    have ⟨hshut, hlatest⟩ := h.closed hclosed
    have ⟨hshut', hlatest'⟩ := hbecomes.of_closed hshut
    ⟨hshut', hlatest'.trans hlatest⟩
  due due hdue := by
    obtain ⟨ms, began, hms, hbegan, heq⟩ := h.due due hdue
    refine ⟨ms, began, hms, ?_, heq⟩
    rcases List.mem_append.1 hbegan with hmem | hmem
    · exact List.mem_append_left _ (hasked hmem)
    · exact List.mem_append_right _ hmem

/-- What is no business of the receiver leaves a wait in order. -/
theorem Given.Fits.hears (h : g.Fits v w) {op : WaitOp} {a : op.Answer} (hears : v.Hears op a v')
    (hseen : v'.seen = v.seen) : g.Fits v' w :=
  h.later hears.1 hears.asked_subset fun hawaits => hseen.trans (h.awaiting hawaits)

/-- A search for a stop that is ready has found the latest one, or that there is none on a closed
channel. -/
theorem nextStop_sound (steps : Nat) :
    (nextStop steps).Meets g.Fits g.Fits fun v w found => g.Fits v w ∧
      v.channel.latest = found ∧ (found = none → v.channel.isOpen = false) := by
  induction steps with
  | zero => exact fun _ _ h => h
  | succ steps ih =>
      intro v w h
      rw [nextStop]
      split
      · next hawaits =>
          have hunseen := h.awaiting hawaits
          rw [ends_bind, ends_ask]
          intro news v₁ hears
          rcases hears.change with ⟨rfl, _⟩ | ⟨hseen, hall, rfl | ⟨rfl, hshut⟩⟩
          · exact ih _ _ (h.later hears.1 hears.asked_subset nofun)
          · exact h.hears hears hseen
          · rw [ends_bind, ends_ask]
            intro latest v₂ hears'
            obtain ⟨rfl, hseen'⟩ := hears'.peek
            refine ⟨(h.hears hears hseen).hears hears' hseen', rfl, fun _ => ?_⟩
            exact (hears'.1.of_closed hshut).1
      · next hawaits =>
          rw [ends_bind, ends_ask]
          intro latest v₁ hears
          obtain ⟨rfl, hseen⟩ := hears.take
          split
          · next s hlatest =>
              exact ⟨h.later hears.1 hears.asked_subset (absurd · hawaits), hlatest, nofun⟩
          · next hlatest =>
              exact ih _ _ (h.later hears.1 hears.asked_subset fun _ =>
                hseen.trans (v₁.channel.unchanged.1 hlatest))

/-- Once a stop was requested, a search of two steps finds one. -/
theorem nextStop_ready (steps : Nat) :
    (nextStop (steps + 2)).Meets g.Alerted Never fun _ _ found => found ≠ none := by
  have htake : ∀ (steps : Nat) (v : View) (w : Progress), w.awaitsChange = false →
      v.channel.latest ≠ none →
      Ends (Polled Never fun _ _ found => found ≠ none) (nextStop (steps + 1) w) v := by
    intro steps v w hawaits hlatest
    rw [nextStop, if_neg (by rw [hawaits]; exact Bool.false_ne_true), ends_bind, ends_ask]
    intro latest v' hears
    obtain ⟨rfl, -⟩ := hears.take
    split
    · exact Option.some_ne_none _
    · next hnone => exact absurd hnone (hears.1.latest_ne_none hlatest)
  rintro v w ⟨h, hlatest⟩
  cases hawaits : w.awaitsChange with
  | false => exact htake (steps + 1) v w hawaits hlatest
  | true =>
      rw [nextStop, if_pos hawaits, ends_bind, ends_ask]
      intro news v₁ hears
      have hlatest₁ := hears.1.latest_ne_none hlatest
      -- The receiver of a wait that looks for changes has seen none, so it is told of this one.
      rcases hears.change with ⟨rfl, _⟩ | ⟨_, hall, _⟩
      · exact htake steps v₁ _ rfl hlatest₁
      · exact absurd (v₁.channel.unchanged.2 (hall.symm.trans (h.awaiting hawaits))) hlatest₁

theorem sleep_sound : sleep.Meets g.Fits g.Fits g.FitsWarranted := by
  intro v w h
  rw [sleep]
  split
  · exact h
  · next ms hms =>
      rw [ends_bind, ends_ask]
      intro now v₁ hears
      have h₁ := h.hears hears hears.2.1
      have hdue : ∃ began, (⟨.now, began⟩ : Event Waiting) ∈ v₁.asked ++ g.before ∧
          w.due.getD (now + ms * 1000) = began + ms * 1000 := by
        cases hbegun : w.due with
        | none => exact ⟨now, List.mem_append_left _ hears.mem_asked, rfl⟩
        | some due =>
            obtain ⟨ms', began, hms', hbegan, heq⟩ := h₁.due due hbegun
            rw [← h.deadline, hms] at hms'
            cases hms'
            exact ⟨began, hbegan, heq⟩
      obtain ⟨began, hbegan, heq⟩ := hdue
      have hfits : g.Fits v₁ { w with due := some (w.due.getD (now + ms * 1000)) } :=
        { h₁ with
          due := fun due hsome => by
            cases hsome
            exact ⟨ms, began, h.deadline.symm.trans hms, hbegan, heq⟩ }
      rw [ends_pure]
      split
      · next hover =>
          exact ⟨hfits, ms, began, now, h.deadline.symm.trans hms, hbegan, hears.mem_asked,
            heq ▸ hover⟩
      · exact hfits

/-- A look at the targets is none of the receiver's business. It finds none of them running only if
it has looked at each. -/
theorem anyOf_ends (procfs : Path) (pids : List Pid) (v : View) :
    Ends (fun alive v' => v'.seen = v.seen ∧
      (alive = false → ∀ pid ∈ pids, (⟨.isAlive procfs pid, false⟩ : Event Waiting) ∈ v'.asked))
      (TargetWatch.anyOf (fun pid => ask (.isAlive procfs pid)) pids) v := by
  induction pids generalizing v with
  | nil => exact ⟨rfl, fun _ _ hmem => absurd hmem List.not_mem_nil⟩
  | cons pid rest ih =>
      rw [TargetWatch.anyOf, ends_bind]
      refine (@ends_ask v (.isAlive procfs pid) _).2 ?_
      rintro (_ | _) v₁ hears
      · refine ((ih v₁).and (ends_later _ v₁)).mono ?_
        rintro alive v₂ ⟨⟨hseen, hrest⟩, _, hasked⟩
        refine ⟨hseen.trans hears.2.1, fun hnone p hmem => ?_⟩
        rcases List.mem_cons.1 hmem with rfl | hmem
        · exact hasked hears.mem_asked
        · exact hrest hnone p hmem
      · exact ⟨hears.2.1, nofun⟩

theorem exited_sound : exited.Meets g.Fits g.Fits g.FitsWarranted := by
  intro v w h
  rw [exited]
  split
  · exact h
  · next watch hwatch =>
      rw [ends_bind, ends_ask]
      intro now v₁ hears
      have h₁ := h.hears hears hears.2.1
      have hfits : ∀ {v : View} (tick : Nat), g.Fits v w → g.Fits v { w with tick := some tick } :=
        fun _ h => { h with }
      dsimp only
      split
      · rw [ends_bind]
        refine ((anyOf_ends watch.procfs watch.pids v₁).and (ends_later _ v₁)).mono ?_
        rintro alive v₂ ⟨⟨hseen, hnone⟩, hbecomes, hasked⟩
        have h₂ : g.Fits v₂ w :=
          h₁.later hbecomes hasked fun hawaits => hseen.trans (h₁.awaiting hawaits)
        cases alive with
        | false => exact ⟨hfits _ h₂, watch, h.targets.symm.trans hwatch, hnone rfl⟩
        | true => exact hfits _ h₂
      · exact hfits _ h₁

/-! ## Polling the branches -/

section

variable {α β : Type} {P N : View → Progress → Prop} {R : View → Progress → α → Prop}

theorem Branch.Meets.mono {N' : View → Progress → Prop} {R' : View → Progress → α → Prop}
    {b : Branch α} (h : b.Meets P N R) (hN : ∀ v w, N v w → N' v w)
    (hR : ∀ v w a, R v w a → R' v w a) : b.Meets P N' R' := by
  intro v w hP
  refine (h v w hP).mono ?_
  rintro ⟨_ | a, w'⟩ v' hpolled
  · exact hN v' w' hpolled
  · exact hR v' w' a hpolled

theorem Branch.Meets.map {f : β → α} {b : Branch β}
    (h : b.Meets P N fun v w a => R v w (f a)) : (b.map f).Meets P N R := by
  intro v w hP
  rw [Branch.map, ends_bind]
  refine (h v w hP).mono ?_
  rintro ⟨_ | a, w'⟩ v' hpolled
  · exact hpolled
  · exact hpolled

/-- A stop that was requested stays so in the course of any poll. -/
theorem Branch.Meets.alerted {b : Branch α} (h : b.Meets g.Fits g.Fits R) :
    b.Meets g.Alerted g.Alerted R := by
  rintro v w ⟨hfits, hlatest⟩
  refine ((h v w hfits).and (ends_later _ v)).mono ?_
  rintro ⟨_ | a, w'⟩ v' ⟨hpolled, hbecomes, _⟩
  · exact ⟨hpolled, hbecomes.latest_ne_none hlatest⟩
  · exact hpolled

theorem firstReady_meets {bs : List (Branch α)} (hbs : ∀ b ∈ bs, b.Meets P P R) :
    (firstReady bs).Meets P P R := by
  induction bs with
  | nil => exact fun _ _ hP => hP
  | cons b rest ih =>
      intro v w hP
      rw [firstReady, ends_bind]
      refine (hbs b List.mem_cons_self v w hP).mono ?_
      rintro ⟨_ | a, w'⟩ v' hpolled
      · exact ih (fun b hmem => hbs b (List.mem_cons_of_mem _ hmem)) v' w' hpolled
      · exact hpolled

/-- Every branch is polled unless one before it is ready, so one that is always ready is enough. -/
theorem firstReady_ready {bs : List (Branch α)} (hbs : ∀ b ∈ bs, b.Meets P P R)
    (hready : ∃ b ∈ bs, b.Meets P Never R) : (firstReady bs).Meets P Never R := by
  induction bs with
  | nil =>
      obtain ⟨b, hmem, _⟩ := hready
      exact absurd hmem List.not_mem_nil
  | cons b rest ih =>
      intro v w hP
      rw [firstReady, ends_bind]
      obtain ⟨b₀, hmem, hready⟩ := hready
      rcases List.mem_cons.1 hmem with rfl | hmem
      · refine (hready v w hP).mono ?_
        rintro ⟨_ | a, w'⟩ v' hpolled
        · exact hpolled.elim
        · exact hpolled
      · refine (hbs b List.mem_cons_self v w hP).mono ?_
        rintro ⟨_ | a, w'⟩ v' hpolled
        · exact ih (fun b hmem => hbs b (List.mem_cons_of_mem _ hmem)) ⟨b₀, hmem, hready⟩ v' w'
            hpolled
        · exact hpolled

theorem mem_rotateLeft {bs : List (Branch α)} {b : Branch α} {n : Nat} :
    b ∈ bs.rotateLeft n ↔ b ∈ bs := by
  rw [List.rotateLeft]
  split
  · rfl
  · rw [List.mem_append, or_comm, ← List.mem_append, List.take_append_drop]

/-- Where to begin may be picked without that a wait gets out of order. -/
theorem select_meets {bs : List (Branch α)} (hbs : ∀ b ∈ bs, b.Meets g.Fits g.Fits R) :
    (select bs).Meets g.Fits g.Fits R := by
  intro v w h
  rw [select, ends_bind, ends_ask]
  intro start v₁ hears
  exact firstReady_meets (fun b hmem => hbs b (mem_rotateLeft.1 hmem)) v₁ w
    (h.hears hears hears.2.1)

theorem select_ready {bs : List (Branch α)} (hbs : ∀ b ∈ bs, b.Meets g.Alerted g.Alerted R)
    (hready : ∃ b ∈ bs, b.Meets g.Alerted Never R) : (select bs).Meets g.Alerted Never R := by
  rintro v w ⟨h, hlatest⟩
  obtain ⟨b, hmem, hready⟩ := hready
  rw [select, ends_bind, ends_ask]
  intro start v₁ hears
  exact firstReady_ready (fun b hmem => hbs b (mem_rotateLeft.1 hmem))
    ⟨b, mem_rotateLeft.2 hmem, hready⟩ v₁ w
    ⟨h.hears hears hears.2.1, hears.1.latest_ne_none hlatest⟩

end

/-! ## Polls -/

/-- A wait that goes on without the channel. -/
theorem unsignalled_sound : (select [sleep, exited]).Meets g.Fits g.Fits g.FitsWarranted :=
  select_meets (List.forall_mem_cons.2 ⟨sleep_sound, List.forall_mem_singleton.2 exited_sound⟩)

/-- A poll that is ready has a reason, and one that is not leaves the wait in order. -/
theorem poll_sound : poll.Meets g.Fits g.Fits g.FitsWarranted := by
  have hselect : (select [(nextStop budget).map (Option.map .signal), sleep.map some,
      exited.map some]).Meets g.Fits g.Fits fun v w found => g.Fits v w ∧
        (∀ reason, found = some reason → g.Warrants v reason) ∧
        (found = none → v.channel.isOpen = false ∧ v.channel.latest = none) := by
    refine select_meets (List.forall_mem_cons.2 ⟨?_, List.forall_mem_cons.2 ⟨?_,
      List.forall_mem_singleton.2 ?_⟩⟩)
    · refine Branch.Meets.map ((nextStop_sound budget).mono (fun _ _ h => h) ?_)
      rintro v w (_ | s) ⟨h, hlatest, hshut⟩
      · exact ⟨h, nofun, fun _ => ⟨hshut rfl, hlatest⟩⟩
      · refine ⟨h, fun reason heq => ?_, nofun⟩
        cases heq
        exact hlatest
    · refine Branch.Meets.map (sleep_sound.mono (fun _ _ h => h) ?_)
      rintro v w reason ⟨h, hwarrants⟩
      exact ⟨h, fun _ heq => Option.some.inj heq ▸ hwarrants, nofun⟩
    · refine Branch.Meets.map (exited_sound.mono (fun _ _ h => h) ?_)
      rintro v w reason ⟨h, hwarrants⟩
      exact ⟨h, fun _ heq => Option.some.inj heq ▸ hwarrants, nofun⟩
  intro v w h
  rw [poll]
  split
  · exact unsignalled_sound v w h
  · rw [ends_bind]
    refine (hselect v w h).mono ?_
    rintro ⟨_ | _ | reason, w₁⟩ v₁ hpolled
    · exact hpolled
    · obtain ⟨h₁, -, hnone⟩ := hpolled
      obtain ⟨hshut, hlatest⟩ := hnone rfl
      dsimp only
      split
      · next hnothing =>
          rw [Bool.and_eq_true, Option.isNone_iff_eq_none, Option.isNone_iff_eq_none, h₁.deadline,
            h₁.targets] at hnothing
          exact ⟨h₁, hnothing.1, hnothing.2, hshut, hlatest⟩
      · exact unsignalled_sound v₁ _ { h₁ with closed := fun _ => ⟨hshut, hlatest⟩ }
    · exact ⟨hpolled.1, hpolled.2.1 reason rfl⟩

/-- A poll that begins after a stop was requested is ready, and there is a stop still. -/
theorem poll_ready : poll.Meets g.Alerted Never fun v _ _ => v.channel.latest ≠ none := by
  have hnext : ((nextStop budget).map (Option.map WakeReason.signal)).Meets g.Alerted Never
      fun _ _ found => found ≠ none :=
    Branch.Meets.map ((nextStop_ready 126).mono (fun _ _ h => h) fun _ _ found hfound hnone =>
      hfound (Option.map_eq_none_iff.1 hnone))
  have hselect : (select [(nextStop budget).map (Option.map .signal), sleep.map some,
      exited.map some]).Meets g.Alerted Never fun _ _ found => found ≠ none := by
    refine select_ready (List.forall_mem_cons.2 ⟨?_, List.forall_mem_cons.2 ⟨?_,
      List.forall_mem_singleton.2 ?_⟩⟩) ⟨_, List.mem_cons_self, hnext⟩
    · exact hnext.mono (fun _ _ h => h.elim) fun _ _ _ h => h
    · exact Branch.Meets.map (sleep_sound.alerted.mono (fun _ _ h => h)
        fun _ _ reason _ => Option.some_ne_none reason)
    · exact Branch.Meets.map (exited_sound.alerted.mono (fun _ _ h => h)
        fun _ _ reason _ => Option.some_ne_none reason)
  rintro v w ⟨h, hlatest⟩
  rw [poll, if_neg fun hclosed => hlatest (h.closed hclosed).2, ends_bind]
  refine ((hselect v w ⟨h, hlatest⟩).and (ends_later _ v)).mono ?_
  rintro ⟨_ | _ | reason, w₁⟩ v₁ ⟨hpolled, hbecomes, _⟩
  · exact hpolled.elim
  · exact absurd rfl hpolled
  · exact hbecomes.latest_ne_none hlatest

/-! ## Polls with pauses between them -/

/-- `Polls w es reason`: polled until a poll is ready and pausing after each that is not, a wait
that has come as far as `w` ends for the reason. -/
inductive Polls : Progress → List (Event Waiting) → WakeReason → Prop where
  | ready {w w' : Progress} {es : List (Event Waiting)} {reason : WakeReason}
      (polled : Runs (poll w) es (some reason, w')) : Polls w es reason
  | pending {w w' : Progress} {es fs : List (Event Waiting)} {reason : WakeReason}
      (polled : Runs (poll w) es (none, w')) (again : Polls w' fs reason) :
      Polls w (es ++ ⟨.pause (earlier w'.due w'.tick), ()⟩ :: fs) reason

/-- A wait that ends before its last poll is polls with pauses between them. -/
theorem polls_of_awaitFrom {polls : Nat} {es : List (Event Waiting)} {reason : WakeReason}
    (h : Runs (awaitFrom polls w) es (some reason)) : Polls w es reason := by
  induction polls generalizing w es with
  | zero =>
      rw [awaitFrom, runs_pure] at h
      cases h.2
  | succ polls ih =>
      rw [awaitFrom, runs_bind] at h
      obtain ⟨es, rest, ⟨_ | reason', w'⟩, rfl, hpoll, hrest⟩ := h
      · obtain ⟨_, fs, rfl, hagain⟩ := runs_perform_bind.1 hrest
        exact .pending hpoll (ih hagain)
      · obtain ⟨rfl, heq⟩ := runs_pure.1 hrest
        cases heq
        rw [List.append_nil]
        exact .ready hpoll

/-- How many polls a wait has left has no part in how it ends, if they are enough. -/
theorem Polls.runs_awaitFrom {es : List (Event Waiting)} {reason : WakeReason}
    (h : Polls w es reason) :
    ∃ enough, ∀ polls, enough ≤ polls → Runs (awaitFrom polls w) es (some reason) := by
  induction h with
  | ready polled =>
      refine ⟨1, fun polls hle => ?_⟩
      obtain ⟨polls, rfl⟩ := Nat.exists_eq_add_of_le' hle
      rw [awaitFrom, runs_bind]
      exact ⟨_, [], _, (List.append_nil _).symm, polled, runs_pure.2 ⟨rfl, rfl⟩⟩
  | pending polled _ ih =>
      obtain ⟨enough, hrest⟩ := ih
      refine ⟨enough + 1, fun polls hle => ?_⟩
      obtain ⟨more, rfl⟩ := Nat.exists_eq_add_of_le hle
      rw [Nat.add_right_comm, awaitFrom, runs_bind]
      exact ⟨_, _, _, rfl, polled,
        runs_perform_bind.2 ⟨(), _, rfl, hrest _ (Nat.le_add_right _ _)⟩⟩

end Waiting

end KernelTrace
