import KernelTrace.Proofs.StopPolls

/-!
# Waiting at a stop channel

Any number of receivers share a channel. Stops are requested, those who request them leave,
receivers are cloned, begin to wait and are polled, and all that happens in any order. A poll is not
one event: each of its questions is answered by itself, and between two answers anything may
happen, a stop as well as a poll of another receiver.

What has happened is a list, latest first, and what is said of a wait is said by that list alone:
which stop is the latest (`latestStop`), what the wait was begun with (`givenTo`) and what was asked
in the poll (`askedInPoll`).

The invariant says of every receiver that the wait it is in is in order, and of one that is being
polled that the rest of the poll can only end well (`Doing.Sound`). A step of the receiver itself
keeps it because that is what `Waiting.Ends` says, a step of anything else because `Ends` allows for
all that can become of the channel. So what there is to know about polls is known of each poll by
itself, and what is left here is that the channel and the list agree.
-/

namespace KernelTrace

open Program Waiting

/-- Something that happens at a stop channel. Receivers have numbers. -/
inductive Happening where
  | stop (s : Signal)
  /-- Nobody is left who could request a stop. -/
  | close
  /-- The second receiver becomes a clone of the first. -/
  | clone (k j : Nat)
  /-- A receiver begins to wait, and gives up the wait that it was in, if it was in one. -/
  | wait (k : Nat) (deadline : Option Nat) (targets : Option TargetWatch)
  | poll (k : Nat)
  /-- The poll of a receiver asks something and is answered. -/
  | answer (k : Nat) (e : Event Waiting)

/-- What a receiver does. -/
inductive Doing where
  | idle
  | waiting (w : Progress)
  | polling (op : WaitOp) (next : op.Answer → Program Waiting (Option WakeReason × Progress))
  | woken (reason : WakeReason)

/-- What a receiver does when so much is left of its poll. -/
def Doing.of : Program Waiting (Option WakeReason × Progress) → Doing
  | .done (some reason, _) => woken reason
  | .done (none, w) => waiting w
  | .ask op next => polling op next

structure Receiver where
  seen : Nat
  doing : Doing

/-- A channel with its receivers. -/
structure Hub where
  channel : StopChannel
  receiver : Nat → Receiver

namespace Hub

/-- A channel on which nothing was requested, and nobody waits. -/
def fresh : Hub := ⟨.fresh, fun _ => ⟨0, .idle⟩⟩

def put (hub : Hub) (k : Nat) (r : Receiver) : Hub :=
  { hub with receiver := fun j => if j = k then r else hub.receiver j }

@[simp] theorem put_channel (hub : Hub) (k : Nat) (r : Receiver) :
    (hub.put k r).channel = hub.channel := rfl

end Hub

/-! ## What a list of happenings says -/

namespace Happening

def isClosed : List Happening → Bool
  | [] => false
  | .close :: _ => true
  | _ :: hs => isClosed hs

/-- The latest stop that was requested before the channel was closed. -/
def latestStop : List Happening → Option Signal
  | [] => none
  | .stop s :: hs => if isClosed hs then latestStop hs else some s
  | _ :: hs => latestStop hs

def isPollOf (k : Nat) : Happening → Bool
  | .poll j => j = k
  | _ => false

def isWaitOf (k : Nat) : Happening → Bool
  | .wait j _ _ => j = k
  | _ => false

/-- What a receiver asked and was answered, if that is what happened. -/
def askedBy? (k : Nat) : Happening → Option (Event Waiting)
  | .answer j e => if j = k then some e else none
  | _ => none

/-- What a receiver has asked since something happened last. -/
def askedSince (mark : Happening → Bool) (k : Nat) (hs : List Happening) : List (Event Waiting) :=
  (hs.takeWhile fun x => !mark x).filterMap (askedBy? k)

/-- What a receiver has asked since its latest wait began. -/
abbrev askedInWait (k : Nat) (hs : List Happening) : List (Event Waiting) :=
  askedSince (isWaitOf k) k hs

/-- What a receiver has asked since its latest poll began. -/
abbrev askedInPoll (k : Nat) (hs : List Happening) : List (Event Waiting) :=
  askedSince (isPollOf k) k hs

/-- The latest stop when the latest poll of a receiver began. -/
def stopAtPoll (k : Nat) (hs : List Happening) : Option Signal :=
  latestStop (hs.dropWhile fun x => !x.isPollOf k)

/-- The deadline and the targets that the latest wait of a receiver was begun with. -/
def givenTo (k : Nat) : List Happening → Option Nat × Option TargetWatch
  | [] => (none, none)
  | .wait j deadline targets :: hs => if j = k then (deadline, targets) else givenTo k hs
  | _ :: hs => givenTo k hs

end Happening

open Happening

/-! ## What a happening is no business of -/

variable {hs : List Happening} {hub hub' : Hub} {x : Happening} {k : Nat}

theorem Happening.askedSince_cons_of_mark {mark : Happening → Bool} (h : mark x = true) :
    askedSince mark k (x :: hs) = [] := by
  rw [askedSince, List.takeWhile_cons_of_neg (by rw [h]; exact Bool.false_ne_true),
    List.filterMap_nil]

theorem Happening.askedSince_cons {mark : Happening → Bool} (h : mark x = false) :
    askedSince mark k (x :: hs) = (x.askedBy? k).toList ++ askedSince mark k hs := by
  rw [askedSince, List.takeWhile_cons_of_pos (by rw [h]; rfl), List.filterMap_cons, askedSince]
  cases x.askedBy? k <;> rfl

/-- How a poll ends that was begun when the latest stop was `since`. -/
def Waiting.PollEnds (g : Given) (since : Option Signal) (r : Option WakeReason × Progress)
    (v : View) : Prop :=
  Polled g.Fits g.FitsWarranted r v ∧
    (since ≠ none → Polled Never (fun v _ _ => v.channel.latest ≠ none) r v)

/-- What a receiver does is in order: a wait fits what it was given and has asked, and the rest of a
poll can only end well. -/
def Doing.Sound (hs : List Happening) (k : Nat) (channel : StopChannel) (seen : Nat) : Doing → Prop
  | idle | woken _ => True
  | waiting w => Given.Fits ⟨(givenTo k hs).1, (givenTo k hs).2, askedInWait k hs⟩
      ⟨channel, seen, []⟩ w
  | polling op next => ∃ before, askedInWait k hs = askedInPoll k hs ++ before ∧
      Ends (PollEnds ⟨(givenTo k hs).1, (givenTo k hs).2, before⟩ (stopAtPoll k hs)) (.ask op next)
        ⟨channel, seen, askedInPoll k hs⟩

/-- What is left of a poll that can only end well is in order. -/
theorem Doing.sound_of {channel : StopChannel} {seen : Nat} {before : List (Event Waiting)}
    {p : Program Waiting (Option WakeReason × Progress)}
    (hasked : askedInWait k hs = askedInPoll k hs ++ before)
    (h : Ends (PollEnds ⟨(givenTo k hs).1, (givenTo k hs).2, before⟩ (stopAtPoll k hs)) p
      ⟨channel, seen, askedInPoll k hs⟩) :
    (Doing.of p).Sound hs k channel seen := by
  cases p with
  | ask op next => exact ⟨before, hasked, h⟩
  | done r =>
      obtain ⟨_ | reason, w⟩ := r
      · have hfits : Given.Fits _ _ w := h.1
        exact
          { hfits with
            due := fun due hdue => by
              rw [hasked]
              exact hfits.due due hdue }
      · exact trivial

/-- What is left of a poll whose operation was answered can only end well. -/
theorem Doing.Sound.answered {channel : StopChannel} {seen seen' : Nat} {op : WaitOp}
    {next : op.Answer → Program Waiting (Option WakeReason × Progress)} {a : op.Answer}
    (h : (Doing.polling op next).Sound hs k channel seen) (hears : channel.Hears seen op a seen') :
    ∃ before, askedInWait k (.answer k ⟨op, a⟩ :: hs) =
        askedInPoll k (.answer k ⟨op, a⟩ :: hs) ++ before ∧
      Ends (PollEnds ⟨(givenTo k hs).1, (givenTo k hs).2, before⟩ (stopAtPoll k hs)) (next a)
        ⟨channel, seen', askedInPoll k (.answer k ⟨op, a⟩ :: hs)⟩ := by
  obtain ⟨before, hsplit, hends⟩ := h
  have hcons : ∀ mark : Happening → Bool, mark (.answer k ⟨op, a⟩) = false →
      askedSince mark k (.answer k ⟨op, a⟩ :: hs) = ⟨op, a⟩ :: askedSince mark k hs := by
    intro mark hmark
    rw [askedSince_cons hmark, askedBy?, if_pos rfl]
    rfl
  rw [askedInWait, askedInPoll, hcons _ rfl, hcons _ rfl]
  exact ⟨before, congrArg _ hsplit, hends a _ ⟨.refl, hears, rfl⟩⟩

/-- A poll of a wait that is in order can only end well. -/
theorem Doing.Sound.polled {channel : StopChannel} {seen : Nat} {w : Progress}
    (h : (Doing.waiting w).Sound hs k channel seen) (hlatest : channel.latest = latestStop hs) :
    (Doing.of (Waiting.poll w)).Sound (.poll k :: hs) k channel seen := by
  have hmark : isPollOf k (.poll k) = true := decide_eq_true rfl
  have hnow : stopAtPoll k (.poll k :: hs) = channel.latest := by
    rw [stopAtPoll, List.dropWhile_cons_of_neg (by rw [hmark]; exact Bool.false_ne_true), hlatest]
    rfl
  have hfits : Given.Fits ⟨(givenTo k hs).1, (givenTo k hs).2, askedInWait k hs⟩
    ⟨channel, seen, []⟩ w := h
  refine @Doing.sound_of (.poll k :: hs) k channel seen (askedInWait k hs) _ ?_ ?_
  · rw [askedInPoll, askedSince_cons_of_mark hmark, askedInWait, askedSince_cons rfl]
    rfl
  · rw [hnow, askedInPoll, askedSince_cons_of_mark hmark]
    have hends := poll_sound _ w hfits
    by_cases hstop : channel.latest = none
    · exact hends.mono fun _ _ hpolled => ⟨hpolled, fun hne => absurd hstop hne⟩
    · exact (hends.and (poll_ready _ w ⟨hfits, hstop⟩)).mono
        fun _ _ hpolled => ⟨hpolled.1, fun _ => hpolled.2⟩

end KernelTrace
