import KernelTrace.Proofs.BindingCourse
import KernelTrace.Proofs.Interleaving
import KernelTrace.Proofs.RecordingSteps

/-!
# Callers that want the same instance

A caller of `findOrCreate` looks for the instance, creates it if there is none, and looks again if
somebody else was quicker. Between any two of these steps the others can take any number of turns,
so no statement about where the callers stand survives for long. What does survive is a count. An
instance of a name is there exactly as often as it was there at first or has been created since,
less the times it was removed (`presence_of_serves`), and that holds of the turns of all programs
together, whoever they are.

So as long as nobody removes the instance it is created at most once, and from then on it is there
for good. Each step of a caller happened at some point of that history, which leaves its course
(`Finding`) little room. The only way for it to go wrong is that the instance was there for the
creation and gone for the second look.
-/

namespace KernelTrace

open Program Actions

theorem Instances.findOrCreate_endsWithin (name : InstanceName) :
    EndsWithin (σ := Actions Backend) 3 (findOrCreate name) := by
  intro found
  match found with
  | .error e => exact trivial
  | .ok (some i) => exact fun _ => trivial
  | .ok none =>
      intro created
      match created with
      | .ok i => exact fun _ => trivial
      | .error (.alreadyExists _) =>
          intro again
          match again with
          | .error e | .ok (some i) | .ok none => exact trivial
      | .error (.invalidName ..) | .error (.notFound _) | .error (.createFailed ..)
      | .error (.destroyFailed ..) | .error (.exhausted _) | .error (.writeFailed ..)
      | .error (.readFailed ..) => exact trivial

namespace Recording

variable {r r' : Recording} {n : InstanceName} {es : List (Event Backend)}

/-! ## How often an instance is there -/

/-- How often there is an instance of a name: once or not at all. -/
def presence (r : Recording) (name : String) : Nat :=
  if r.instances.get? name = none then 0 else 1

theorem presence_of_live {name : String} (h : r.instances.get? name ≠ none) :
    r.presence name = 1 :=
  if_neg h

theorem presence_of_none {name : String} (h : r.instances.get? name = none) :
    r.presence name = 0 :=
  if_pos h

theorem presence_congr {name : String} (h : r'.instances.get? name = r.instances.get? name) :
    r'.presence name = r.presence name := by
  rw [presence, presence, h]

def isCreation (n : InstanceName) : Event Backend → Bool
  | ⟨.createInstance name, .ok _⟩ => name = n
  | _ => false

def isRemoval (n : InstanceName) : Event Backend → Bool
  | ⟨.destroyInstance name, .ok ()⟩ => name = n.text
  | _ => false

theorem presence_of_step {e : Event Backend} (h : responder r e.1 e.2 r') :
    r'.presence n.text + [e].countP (isRemoval n) =
      r.presence n.text + [e].countP (isCreation n) := by
  obtain ⟨c, a⟩ := e
  match c with
  | .createInstance name =>
      obtain ⟨-, -, ⟨_, rfl, hsame⟩ | ⟨rfl, hfree, hins⟩⟩ := create_cases h
      · exact presence_congr (congrArg (·.get? n.text) hsame)
      · by_cases hname : name = n
        · subst hname
          rw [presence_of_none hfree, presence_of_live (by simp [hins])]
          simp [isCreation, isRemoval]
        · have htext : n.text ≠ name.text := fun heq => hname (InstanceName.text_inj heq.symm)
          have hsame : r'.presence n.text = r.presence n.text :=
            presence_congr (by rw [hins, SortedMap.get?_insert_of_ne _ _ htext])
          simp [isCreation, isRemoval, hname, hsame]
  | .destroyInstance name =>
      obtain ⟨-, -, ⟨_, rfl, hsame, -⟩ | ⟨st, rfl, -, hlive, herase⟩⟩ := destroy_cases h
      · exact presence_congr (congrArg (·.get? n.text) hsame)
      · by_cases hname : name = n.text
        · subst hname
          rw [presence_of_none (by simp [herase]), presence_of_live (by simp [hlive])]
          simp [isCreation, isRemoval]
        · have hsame : r'.presence n.text = r.presence n.text :=
            presence_congr (by rw [herase, SortedMap.get?_erase, if_neg (Ne.symm hname)])
          simp [isCreation, isRemoval, hname, hsame]
  | .set i s =>
      obtain ⟨-, -, ⟨_, -, hsame, -⟩ | ⟨st, -, hlive, hins⟩⟩ := set_cases h
      · exact presence_congr (congrArg (·.get? n.text) hsame)
      · by_cases hname : n.text = i.name.text
        · rw [hname, presence_of_live (by simp [hins]), presence_of_live (by simp [hlive])]
          rfl
        · exact presence_congr (by rw [hins, SortedMap.get?_insert_of_ne _ _ hname])
  | .findInstance _ =>
      obtain ⟨rfl, -⟩ := find_cases h
      rfl
  | .instanceNames | .availableEvents _ =>
      cases h
      rfl

/-- What was there and what was created is what is there and what was removed. -/
theorem presence_of_serves (h : responder.Serves r es r') (n : InstanceName) :
    r'.presence n.text + es.countP (isRemoval n) =
      r.presence n.text + es.countP (isCreation n) := by
  induction h with
  | nil => rfl
  | @cons r mid r' op a es step _ ih =>
      have hfirst := presence_of_step (e := ⟨op, a⟩) (n := n) step
      rw [← List.singleton_append, List.countP_append, List.countP_append]
      omega

theorem presence_le_one (r : Recording) (name : String) : r.presence name ≤ 1 := by
  unfold presence
  split <;> decide

theorem countP_isRemoval (h : (⟨Call.destroyInstance n.text, .ok ()⟩ : Event Backend) ∉ es) :
    es.countP (isRemoval n) = 0 := by
  refine List.countP_eq_zero.2 fun e he hremoval => ?_
  obtain ⟨c, a⟩ := e
  match c, a with
  | .destroyInstance name, .ok () =>
      obtain rfl : name = n.text := of_decide_eq_true hremoval
      exact h he

/-- What is there stays there, unless it is removed. -/
theorem live_of_serves (h : responder.Serves r es r') (hlive : r.instances.get? n.text ≠ none)
    (hkept : (⟨Call.destroyInstance n.text, .ok ()⟩ : Event Backend) ∉ es) :
    r'.instances.get? n.text ≠ none := by
  intro hgone
  have hcount := presence_of_serves h n
  rw [countP_isRemoval hkept, presence_of_live hlive, presence_of_none hgone] at hcount
  omega

/-! ## What a caller can be answered -/

theorem room_of_serves (h : responder.Serves r es r') (hroom : r.failingCreates = 0) :
    r'.failingCreates = 0 := by
  refine h.invariant (P := fun r => r.failingCreates = 0) (Q := fun _ => True) ?_
    (fun _ _ => trivial) hroom
  rintro r r' ⟨c, a⟩ - hstep hroom
  match c with
  | .createInstance _ => exact Nat.le_zero.1 (hroom ▸ (create_cases hstep).2.1)
  | .findInstance _ => rwa [(find_cases hstep).1]
  | .destroyInstance _ => rwa [(destroy_cases hstep).1]
  | .set .. => rwa [(set_cases hstep).1]
  | .instanceNames | .availableEvents _ =>
      cases hstep
      exact hroom

theorem answer_of_find (h : responder.Serves r es r') {a : Except TracingError (Option Instance)}
    (hmem : ⟨.findInstance n, a⟩ ∈ es) : a = .ok none ∨ a = .ok (some (instanceOf n)) := by
  obtain ⟨_, _, _, _, rfl, -, hstep, -⟩ := h.exists_of_mem hmem
  obtain ⟨-, ⟨rfl, -⟩ | ⟨_, rfl, -⟩⟩ := find_cases hstep
  · exact .inl rfl
  · exact .inr rfl

theorem answer_of_create (h : responder.Serves r es r') (hroom : r.failingCreates = 0)
    {a : Except TracingError Instance} (hmem : ⟨.createInstance n, a⟩ ∈ es) :
    a = .error (.alreadyExists n) ∨ a = .ok (instanceOf n) := by
  obtain ⟨_, _, _, _, rfl, hbefore, hstep, -⟩ := h.exists_of_mem hmem
  obtain ⟨rfl, -, -⟩ | ⟨rfl, -, -⟩ := create_cases_of_room (room_of_serves hbefore hroom) hstep
  · exact .inl rfl
  · exact .inr rfl

/-- `Shown n es`: in the course of `es` somebody was given the instance. -/
def Shown (n : InstanceName) (es : List (Event Backend)) : Prop :=
  ⟨.findInstance n, .ok (some (instanceOf n))⟩ ∈ es ∨ ⟨.createInstance n, .ok (instanceOf n)⟩ ∈ es

/-- The answers to a caller who was too late for the first look and for the creation, and too late
again for the second look. -/
def lost (n : InstanceName) : List (Event Backend) :=
  [⟨.findInstance n, .ok none⟩, ⟨.createInstance n, .error (.alreadyExists n)⟩,
    ⟨.findInstance n, .ok none⟩]

/-- A caller is given the instance, or it does not find what has just been in its way. -/
theorem result_of_finding {cs : List (Event Backend)} {result : Except TracingError Instance}
    (hcourse : Instances.Finding n cs result) (h : responder.Serves r es r')
    (hroom : r.failingCreates = 0) (hcs : cs ⊆ es) :
    (result = .ok (instanceOf n) ∧ Shown n es) ∨
      (result = .error (.notFound n.text) ∧ cs = lost n) := by
  cases hcourse with
  | unknown e =>
      obtain heq | heq := answer_of_find h (hcs List.mem_cons_self)
      · cases heq
      · cases heq
  | found i =>
      have hmem := hcs List.mem_cons_self
      obtain heq | heq := answer_of_find h hmem
      · cases heq
      · cases heq
        exact .inl ⟨rfl, .inl hmem⟩
  | created i =>
      have hmem := hcs (.tail _ (.head _))
      obtain heq | heq := answer_of_create h hroom hmem
      · cases heq
      · cases heq
        exact .inl ⟨rfl, .inr hmem⟩
  | refused e other =>
      obtain heq | heq := answer_of_create h hroom (hcs (.tail _ (.head _)))
      · cases heq
        exact absurd rfl (other n)
      · cases heq
  | overtaken taken again =>
      obtain heq | heq := answer_of_create h hroom (hcs (.tail _ (.head _)))
      · cases heq
        have hmem := hcs (.tail _ (.tail _ (.head _)))
        obtain rfl | rfl := answer_of_find h hmem
        · exact .inr ⟨rfl, rfl⟩
        · exact .inl ⟨rfl, .inl hmem⟩
      · cases heq

/-- What somebody was given is there, unless it was removed. -/
theorem Shown.live (hshown : Shown n es) (h : responder.Serves r es r')
    (hkept : (⟨Call.destroyInstance n.text, .ok ()⟩ : Event Backend) ∉ es) :
    r'.instances.get? n.text ≠ none := by
  obtain hmem | hmem := hshown
  · obtain ⟨before, after, u, v, rfl, -, hstep, hafter⟩ := h.exists_of_mem hmem
    refine live_of_serves hafter ?_ fun hremoved => hkept ?_
    · obtain ⟨rfl, ⟨heq, -⟩ | ⟨st, -, hlive⟩⟩ := find_cases hstep
      · cases heq
      · simp [hlive]
    · exact List.mem_append_right _ (List.mem_cons_of_mem _ hremoved)
  · obtain ⟨before, after, u, v, rfl, -, hstep, hafter⟩ := h.exists_of_mem hmem
    refine live_of_serves hafter ?_ fun hremoved => hkept ?_
    · obtain ⟨-, -, ⟨_, heq, -⟩ | ⟨-, -, hins⟩⟩ := create_cases hstep
      · cases heq
      · simp [hins]
    · exact List.mem_append_right _ (List.mem_cons_of_mem _ hremoved)

/-- What was in the way of a creation does not go by itself. -/
theorem lost_not_sublist (h : responder.Serves r es r') (hroom : r.failingCreates = 0)
    (hkept : (⟨Call.destroyInstance n.text, .ok ()⟩ : Event Backend) ∉ es) :
    ¬ (lost n).Sublist es := by
  intro hlost
  obtain ⟨first, later, rfl, -, hlost⟩ := List.cons_sublist_iff.1 hlost
  obtain ⟨taken, gone, rfl, hcreate, hfind⟩ := List.cons_sublist_iff.1 hlost
  rw [List.mem_append, List.mem_append] at hkept
  obtain ⟨u, hu, hlater⟩ := Responder.serves_append.1 h
  obtain ⟨v, hv, hw⟩ := Responder.serves_append.1 hlater
  have hlive : v.instances.get? n.text ≠ none := by
    obtain ⟨before, after, s, t, rfl, hbefore, hstep, hafter⟩ := hv.exists_of_mem hcreate
    refine live_of_serves hafter ?_ fun hremoved => hkept (.inr (.inl ?_))
    · obtain ⟨-, hsame, hlive⟩ | ⟨heq, -⟩ :=
        create_cases_of_room (room_of_serves hbefore (room_of_serves hu hroom)) hstep
      · rwa [hsame]
      · cases heq
    · exact List.mem_append_right _ (List.mem_cons_of_mem _ hremoved)
  obtain ⟨before, after, s, t, rfl, hbefore, hstep, -⟩ :=
    hw.exists_of_mem (List.singleton_sublist.1 hfind)
  refine live_of_serves hbefore hlive (fun hremoved => hkept (.inr (.inr ?_))) ?_
  · exact List.mem_append_left _ hremoved
  · obtain ⟨-, ⟨-, hnone⟩ | ⟨_, heq, -⟩⟩ := find_cases hstep
    · exact hnone
    · cases heq

/-- Binding leaves the state of a live instance alone. -/
theorem get?_of_binding_turn {e : Event (Actions Backend)} (hop : Instances.IsBinding e.1)
    (h : responder.Serves r (Actions.calls [e]) r') {name : String} {st : InstanceState}
    (hst : r.instances.get? name = some st) : r'.instances.get? name = some st := by
  obtain ⟨op, a⟩ := e
  match op with
  | .backend (.createInstance taken) =>
      obtain ⟨_, hstep, hend⟩ := Responder.serves_cons.1 h
      obtain rfl := Responder.serves_nil.1 hend
      obtain ⟨-, -, ⟨_, -, hsame⟩ | ⟨-, hfree, hins⟩⟩ := create_cases hstep
      · rwa [hsame]
      · have hne : name ≠ taken.text := by
          rintro rfl
          rw [hst] at hfree
          cases hfree
        rwa [hins, SortedMap.get?_insert_of_ne _ _ hne]
  | .backend (.findInstance _) =>
      obtain ⟨_, hstep, hend⟩ := Responder.serves_cons.1 h
      obtain rfl := Responder.serves_nil.1 hend
      rwa [(find_cases hstep).1]
  | .draw | .log _ =>
      obtain rfl := Responder.serves_nil.1 h
      exact hst

end Recording

/-! ## All orders of turns -/

open Recording in
/-- Any number of callers look for the instance `n`, any other programs do what they like, and
creations find room. However the turns fall, a caller is through after three of its own turns at
most, and until then nothing keeps it from taking the next. It ends with the instance, or without it
because somebody else has removed it, and none of its turns changes an instance that is there. If
nobody has removed the instance, every caller that is through has it, and it was created once if it
was not there in the beginning and not at all if it was. -/
theorem findOrCreate_shared {ι : Type} [DecidableEq ι] {n : InstanceName}
    {programs left : ι → Tracing (Except TracingError Instance)} {callers : ι → Prop}
    (hcallers : ∀ k, callers k → programs k = Instances.findOrCreate n) {start now : Recording}
    (hroom : start.failingCreates = 0) {tr : List (ι × Event (Actions Backend))}
    (h : Interleaved responder programs start tr left now) :
    (∀ k, callers k →
      (turnsOf k tr).length ≤ 3 ∧
      (∀ result, left k = .done result →
        result = .ok (instanceOf n) ∨ result = .error (.notFound n.text)) ∧
      ((∀ result, left k ≠ .done result) → ∃ e left' now', Turn responder left now k e left' now') ∧
      ∀ e left' now' name st, Turn responder left now k e left' now' →
        now.instances.get? name = some st → now'.instances.get? name = some st) ∧
    ((⟨Call.destroyInstance n.text, .ok ()⟩ : Event Backend) ∉ calls (tr.map Prod.snd) →
      (∀ k, callers k → ∀ result, left k = .done result → result = .ok (instanceOf n)) ∧
      (calls (tr.map Prod.snd)).countP (isCreation n) ≤ 1 - start.presence n.text ∧
      ((∃ k, callers k ∧ ∃ result, left k = .done result) →
        (calls (tr.map Prod.snd)).countP (isCreation n) = 1 - start.presence n.text)) := by
  have hserved := h.served
  -- what a caller that is through has been answered, as a part of everything that was answered
  have hthrough : ∀ k, callers k → ∀ result, left k = .done result →
      (calls (turnsOf k tr)).Sublist (calls (tr.map Prod.snd)) ∧
      ((result = .ok (instanceOf n) ∧ Shown n (calls (tr.map Prod.snd))) ∨
        (result = .error (.notFound n.text) ∧ calls (turnsOf k tr) = lost n)) := by
    intro k hk result hdone
    have hruns := h.runs hdone
    rw [hcallers k hk] at hruns
    have hsub := calls_sublist (turnsOf_sublist k tr)
    exact ⟨hsub,
      result_of_finding (Instances.runs_findOrCreate hruns) hserved hroom hsub.subset⟩
  refine ⟨fun k hk => ⟨?_, ?_, ?_, ?_⟩, fun hkept => ?_⟩
  · have hleads := h.leads k
    rw [hcallers k hk] at hleads
    exact (Instances.findOrCreate_endsWithin n).length_le hleads
  · intro result hdone
    obtain ⟨-, ⟨rfl, -⟩ | ⟨rfl, -⟩⟩ := hthrough k hk result hdone
    · exact .inl rfl
    · exact .inr rfl
  · exact exists_turn fun r c => ⟨_, _, rfl⟩
  · intro e left' now' name st hturn hst
    have hasks := h.leads k
    rw [hcallers k hk] at hasks
    have hbinding := (Instances.findOrCreate_asks n).leads hasks
    cases hturn with
    | intro asks served =>
        rw [asks] at hbinding
        exact get?_of_binding_turn hbinding.1 served hst
  · have hgiven : ∀ k, callers k → ∀ result, left k = .done result →
        result = .ok (instanceOf n) ∧ Shown n (calls (tr.map Prod.snd)) := by
      intro k hk result hdone
      obtain ⟨hsub, hgiven | ⟨-, hlost⟩⟩ := hthrough k hk result hdone
      · exact hgiven
      · exact absurd (hlost ▸ hsub) (lost_not_sublist hserved hroom hkept)
    have hcount := presence_of_serves hserved n
    rw [countP_isRemoval hkept] at hcount
    refine ⟨fun k hk result hdone => (hgiven k hk result hdone).1, ?_, ?_⟩
    · have := presence_le_one now n.text
      omega
    · rintro ⟨k, hk, result, hdone⟩
      have := presence_of_live ((hgiven k hk result hdone).2.live hserved hkept)
      omega

/-- Two callers, and somebody who removes the instance that they look for. -/
def contended : Option Bool → Tracing (Except TracingError Instance)
  | some _ => Instances.findOrCreate ⟨"shared", by decide⟩
  | none => do
    let _ ← Instances.destroy "shared"
    return .error (.notFound "shared")

/-- The turns of the three in an order, from an empty recording on. -/
def contend (order : List (Option Bool)) :
    List (Option Bool × Event (Actions Backend)) ×
      (Option Bool → Tracing (Except TracingError Instance)) × Recording :=
  takeTurns Recording.answer
    (order.map (·, ⟨0, .deadline, fun _ => .error (.spawn (.os .execFormat))⟩)) contended .empty

theorem interleaved_contend (order : List (Option Bool)) :
    Interleaved Recording.responder contended .empty (contend order).1 (contend order).2.1
      (contend order).2.2 :=
  interleaved_takeTurns ..

/-- Both callers find nothing, and the second creates too late. If it looks again in time it has the
instance of the first, and if that was removed meanwhile it has none. -/
theorem findOrCreate_shared_overtaken :
    let n : InstanceName := ⟨"shared", by decide⟩
    let raced := contend [some true, some false, some true, some false, some false]
    let removed := contend [some true, some false, some true, some false, none, some false]
    (raced.2.1 (some false) = .done (.ok (Recording.instanceOf n)) ∧
      (calls (raced.1.map Prod.snd)).countP (Recording.isCreation n) = 1) ∧
    removed.2.1 (some false) = .done (.error (.notFound n.text)) ∧
      (turnsOf (some false) removed.1).length ≤ 3 := by
  intro n raced removed
  have hcallers : ∀ k, k ≠ none → contended k = Instances.findOrCreate n := by
    rintro (_ | _) hk
    · exact absurd rfl hk
    · rfl
  have hraced := findOrCreate_shared hcallers rfl
    (interleaved_contend [some true, some false, some true, some false, some false])
  have hremoved := findOrCreate_shared hcallers rfl
    (interleaved_contend [some true, some false, some true, some false, none, some false])
  refine ⟨⟨rfl, ?_⟩, rfl, (hremoved.1 (some false) nofun).1⟩
  refine (hraced.2 ?_).2.2 ⟨some false, nofun, _, rfl⟩
  have hcalls : calls (raced.1.map Prod.snd) = [⟨.findInstance n, .ok none⟩,
      ⟨.findInstance n, .ok none⟩, ⟨.createInstance n, .ok (Recording.instanceOf n)⟩,
      ⟨.createInstance n, .error (.alreadyExists n)⟩,
      ⟨.findInstance n, .ok (some (Recording.instanceOf n))⟩] := rfl
  intro hmem
  rw [hcalls] at hmem
  simp at hmem

end KernelTrace
