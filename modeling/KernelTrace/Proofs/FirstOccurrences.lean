import Mathlib.Data.List.Induction
import KernelTrace.Hooks.Registry
import KernelTrace.Session

/-!
# Each once

The processes in a filter, the events of a system and the names of a registry are listed each once,
in the order in which they first occur. All these lists are one fold, which adds what it has not
seen. It comes to the list without the later occurrences (`foldl_unseen`), so nothing is lost and
nothing comes in from outside.
-/

namespace KernelTrace

theorem eraseDups_eq_nil {β : Type} [DecidableEq β] {ys : List β} :
    ys.eraseDups = [] ↔ ys = [] := by
  simp only [List.eq_nil_iff_forall_not_mem, List.mem_eraseDups]

theorem eraseDups_concat {β : Type} [DecidableEq β] (ys : List β) (b : β) :
    (ys ++ [b]).eraseDups = if b ∈ ys.eraseDups then ys.eraseDups else ys.eraseDups ++ [b] := by
  rw [List.eraseDups_append, List.removeAll]
  split
  · next hseen => simp [List.mem_eraseDups.1 hseen]
  · next hnew => simp [mt List.mem_eraseDups.2 hnew, List.eraseDups_cons]

theorem eraseDups_eraseDups {β : Type} [DecidableEq β] (ys : List β) :
    ys.eraseDups.eraseDups = ys.eraseDups := by
  induction ys using List.reverseRecOn with
  | nil => rfl
  | append_singleton ys b ih =>
      rw [eraseDups_concat]
      split
      · exact ih
      · next hnew => rw [eraseDups_concat, ih, if_neg hnew]

/-- What is left is in the order of the first occurrences. -/
theorem pairwise_idxOf_eraseDups {β : Type} [DecidableEq β] (ys : List β) :
    ys.eraseDups.Pairwise fun a b => ys.idxOf a < ys.idxOf b := by
  induction ys using List.reverseRecOn with
  | nil => exact .nil
  | append_singleton ys b ih =>
      have hkept : ∀ {a}, a ∈ ys.eraseDups → (ys ++ [b]).idxOf a = ys.idxOf a := fun ha =>
        List.idxOf_append.trans (if_pos (List.mem_eraseDups.1 ha))
      have hfront : ys.eraseDups.Pairwise fun a c => (ys ++ [b]).idxOf a < (ys ++ [b]).idxOf c := by
        refine ih.imp_of_mem fun ha hc hlt => ?_
        rwa [hkept ha, hkept hc]
      rw [eraseDups_concat]
      split
      · exact hfront
      · next hnew =>
          refine List.pairwise_append.2 ⟨hfront, List.pairwise_singleton _ b, fun a ha c hc => ?_⟩
          obtain rfl := List.mem_singleton.1 hc
          have hlast : (ys ++ [c]).idxOf c = ys.length := by
            rw [List.idxOf_append, if_neg (mt List.mem_eraseDups.2 hnew), List.idxOf_cons_self,
              Nat.zero_add]
          rw [hkept ha, hlast]
          exact List.idxOf_lt_length_of_mem (List.mem_eraseDups.1 ha)

theorem foldl_unseen {α β : Type} [DecidableEq β] (f : α → β) (xs : List α) (ys : List β) :
    xs.foldl (fun seen x => if f x ∈ seen then seen else seen ++ [f x]) ys.eraseDups =
      (ys ++ xs.map f).eraseDups := by
  induction xs generalizing ys with
  | nil => rw [List.foldl_nil, List.map_nil, List.append_nil]
  | cons x xs ih =>
      rw [List.foldl_cons, ← eraseDups_concat, ih, List.append_assoc, List.map_cons,
        List.singleton_append]

theorem firstOccurrences_eq (pids : List Pid) : firstOccurrences pids = pids.eraseDups := by
  have hfold := foldl_unseen id pids []
  rwa [List.map_id, List.nil_append] at hfold

theorem mem_firstOccurrences {pids : List Pid} {p : Pid} :
    p ∈ firstOccurrences pids ↔ p ∈ pids := by
  rw [firstOccurrences_eq, List.mem_eraseDups]

namespace HookRegistry

theorem names_eq (r : HookRegistry) : r.names = (r.hooks.map Hook.name).eraseDups :=
  foldl_unseen Hook.name r.hooks []

theorem mem_names {r : HookRegistry} {name : String} :
    name ∈ r.names ↔ ∃ h ∈ r.hooks, h.name = name := by
  rw [names_eq, List.mem_eraseDups, List.mem_map]

end HookRegistry

end KernelTrace
