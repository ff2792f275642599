import Mathlib.Data.List.Basic
import Mathlib.Data.List.Induction
import TapeMachine.Dict

/-!
# First occurrences

A list without its repetitions keeps the first occurrence of each value, in the order of these occurrences.  The keys
of a dictionary that is built from a list are such a list: a key stands where it was first given.
-/

namespace TapeMachine

variable {α : Type} [DecidableEq α]

theorem eraseDups_concat (xs : List α) (a : α) :
    (xs ++ [a]).eraseDups = if a ∈ xs then xs.eraseDups else xs.eraseDups ++ [a] := by
  rw [List.eraseDups_append]
  by_cases ha : a ∈ xs
  · have hnone : [a].removeAll xs = [] := by simp [List.removeAll, ha]
    rw [hnone, if_pos ha, List.eraseDups_nil, List.append_nil]
  · have hone : [a].removeAll xs = [a] := by simp [List.removeAll, ha]
    rw [hone, if_neg ha, List.eraseDups_cons, List.filter_nil, List.eraseDups_nil]

/-- Of each value the first occurrence is kept, in the order of these occurrences. -/
theorem pairwise_eraseDups (xs : List α) :
    xs.eraseDups.Pairwise fun a b => xs.idxOf a < xs.idxOf b := by
  induction xs using List.reverseRecOn with
  | nil => exact .nil
  | append_singleton xs a ih =>
    have hkept : xs.eraseDups.Pairwise fun b c => (xs ++ [a]).idxOf b < (xs ++ [a]).idxOf c := by
      refine ih.imp_of_mem fun hb hc hlt => ?_
      rw [List.idxOf_append_of_mem (List.mem_eraseDups.1 hb), List.idxOf_append_of_mem (List.mem_eraseDups.1 hc)]
      exact hlt
    rw [eraseDups_concat]
    by_cases ha : a ∈ xs
    · rw [if_pos ha]
      exact hkept
    · rw [if_neg ha, List.pairwise_append]
      refine ⟨hkept, List.pairwise_singleton _ _, fun b hb c hc => ?_⟩
      have hb' := List.mem_eraseDups.1 hb
      rw [List.mem_singleton.1 hc, List.idxOf_append_of_mem hb', List.idxOf_append_of_notMem ha]
      have hlt := List.idxOf_lt_length_of_mem hb'
      omega

theorem nodup_eraseDups (xs : List α) : xs.eraseDups.Nodup := by
  refine (pairwise_eraseDups xs).imp fun hlt heq => ?_
  rw [heq] at hlt
  exact Nat.lt_irrefl _ hlt

theorem eraseDups_sublist (xs : List α) : xs.eraseDups.Sublist xs := by
  induction xs using List.reverseRecOn with
  | nil => exact .slnil
  | append_singleton xs a ih =>
    rw [eraseDups_concat]
    by_cases ha : a ∈ xs
    · rw [if_pos ha]
      exact ih.trans (List.sublist_append_left xs [a])
    · rw [if_neg ha]
      exact ih.append_right [a]

theorem length_eraseDups_eq_iff {xs : List α} : xs.eraseDups.length = xs.length ↔ xs.Nodup := by
  constructor
  · intro h
    rw [← (eraseDups_sublist xs).eq_of_length h]
    exact nodup_eraseDups xs
  · intro h
    induction xs using List.reverseRecOn with
    | nil => rfl
    | append_singleton xs a ih =>
      obtain ⟨hxs, -, hne⟩ := List.nodup_append.1 h
      have ha : a ∉ xs := fun ha => hne a ha a (List.mem_singleton.2 rfl) rfl
      rw [eraseDups_concat, if_neg ha, List.length_append, ih hxs, List.length_append]

namespace Dict

variable {β : Type}

theorem keys_ofList (xs : List (α × β)) : (ofList xs).keys = (xs.map Prod.fst).eraseDups := by
  induction xs using List.reverseRecOn with
  | nil => rfl
  | append_singleton xs x ih =>
    have hinsert : ofList (xs ++ [x]) = (ofList xs).insert x.1 x.2 := by
      rw [ofList, List.foldl_append]
      rfl
    rw [hinsert, List.map_append, List.map_singleton, eraseDups_concat]
    by_cases hx : x.1 ∈ xs.map Prod.fst
    · rw [if_pos hx, keys_insert_of_mem, ih]
      rw [ih]
      exact List.mem_eraseDups.2 hx
    · rw [if_neg hx, keys_insert_of_not_mem, ih]
      rw [ih]
      exact List.mem_eraseDups.not.2 hx

end Dict

end TapeMachine
