import Mathlib.Data.List.Basic
import Mathlib.Data.List.Induction
/-!
# First occurrences

A list without its duplicates has every item once, where it comes first.
-/

namespace List

variable {α β : Type} [BEq α] [LawfulBEq α] [BEq β] [LawfulBEq β]

theorem eraseDups_concat (l : List α) (a : α) :
    (l ++ [a]).eraseDups = if a ∈ l then l.eraseDups else l.eraseDups ++ [a] := by
  rw [eraseDups_append]
  by_cases h : a ∈ l <;> simp [removeAll, h, eraseDups_cons]

/-- What is left stands in the order of its first occurrences. -/
theorem pairwise_idxOf_eraseDups (l : List α) :
    l.eraseDups.Pairwise fun a b => l.idxOf a < l.idxOf b := by
  induction l using List.reverseRecOn with
  | nil => exact .nil
  | append_singleton l a ih =>
    have before : l.eraseDups.Pairwise fun x y => (l ++ [a]).idxOf x < (l ++ [a]).idxOf y :=
      ih.imp_of_mem fun hx hy lt => by
        rwa [idxOf_append_of_mem (mem_eraseDups.1 hx), idxOf_append_of_mem (mem_eraseDups.1 hy)]
    rw [eraseDups_concat]
    split
    · exact before
    · rename_i new
      refine pairwise_append.2 ⟨before, pairwise_singleton _ _, fun x hx y hy => ?_⟩
      obtain rfl := mem_singleton.1 hy
      have old := mem_eraseDups.1 hx
      rw [idxOf_append_of_mem old, idxOf_append_of_notMem new]
      exact Nat.lt_of_lt_of_le (idxOf_lt_length_of_mem old) (Nat.le_add_right _ _)

theorem nodup_eraseDups (l : List α) : l.eraseDups.Nodup :=
  (pairwise_idxOf_eraseDups l).imp fun lt => by
    rintro rfl
    exact Nat.lt_irrefl _ lt

theorem eraseDups_map {f : α → β} (injective : Function.Injective f) (l : List α) :
    (l.map f).eraseDups = l.eraseDups.map f := by
  induction l using List.reverseRecOn with
  | nil => rfl
  | append_singleton l a ih =>
    rw [map_append, map_singleton, eraseDups_concat, eraseDups_concat, ih]
    by_cases h : a ∈ l <;> simp [mem_map_of_injective injective, h]

end List
