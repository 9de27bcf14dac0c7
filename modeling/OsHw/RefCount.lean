import Mathlib.Algebra.BigOperators.Group.Finset.Basic
import Mathlib.Algebra.Order.BigOperators.Group.Finset
import Mathlib.Data.Fintype.Basic

/-! Counted objects. Parties hold objects, and every object has a count. A count is covered when it is at least what is
held; what a party takes or gives back goes with a change of the count. An object that is counted once has one holder,
and one that is held is counted. -/

namespace OsHw.RefCount

open Finset

variable {ι β : Type} [Fintype ι]

/-- What is held of each object is at most its count. -/
def Covered (held : ι → β → Nat) (count : β → Nat) : Prop := ∀ b, ∑ k, held k b ≤ count b

def Exact (held : ι → β → Nat) (count : β → Nat) : Prop := ∀ b, ∑ k, held k b = count b

/-- One party changes what it holds, and the count grows at least as much. -/
structure Moves (n : ι) (held held' : ι → β → Nat) (count count' : β → Nat) : Prop where
  others : ∀ k, k ≠ n → held' k = held k
  covers : ∀ b, count b + held' n b ≤ count' b + held n b

variable {held held' : ι → β → Nat} {count count' : β → Nat} {n k : ι} {b : β}

theorem Exact.covered (h : Exact held count) : Covered held count := fun b => Nat.le_of_eq (h b)

theorem Covered.le (h : Covered held count) (n : ι) (b : β) : held n b ≤ count b := by
  calc held n b ≤ ∑ k, held k b := single_le_sum (fun k _ => Nat.zero_le (held k b)) (mem_univ n)
    _ ≤ count b := h b

/-- When one summand changes, the sums differ by it. -/
theorem sum_add_eq [DecidableEq ι] (h : ∀ k, k ≠ n → held' k b = held k b) :
    ∑ k, held' k b + held n b = ∑ k, held k b + held' n b := by
  have hrest : ∑ k ∈ univ.erase n, held' k b = ∑ k ∈ univ.erase n, held k b := by
    apply sum_congr rfl
    intro k hk
    exact h k (ne_of_mem_erase hk)
  calc ∑ k, held' k b + held n b = held' n b + ∑ k ∈ univ.erase n, held' k b + held n b := by
        rw [add_sum_erase univ (fun k => held' k b) (mem_univ n)]
    _ = held n b + ∑ k ∈ univ.erase n, held k b + held' n b := by
        rw [hrest]
        omega
    _ = ∑ k, held k b + held' n b := by rw [add_sum_erase univ (fun k => held k b) (mem_univ n)]

theorem Moves.sum_add_eq (h : Moves n held held' count count') (b : β) :
    ∑ k, held' k b + held n b = ∑ k, held k b + held' n b := by
  classical
  exact RefCount.sum_add_eq fun k hk => congrFun (h.others k hk) b

/-- **The counts stay covered.** -/
theorem Covered.moves (h : Covered held count) (hmoves : Moves n held held' count count') : Covered held' count' := by
  intro b
  have hsum := hmoves.sum_add_eq b
  have hcovers := hmoves.covers b
  have hle := h b
  omega

/-- **The counts stay exact** when the count changes by as much as is taken or given back. -/
theorem Exact.moves (h : Exact held count) (hmoves : Moves n held held' count count')
    (hback : ∀ b, count' b + held n b ≤ count b + held' n b) : Exact held' count' := by
  intro b
  have hsum := hmoves.sum_add_eq b
  have hcovers := hmoves.covers b
  have heq := h b
  have hle := hback b
  omega

/-- Two holders are counted twice. -/
theorem Covered.add_le (h : Covered held count) (hne : k ≠ n) (b : β) : held n b + held k b ≤ count b := by
  classical
  calc held n b + held k b ≤ held n b + ∑ j ∈ univ.erase n, held j b :=
        Nat.add_le_add_left
          (single_le_sum (fun j _ => Nat.zero_le (held j b)) (mem_erase.mpr ⟨hne, mem_univ k⟩)) _
    _ = ∑ j, held j b := add_sum_erase univ (fun j => held j b) (mem_univ n)
    _ ≤ count b := h b

/-- **A single count** belongs to one holder. -/
theorem Covered.sole (h : Covered held count) (hcount : count b = 1) (hn : held n b ≠ 0) (hne : k ≠ n) :
    held k b = 0 := by
  have hle := h.add_le hne b
  omega

theorem Exact.eq_zero (h : Exact held count) (hcount : count b = 0) (n : ι) : held n b = 0 := by
  have hle := h.covered.le n b
  omega

/-- Without a count nothing is held, and with an exact one something is. -/
theorem Exact.exists_held (h : Exact held count) (hcount : count b ≠ 0) : ∃ n, held n b ≠ 0 := by
  by_contra hnone
  rw [not_exists] at hnone
  apply hcount
  rw [← h b]
  exact sum_eq_zero fun n _ => not_not.mp (hnone n)

end OsHw.RefCount
