import OsHw.Bytes
import Mathlib.Algebra.GroupWithZero.Nat

/-! Extents of bytes that are kept in a range without overlap, filled from the upper end downwards. Taking one out
leaves a gap, and the gap is closed from below: the bytes under it move up by its length, and so do the offsets of
the extents that lie there. What the other extents hold is not changed by that. An extent of no bytes has no place,
whatever its offset is. -/

namespace OsHw

structure Extent where
  offs : Nat
  len : Nat
  deriving DecidableEq

namespace Extent

/-- The extents have no byte in common. -/
def Apart (x y : Extent) : Prop := x.len ≠ 0 → y.len ≠ 0 → x.offs + x.len ≤ y.offs ∨ y.offs + y.len ≤ x.offs

/-- The extents lie in a range, apart from each other. -/
structure Fit (lo hi : Nat) (l : List Extent) : Prop where
  inside : ∀ x ∈ l, x.len ≠ 0 → lo ≤ x.offs ∧ x.offs + x.len ≤ hi
  apart : l.Pairwise Apart

def total : List Extent → Nat
  | [] => 0
  | x :: l => x.len + total l

/-- The lowest offset, or the upper end when there is none. -/
def lowest (hi : Nat) : List Extent → Nat
  | [] => hi
  | x :: l => if x.len ≠ 0 then min x.offs (lowest hi l) else lowest hi l

/-- Where an extent is once the gap that another one left is closed. -/
def raise (gap x : Extent) : Extent :=
  if x.len ≠ 0 ∧ x.offs < gap.offs then { x with offs := x.offs + gap.len } else x

variable {lo hi n : Nat} {x y gap : Extent} {l l₁ l₂ : List Extent}

theorem Apart.symm (h : Apart x y) : Apart y x := fun hy hx => (h hx hy).symm

theorem apart_of_len_eq_zero (h : x.len = 0) : Apart x y := fun hx => absurd h hx

@[simp] theorem len_raise (gap x : Extent) : (raise gap x).len = x.len := by
  rw [raise]
  split <;> rfl

theorem raise_of_lt (h : x.len ≠ 0) (hlt : x.offs < gap.offs) : (raise gap x).offs = x.offs + gap.len := by
  rw [raise, if_pos ⟨h, hlt⟩]

theorem raise_of_le (hle : gap.offs ≤ x.offs) : raise gap x = x := by
  rw [raise, if_neg (by omega)]

theorem total_append (l₁ l₂ : List Extent) : total (l₁ ++ l₂) = total l₁ + total l₂ := by
  induction l₁ with
  | nil => exact (Nat.zero_add _).symm
  | cons x l₁ ih => rw [List.cons_append, total, total, ih, Nat.add_assoc]

@[simp] theorem total_map_raise (gap : Extent) (l : List Extent) : total (l.map (raise gap)) = total l := by
  induction l with
  | nil => rfl
  | cons x l ih => rw [List.map_cons, total, total, len_raise, ih]

theorem fit_nil : Fit lo hi [] := ⟨fun _ hx => absurd hx List.not_mem_nil, List.Pairwise.nil⟩

theorem Fit.tail (h : Fit lo hi (x :: l)) : Fit lo hi l :=
  ⟨fun y hy => h.inside y (List.mem_cons_of_mem x hy), h.apart.of_cons⟩

theorem Fit.mono {lo' : Nat} (h : Fit lo hi l) (hle : lo' ≤ lo) : Fit lo' hi l :=
  ⟨fun x hx hlen => ⟨hle.trans (h.inside x hx hlen).1, (h.inside x hx hlen).2⟩, h.apart⟩

/-- The order in which the extents are listed says nothing about where they lie. -/
theorem fit_middle : Fit lo hi (l₁ ++ x :: l₂) ↔ Fit lo hi (x :: (l₁ ++ l₂)) := by
  have hmem : ∀ y, y ∈ l₁ ++ x :: l₂ ↔ y ∈ x :: (l₁ ++ l₂) := by
    intro y
    simp only [List.mem_append, List.mem_cons]
    tauto
  have hapart : (l₁ ++ x :: l₂).Pairwise Apart ↔ (x :: (l₁ ++ l₂)).Pairwise Apart := by
    rw [List.pairwise_middle fun h => Apart.symm h]
  constructor
  · intro h
    exact ⟨fun y hy => h.inside y ((hmem y).mpr hy), hapart.mp h.apart⟩
  · intro h
    exact ⟨fun y hy => h.inside y ((hmem y).mp hy), hapart.mpr h.apart⟩

/-- An extent of no bytes can always be listed. -/
theorem Fit.cons_empty (h : Fit lo hi l) (hx : x.len = 0) : Fit lo hi (x :: l) := by
  refine ⟨fun y hy hlen => ?_, List.pairwise_cons.mpr ⟨fun y _ => apart_of_len_eq_zero hx, h.apart⟩⟩
  obtain rfl | hy := List.mem_cons.mp hy
  · exact absurd hx hlen
  · exact h.inside y hy hlen

/-- The bytes right under the range take one more extent. -/
theorem Fit.cons_below (h : Fit lo hi l) (hlo : lo ≤ hi) (hn : n ≤ lo) : Fit (lo - n) hi (⟨lo - n, n⟩ :: l) := by
  refine ⟨fun y hy hlen => ?_, List.pairwise_cons.mpr ⟨fun y hy hlen hlen' => ?_, h.apart⟩⟩
  · obtain rfl | hy := List.mem_cons.mp hy
    · dsimp only
      omega
    · have hy := h.inside y hy hlen
      omega
  · have hy := h.inside y hy hlen'
    dsimp only
    omega

/-- What the closing of a gap does to an extent apart from it. -/
theorem raise_cases (h : Apart gap x) (hgap : gap.len ≠ 0) (hx : x.len ≠ 0) :
    x.offs + x.len ≤ gap.offs ∧ (raise gap x).offs = x.offs + gap.len ∨
      gap.offs + gap.len ≤ x.offs ∧ (raise gap x).offs = x.offs := by
  obtain habove | hbelow := h hgap hx
  · right
    exact ⟨habove, by rw [raise_of_le (by omega)]⟩
  · left
    exact ⟨hbelow, raise_of_lt hx (by omega)⟩

/-- **Closing a gap.** The other extents stay apart, and the range ends where the gap did not reach. -/
theorem Fit.closeGap (h : Fit lo hi (gap :: l)) (hgap : gap.len ≠ 0) :
    Fit (lo + gap.len) hi (l.map (raise gap)) := by
  have hrange := h.inside gap List.mem_cons_self hgap
  have hapart : ∀ x ∈ l, Apart gap x := (List.pairwise_cons.mp h.apart).1
  constructor
  · intro x hx hlen
    obtain ⟨y, hy, rfl⟩ := List.mem_map.mp hx
    rw [len_raise] at hlen ⊢
    have hinside := h.inside y (List.mem_cons_of_mem gap hy) hlen
    obtain ⟨hbelow, heq⟩ | ⟨habove, heq⟩ := raise_cases (hapart y hy) hgap hlen
    · omega
    · omega
  · refine List.pairwise_map.mpr (h.tail.apart.imp_of_mem fun {x y} hx hy hxy => ?_)
    intro hlen hlen'
    rw [len_raise] at hlen hlen' ⊢
    rw [len_raise]
    have hxy := hxy hlen hlen'
    obtain ⟨hx₁, hx₂⟩ | ⟨hx₁, hx₂⟩ := raise_cases (hapart x hx) hgap hlen <;>
      obtain ⟨hy₁, hy₂⟩ | ⟨hy₁, hy₂⟩ := raise_cases (hapart y hy) hgap hlen' <;> omega

/-- Extents that lie apart in a range take no more than its bytes: closing the gaps one after the other packs them
at the upper end. -/
theorem Fit.total_le (h : Fit lo hi l) (hle : lo ≤ hi) : lo + total l ≤ hi := by
  induction hlength : l.length generalizing lo l with
  | zero =>
      rw [List.length_eq_zero_iff.mp hlength]
      exact hle
  | succ k ih =>
      obtain ⟨gap, rest, rfl⟩ := List.exists_cons_of_length_eq_add_one hlength
      have hrest : rest.length = k := by simpa using hlength
      rw [total]
      by_cases hgap : gap.len = 0
      · have hfit := ih h.tail hle hrest
        omega
      · have hrange := h.inside gap List.mem_cons_self hgap
        have hpacked := ih (h.closeGap hgap) (by omega) (by rw [List.length_map, hrest])
        rw [total_map_raise] at hpacked
        omega

theorem lowest_le (hi : Nat) (l : List Extent) : lowest hi l ≤ hi := by
  induction l with
  | nil => exact Nat.le_refl hi
  | cons x l ih =>
      rw [lowest]
      split
      · exact (Nat.min_le_right _ _).trans ih
      · exact ih

theorem lowest_le_offs (hi : Nat) (hx : x ∈ l) (hlen : x.len ≠ 0) : lowest hi l ≤ x.offs := by
  induction l with
  | nil => exact absurd hx List.not_mem_nil
  | cons y l ih =>
      rw [lowest]
      obtain rfl | hx := List.mem_cons.mp hx
      · rw [if_pos hlen]
        exact Nat.min_le_left _ _
      · split
        · exact (Nat.min_le_right _ _).trans (ih hx)
        · exact ih hx

theorem Fit.le_lowest (h : Fit lo hi l) (hle : lo ≤ hi) : lo ≤ lowest hi l := by
  induction l with
  | nil => exact hle
  | cons x l ih =>
      rw [lowest]
      split
      next hlen => exact Nat.le_min.mpr ⟨(h.inside x List.mem_cons_self hlen).1, ih h.tail⟩
      next => exact ih h.tail

/-- Nothing lies under the lowest offset. -/
theorem Fit.raise_lo (h : Fit lo hi l) : Fit (lowest hi l) hi l :=
  ⟨fun x hx hlen => ⟨lowest_le_offs hi hx hlen, (h.inside x hx hlen).2⟩, h.apart⟩

/-- The extents reach from the lowest offset to the upper end without a gap. -/
def Packed (hi : Nat) (l : List Extent) : Prop := lowest hi l + total l = hi

/-- A range that is as long as its extents begins at the lowest offset. -/
theorem Fit.packed_of_total (h : Fit lo hi l) (htotal : lo + total l = hi) : lowest hi l = lo ∧ Packed hi l := by
  have hle := h.le_lowest (by omega)
  have hroom := h.raise_lo.total_le (lowest_le hi l)
  have heq : lowest hi l = lo := by omega
  exact ⟨heq, by rw [Packed, heq, htotal]⟩

end Extent

namespace Mem

/-- Close a gap from below: the bytes from `lo` to the gap move up by its length, and what they leave is cleared. -/
def closeGap (m : Mem) (lo : Nat) (gap : Extent) : Mem :=
  (m.copy (lo + gap.len) lo (gap.offs - lo)).fill lo gap.len 0

variable {m : Mem} {lo hi : Nat} {gap x : Extent}

theorem closeGap_of_outside {a : Nat} (hle : lo ≤ gap.offs) (h : a < lo ∨ gap.offs + gap.len ≤ a) :
    m.closeGap lo gap a = m a := by
  rw [closeGap, fill_of_outside (by omega), copy_of_outside (by omega)]

theorem closeGap_of_inside {a : Nat} (h₁ : lo ≤ a) (h₂ : a < gap.offs) :
    m.closeGap lo gap (a + gap.len) = m a := by
  rw [closeGap, fill_of_outside (by omega), copy_of_inside (by omega) (by omega)]
  exact congrArg m (by omega)

/-- The extents that are left hold what they did. -/
theorem closeGap_extent {j : Nat} (hle : lo ≤ gap.offs) (hgap : gap.len ≠ 0) (hapart : gap.Apart x)
    (hlo : lo ≤ x.offs) (hj : j < x.len) :
    m.closeGap lo gap ((gap.raise x).offs + j) = m (x.offs + j) := by
  obtain ⟨hbelow, heq⟩ | ⟨habove, heq⟩ := Extent.raise_cases hapart hgap (by omega)
  · calc m.closeGap lo gap ((gap.raise x).offs + j) = m.closeGap lo gap (x.offs + j + gap.len) :=
          congrArg _ (by omega)
      _ = m (x.offs + j) := closeGap_of_inside (by omega) (by omega)
  · rw [heq]
    exact closeGap_of_outside hle (by omega)

end Mem

end OsHw
