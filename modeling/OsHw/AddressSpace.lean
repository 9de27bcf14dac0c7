import Mathlib.Algebra.Group.Nat.Defs

/-! Address spaces. An address is a word of 64 bits and a range its start and its length: an address is in the range
when it is less than the length away from the start, counted upwards and round. A space says of every address what
is mapped there. A range that is added to a space in which it was free and then removed leaves the space as it was;
what is left of several ranges after others are removed is read off address by address, by the distance from a
common start. -/

namespace OsHw

/-- The address is in the range. -/
def InRange (start len x : UInt64) : Prop := x - start < len

instance (start len x : UInt64) : Decidable (InRange start len x) := inferInstanceAs (Decidable (_ < _))

variable {start len d x : UInt64}

theorem inRange_iff : InRange start len x ↔ (x - start).toNat < len.toNat := UInt64.lt_iff_toNat_lt

/-- A range at a distance, when it does not go round to the common start. -/
theorem inRange_add_iff (h : d.toNat + len.toNat ≤ 18446744073709551616) :
    InRange (start + d) len x ↔ d.toNat ≤ (x - start).toNat ∧ (x - start).toNat < d.toNat + len.toNat := by
  have hx := x.toNat_lt
  have hs := start.toNat_lt
  have hd := d.toNat_lt
  rw [inRange_iff, UInt64.toNat_sub, UInt64.toNat_sub, UInt64.toNat_add]
  omega

/-- A range at a distance that does not reach the common start does not go round. -/
theorem add_le_of_not_inRange (hd : 0 < d.toNat) (h : ¬InRange (start + d) len start) :
    d.toNat + len.toNat ≤ 18446744073709551616 := by
  have hs := start.toNat_lt
  have hlt := d.toNat_lt
  rw [inRange_iff, UInt64.toNat_sub, UInt64.toNat_add] at h
  omega

/-- A range that ends below the top of the address space. -/
theorem inRange_iff_le (h : start.toNat + len.toNat ≤ 18446744073709551616) :
    InRange start len x ↔ start.toNat ≤ x.toNat ∧ x.toNat < start.toNat + len.toNat := by
  have hx := x.toNat_lt
  rw [inRange_iff, UInt64.toNat_sub]
  omega

/-- Clearing the low bits rounds down. -/
theorem toNat_and_not_mask {mask : UInt64} {k : Nat} (hmask : mask.toNat = 2 ^ k - 1) (x : UInt64) :
    (x &&& ~~~mask).toNat = x.toNat / 2 ^ k * 2 ^ k := by
  apply Nat.eq_of_testBit_eq
  intro i
  have hbit : mask.toBitVec.getLsbD i = decide (i < k) := by
    rw [← BitVec.testBit_toNat]
    exact (congrArg (Nat.testBit · i) hmask).trans (Nat.testBit_two_pow_sub_one k i)
  have hx : x.toNat.testBit i = x.toBitVec.getLsbD i := BitVec.testBit_toNat _
  show (x.toBitVec &&& ~~~mask.toBitVec).toNat.testBit i = _
  rw [BitVec.testBit_toNat, BitVec.getLsbD_and, BitVec.getLsbD_not, hbit, Nat.testBit_mul_two_pow,
    Nat.testBit_div_two_pow]
  by_cases hk : k ≤ i
  · rw [decide_eq_true hk, decide_eq_false (Nat.not_lt.mpr hk), Nat.sub_add_cancel hk, hx]
    rcases Nat.lt_or_ge i 64 with hi | hi
    · simp [hi]
    · simp [BitVec.getLsbD_of_ge _ _ hi]
  · simp [hk, Nat.lt_of_not_le hk]

/-- What is mapped at every address. -/
abbrev Space (α : Type) := UInt64 → Option α

namespace Space

variable {α : Type} {s : Space α} {a : α} {start' len' : UInt64}

/-- Nothing is mapped in the range. -/
def Free (s : Space α) (start len : UInt64) : Prop := ∀ x, InRange start len x → s x = none

def map (s : Space α) (start len : UInt64) (a : α) : Space α := fun x => if InRange start len x then some a else s x

def unmap (s : Space α) (start len : UInt64) : Space α := fun x => if InRange start len x then none else s x

theorem map_of_inRange (h : InRange start len x) : s.map start len a x = some a := if_pos h

theorem map_of_not_inRange (h : ¬InRange start len x) : s.map start len a x = s x := if_neg h

theorem unmap_of_not_inRange (h : ¬InRange start len x) : s.unmap start len x = s x := if_neg h

/-- A range that was free before another one was added was free without it, and does not meet it. -/
theorem free_map_iff : (s.map start len a).Free start' len' ↔
    s.Free start' len' ∧ ∀ x, InRange start' len' x → ¬InRange start len x := by
  constructor
  · intro h
    have hout : ∀ x, InRange start' len' x → ¬InRange start len x := by
      intro x hx hin
      have hnone := h x hx
      rw [map_of_inRange hin] at hnone
      cases hnone
    refine ⟨fun x hx => ?_, hout⟩
    have hnone := h x hx
    rwa [map_of_not_inRange (hout x hx)] at hnone
  · rintro ⟨hfree, hout⟩ x hx
    rw [map_of_not_inRange (hout x hx)]
    exact hfree x hx

/-- **Undo.** Removing what was added to a free range gives the space back. -/
theorem unmap_map (h : s.Free start len) : (s.map start len a).unmap start len = s := by
  funext x
  by_cases hx : InRange start len x
  · rw [unmap, if_pos hx, h x hx]
  · rw [unmap_of_not_inRange hx, map_of_not_inRange hx]

theorem map_zero : s.map start 0 a = s := by
  funext x
  exact map_of_not_inRange UInt64.not_lt_zero

end Space

end OsHw
