import Mathlib.Data.List.GetD
import Mathlib.Data.List.Basic

/-! The content of a regular file as a list. It can be cut or filled up to a length, some of its items can be
replaced one after the other, and it can be written at a place as `pwrite` does. A write at a place is the same as
filling up first and then replacing items of what is there. -/

namespace OsHw.FileContent

variable {α : Type}

/-- Cut to a length, or fill up. -/
def resize (z : α) (f : List α) (n : Nat) : List α := f.take n ++ List.replicate (n - f.length) z

/-- Replace items from a place on, one after the other; there is nothing to replace behind the end. -/
def overwrite : List α → Nat → List α → List α
  | f, _, [] => f
  | f, p, b :: bs => overwrite (f.set p b) (p + 1) bs

/-- What `pwrite` leaves: nothing is written without items, and a gap is filled. -/
def pwrite (z : α) (f : List α) (off : Nat) (bs : List α) : List α :=
  if bs = [] then f
  else
    (List.range (max f.length (off + bs.length))).map fun i =>
      if off ≤ i ∧ i < off + bs.length then bs.getD (i - off) z else f.getD i z

variable {z : α} {f bs : List α} {n off p i : Nat}

@[simp] theorem length_resize : (resize z f n).length = n := by
  rw [resize, List.length_append, List.length_take, List.length_replicate]
  omega

theorem getElem?_resize (h : i < n) : (resize z f n)[i]? = some (f.getD i z) := by
  rw [resize]
  by_cases hi : i < f.length
  · rw [List.getElem?_append_left (by simp only [List.length_take]; omega), List.getElem?_take_of_lt h,
      List.getElem?_eq_getElem hi, List.getD_eq_getElem f z hi]
  · have htake : (f.take n).length = f.length := by
      rw [List.length_take]
      omega
    rw [List.getElem?_append_right (by omega), htake, List.getElem?_replicate, if_pos (by omega),
      List.getD_eq_default f z (by omega)]

theorem resize_self (f : List α) : resize z f f.length = f := by
  rw [resize, List.take_length, Nat.sub_self, List.replicate_zero, List.append_nil]

@[simp] theorem length_overwrite : (overwrite f p bs).length = f.length := by
  induction bs generalizing f p with
  | nil => rfl
  | cons b bs ih => rw [overwrite, ih, List.length_set]

theorem getElem?_overwrite (hi : i < f.length) :
    (overwrite f p bs)[i]? = if p ≤ i ∧ i < p + bs.length then bs[i - p]? else f[i]? := by
  induction bs generalizing f p with
  | nil =>
      rw [overwrite, if_neg]
      simp only [List.length_nil]
      omega
  | cons b bs ih =>
      rw [overwrite, ih (by rwa [List.length_set]), List.length_cons]
      by_cases hp : p = i
      · subst hp
        rw [if_neg (by omega), if_pos (by omega), List.getElem?_set_self hi, Nat.sub_self, List.getElem?_cons_zero]
      · rw [List.getElem?_set_ne hp]
        by_cases hin : p + 1 ≤ i ∧ i < p + 1 + bs.length
        · have hsub : i - p = i - (p + 1) + 1 := by omega
          rw [if_pos hin, if_pos (by omega), hsub, List.getElem?_cons_succ]
        · rw [if_neg hin, if_neg (by omega)]

theorem length_pwrite (h : bs ≠ []) : (pwrite z f off bs).length = max f.length (off + bs.length) := by
  rw [pwrite, if_neg h, List.length_map, List.length_range]

theorem getElem?_pwrite (h : bs ≠ []) (hi : i < max f.length (off + bs.length)) :
    (pwrite z f off bs)[i]? = some (if off ≤ i ∧ i < off + bs.length then bs.getD (i - off) z else f.getD i z) := by
  rw [pwrite, if_neg h, List.getElem?_map, List.getElem?_range hi, Option.map_some]

/-- **Writing at a place.** Items that are replaced in a content that is long enough, and as long as the old one at
least, are items that are written. -/
theorem overwrite_resize (h : bs ≠ []) (hn : n = max f.length (off + bs.length)) :
    overwrite (resize z f n) off bs = pwrite z f off bs := by
  apply List.ext_getElem?
  intro i
  by_cases hi : i < n
  · rw [getElem?_overwrite (by rwa [length_resize]), getElem?_resize hi, getElem?_pwrite h (hn ▸ hi)]
    by_cases hin : off ≤ i ∧ i < off + bs.length
    · have hlt : i - off < bs.length := by omega
      rw [if_pos hin, if_pos hin, List.getElem?_eq_getElem hlt, List.getD_eq_getElem bs z hlt]
    · rw [if_neg hin, if_neg hin]
  · rw [List.getElem?_eq_none (by rw [length_overwrite, length_resize]; omega),
      List.getElem?_eq_none (by rw [length_pwrite h]; omega)]

end OsHw.FileContent
