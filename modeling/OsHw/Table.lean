import Mathlib.Algebra.BigOperators.Group.List.Basic

/-! Tables as lists of rows with a key. A lookup returns the first row with the key, an update changes that
row and no other, a removal takes that row out. A sum or a count over the table changes by what the one
row contributes. -/

namespace OsHw.Table

variable {α κ : Type} [DecidableEq κ] (key : α → κ)

/-- The first row with the key. -/
def find (k : κ) (l : List α) : Option α := l.find? fun a => key a = k

/-- Change the first row with the key. -/
def modify (k : κ) (f : α → α) (l : List α) : List α :=
  l.replaceF fun a => if key a = k then some (f a) else none

/-- Remove the first row with the key. -/
def erase (k : κ) (l : List α) : List α := l.eraseP fun a => key a = k

variable {key} {k k' : κ} {f : α → α}

theorem find_cons (a : α) (l : List α) : find key k (a :: l) = if key a = k then some a else find key k l := by
  by_cases h : key a = k <;> simp [find, h]

theorem modify_cons (a : α) (l : List α) :
    modify key k f (a :: l) = if key a = k then f a :: l else a :: modify key k f l := by
  by_cases h : key a = k <;> simp [modify, h]

theorem find_eq_none {l : List α} : find key k l = none ↔ k ∉ l.map key := by
  rw [find, List.find?_eq_none]
  simp

theorem of_find {l : List α} {a : α} (h : find key k l = some a) : a ∈ l ∧ key a = k :=
  ⟨List.mem_of_find?_eq_some h, by simpa using List.find?_some h⟩

theorem find_of_mem {l : List α} (hl : (l.map key).Nodup) {a : α} (ha : a ∈ l) : find key (key a) l = some a := by
  induction l with
  | nil => cases ha
  | cons b l ih =>
      obtain ⟨hb, hl⟩ := List.nodup_cons.mp hl
      rw [find_cons]
      rcases List.mem_cons.mp ha with rfl | ha
      · rw [if_pos rfl]
      · have hne : key b ≠ key a := fun he => hb (he ▸ List.mem_map_of_mem ha)
        rw [if_neg hne, ih hl ha]

theorem find_modify_self (hf : ∀ a, key (f a) = key a) (l : List α) :
    find key k (modify key k f l) = (find key k l).map f := by
  induction l with
  | nil => rfl
  | cons a l ih =>
      rw [modify_cons, find_cons]
      by_cases h : key a = k
      · rw [if_pos h, if_pos h, find_cons, if_pos ((hf a).trans h), Option.map_some]
      · rw [if_neg h, if_neg h, find_cons, if_neg h, ih]

theorem find_modify_ne (hf : ∀ a, key (f a) = key a) (hk : k' ≠ k) (l : List α) :
    find key k' (modify key k f l) = find key k' l := by
  induction l with
  | nil => rfl
  | cons a l ih =>
      rw [modify_cons]
      by_cases h : key a = k
      · have ha : key a ≠ k' := fun he => hk (he.symm.trans h)
        rw [if_pos h, find_cons, find_cons, if_neg ha, if_neg fun he => ha ((hf a).symm.trans he)]
      · rw [if_neg h, find_cons, find_cons, ih]

theorem map_key_modify (hf : ∀ a, key (f a) = key a) (l : List α) : (modify key k f l).map key = l.map key := by
  induction l with
  | nil => rfl
  | cons a l ih =>
      rw [modify_cons]
      by_cases h : key a = k
      · rw [if_pos h, List.map_cons, List.map_cons, hf]
      · rw [if_neg h, List.map_cons, List.map_cons, ih]

/-- The new sum and the old row's share are the old sum and the new row's share. -/
theorem sum_modify {M : Type} [AddCommMonoid M] (g : α → M) (l : List α) :
    ((modify key k f l).map g).sum + ((find key k l).map g).getD 0 =
      (l.map g).sum + ((find key k l).map fun a => g (f a)).getD 0 := by
  induction l with
  | nil => rfl
  | cons a l ih =>
      rw [modify_cons, find_cons]
      by_cases h : key a = k
      · simp only [if_pos h, List.map_cons, List.sum_cons, Option.map_some, Option.getD_some]
        rw [add_comm (g (f a)), add_right_comm, add_comm (l.map g).sum]
      · simp only [if_neg h, List.map_cons, List.sum_cons, add_assoc, ih]

theorem erase_cons (a : α) (l : List α) : erase key k (a :: l) = if key a = k then l else a :: erase key k l := by
  by_cases h : key a = k <;> simp [erase, h]

theorem find_erase_ne (hk : k' ≠ k) (l : List α) : find key k' (erase key k l) = find key k' l := by
  induction l with
  | nil => rfl
  | cons a l ih =>
      rw [erase_cons]
      by_cases h : key a = k
      · rw [if_pos h, find_cons, if_neg fun he => hk (he.symm.trans h)]
      · rw [if_neg h, find_cons, find_cons, ih]

theorem find_erase_self {l : List α} (hl : (l.map key).Nodup) : find key k (erase key k l) = none := by
  induction l with
  | nil => rfl
  | cons a l ih =>
      obtain ⟨ha, hl⟩ := List.nodup_cons.mp hl
      rw [erase_cons]
      by_cases h : key a = k
      · rw [if_pos h, find_eq_none]
        exact h ▸ ha
      · rw [if_neg h, find_cons, if_neg h, ih hl]

theorem nodup_erase {l : List α} (hl : (l.map key).Nodup) : ((erase key k l).map key).Nodup :=
  hl.sublist (List.eraseP_sublist.map key)

theorem countP_erase (p : α → Bool) {l : List α} {a : α} (h : find key k l = some a) :
    l.countP p = (erase key k l).countP p + if p a then 1 else 0 := by
  induction l with
  | nil => cases h
  | cons b l ih =>
      rw [find_cons] at h
      rw [erase_cons, List.countP_cons]
      by_cases hb : key b = k
      · rw [if_pos hb] at h ⊢
        cases h
        rfl
      · rw [if_neg hb] at h ⊢
        rw [ih h, List.countP_cons]
        omega

end OsHw.Table
