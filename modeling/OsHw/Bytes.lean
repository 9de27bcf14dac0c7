import Mathlib.Data.Nat.Basic
import Mathlib.Tactic.Ring

/-! A memory of bytes with little-endian loads and stores of any width, and the sum of the bytes of a range. What
a store leaves alone is said once: two memories that agree on a range give the same loads and the same sums
there. -/

namespace OsHw

abbrev Mem := Nat → UInt8

namespace Mem

/-- The number in the `n` bytes at an address, the first byte the lowest. -/
def load (m : Mem) (a : Nat) : Nat → Nat
  | 0 => 0
  | n + 1 => (m a).toNat + 256 * load m (a + 1) n

/-- Write the lowest `n` bytes of a number at an address. -/
def store (m : Mem) (a n v : Nat) : Mem :=
  fun x => if a ≤ x ∧ x < a + n then UInt8.ofNat (v / 256 ^ (x - a)) else m x

/-- The sum of the `n` bytes at an address, modulo 256. -/
def sum (m : Mem) (a : Nat) : Nat → UInt8
  | 0 => 0
  | n + 1 => m a + sum m (a + 1) n

/-- Copy `n` bytes; the ranges may overlap. -/
def copy (m : Mem) (dst src n : Nat) : Mem := fun x => if dst ≤ x ∧ x < dst + n then m (src + (x - dst)) else m x

/-- The `n` bytes at an address, in order. -/
def bytes (m : Mem) (a : Nat) : Nat → List UInt8
  | 0 => []
  | n + 1 => m a :: bytes m (a + 1) n

/-- Give the `n` bytes at an address one value. -/
def fill (m : Mem) (a n : Nat) (v : UInt8) : Mem := fun x => if a ≤ x ∧ x < a + n then v else m x

/-- Put bytes at an address. -/
def write (m : Mem) (a : Nat) (bs : List UInt8) : Mem :=
  fun x => if a ≤ x ∧ x < a + bs.length then bs.getD (x - a) 0 else m x

/-- The memories agree on the `n` bytes at an address. -/
def AgreeOn (m m' : Mem) (a n : Nat) : Prop := ∀ x, a ≤ x → x < a + n → m x = m' x

variable {m m' : Mem} {a b n k v : Nat}

@[simp] theorem length_bytes (m : Mem) (a n : Nat) : (m.bytes a n).length = n := by
  induction n generalizing a with
  | zero => rfl
  | succ n ih => rw [bytes, List.length_cons, ih]

/-- Two ranges hold the same bytes exactly when they do so one by one. -/
theorem bytes_eq_bytes_iff : m.bytes a n = m'.bytes b n ↔ ∀ j, j < n → m (a + j) = m' (b + j) := by
  induction n generalizing a b with
  | zero =>
      refine ⟨fun _ j hj => ?_, fun _ => rfl⟩
      omega
  | succ n ih =>
      rw [bytes, bytes, List.cons.injEq, ih]
      constructor
      · rintro ⟨hhead, htail⟩ j hj
        cases j with
        | zero => exact hhead
        | succ j =>
            have hj' := htail j (by omega)
            rwa [Nat.add_assoc, Nat.add_assoc, Nat.add_comm 1 j] at hj'
      · intro h
        refine ⟨h 0 (by omega), fun j hj => ?_⟩
        rw [Nat.add_assoc, Nat.add_assoc, Nat.add_comm 1 j]
        exact h (j + 1) (by omega)

theorem bytes_congr (h : ∀ j, j < n → m (a + j) = m' (b + j)) : m.bytes a n = m'.bytes b n :=
  bytes_eq_bytes_iff.mpr h

theorem bytes_append (m : Mem) (a n k : Nat) : m.bytes a (n + k) = m.bytes a n ++ m.bytes (a + n) k := by
  induction n generalizing a with
  | zero =>
      rw [Nat.zero_add]
      rfl
  | succ n ih =>
      have htail := ih (a + 1)
      rw [Nat.add_assoc a 1 n, Nat.add_comm 1 n] at htail
      rw [Nat.succ_add, bytes, bytes, htail]
      rfl

theorem bytes_eq_replicate_iff {v : UInt8} :
    m.bytes a n = List.replicate n v ↔ ∀ j, j < n → m (a + j) = v := by
  have hconst : ∀ b, List.replicate n v = bytes (fun _ => v) b n := by
    induction n with
    | zero => exact fun _ => rfl
    | succ n ih =>
        intro b
        rw [List.replicate_succ, bytes, ← ih]
  rw [hconst a]
  exact bytes_eq_bytes_iff

theorem fill_of_outside {x : Nat} {v : UInt8} (h : x < a ∨ a + n ≤ x) : fill m a n v x = m x := if_neg (by omega)

theorem fill_of_inside {x : Nat} {v : UInt8} (h₁ : a ≤ x) (h₂ : x < a + n) : fill m a n v x = v := if_pos ⟨h₁, h₂⟩

theorem copy_of_outside {x src : Nat} (h : x < a ∨ a + n ≤ x) : copy m a src n x = m x := if_neg (by omega)

theorem copy_of_inside {x src : Nat} (h₁ : a ≤ x) (h₂ : x < a + n) : copy m a src n x = m (src + (x - a)) :=
  if_pos ⟨h₁, h₂⟩

theorem write_of_outside {x : Nat} {bs : List UInt8} (h : x < a ∨ a + bs.length ≤ x) : write m a bs x = m x :=
  if_neg (by omega)

theorem bytes_write_self (m : Mem) (a : Nat) (bs : List UInt8) : (write m a bs).bytes a bs.length = bs := by
  suffices h : ∀ m' : Mem, (∀ j, j < bs.length → m' (a + j) = bs.getD j 0) → m'.bytes a bs.length = bs by
    refine h _ fun j hj => ?_
    rw [write, if_pos (by omega), Nat.add_sub_cancel_left]
  induction bs generalizing a with
  | nil => exact fun _ _ => rfl
  | cons b bs ih =>
      intro m' h
      have hhead : m' a = b := h 0 (by simp)
      rw [List.length_cons, bytes, hhead]
      refine congrArg (b :: ·) (ih (a + 1) m' fun j hj => ?_)
      have htail := h (j + 1) (by simpa using hj)
      rwa [Nat.add_assoc, Nat.add_comm 1 j]

theorem load_congr (h : ∀ j, j < n → m (a + j) = m' (b + j)) : m.load a n = m'.load b n := by
  induction n generalizing a b with
  | zero => rfl
  | succ n ih =>
      have hhead : m a = m' b := h 0 (by omega)
      have htail : m.load (a + 1) n = m'.load (b + 1) n := by
        refine ih fun j hj => ?_
        rw [Nat.add_assoc, Nat.add_assoc, Nat.add_comm 1 j]
        exact h (j + 1) (by omega)
      rw [load, load, hhead, htail]

theorem AgreeOn.load (h : AgreeOn m m' a n) : m.load a n = m'.load a n :=
  load_congr fun j hj => h (a + j) (by omega) (by omega)

theorem store_of_outside {x : Nat} (h : x < a ∨ a + n ≤ x) : store m a n v x = m x := if_neg (by omega)

theorem store_store (m : Mem) (a n v w : Nat) : (m.store a n v).store a n w = m.store a n w := by
  funext x
  unfold store
  split <;> rfl

/-- A store changes nothing outside its range. -/
theorem agreeOn_store (h : b + k ≤ a ∨ a + n ≤ b) : AgreeOn (store m a n v) m b k := by
  intro x h₁ h₂
  exact store_of_outside (by omega)

theorem load_store_disjoint (h : b + k ≤ a ∨ a + n ≤ b) : (store m a n v).load b k = m.load b k :=
  (agreeOn_store h).load

theorem load_store_self (m : Mem) (a n v : Nat) : (store m a n v).load a n = v % 256 ^ n := by
  induction n generalizing m a v with
  | zero => simp [load, Nat.mod_one]
  | succ n ih =>
      have hhead : (store m a (n + 1) v a).toNat = v % 256 := by
        rw [store, if_pos (by omega), Nat.sub_self, pow_zero, Nat.div_one, UInt8.toNat_ofNat']
      have htail : AgreeOn (store m a (n + 1) v) (store m (a + 1) n (v / 256)) (a + 1) n := by
        intro x h₁ h₂
        have hx : x - a = x - (a + 1) + 1 := by omega
        rw [store, if_pos (by omega), store, if_pos (by omega), hx, pow_succ, Nat.mul_comm, Nat.div_div_eq_div_mul]
      rw [load, hhead, htail.load, ih, pow_succ, Nat.mul_comm (256 ^ n), Nat.mod_mul]

theorem AgreeOn.sum (h : AgreeOn m m' a n) : m.sum a n = m'.sum a n := by
  induction n generalizing a with
  | zero => rfl
  | succ n ih =>
      have hhead : m a = m' a := h a (by omega) (by omega)
      have htail : m.sum (a + 1) n = m'.sum (a + 1) n := ih fun x h₁ h₂ => h x (by omega) (by omega)
      rw [Mem.sum, Mem.sum, hhead, htail]

theorem store_byte (m : Mem) (a : Nat) (v : UInt8) : store m a 1 v.toNat a = v := by
  rw [store, if_pos (by omega), Nat.sub_self, pow_zero, Nat.div_one, UInt8.ofNat_toNat]

theorem store_byte_self (m : Mem) (a : Nat) : store m a 1 (m a).toNat = m := by
  funext x
  by_cases hx : x = a
  · rw [hx, store_byte]
  · exact store_of_outside (by omega)

/-- A byte of the range that is replaced changes the sum by the difference. -/
theorem sum_store_byte (v : UInt8) (h₁ : a ≤ b) (h₂ : b < a + n) :
    (store m b 1 v.toNat).sum a n + m b = m.sum a n + v := by
  induction n generalizing a with
  | zero => omega
  | succ n ih =>
      rw [Mem.sum, Mem.sum]
      by_cases hab : b = a
      · subst hab
        have hrest : (store m b 1 v.toNat).sum (b + 1) n = m.sum (b + 1) n := (agreeOn_store (by omega)).sum
        rw [store_byte, hrest]
        ac_rfl
      · have hhead : store m b 1 v.toNat a = m a := store_of_outside (by omega)
        rw [hhead, UInt8.add_assoc, ih (by omega) (by omega), UInt8.add_assoc]

theorem load_lt (m : Mem) (a n : Nat) : m.load a n < 256 ^ n := by
  induction n generalizing a with
  | zero => simp [load]
  | succ n ih =>
      have hbyte : (m a).toNat < 256 := (m a).toNat_lt
      have hrest := ih (a + 1)
      rw [load, pow_succ]
      omega

end Mem

end OsHw
