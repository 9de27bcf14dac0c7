import Mathlib.Algebra.Group.Nat.Defs
import Mathlib.Data.List.TakeWhile
import Mathlib.Data.Nat.Basic

/-! Strings as C functions get them, on a machine whose `long` has 64 bits: `strlen`, `strchr`, and `strtoul` with
base 10. What `strtoul` takes for a number as a whole is said once more as a grammar. -/

namespace OsHw

/-- A string without its zero byte. No object is larger than `PTRDIFF_MAX`. -/
structure CString where
  bytes : List UInt8
  no_nul : 0 ∉ bytes
  fits : bytes.length < 2 ^ 63

def CString.strlen (s : CString) : UInt64 := UInt64.ofNat s.bytes.length

@[simp] theorem CString.toNat_strlen (s : CString) : s.strlen.toNat = s.bytes.length := by
  have hfits := s.fits
  rw [strlen, UInt64.toNat_ofNat_of_lt' (by rw [UInt64.size]; omega)]

/-- `n` times the letter `a`. -/
def CString.letters (n : Nat) (h : n < 2 ^ 63) : CString where
  bytes := List.replicate n 97
  no_nul hmem := absurd (List.eq_of_mem_replicate hmem) (by decide)
  fits := by rwa [List.length_replicate]

@[simp] theorem CString.length_letters {n : Nat} (h : n < 2 ^ 63) : (letters n h).bytes.length = n :=
  List.length_replicate

/-- What is before the first `c`, and what is behind it. -/
def strchr (c : UInt8) (s : List UInt8) : Option (List UInt8 × List UInt8) :=
  match s.dropWhile (· ≠ c) with
  | [] => none
  | _ :: t => some (s.takeWhile (· ≠ c), t)

theorem strchr_eq_some_iff {c : UInt8} {s a b : List UInt8} : strchr c s = some (a, b) ↔ s = a ++ c :: b ∧ c ∉ a := by
  constructor
  · intro h
    rw [strchr] at h
    split at h
    · cases h
    · rename_i d t heq
      cases h
      have hd : d = c := by
        have hhead := List.head?_dropWhile_not (· ≠ c) s
        rw [heq] at hhead
        simpa using hhead
      refine ⟨?_, fun hmem => ?_⟩
      · rw [hd] at heq
        rw [← heq, List.takeWhile_append_dropWhile]
      · have hall := List.mem_takeWhile_imp hmem
        simp at hall
  · rintro ⟨rfl, hc⟩
    have hne : ∀ x ∈ a, decide (x ≠ c) = true := fun x hx => decide_eq_true fun he => hc (he ▸ hx)
    rw [strchr, List.dropWhile_append_of_pos hne, List.takeWhile_append_of_pos hne]
    simp

namespace Strtoul

/-- `isspace` in the C locale. -/
def isSpace (b : UInt8) : Bool := b = 32 ∨ 9 ≤ b ∧ b ≤ 13

def isDigit (b : UInt8) : Bool := 48 ≤ b ∧ b ≤ 57

def plus : UInt8 := 43

def minus : UInt8 := 45

/-- The number that digits are written for. -/
def value (digits : List UInt8) : Nat := digits.foldl (fun n b => 10 * n + (b.toNat - 48)) 0

/-- The value of digits behind a sign, or `ULONG_MAX` when there is no room for it. -/
def result (negative : Bool) (digits : List UInt8) : UInt64 :=
  if 2 ^ 64 ≤ value digits then 18446744073709551615
  else if negative then -UInt64.ofNat (value digits)
  else UInt64.ofNat (value digits)

/-- An optional sign is taken off. -/
def takeSign : List UInt8 → Bool × List UInt8
  | [] => (false, [])
  | b :: s => if b = minus then (true, s) else if b = plus then (false, s) else (false, b :: s)

end Strtoul

open Strtoul

/-- `strtoul(s, &endptr, 10)`: the number, and the string at `endptr`. -/
def strtoul (s : List UInt8) : UInt64 × List UInt8 :=
  let (negative, t) := takeSign (s.dropWhile isSpace)
  if t.takeWhile isDigit = [] then (0, s) else (result negative (t.takeWhile isDigit), t.dropWhile isDigit)

namespace Strtoul

/-- The signs there are, with what they are written as. -/
inductive Sign : Bool → List UInt8 → Prop
  | none : Sign false []
  | plus : Sign false [plus]
  | minus : Sign true [minus]

/-- Digits, at least one. -/
def Digits (s : List UInt8) : Prop := s ≠ [] ∧ ∀ b ∈ s, isDigit b = true

instance : DecidablePred Digits := fun _ => inferInstanceAs (Decidable (_ ∧ _))

/-- What is taken for a number as a whole: nothing at all, or digits behind blanks and a sign. -/
inductive Reads : List UInt8 → UInt64 → Prop
  | empty : Reads [] 0
  | number {blanks sign digits : List UInt8} {negative : Bool} (hblanks : ∀ b ∈ blanks, isSpace b = true)
      (hsign : Sign negative sign) (hdigits : Digits digits) :
      Reads (blanks ++ sign ++ digits) (result negative digits)

theorem not_isSpace_of_isDigit {b : UInt8} (h : isDigit b = true) : isSpace b = false := by
  simp only [isDigit, isSpace, decide_eq_true_eq, decide_eq_false_iff_not, UInt8.le_iff_toNat_le] at h ⊢
  rw [← UInt8.toNat_inj]
  simp only [UInt8.reduceToNat] at h ⊢
  omega

theorem ne_sign_of_isDigit {b : UInt8} (h : isDigit b = true) : b ≠ minus ∧ b ≠ plus := by
  constructor
  · rintro rfl
    exact absurd h (by decide)
  · rintro rfl
    exact absurd h (by decide)

theorem takeSign_append {negative : Bool} {sign t : List UInt8} (hsign : Sign negative sign) (ht : Digits t) :
    takeSign (sign ++ t) = (negative, t) := by
  cases hsign with
  | none =>
      obtain ⟨b, t, rfl⟩ := List.exists_cons_of_ne_nil ht.1
      obtain ⟨hminus, hplus⟩ := ne_sign_of_isDigit (ht.2 b List.mem_cons_self)
      rw [List.nil_append, takeSign, if_neg hminus, if_neg hplus]
  | plus => rfl
  | minus => rfl

/-- Every string is a sign and the rest that `takeSign` leaves. -/
theorem exists_sign (s : List UInt8) : ∃ sign, Sign (takeSign s).1 sign ∧ s = sign ++ (takeSign s).2 := by
  cases s with
  | nil => exact ⟨[], .none, rfl⟩
  | cons b s =>
      rw [takeSign]
      by_cases hminus : b = minus
      · subst hminus
        exact ⟨[minus], .minus, rfl⟩
      · by_cases hplus : b = plus
        · subst hplus
          exact ⟨[plus], .plus, rfl⟩
        · rw [if_neg hminus, if_neg hplus]
          exact ⟨[], .none, rfl⟩

theorem dropWhile_blanks {blanks sign t : List UInt8} {negative : Bool} (hblanks : ∀ b ∈ blanks, isSpace b = true)
    (hsign : Sign negative sign) (ht : Digits t) : (blanks ++ sign ++ t).dropWhile isSpace = sign ++ t := by
  rw [List.append_assoc, List.dropWhile_append_of_pos hblanks]
  cases hsign with
  | none =>
      obtain ⟨b, t, rfl⟩ := List.exists_cons_of_ne_nil ht.1
      rw [List.nil_append, List.dropWhile_cons_of_neg]
      rw [not_isSpace_of_isDigit (ht.2 b List.mem_cons_self)]
      exact Bool.false_ne_true
  | plus => rfl
  | minus => rfl

/-- **Whole numbers.** `strtoul` gets to the end of exactly the strings of the grammar, with their numbers. -/
theorem strtoul_eq_iff {s : List UInt8} {v : UInt64} : strtoul s = (v, []) ↔ Reads s v := by
  constructor
  · intro h
    obtain ⟨sign, hsign, heq⟩ := exists_sign (s.dropWhile isSpace)
    rw [strtoul] at h
    dsimp only at h
    split at h
    · cases h
      exact .empty
    · rename_i hdigits
      rw [Prod.mk.injEq] at h
      obtain ⟨rfl, hrest⟩ := h
      generalize (takeSign (s.dropWhile isSpace)).1 = negative at hsign ⊢
      generalize (takeSign (s.dropWhile isSpace)).2 = t at heq hdigits hrest ⊢
      have ht : t.takeWhile isDigit = t := by
        rw [← List.append_nil (t.takeWhile isDigit), ← hrest, List.takeWhile_append_dropWhile]
      have hs : s = s.takeWhile isSpace ++ sign ++ t := by
        rw [List.append_assoc, ← heq, List.takeWhile_append_dropWhile]
      rw [hs, ht]
      refine .number (fun b hb => List.mem_takeWhile_imp hb) hsign ⟨ht ▸ hdigits, fun b hb => ?_⟩
      rw [← ht] at hb
      exact List.mem_takeWhile_imp hb
  · intro h
    cases h with
    | empty => rfl
    | @number blanks sign digits negative hblanks hsign hdigits =>
        have htake : digits.takeWhile isDigit = digits := List.takeWhile_eq_self_iff.mpr hdigits.2
        have hdrop : digits.dropWhile isDigit = [] := List.dropWhile_eq_nil_iff.mpr hdigits.2
        rw [strtoul, dropWhile_blanks hblanks hsign hdigits, takeSign_append hsign hdigits]
        dsimp only
        rw [htake, hdrop, if_neg hdigits.1]

end Strtoul

end OsHw
