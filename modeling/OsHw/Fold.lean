import Mathlib.Data.List.Basic

/-! Folds over a list with an invariant of the accumulator. Besides what a fold computes there is what its steps
show on the way: the outputs of a step depend on the accumulator it starts from, and whether all of them have a
property can be read off the list when the invariant says what every step shows. -/

namespace OsHw

variable {α β γ : Type}

theorem foldl_eq_of_invariant (Inv : β → Prop) {f g : β → α → β} {l : List α}
    (hinv : ∀ b, ∀ a ∈ l, Inv b → Inv (g b a)) (heq : ∀ b, ∀ a ∈ l, Inv b → f b a = g b a) {b : β} (hb : Inv b) :
    l.foldl f b = l.foldl g b := by
  induction l generalizing b with
  | nil => rfl
  | cons a l ih =>
      rw [List.foldl_cons, List.foldl_cons, heq b a List.mem_cons_self hb]
      exact ih (fun b a' ha' => hinv b a' (List.mem_cons_of_mem a ha'))
        (fun b a' ha' => heq b a' (List.mem_cons_of_mem a ha')) (hinv b a List.mem_cons_self hb)

/-- What the steps of a fold show, in order. -/
def outputs (f : β → α → β) (out : β → α → List γ) : β → List α → List γ
  | _, [] => []
  | b, a :: l => out b a ++ outputs f out (f b a) l

end OsHw
