import Mathlib.Data.List.Basic

/-! Runs of a partial step function. A step consumes a label and, when the label is enabled, gives
the next state and one output; a run consumes a list of labels and collects the outputs in order.
The module has the induction rules the rest of the development uses: an invariant that may look at
the outputs so far, a property that holds after every prefix exactly when every step meets a local
condition, a run that goes wrong for good at the first step that does not, and the comparison of a run
with the one from which some labels are removed. -/

namespace OsHw

variable {σ ℓ ο β : Type}

/-- The state and the outputs after a list of labels, `none` when some label is not enabled. -/
def run (step : σ → ℓ → Option (σ × ο)) : σ → List ℓ → Option (σ × List ο)
  | s, [] => some (s, [])
  | s, l :: ls =>
      match step s l with
      | none => none
      | some (s', o) =>
          match run step s' ls with
          | none => none
          | some (s'', os) => some (s'', o :: os)

/-- Every step of the run is taken from a state in which it meets the condition. -/
def Along (step : σ → ℓ → Option (σ × ο)) (Ok : σ → ℓ → Prop) : σ → List ℓ → Prop
  | _, [] => True
  | s, l :: ls => ∀ s' o, step s l = some (s', o) → Ok s l ∧ Along step Ok s' ls

/-- A property of outputs and state holds after every executable prefix of the labels. -/
def Throughout (step : σ → ℓ → Option (σ × ο)) (P : List ο → σ → Prop) (s : σ) (ls : List ℓ) : Prop :=
  ∀ pre, pre <+: ls → ∀ s' os, run step s pre = some (s', os) → P os s'

variable {step : σ → ℓ → Option (σ × ο)}

@[simp] theorem run_nil (s : σ) : run step s [] = some (s, []) := rfl

theorem run_cons_eq_some_iff {s t : σ} {l : ℓ} {ls : List ℓ} {os : List ο} :
    run step s (l :: ls) = some (t, os) ↔
      ∃ s' o os', step s l = some (s', o) ∧ run step s' ls = some (t, os') ∧ os = o :: os' := by
  rw [run]
  constructor
  · intro h
    split at h
    · cases h
    · rename_i s' o hstep
      split at h
      · cases h
      · rename_i s'' os' hrun
        cases h
        exact ⟨s', o, os', hstep, hrun, rfl⟩
  · rintro ⟨s', o, os', hstep, hrun, rfl⟩
    simp only [hstep, hrun]

theorem run_append_eq_some_iff {s t : σ} {ls ls' : List ℓ} {os : List ο} :
    run step s (ls ++ ls') = some (t, os) ↔
      ∃ s' os₁ os₂, run step s ls = some (s', os₁) ∧ run step s' ls' = some (t, os₂) ∧ os = os₁ ++ os₂ := by
  induction ls generalizing s os with
  | nil => simp
  | cons l ls ih =>
      simp only [List.cons_append, run_cons_eq_some_iff, ih]
      constructor
      · rintro ⟨s₁, o, os', hstep, ⟨s', os₁, os₂, h₁, h₂, rfl⟩, rfl⟩
        exact ⟨s', o :: os₁, os₂, ⟨s₁, o, os₁, hstep, h₁, rfl⟩, h₂, rfl⟩
      · rintro ⟨s', os₁, os₂, ⟨s₁, o, os', hstep, h₁, rfl⟩, h₂, rfl⟩
        exact ⟨s₁, o, os' ++ os₂, hstep, ⟨s', os', os₂, h₁, h₂, rfl⟩, rfl⟩

theorem run_concat_eq_some_iff {s t : σ} {ls : List ℓ} {l : ℓ} {os : List ο} :
    run step s (ls ++ [l]) = some (t, os) ↔
      ∃ s' os' o, run step s ls = some (s', os') ∧ step s' l = some (t, o) ∧ os = os' ++ [o] := by
  rw [run_append_eq_some_iff]
  constructor
  · rintro ⟨s', os₁, os₂, h₁, h₂, rfl⟩
    obtain ⟨s'', o, os', hstep, hnil, rfl⟩ := run_cons_eq_some_iff.mp h₂
    cases hnil
    exact ⟨s', os₁, o, h₁, hstep, rfl⟩
  · rintro ⟨s', os', o, h, hstep, rfl⟩
    exact ⟨s', os', [o], h, run_cons_eq_some_iff.mpr ⟨t, o, [], hstep, rfl, rfl⟩, rfl⟩

theorem Along.of_forall {Ok : σ → ℓ → Prop} (s : σ) (ls : List ℓ) (h : ∀ l ∈ ls, ∀ s, Ok s l) :
    Along step Ok s ls := by
  induction ls generalizing s with
  | nil => trivial
  | cons l ls ih =>
      intro s' o _
      exact ⟨h l List.mem_cons_self s, ih s' fun l' hl' => h l' (List.mem_cons_of_mem _ hl')⟩

theorem Along.cons {Ok : σ → ℓ → Prop} {s s' : σ} {l : ℓ} {ls : List ℓ} {o : ο} (hstep : step s l = some (s', o))
    (hok : Ok s l) (hrest : Along step Ok s' ls) : Along step Ok s (l :: ls) := by
  intro s₁ o₁ hstep₁
  rw [hstep] at hstep₁
  cases hstep₁
  exact ⟨hok, hrest⟩

theorem Along.and {Ok Ok' : σ → ℓ → Prop} {s : σ} {ls : List ℓ} (h : Along step Ok s ls) (h' : Along step Ok' s ls) :
    Along step (fun s l => Ok s l ∧ Ok' s l) s ls := by
  induction ls generalizing s with
  | nil => trivial
  | cons l ls ih =>
      intro s' o hstep
      obtain ⟨hok, hrest⟩ := h s' o hstep
      obtain ⟨hok', hrest'⟩ := h' s' o hstep
      exact ⟨⟨hok, hok'⟩, ih hrest hrest'⟩

/-- Two conditions that come to the same under an invariant hold along the same runs. -/
theorem along_iff_along (Inv : σ → Prop) {Ok Ok' : σ → ℓ → Prop}
    (hinv : ∀ s l s' o, Inv s → Ok' s l → step s l = some (s', o) → Inv s')
    (hiff : ∀ s l s' o, Inv s → step s l = some (s', o) → (Ok s l ↔ Ok' s l)) {s : σ} (h0 : Inv s) (ls : List ℓ) :
    Along step Ok s ls ↔ Along step Ok' s ls := by
  induction ls generalizing s with
  | nil => exact Iff.rfl
  | cons l ls ih =>
      constructor
      · intro h s' o hstep
        obtain ⟨hok, hrest⟩ := h s' o hstep
        have hok' := (hiff s l s' o h0 hstep).mp hok
        exact ⟨hok', (ih (hinv s l s' o h0 hok' hstep)).mp hrest⟩
      · intro h s' o hstep
        obtain ⟨hok', hrest⟩ := h s' o hstep
        exact ⟨(hiff s l s' o h0 hstep).mpr hok', (ih (hinv s l s' o h0 hok' hstep)).mpr hrest⟩

theorem along_append {Ok : σ → ℓ → Prop} {s : σ} {ls ls' : List ℓ} :
    Along step Ok s (ls ++ ls') ↔
      Along step Ok s ls ∧ ∀ s' os, run step s ls = some (s', os) → Along step Ok s' ls' := by
  induction ls generalizing s with
  | nil =>
      simp only [List.nil_append, Along, run_nil, Option.some.injEq, Prod.mk.injEq, true_and]
      exact ⟨fun h s' _ he => he.1 ▸ h, fun h => h s [] ⟨rfl, rfl⟩⟩
  | cons l ls ih =>
      simp only [List.cons_append, Along, ih]
      constructor
      · intro h
        refine ⟨fun s' o hstep => ⟨(h s' o hstep).1, (h s' o hstep).2.1⟩, fun t os hrun => ?_⟩
        obtain ⟨s', o, os', hstep, hrest, -⟩ := run_cons_eq_some_iff.mp hrun
        exact (h s' o hstep).2.2 t os' hrest
      · rintro ⟨h, h'⟩ s' o hstep
        refine ⟨(h s' o hstep).1, (h s' o hstep).2, fun t os hrun => h' t (o :: os) ?_⟩
        exact run_cons_eq_some_iff.mpr ⟨s', o, os, hstep, hrun, rfl⟩

/-- **Invariant rule.** What the outputs so far and the state satisfy at the start, and every step
taken under the condition keeps, holds at the end of every run whose steps meet the condition. -/
theorem run_invariant (Inv : List ο → σ → Prop) (Ok : σ → ℓ → Prop)
    (hstep : ∀ os s l s' o, Inv os s → Ok s l → step s l = some (s', o) → Inv (os ++ [o]) s')
    {ls : List ℓ} {os : List ο} {s s' : σ} (h0 : Inv [] s) (hok : Along step Ok s ls)
    (hrun : run step s ls = some (s', os)) : Inv os s' := by
  suffices h : ∀ (ls : List ℓ) (os os' : List ο) (s : σ), Inv os s → Along step Ok s ls →
      run step s ls = some (s', os') → Inv (os ++ os') s' by
    simpa using h ls [] os s h0 hok hrun
  intro ls
  induction ls with
  | nil =>
      intro os os' s hinv _ hrun
      cases hrun
      rwa [List.append_nil]
  | cons l ls ih =>
      intro os os' s hinv hok hrun
      obtain ⟨s₁, o, os₁, h₁, h₂, rfl⟩ := run_cons_eq_some_iff.mp hrun
      have hnext := hstep os s l s₁ o hinv (hok s₁ o h₁).1 h₁
      rw [List.append_cons]
      exact ih _ _ s₁ hnext (hok s₁ o h₁).2 h₂

theorem Along.of_append {Ok : σ → ℓ → Prop} {s : σ} {ls ls' : List ℓ} (h : Along step Ok s (ls ++ ls')) :
    Along step Ok s ls := (along_append.mp h).1

/-- An invariant that implies a property gives the property throughout the run. -/
theorem throughout_of_along (Inv : List ο → σ → Prop) {P : List ο → σ → Prop} {Ok : σ → ℓ → Prop}
    (hstep : ∀ os s l s' o, Inv os s → Ok s l → step s l = some (s', o) → Inv (os ++ [o]) s')
    (hP : ∀ os s, Inv os s → P os s) {s : σ} {ls : List ℓ} (h0 : Inv [] s) (hok : Along step Ok s ls) :
    Throughout step P s ls := by
  rintro pre ⟨rest, rfl⟩ s' os hrun
  exact hP os s' (run_invariant Inv Ok hstep h0 hok.of_append hrun)

/-- **Exact condition rule.** When an invariant lets every admitted step keep a property exactly if the step
meets the condition, the property holds throughout an admitted run exactly if every step of it does. -/
theorem throughout_iff_along (Inv : List ο → σ → Prop) (Lab : σ → ℓ → Prop) {P : List ο → σ → Prop}
    {Ok : σ → ℓ → Prop}
    (hinv : ∀ os s l s' o, Lab s l → Inv os s → Ok s l → step s l = some (s', o) → Inv (os ++ [o]) s')
    (hiff : ∀ os s l s' o, Lab s l → Inv os s → P os s → step s l = some (s', o) → (P (os ++ [o]) s' ↔ Ok s l))
    {s : σ} (ls : List ℓ) (hls : Along step Lab s ls) (h0 : Inv [] s) (hP : P [] s) :
    Throughout step P s ls ↔ Along step Ok s ls := by
  suffices h : ∀ (ls : List ℓ) (os : List ο) (s : σ), Along step Lab s ls → Inv os s → P os s →
      (Throughout step (fun os' => P (os ++ os')) s ls ↔ Along step Ok s ls) by
    simpa using h ls [] s hls h0 hP
  intro ls
  induction ls with
  | nil =>
      intro os s _ _ hP
      refine ⟨fun _ => trivial, fun _ pre hpre s' os' hrun => ?_⟩
      rw [List.prefix_nil] at hpre
      subst hpre
      cases hrun
      rwa [List.append_nil]
  | cons l ls ih =>
      intro os s hls hs hP
      constructor
      · intro h s' o hstep
        obtain ⟨hl, hrest⟩ := hls s' o hstep
        have hnext : P (os ++ [o]) s' :=
          h [l] (by simp) s' [o] (run_cons_eq_some_iff.mpr ⟨s', o, [], hstep, rfl, rfl⟩)
        have hok := (hiff os s l s' o hl hs hP hstep).mp hnext
        refine ⟨hok, (ih _ s' hrest (hinv os s l s' o hl hs hok hstep) hnext).mp fun pre hpre t os' hrun => ?_⟩
        show P (os ++ [o] ++ os') t
        rw [← List.append_cons]
        exact h (l :: pre) (List.cons_prefix_cons.mpr ⟨rfl, hpre⟩) t (o :: os')
          (run_cons_eq_some_iff.mpr ⟨s', o, os', hstep, hrun, rfl⟩)
      · intro h pre hpre t os' hrun
        cases pre with
        | nil =>
            cases hrun
            rwa [List.append_nil]
        | cons l' pre =>
            obtain ⟨rfl, hpre'⟩ := List.cons_prefix_cons.mp hpre
            obtain ⟨s', o, os₁, hstep, hrun', rfl⟩ := run_cons_eq_some_iff.mp hrun
            obtain ⟨hl, hrest⟩ := hls s' o hstep
            obtain ⟨hok, hals⟩ := h s' o hstep
            have hnext := (hiff os s l' s' o hl hs hP hstep).mpr hok
            have htail := (ih _ s' hrest (hinv os s l' s' o hl hs hok hstep) hnext).mpr hals
            show P (os ++ o :: os₁) t
            rw [List.append_cons]
            exact htail pre hpre' t os₁ hrun'

/-- **Removal rule.** Labels that are not kept change nothing the relation sees and give no visible
output, and a kept label is enabled on both sides with the same visible output. Then the run without
the dropped labels exists and shows the same visible outputs. The conditions may be about the steps of
either run. -/
theorem run_filter (R : σ → σ → Prop) (Ok Ok' : σ → ℓ → Prop) {keep : ℓ → Bool} {vis : ο → Option β}
    (hkeep : ∀ s t l s' o, R s t → Ok s l → keep l = true → step s l = some (s', o) →
      ∃ t' o', step t l = some (t', o') ∧ (Ok' t l → R s' t' ∧ vis o = vis o'))
    (hdrop : ∀ s t l s' o, R s t → Ok s l → keep l = false → step s l = some (s', o) →
      R s' t ∧ vis o = none) :
    ∀ {ls : List ℓ} {s t s' : σ} {os : List ο}, R s t → Along step Ok s ls →
      Along step Ok' t (ls.filter keep) → run step s ls = some (s', os) →
      ∃ t' os', run step t (ls.filter keep) = some (t', os') ∧ R s' t' ∧
        os.filterMap vis = os'.filterMap vis := by
  intro ls
  induction ls with
  | nil =>
      intro s t s' os hR _ _ hrun
      cases hrun
      exact ⟨t, [], rfl, hR, rfl⟩
  | cons l ls ih =>
      intro s t s' os hR hok hok' hrun
      obtain ⟨s₁, o, os₁, hstep, hrest, rfl⟩ := run_cons_eq_some_iff.mp hrun
      obtain ⟨hl, hls⟩ := hok s₁ o hstep
      cases hk : keep l with
      | true =>
          rw [List.filter_cons_of_pos hk] at hok' ⊢
          obtain ⟨t₁, o', hstep', hrel⟩ := hkeep s t l s₁ o hR hl hk hstep
          obtain ⟨hl', hls'⟩ := hok' t₁ o' hstep'
          obtain ⟨hR₁, hvis⟩ := hrel hl'
          obtain ⟨t', os', hrun', hR', hos⟩ := ih hR₁ hls hls' hrest
          refine ⟨t', o' :: os', run_cons_eq_some_iff.mpr ⟨t₁, o', os', hstep', hrun', rfl⟩, hR', ?_⟩
          simp only [List.filterMap_cons, hvis, hos]
      | false =>
          rw [List.filter_cons_of_neg (by simp [hk])] at hok' ⊢
          obtain ⟨hR₁, hvis⟩ := hdrop s t l s₁ o hR hl hk hstep
          obtain ⟨t', os', hrun', hR', hos⟩ := ih hR₁ hls hok' hrest
          exact ⟨t', os', hrun', hR', by simp only [List.filterMap_cons, hvis, hos]⟩

/-- **Agreement rule.** The run without the dropped labels is given as well. Labels that are not kept change
nothing the relation sees and give no visible output, and a kept label gives the same visible output in
related states. Then both runs show the same visible outputs. -/
theorem run_filter_agree (R : σ → σ → Prop) (Lab : ℓ → Prop) (Ok : σ → ℓ → Prop) {keep : ℓ → Bool}
    {vis : ο → Option β}
    (hkeep : ∀ s t l s' o t' o', R s t → Lab l → Ok s l → Ok t l → keep l = true → step s l = some (s', o) →
      step t l = some (t', o') → R s' t' ∧ vis o = vis o')
    (hdrop : ∀ s t l s' o, R s t → Lab l → Ok s l → keep l = false → step s l = some (s', o) →
      R s' t ∧ vis o = none) :
    ∀ {ls : List ℓ} {s t s' t' : σ} {os os' : List ο}, R s t → (∀ l ∈ ls, Lab l) → Along step Ok s ls →
      Along step Ok t (ls.filter keep) → run step s ls = some (s', os) →
      run step t (ls.filter keep) = some (t', os') → os.filterMap vis = os'.filterMap vis := by
  intro ls
  induction ls with
  | nil =>
      intro s t s' t' os os' _ _ _ _ hrun hrun'
      cases hrun
      cases hrun'
      rfl
  | cons l ls ih =>
      intro s t s' t' os os' hR hls hok hok' hrun hrun'
      obtain ⟨hl, hls⟩ := List.forall_mem_cons.mp hls
      obtain ⟨s₁, o, os₁, hstep, hrest, rfl⟩ := run_cons_eq_some_iff.mp hrun
      obtain ⟨hokl, hok⟩ := hok s₁ o hstep
      cases hk : keep l with
      | true =>
          rw [List.filter_cons_of_pos hk] at hok' hrun'
          obtain ⟨t₁, o', os₁', hstep', hrest', rfl⟩ := run_cons_eq_some_iff.mp hrun'
          obtain ⟨hokl', hok'⟩ := hok' t₁ o' hstep'
          obtain ⟨hR₁, hvis⟩ := hkeep s t l s₁ o t₁ o' hR hl hokl hokl' hk hstep hstep'
          simp only [List.filterMap_cons, hvis, ih hR₁ hls hok hok' hrest hrest']
      | false =>
          rw [List.filter_cons_of_neg (by simp [hk])] at hok' hrun'
          obtain ⟨hR₁, hvis⟩ := hdrop s t l s₁ o hR hl hokl hk hstep
          simp only [List.filterMap_cons, hvis, ih hR₁ hls hok hok' hrest hrun']

end OsHw
