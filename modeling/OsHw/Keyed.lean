import Mathlib.Data.List.Basic

/-! Lists of items with distinct keys, in the order of the keys or in any order, searched from the front. A search in
an order ends at the first item that is not before the key. Where it stops is where an item with the key is put,
replaced or removed, and a list that is changed there is searched as a finite map that is changed at the key. -/

namespace OsHw.Keyed

open Std

variable {κ α : Type} (cmp : κ → κ → Ordering) (key : α → κ)

/-- No key occurs twice; in an order the keys ascend. -/
def Ordered (sorted : Bool) (as : List α) : Prop :=
  as.Pairwise fun a b => key a ≠ key b ∧ (sorted = true → cmp (key a) (key b) = .lt)

/-- Where the search for a key stops: the items it has passed, and those from the one it stands on. -/
structure Stops (sorted found : Bool) (k : κ) (l r : List α) : Prop where
  passed : ∀ a ∈ l, cmp k (key a) ≠ .eq ∧ (sorted = true → cmp k (key a) = .gt)
  hit : found = true → ∃ a r', r = a :: r' ∧ cmp k (key a) = .eq
  exhausted : found = false → sorted = false → r = []
  before : found = false → sorted = true → ∀ a r', r = a :: r' → cmp k (key a) = .lt

/-- The item with a key. -/
def lookup [DecidableEq κ] (k : κ) (as : List α) : Option α := as.find? fun a => decide (key a = k)

/-- Put an item with a key, or take it out: what is done where the search stops. -/
def set (sorted : Bool) (k : κ) (new : Option α) : List α → List α
  | [] => new.toList
  | a :: as =>
      match cmp k (key a) with
      | .eq => new.toList ++ as
      | .lt => if sorted then new.toList ++ a :: as else a :: set sorted k new as
      | .gt => a :: set sorted k new as

variable {cmp key} {sorted found : Bool} {k k' : κ} {a a' : α} {l r : List α}

theorem Stops.cons (h : Stops cmp key sorted found k l r) (hne : cmp k (key a) ≠ .eq)
    (hgt : sorted = true → cmp k (key a) = .gt) : Stops cmp key sorted found k (a :: l) r := by
  refine ⟨fun b hb => ?_, h.hit, h.exhausted, h.before⟩
  obtain rfl | hb := List.mem_cons.mp hb
  · exact ⟨hne, hgt⟩
  · exact h.passed b hb

theorem stops_nil (k : κ) : Stops cmp key sorted false k ([] : List α) [] :=
  ⟨fun _ hb => absurd hb List.not_mem_nil, fun h => absurd h Bool.false_ne_true, fun _ _ => rfl,
    fun _ _ _ _ h => absurd h.symm (List.cons_ne_nil _ _)⟩

theorem stops_hit (h : cmp k (key a) = .eq) : Stops cmp key sorted true k [] (a :: r) :=
  ⟨fun _ hb => absurd hb List.not_mem_nil, fun _ => ⟨a, r, rfl, h⟩, fun h => absurd h.symm Bool.false_ne_true,
    fun h => absurd h.symm Bool.false_ne_true⟩

theorem stops_before (h : cmp k (key a) = .lt) : Stops cmp key true false k [] (a :: r) :=
  ⟨fun _ hb => absurd hb List.not_mem_nil, fun h => absurd h Bool.false_ne_true,
    fun _ h => absurd h.symm Bool.false_ne_true, fun _ _ _ _ hb => (List.cons.inj hb).1 ▸ h⟩

theorem mem_of_mem_set {new : Option α} {as : List α} (h : a ∈ set cmp key sorted k new as) : a ∈ new ∨ a ∈ as := by
  induction as with
  | nil => exact Or.inl (Option.mem_toList.mp h)
  | cons b as ih =>
      have hgo : a ∈ b :: set cmp key sorted k new as → a ∈ new ∨ a ∈ b :: as := by
        intro ha
        obtain rfl | ha := List.mem_cons.mp ha
        · exact Or.inr List.mem_cons_self
        · exact (ih ha).imp_right (List.mem_cons_of_mem b)
      rw [set] at h
      cases hcmp : cmp k (key b) with
      | eq =>
          rw [hcmp] at h
          exact (List.mem_append.mp h).imp Option.mem_toList.mp (List.mem_cons_of_mem b)
      | gt =>
          rw [hcmp] at h
          exact hgo h
      | lt =>
          rw [hcmp] at h
          cases sorted with
          | true => exact (List.mem_append.mp h).imp_left Option.mem_toList.mp
          | false => exact hgo h

/-- The search does not end at an item that it passes. -/
theorem set_pass (new : Option α) (hne : cmp k (key a) ≠ .eq) (hgt : sorted = true → cmp k (key a) = .gt) :
    set cmp key sorted k new (a :: r) = a :: set cmp key sorted k new r := by
  rw [set]
  cases hcmp : cmp k (key a) with
  | eq => exact absurd hcmp hne
  | gt => rfl
  | lt =>
      have hunsorted : sorted ≠ true := fun hs => by
        rw [hgt hs] at hcmp
        exact Ordering.noConfusion hcmp
      exact if_neg hunsorted

theorem Stops.set_passed (h : Stops cmp key sorted found k l r) (new : Option α) :
    set cmp key sorted k new (l ++ r) = l ++ set cmp key sorted k new r := by
  obtain ⟨hpassed, -, -, -⟩ := h
  induction l with
  | nil => rfl
  | cons b l ih =>
      obtain ⟨hne, hgt⟩ := hpassed b List.mem_cons_self
      rw [List.cons_append, List.cons_append, set_pass new hne hgt,
        ih fun c hc => hpassed c (List.mem_cons_of_mem b hc)]

/-- After a miss the item is added. -/
theorem Stops.set_miss (h : Stops cmp key sorted false k l r) (new : Option α) :
    set cmp key sorted k new (l ++ r) = l ++ (new.toList ++ r) := by
  rw [h.set_passed]
  congr 1
  cases r with
  | nil => exact (List.append_nil _).symm
  | cons a r =>
      cases sorted with
      | false => exact absurd (h.exhausted rfl rfl) (List.cons_ne_nil a r)
      | true =>
          rw [set, h.before rfl rfl a r rfl]
          exact if_pos rfl

/-- After a hit the item is replaced. -/
theorem Stops.set_hit (h : Stops cmp key sorted true k l (a :: r)) (new : Option α) :
    set cmp key sorted k new (l ++ a :: r) = l ++ (new.toList ++ r) := by
  obtain ⟨b, r', heq, hcmp⟩ := h.hit rfl
  obtain ⟨rfl, rfl⟩ := List.cons.inj heq
  rw [h.set_passed, set, hcmp]

variable (cmp key) in
/-- A search stops somewhere. -/
theorem exists_stops (sorted : Bool) (k : κ) (as : List α) :
    ∃ l r found, as = l ++ r ∧ Stops cmp key sorted found k l r := by
  induction as with
  | nil => exact ⟨[], [], false, rfl, stops_nil k⟩
  | cons a as ih =>
      by_cases heq : cmp k (key a) = .eq
      · exact ⟨[], a :: as, true, rfl, stops_hit heq⟩
      · by_cases hpass : sorted = true → cmp k (key a) = .gt
        · obtain ⟨l, r, found, rfl, hstops⟩ := ih
          exact ⟨a :: l, r, found, rfl, hstops.cons heq hpass⟩
        · obtain ⟨rfl, hgt⟩ := Classical.not_imp.mp hpass
          have hlt : cmp k (key a) = .lt := by
            cases hcmp : cmp k (key a) with
            | lt => rfl
            | eq => exact absurd hcmp heq
            | gt => exact absurd hcmp hgt
          exact ⟨[], a :: as, false, rfl, stops_before hlt⟩

/-- Only the keys count. -/
theorem stops_map {β : Type} (key' : β → κ) {f : α → β} (hkey : ∀ a, key' (f a) = key a) :
    Stops cmp key' sorted found k (l.map f) (r.map f) ↔ Stops cmp key sorted found k l r := by
  constructor
  · intro h
    refine ⟨fun a ha => ?_, fun hfound => ?_, fun h₁ h₂ => ?_, fun h₁ h₂ a r' hr => ?_⟩
    · rw [← hkey]
      exact h.passed (f a) (List.mem_map_of_mem ha)
    · obtain ⟨b, r', hr, hb⟩ := h.hit hfound
      obtain ⟨a, r'', rfl, rfl, rfl⟩ := List.map_eq_cons_iff.mp hr
      rw [hkey] at hb
      exact ⟨a, r'', rfl, hb⟩
    · exact List.map_eq_nil_iff.mp (h.exhausted h₁ h₂)
    · rw [← hkey]
      exact h.before h₁ h₂ (f a) (r'.map f) (by rw [hr, List.map_cons])
  · intro h
    refine ⟨fun b hb => ?_, fun hfound => ?_, fun h₁ h₂ => ?_, fun h₁ h₂ b r' hr => ?_⟩
    · obtain ⟨a, ha, rfl⟩ := List.mem_map.mp hb
      rw [hkey]
      exact h.passed a ha
    · obtain ⟨a, r', rfl, ha⟩ := h.hit hfound
      refine ⟨f a, r'.map f, rfl, ?_⟩
      rwa [hkey]
    · rw [h.exhausted h₁ h₂, List.map_nil]
    · obtain ⟨a, r'', rfl, rfl, rfl⟩ := List.map_eq_cons_iff.mp hr
      rw [hkey]
      exact h.before h₁ h₂ a r'' rfl

section Lookup

variable [DecidableEq κ]

theorem lookup_cons (k : κ) (a : α) (r : List α) :
    lookup key k (a :: r) = if key a = k then some a else lookup key k r := by
  rw [lookup, List.find?_cons]
  by_cases h : key a = k
  · rw [if_pos h, decide_eq_true h]
  · rw [if_neg h, decide_eq_false h]
    rfl

/-- Away from its own key an item is not seen. -/
theorem lookup_middle_of_ne (h : key a ≠ k) : lookup key k (l ++ a :: r) = lookup key k (l ++ r) := by
  induction l with
  | nil => rw [List.nil_append, List.nil_append, lookup_cons, if_neg h]
  | cons b l ih => rw [List.cons_append, List.cons_append, lookup_cons, lookup_cons, ih]

theorem lookup_middle_self (h : ∀ b ∈ l, key b ≠ key a) : lookup key (key a) (l ++ a :: r) = some a := by
  induction l with
  | nil => rw [List.nil_append, lookup_cons, if_pos rfl]
  | cons b l ih =>
      rw [List.cons_append, lookup_cons, if_neg (h b List.mem_cons_self)]
      exact ih fun c hc => h c (List.mem_cons_of_mem b hc)

theorem lookup_eq_none (h : ∀ b ∈ r, key b ≠ k) : lookup key k r = none := by
  rw [lookup, List.find?_eq_none]
  intro b hb
  rw [decide_eq_true_eq]
  exact h b hb

theorem mem_of_lookup {as : List α} (h : lookup key k as = some a) : a ∈ as ∧ key a = k :=
  ⟨List.mem_of_find?_eq_some h, of_decide_eq_true (List.find?_some (p := fun a => decide (key a = k)) h)⟩

end Lookup

section Pairs

/-- What is listed behind an item in an order has later keys. -/
theorem Ordered.head_lt (h : Ordered cmp key true (a :: r)) {b : α} (hb : b ∈ r) : cmp (key a) (key b) = .lt :=
  ((List.pairwise_cons.mp h).1 b hb).2 rfl

theorem Ordered.replace (hordered : Ordered cmp key sorted (l ++ a :: r)) (ha : key a' = key a) :
    Ordered cmp key sorted (l ++ a' :: r) := by
  obtain ⟨hl, har, hlr⟩ := List.pairwise_append.mp hordered
  obtain ⟨hr₁, hr₂⟩ := List.pairwise_cons.mp har
  refine List.pairwise_append.mpr ⟨hl, List.pairwise_cons.mpr ⟨fun b hb => ?_, hr₂⟩, fun b hb c hc => ?_⟩
  · rw [ha]
    exact hr₁ b hb
  · obtain rfl | hc := List.mem_cons.mp hc
    · rw [ha]
      exact hlr b hb a List.mem_cons_self
    · exact hlr b hb c (List.mem_cons_of_mem a hc)

theorem Ordered.remove (hordered : Ordered cmp key sorted (l ++ a :: r)) : Ordered cmp key sorted (l ++ r) :=
  List.Pairwise.sublist (List.Sublist.append_left (List.sublist_cons_self a r) l) hordered

variable [DecidableEq κ]

/-- The keys on both sides of an item are others. -/
theorem Ordered.lookup_remove (hordered : Ordered cmp key sorted (l ++ a :: r)) (k' : κ) :
    lookup key k' (l ++ r) = if k' = key a then none else lookup key k' (l ++ a :: r) := by
  obtain ⟨-, har, hlr⟩ := List.pairwise_append.mp hordered
  split
  next heq =>
    apply lookup_eq_none
    intro b hb
    rw [heq]
    obtain hb | hb := List.mem_append.mp hb
    · exact (hlr b hb a List.mem_cons_self).1
    · exact (((List.pairwise_cons.mp har).1 b hb).1).symm
  next hne => exact (lookup_middle_of_ne fun heq => hne heq.symm).symm

theorem Ordered.lookup_replace (hordered : Ordered cmp key sorted (l ++ a :: r)) (ha : key a' = key a) (k' : κ) :
    lookup key k' (l ++ a' :: r) = if k' = key a then some a' else lookup key k' (l ++ a :: r) := by
  obtain ⟨-, -, hlr⟩ := List.pairwise_append.mp hordered
  split
  next heq =>
    rw [heq, ← ha]
    exact lookup_middle_self fun b hb => by
      rw [ha]
      exact (hlr b hb a List.mem_cons_self).1
  next hne =>
    have hne' : key a' ≠ k' := by
      rw [ha]
      exact fun heq => hne heq.symm
    rw [lookup_middle_of_ne hne', lookup_middle_of_ne fun heq => hne heq.symm]

end Pairs

section Order

variable [LawfulEqCmp cmp]

theorem ne_of_cmp_ne (h : cmp k k' ≠ .eq) : k ≠ k' := by
  rintro rfl
  exact h ReflCmp.compare_self

theorem Stops.passed_ne (h : Stops cmp key sorted found k l r) (ha : a ∈ l) : key a ≠ k :=
  (ne_of_cmp_ne (h.passed a ha).1).symm

section Found

variable [DecidableEq κ]

/-- **A hit** is the item with the key. -/
theorem Stops.lookup_hit (h : Stops cmp key sorted true k l r) :
    ∃ a r', r = a :: r' ∧ key a = k ∧ lookup key k (l ++ r) = some a := by
  obtain ⟨a, r', rfl, heq⟩ := h.hit rfl
  have hkey : key a = k := (LawfulEqCmp.eq_of_compare heq).symm
  refine ⟨a, r', rfl, hkey, ?_⟩
  rw [← hkey]
  exact lookup_middle_self fun b hb => by
    rw [hkey]
    exact h.passed_ne hb

theorem Stops.lookup_insert (h : Stops cmp key sorted false k l r) (ha : key a = k) (k' : κ) :
    lookup key k' (l ++ a :: r) = if k' = k then some a else lookup key k' (l ++ r) := by
  split
  next heq =>
    rw [heq, ← ha]
    exact lookup_middle_self fun b hb => by
      rw [ha]
      exact h.passed_ne hb
  next hne => exact lookup_middle_of_ne fun heq => hne (heq.symm.trans ha)

end Found

variable [TransCmp cmp]

/-- What the search stops before has other keys, and in an order later ones. -/
theorem Stops.rest (h : Stops cmp key sorted false k l r) (hordered : Ordered cmp key sorted (l ++ r)) (ha : a ∈ r) :
    key a ≠ k ∧ (sorted = true → cmp k (key a) = .lt) := by
  cases sorted with
  | false =>
      rw [h.exhausted rfl rfl] at ha
      exact absurd ha List.not_mem_nil
  | true =>
      cases r with
      | nil => exact absurd ha List.not_mem_nil
      | cons b r =>
          have hb := h.before rfl rfl b r rfl
          have hlt : cmp k (key a) = .lt := by
            obtain rfl | ha := List.mem_cons.mp ha
            · exact hb
            · have hrest := (List.pairwise_append.mp hordered).2.1
              exact TransCmp.lt_trans hb (((List.pairwise_cons.mp hrest).1 a ha).2 rfl)
          refine ⟨fun heq => ?_, fun _ => hlt⟩
          have hself : cmp k k = .eq := ReflCmp.compare_self
          rw [heq, hself] at hlt
          exact Ordering.noConfusion hlt

/-- **An item put where the search has stopped** keeps the order. -/
theorem Ordered.insert (hordered : Ordered cmp key sorted (l ++ r)) (h : Stops cmp key sorted false k l r)
    (ha : key a = k) : Ordered cmp key sorted (l ++ a :: r) := by
  obtain ⟨hl, hr, hlr⟩ := List.pairwise_append.mp hordered
  refine List.pairwise_append.mpr ⟨hl, List.pairwise_cons.mpr ⟨fun b hb => ?_, hr⟩, fun b hb c hc => ?_⟩
  · obtain ⟨hne, hlt⟩ := h.rest hordered hb
    rw [ha]
    exact ⟨hne.symm, hlt⟩
  · obtain rfl | hc := List.mem_cons.mp hc
    · rw [ha]
      refine ⟨h.passed_ne hb, fun hs => ?_⟩
      exact OrientedCmp.lt_of_gt ((h.passed b hb).2 hs)
    · exact hlr b hb c hc

/-- **A miss** means that no item has the key, also when the search has ended early. -/
theorem Stops.lookup_miss [DecidableEq κ] (h : Stops cmp key sorted false k l r)
    (hordered : Ordered cmp key sorted (l ++ r)) :
    lookup key k (l ++ r) = none := by
  apply lookup_eq_none
  intro b hb
  obtain hb | hb := List.mem_append.mp hb
  · exact h.passed_ne hb
  · exact (h.rest hordered hb).1

/-- **Setting a key** keeps the order. -/
theorem Ordered.set {as : List α} {new : Option α} (h : Ordered cmp key sorted as) (hnew : ∀ a ∈ new, key a = k) :
    Ordered cmp key sorted (Keyed.set cmp key sorted k new as) := by
  obtain ⟨l, r, found, rfl, hstops⟩ := exists_stops cmp key sorted k as
  cases found with
  | true =>
      obtain ⟨a, r, rfl, heq⟩ := hstops.hit rfl
      have ha : key a = k := (LawfulEqCmp.eq_of_compare heq).symm
      rw [hstops.set_hit]
      cases new with
      | none => exact h.remove
      | some a' => exact h.replace ((hnew a' rfl).trans ha.symm)
  | false =>
      rw [hstops.set_miss]
      cases new with
      | none => exact h
      | some a' => exact h.insert hstops (hnew a' rfl)

/-- **The list is a finite map**, which is changed at the key. -/
theorem Ordered.lookup_set [DecidableEq κ] {as : List α} {new : Option α} (h : Ordered cmp key sorted as)
    (hnew : ∀ a ∈ new, key a = k) (k' : κ) :
    lookup key k' (Keyed.set cmp key sorted k new as) = if k' = k then new else lookup key k' as := by
  obtain ⟨l, r, found, rfl, hstops⟩ := exists_stops cmp key sorted k as
  cases found with
  | true =>
      obtain ⟨a, r, rfl, heq⟩ := hstops.hit rfl
      have ha : key a = k := (LawfulEqCmp.eq_of_compare heq).symm
      rw [hstops.set_hit, ← ha]
      cases new with
      | none => exact h.lookup_remove k'
      | some a' => exact h.lookup_replace ((hnew a' rfl).trans ha.symm) k'
  | false =>
      rw [hstops.set_miss]
      cases new with
      | none =>
          split
          next heq => rw [heq, Option.toList_none, List.nil_append, hstops.lookup_miss h]
          next => rfl
      | some a' => exact hstops.lookup_insert (hnew a' rfl) k'

omit [LawfulEqCmp cmp] in
/-- **In an order the list is determined** by what is found in it. -/
theorem Ordered.ext [DecidableEq κ] {as bs : List α} (has : Ordered cmp key true as) (hbs : Ordered cmp key true bs)
    (heq : ∀ k, lookup key k as = lookup key k bs) : as = bs := by
  induction as generalizing bs with
  | nil =>
      cases bs with
      | nil => rfl
      | cons b bs =>
          have hb := heq (key b)
          rw [lookup_cons, if_pos rfl] at hb
          exact absurd hb.symm (Option.some_ne_none b)
  | cons a as ih =>
      have ha : lookup key (key a) bs = some a := by rw [← heq, lookup_cons, if_pos rfl]
      cases bs with
      | nil => exact absurd ha.symm (Option.some_ne_none a)
      | cons b bs =>
          have hb : lookup key (key b) (a :: as) = some b := by rw [heq, lookup_cons, if_pos rfl]
          -- an item that is not the first one is behind it, so both lists begin with the same one
          have hab : a = b := by
            obtain hmem | hmem := List.mem_cons.mp (mem_of_lookup ha).1
            · exact hmem
            · obtain hmem' | hmem' := List.mem_cons.mp (mem_of_lookup hb).1
              · exact hmem'.symm
              · have hlt := hbs.head_lt hmem
                have hgt := OrientedCmp.gt_of_lt (has.head_lt hmem')
                rw [hlt] at hgt
                exact absurd hgt Ordering.noConfusion
          subst hab
          refine congrArg (a :: ·) (ih (List.pairwise_cons.mp has).2 (List.pairwise_cons.mp hbs).2 fun k => ?_)
          by_cases hk : key a = k
          · have hnone : ∀ {cs : List α}, Ordered cmp key true (a :: cs) → lookup key k cs = none := by
              intro cs hcs
              apply lookup_eq_none
              intro c hc
              rw [← hk]
              exact ((List.pairwise_cons.mp hcs).1 c hc).1.symm
            rw [hnone has, hnone hbs]
          · have hrest := heq k
            rwa [lookup_cons, lookup_cons, if_neg hk, if_neg hk] at hrest

end Order

end OsHw.Keyed
