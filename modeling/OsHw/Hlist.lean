import Mathlib.Data.List.Nodup
import Mathlib.Logic.Function.Basic

/-! Hash-list chains in memory. A head cell holds a pointer to the first node, a node holds a pointer
to the next one and the address of the cell that points to it. Heads and nodes are arbitrary types. The
back pointers make the chains of different heads disjoint and every chain free of repetitions, so
neither is assumed anywhere: both follow from the chains being well linked. -/

namespace OsHw.Hlist

variable {H N : Type}

/-- A cell that points to a node: the `first` field of a head or the `next` field of a node. -/
inductive Slot (H N : Type) where
  | head (h : H)
  | node (n : N)
  deriving DecidableEq, Repr

/-- The links of every head and every node. A node that was never linked, or whose links were
poisoned by a removal, has no back pointer. -/
structure Mem (H N : Type) where
  first : H → Option N
  next : N → Option N
  pprev : N → Option (Slot H N)

/-- `m.Linked slot p l`: following `p`, which is stored in `slot`, visits exactly the nodes `l`, and
every one of them points back to the cell that points to it. -/
inductive Mem.Linked (m : Mem H N) : Slot H N → Option N → List N → Prop
  | nil (slot : Slot H N) : m.Linked slot none []
  | cons {slot : Slot H N} {n : N} {l : List N} (hback : m.pprev n = some slot)
      (hrest : m.Linked (.node n) (m.next n) l) : m.Linked slot (some n) (n :: l)

/-- The nodes of the chain of a head. -/
def Mem.Chain (m : Mem H N) (h : H) (l : List N) : Prop := m.Linked (.head h) (m.first h) l

/-- The nodes met when at most `fuel` links are followed from a pointer. -/
def Mem.walk (m : Mem H N) : Nat → Option N → List N
  | 0, _ => []
  | _ + 1, none => []
  | fuel + 1, some n => n :: m.walk fuel (m.next n)

section Lists

variable {m m' : Mem H N} {slot slot' : Slot H N} {p : Option N} {l l' : List N} {h h' : H} {a n : N}

theorem Mem.Linked.pprev_ne_none (hl : m.Linked slot p l) (ha : a ∈ l) : m.pprev a ≠ none := by
  induction hl with
  | nil => cases ha
  | cons hback _ ih =>
      rcases List.mem_cons.mp ha with rfl | hmem
      · rw [hback]
        exact Option.some_ne_none _
      · exact ih hmem

theorem Mem.Linked.frame (hl : m.Linked slot p l)
    (hagree : ∀ a ∈ l, m'.next a = m.next a ∧ m'.pprev a = m.pprev a) : m'.Linked slot p l := by
  induction hl with
  | nil => exact .nil _
  | cons hback _ ih =>
      obtain ⟨hnext, hpprev⟩ := hagree _ List.mem_cons_self
      refine .cons (hpprev.trans hback) ?_
      rw [hnext]
      exact ih fun a ha => hagree a (List.mem_cons_of_mem _ ha)

theorem Mem.Linked.walk_eq_take (hl : m.Linked slot p l) (fuel : Nat) : m.walk fuel p = l.take fuel := by
  induction hl generalizing fuel with
  | nil => cases fuel <;> rfl
  | cons _ _ ih =>
      cases fuel with
      | zero => rfl
      | succ fuel => rw [Mem.walk, ih, List.take_succ_cons]

theorem Mem.Linked.walk_eq (hl : m.Linked slot p l) {fuel : Nat} (hfuel : l.length ≤ fuel) :
    m.walk fuel p = l := by
  rw [hl.walk_eq_take, List.take_of_length_le hfuel]

theorem Mem.walk_congr (hnext : m'.next = m.next) (fuel : Nat) (p : Option N) :
    m'.walk fuel p = m.walk fuel p := by
  induction fuel generalizing p with
  | zero => rfl
  | succ fuel ih =>
      cases p with
      | none => rfl
      | some n => rw [Mem.walk, Mem.walk, hnext, ih]

/-! ### Positions

The back pointers alone determine the head a linked node belongs to and how far from it the node is. -/

/-- `n` is `k` nodes after the first node of `h`, read along the back pointers. -/
def Mem.Below (m : Mem H N) (h : H) : N → Nat → Prop
  | n, 0 => m.pprev n = some (.head h)
  | n, k + 1 => ∃ b, m.pprev n = some (.node b) ∧ m.Below h b k

theorem Mem.Below.unique {i j : Nat} (hi : m.Below h n i) (hj : m.Below h' n j) : h = h' ∧ i = j := by
  induction i generalizing n j with
  | zero =>
      rw [Mem.Below] at hi
      cases j with
      | zero =>
          rw [Mem.Below, hi] at hj
          cases hj
          exact ⟨rfl, rfl⟩
      | succ j =>
          obtain ⟨b, hb, -⟩ := hj
          rw [hi] at hb
          cases hb
  | succ i ih =>
      obtain ⟨b, hb, hbelow⟩ := hi
      cases j with
      | zero =>
          rw [Mem.Below, hb] at hj
          cases hj
      | succ j =>
          obtain ⟨b', hb', hbelow'⟩ := hj
          rw [hb] at hb'
          cases hb'
          obtain ⟨hh, hij⟩ := ih hbelow hbelow'
          exact ⟨hh, by rw [hij]⟩

theorem Mem.Linked.below_getElem (hl : m.Linked slot p l) (k : Nat)
    (hslot : ∀ b, m.pprev b = some slot → m.Below h b k) {i : Nat} (hi : i < l.length) :
    m.Below h l[i] (k + i) := by
  induction hl generalizing k i with
  | nil => cases hi
  | cons hback _ ih =>
      cases i with
      | zero => exact hslot _ hback
      | succ i =>
          have := ih (k + 1) (fun b hb => ⟨_, hb, hslot _ hback⟩) (i := i) (by simpa using hi)
          rwa [Nat.add_right_comm] at this

theorem Mem.Chain.below_getElem (hc : m.Chain h l) {i : Nat} (hi : i < l.length) : m.Below h l[i] i := by
  have := Mem.Linked.below_getElem hc 0 (fun _ hb => hb) hi
  rwa [Nat.zero_add] at this

theorem Mem.Chain.nodup (hc : m.Chain h l) : l.Nodup := by
  rw [List.nodup_iff_injective_getElem]
  intro i j hij
  have hi := hc.below_getElem i.isLt
  have hj := hc.below_getElem j.isLt
  rw [show l[i.val] = l[j.val] from hij] at hi
  exact Fin.ext (hi.unique hj).2

/-- A node is on the chain of one head only. -/
theorem Mem.Chain.head_eq (hc : m.Chain h l) (hc' : m.Chain h' l') (ha : a ∈ l) (ha' : a ∈ l') : h = h' := by
  obtain ⟨i, hi, rfl⟩ := List.getElem_of_mem ha
  obtain ⟨j, hj, hij⟩ := List.getElem_of_mem ha'
  have hbelow := hc'.below_getElem hj
  rw [hij] at hbelow
  exact ((hc.below_getElem hi).unique hbelow).1

theorem Mem.chain_nil_iff : m.Chain h [] ↔ m.first h = none := by
  constructor
  · intro hc
    rw [Mem.Chain] at hc
    generalize m.first h = p at hc
    cases hc
    rfl
  · intro hfirst
    rw [Mem.Chain, hfirst]
    exact .nil _

theorem Mem.chain_cons_iff : m.Chain h (n :: l) ↔
    m.first h = some n ∧ m.pprev n = some (.head h) ∧ m.Linked (.node n) (m.next n) l := by
  rw [Mem.Chain]
  constructor
  · intro hc
    generalize m.first h = p at hc
    cases hc with
    | cons hback hrest => exact ⟨rfl, hback, hrest⟩
  · rintro ⟨hfirst, hback, hrest⟩
    rw [hfirst]
    exact .cons hback hrest

theorem Mem.Chain.mem_of_next (hc : m.Chain h (n :: l)) (ha : m.next n = some a) : a ∈ l := by
  obtain ⟨-, -, hrest⟩ := Mem.chain_cons_iff.mp hc
  rw [ha] at hrest
  cases hrest
  exact List.mem_cons_self

theorem Mem.Chain.frame (hc : m.Chain h l) (hfirst : m'.first h = m.first h)
    (hagree : ∀ a ∈ l, m'.next a = m.next a ∧ m'.pprev a = m.pprev a) : m'.Chain h l := by
  rw [Mem.Chain, hfirst]
  exact Mem.Linked.frame hc hagree

end Lists

/-! ### Insertion and removal -/

section Ops

variable [DecidableEq H] [DecidableEq N]

/-- Store a pointer in a cell. -/
def Mem.store (m : Mem H N) (slot : Slot H N) (p : Option N) : Mem H N :=
  match slot with
  | .head h => { m with first := Function.update m.first h p }
  | .node n => { m with next := Function.update m.next n p }

/-- Insert a node before the first one of a head. -/
def Mem.addHead (m : Mem H N) (n : N) (h : H) : Mem H N :=
  let first := m.first h
  let pprev := match first with
    | none => m.pprev
    | some f => Function.update m.pprev f (some (.node n))
  { first := Function.update m.first h (some n)
    next := Function.update m.next n first
    pprev := Function.update pprev n (some (.head h)) }

/-- Unlink a node: the cell that points to it takes over its successor, and its own links are
poisoned. -/
def Mem.del (m : Mem H N) (n : N) : Mem H N :=
  match m.pprev n with
  | none => m
  | some slot =>
      let next := m.next n
      let m₁ := m.store slot next
      let pprev := match next with
        | none => m₁.pprev
        | some x => Function.update m₁.pprev x (some slot)
      { first := m₁.first
        next := Function.update m₁.next n none
        pprev := Function.update pprev n none }

variable {m : Mem H N} {h h' : H} {n a : N} {l l' : List N}

theorem Mem.addHead_first_self : (m.addHead n h).first h = some n := by simp [Mem.addHead]

theorem Mem.addHead_first_of_ne (hne : h' ≠ h) : (m.addHead n h).first h' = m.first h' := by
  simp [Mem.addHead, hne]

theorem Mem.addHead_next_of_ne (hne : a ≠ n) : (m.addHead n h).next a = m.next a := by
  simp [Mem.addHead, hne]

theorem Mem.addHead_pprev_of_ne (hne : a ≠ n) (hfirst : m.first h ≠ some a) :
    (m.addHead n h).pprev a = m.pprev a := by
  unfold Mem.addHead
  cases hf : m.first h with
  | none => simp [hne]
  | some f =>
      have : a ≠ f := fun he => hfirst (he ▸ hf)
      simp [hne, this]

/-- An insertion into a chain leaves every unlinked node other than the new one unlinked. -/
theorem Mem.Chain.addHead_pprev_eq_none (hc : m.Chain h l) (ha : m.pprev a = none) (hne : a ≠ n) :
    (m.addHead n h).pprev a = none := by
  rw [Mem.addHead_pprev_of_ne hne, ha]
  intro hfirst
  cases l with
  | nil => rw [Mem.chain_nil_iff.mp hc] at hfirst; cases hfirst
  | cons b l =>
      obtain ⟨hb, hback, -⟩ := Mem.chain_cons_iff.mp hc
      rw [hb] at hfirst
      cases hfirst
      rw [ha] at hback
      cases hback

theorem Mem.Chain.addHead_self (hc : m.Chain h l) (hn : m.pprev n = none) :
    (m.addHead n h).Chain h (n :: l) := by
  have hnl : n ∉ l := fun hmem => Mem.Linked.pprev_ne_none hc hmem hn
  rw [Mem.chain_cons_iff]
  refine ⟨Mem.addHead_first_self, by simp [Mem.addHead], ?_⟩
  have hnext : (m.addHead n h).next n = m.first h := by simp [Mem.addHead]
  rw [hnext]
  cases l with
  | nil =>
      rw [Mem.chain_nil_iff.mp hc]
      exact .nil _
  | cons b l =>
      obtain ⟨hfirst, -, hrest⟩ := Mem.chain_cons_iff.mp hc
      have hbn : b ≠ n := fun he => hnl (he ▸ List.mem_cons_self)
      have hbl : b ∉ l := (List.nodup_cons.mp hc.nodup).1
      rw [hfirst]
      refine .cons (by simp [Mem.addHead, hfirst, hbn]) ?_
      rw [Mem.addHead_next_of_ne hbn]
      refine hrest.frame fun a ha => ?_
      have han : a ≠ n := fun he => hnl (he ▸ List.mem_cons_of_mem _ ha)
      have hab : a ≠ b := fun he => hbl (he ▸ ha)
      exact ⟨Mem.addHead_next_of_ne han,
        Mem.addHead_pprev_of_ne han (by rw [hfirst]; exact fun he => hab (Option.some.inj he).symm)⟩

theorem Mem.Chain.addHead_of_ne (hc' : m.Chain h' l') (hc : m.Chain h l) (hne : h' ≠ h)
    (hn : m.pprev n = none) : (m.addHead n h).Chain h' l' := by
  refine hc'.frame (Mem.addHead_first_of_ne hne) fun a ha => ?_
  have han : a ≠ n := fun he => Mem.Linked.pprev_ne_none hc' ha (he ▸ hn)
  refine ⟨Mem.addHead_next_of_ne han, Mem.addHead_pprev_of_ne han fun hfirst => ?_⟩
  cases l with
  | nil => rw [Mem.chain_nil_iff.mp hc] at hfirst; cases hfirst
  | cons b l =>
      rw [(Mem.chain_cons_iff.mp hc).1] at hfirst
      cases hfirst
      exact hne (hc'.head_eq hc ha List.mem_cons_self)

/-- The memory after the first node of a chain is unlinked. -/
theorem Mem.Chain.del_first_eq (hc : m.Chain h (n :: l)) :
    m.del n =
      { first := Function.update m.first h (m.next n)
        next := Function.update m.next n none
        pprev := Function.update (match m.next n with
          | none => m.pprev
          | some x => Function.update m.pprev x (some (.head h))) n none } := by
  rw [Mem.del, (Mem.chain_cons_iff.mp hc).2.1]
  rfl

theorem Mem.Chain.del_self (hc : m.Chain h (n :: l)) : (m.del n).Chain h l := by
  obtain ⟨-, -, hrest⟩ := Mem.chain_cons_iff.mp hc
  have hnl : n ∉ l := (List.nodup_cons.mp hc.nodup).1
  have hl : l.Nodup := (List.nodup_cons.mp hc.nodup).2
  rw [hc.del_first_eq]
  cases l with
  | nil =>
      generalize hp : m.next n = p at hrest
      cases hrest
      rw [Mem.chain_nil_iff]
      simp
  | cons b l =>
      generalize hp : m.next n = p at hrest
      cases hrest with
      | cons hback hrest' =>
          have hbn : b ≠ n := fun he => hnl (he ▸ List.mem_cons_self)
          have hbl : b ∉ l := (List.nodup_cons.mp hl).1
          rw [Mem.chain_cons_iff]
          refine ⟨by simp, by simp [hbn], ?_⟩
          simp only [Function.update_of_ne hbn]
          refine hrest'.frame fun a ha => ?_
          have han : a ≠ n := fun he => hnl (he ▸ List.mem_cons_of_mem _ ha)
          have hab : a ≠ b := fun he => hbl (he ▸ ha)
          simp [han, hab]

theorem Mem.Chain.del_next_of_ne (hc : m.Chain h (n :: l)) (hne : a ≠ n) : (m.del n).next a = m.next a := by
  rw [hc.del_first_eq]
  simp [hne]

theorem Mem.Chain.del_pprev_self (hc : m.Chain h (n :: l)) : (m.del n).pprev n = none := by
  rw [hc.del_first_eq]
  simp

theorem Mem.Chain.del_pprev_of_not_mem (hc : m.Chain h (n :: l)) (ha : a ∉ n :: l) :
    (m.del n).pprev a = m.pprev a := by
  have han : a ≠ n := fun he => ha (he ▸ List.mem_cons_self)
  rw [hc.del_first_eq]
  cases hnext : m.next n with
  | none => simp [han]
  | some x =>
      have hax : a ≠ x := fun he => ha (List.mem_cons_of_mem _ (hc.mem_of_next (he ▸ hnext)))
      simp [han, hax]

theorem Mem.Chain.del_first_of_ne (hc : m.Chain h (n :: l)) (hne : h' ≠ h) :
    (m.del n).first h' = m.first h' := by
  rw [hc.del_first_eq]
  simp [hne]

theorem Mem.Chain.del_of_ne (hc' : m.Chain h' l') (hc : m.Chain h (n :: l)) (hne : h' ≠ h) :
    (m.del n).Chain h' l' := by
  refine hc'.frame (hc.del_first_of_ne hne) fun a ha => ?_
  have hal : a ∉ n :: l := fun hmem => hne (hc'.head_eq hc ha hmem)
  exact ⟨hc.del_next_of_ne fun he => hal (he ▸ List.mem_cons_self), hc.del_pprev_of_not_mem hal⟩

end Ops

end OsHw.Hlist
