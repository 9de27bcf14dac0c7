import OsHw.Keyed
import OsHw.XattrArea

/-! What the bytes of an attribute area say: a list of entries from an address on, ended by four bytes of zero. The
loops of the source are walks over that list. An entry depends on its own bytes only, so a list that is moved, or
that has one entry replaced, is again a list of entries. -/

namespace OsHw.Xattr

/-- An entry as it is stored. -/
structure Slot where
  nameIndex : Nat
  name : Bytes
  offs : Nat
  size : Nat
  hash : Nat
  deriving DecidableEq

/-- An attribute is known by its name index and its name. -/
abbrev Key := Nat × Bytes

/-- The order of `xattr_find_entry`. -/
def compareKey (k k' : Key) : Ordering :=
  (compare k.1 k'.1).then ((compare k.2.length k'.2.length).then (compare k.2 k'.2))

instance : Std.TransCmp compareKey :=
  inferInstanceAs (Std.TransCmp (compareLex (compareOn fun k : Key => k.1)
    (compareLex (compareOn fun k : Key => k.2.length) (compareOn fun k : Key => k.2))))

instance : Std.LawfulEqCmp compareKey where
  eq_of_compare {k k'} h := by
    obtain ⟨hindex, hname⟩ := Ordering.then_eq_eq.mp h
    have hname := (Ordering.then_eq_eq.mp hname).2
    exact Prod.ext (Std.LawfulEqOrd.eq_of_compare hindex) (Std.LawfulEqOrd.eq_of_compare hname)

namespace Slot

def key (e : Slot) : Key := (e.nameIndex, e.name)

def len (e : Slot) : Nat := xattrLen e.name.length

/-- The space of the value. -/
def extent (e : Slot) : Extent := ⟨e.offs, xattrSize e.size⟩

/-- The entry once the gap of another value is closed. -/
def raise (gap : Extent) (e : Slot) : Slot := { e with offs := (gap.raise e.extent).offs }

end Slot

def slotAt (m : Mem) (p : Nat) : Slot := ⟨eNameIndex m p, eName m p, eValueOffs m p, eValueSize m p, eHash m p⟩

/-- The entry is stored at the address, and its value is in the same area. -/
structure EntryAt (m : Mem) (p : Nat) (e : Slot) : Prop where
  slot : slotAt m p = e
  inum : eValueInum m p = 0

def Entries (m : Mem) : Nat → List Slot → Prop
  | _, [] => True
  | p, e :: es => EntryAt m p e ∧ Entries m (p + e.len) es

def namesSize : List Slot → Nat
  | [] => 0
  | e :: es => e.len + namesSize es

/-- A list of entries with its end. -/
structure Names (m : Mem) (p : Nat) (es : List Slot) : Prop where
  entries : Entries m p es
  last : IsLastEntry m (p + namesSize es)
  indexed : ∀ e ∈ es, e.nameIndex ≠ 0

section Lengths

variable {n k : Nat} {e : Slot}

theorem xattrLen_bounds (n : Nat) : n + 16 ≤ xattrLen n ∧ xattrLen n < n + 20 := by
  rw [xattrLen]
  omega

theorem xattrSize_bounds (n : Nat) : n ≤ xattrSize n ∧ xattrSize n < n + 4 := by
  rw [xattrSize]
  omega

@[simp] theorem xattrSize_eq_zero : xattrSize n = 0 ↔ n = 0 := by
  rw [xattrSize]
  omega

theorem xattrSize_ne_zero : xattrSize n ≠ 0 ↔ n ≠ 0 := not_congr xattrSize_eq_zero

@[simp] theorem xattrSize_div_four_mul_four (n : Nat) : xattrSize n / 4 * 4 = xattrSize n := by
  rw [xattrSize]
  omega

theorem Slot.name_lt_len (e : Slot) : e.name.length + 16 ≤ e.len := (xattrLen_bounds _).1

theorem namesSize_append (l r : List Slot) : namesSize (l ++ r) = namesSize l + namesSize r := by
  induction l with
  | nil => exact (Nat.zero_add _).symm
  | cons e l ih => rw [List.cons_append, namesSize, namesSize, ih, Nat.add_assoc]

theorem length_le_namesSize (es : List Slot) : 16 * es.length ≤ namesSize es := by
  induction es with
  | nil => exact Nat.le_refl 0
  | cons e es ih =>
      have he := e.name_lt_len
      rw [List.length_cons, namesSize]
      omega

@[simp] theorem Slot.len_raise (gap : Extent) (e : Slot) : (e.raise gap).len = e.len := rfl

@[simp] theorem Slot.extent_raise (gap : Extent) (e : Slot) : (e.raise gap).extent = gap.raise e.extent := by
  have hlen : (gap.raise e.extent).len = xattrSize e.size := Extent.len_raise gap e.extent
  rw [Slot.extent, Slot.raise, ← hlen]

@[simp] theorem namesSize_map_raise (gap : Extent) (es : List Slot) :
    namesSize (es.map (Slot.raise gap)) = namesSize es := by
  induction es with
  | nil => rfl
  | cons e es ih => rw [List.map_cons, namesSize, namesSize, ih, Slot.len_raise]

end Lengths

section Entries

variable {m m' : Mem} {p p' a n v : Nat} {e : Slot} {es l r : List Slot}

theorem length_eName (m : Mem) (p : Nat) : (eName m p).length = eNameLen m p := Mem.length_bytes ..

/-- The fields that follow the length say nothing about the name. -/
theorem eName_store (h₁ : p + 1 ≤ a) (h₂ : a + n ≤ p + 16) : eName (m.store a n v) p = eName m p := by
  have hlen : eNameLen (m.store a n v) p = eNameLen m p := Mem.load_store_disjoint (by omega)
  rw [eName, eName, hlen]
  exact Mem.bytes_congr fun j _ => Mem.store_of_outside (by omega)

namespace EntryAt

theorem nameLen (h : EntryAt m p e) : eNameLen m p = e.name.length := by
  rw [← h.slot, ← length_eName]
  rfl

theorem next (h : EntryAt m p e) : xattrNext m p = p + e.len := by rw [xattrNext, h.nameLen, Slot.len]

theorem valueOffs (h : EntryAt m p e) : eValueOffs m p = e.offs := congrArg Slot.offs h.slot

theorem valueSize (h : EntryAt m p e) : eValueSize m p = e.size := congrArg Slot.size h.slot

theorem nameEq (h : EntryAt m p e) : eName m p = e.name := congrArg Slot.name h.slot

theorem nameIndexEq (h : EntryAt m p e) : eNameIndex m p = e.nameIndex := congrArg Slot.nameIndex h.slot

theorem hashEq (h : EntryAt m p e) : eHash m p = e.hash := congrArg Slot.hash h.slot

/-- A name index other than zero tells an entry from the end of the list. -/
theorem not_last (h : EntryAt m p e) (hindex : e.nameIndex ≠ 0) : ¬IsLastEntry m p := by
  rw [← h.nameIndexEq, eNameIndex] at hindex
  rw [IsLastEntry]
  simp only [Mem.load] at hindex ⊢
  omega

/-- An entry is determined by its bytes, wherever they are. -/
theorem congr (h : EntryAt m p e) (heq : ∀ j, j < 16 + e.name.length → m' (p' + j) = m (p + j)) : EntryAt m' p' e := by
  have hload : ∀ k n, k + n ≤ 16 → m'.load (p' + k) n = m.load (p + k) n := by
    intro k n hk
    refine Mem.load_congr fun j hj => ?_
    rw [Nat.add_assoc, Nat.add_assoc]
    exact heq (k + j) (by omega)
  have hlen : eNameLen m' p' = eNameLen m p := hload 0 1 (by omega)
  have hname : eName m' p' = eName m p := by
    rw [eName, eName, hlen]
    refine Mem.bytes_congr fun j hj => ?_
    rw [h.nameLen] at hj
    rw [Nat.add_assoc, Nat.add_assoc]
    exact heq (16 + j) (by omega)
  constructor
  · rw [← h.slot, slotAt, slotAt, hname, eNameIndex, eValueOffs, eValueSize, eHash, hload 1 1 (by omega),
      hload 2 2 (by omega), hload 8 4 (by omega), hload 12 4 (by omega)]
    rfl
  · rw [← h.inum]
    exact hload 4 4 (by omega)

/-- A store into one of the fields leaves the others alone. -/
theorem store_offs (h : EntryAt m p e) (hv : v < 65536) : EntryAt (m.store (p + 2) 2 v) p { e with offs := v } := by
  have hoffs : eValueOffs (m.store (p + 2) 2 v) p = v := by
    rw [eValueOffs, Mem.load_store_self]
    exact Nat.mod_eq_of_lt hv
  constructor
  · rw [slotAt, eName_store (by omega) (by omega), hoffs, eNameIndex, eValueSize, eHash,
      Mem.load_store_disjoint (by omega), Mem.load_store_disjoint (by omega), Mem.load_store_disjoint (by omega),
      ← h.slot]
    rfl
  · rw [eValueInum, Mem.load_store_disjoint (by omega)]
    exact h.inum

theorem store_size (h : EntryAt m p e) (hv : v < 2 ^ 32) : EntryAt (m.store (p + 8) 4 v) p { e with size := v } := by
  have hsize : eValueSize (m.store (p + 8) 4 v) p = v := by
    rw [eValueSize, Mem.load_store_self]
    exact Nat.mod_eq_of_lt hv
  constructor
  · rw [slotAt, eName_store (by omega) (by omega), hsize, eNameIndex, eValueOffs, eHash,
      Mem.load_store_disjoint (by omega), Mem.load_store_disjoint (by omega), Mem.load_store_disjoint (by omega),
      ← h.slot]
    rfl
  · rw [eValueInum, Mem.load_store_disjoint (by omega)]
    exact h.inum

theorem store_hash (h : EntryAt m p e) (hv : v < 2 ^ 32) : EntryAt (m.store (p + 12) 4 v) p { e with hash := v } := by
  have hhash : eHash (m.store (p + 12) 4 v) p = v := by
    rw [eHash, Mem.load_store_self]
    exact Nat.mod_eq_of_lt hv
  constructor
  · rw [slotAt, eName_store (by omega) (by omega), hhash, eNameIndex, eValueOffs, eValueSize,
      Mem.load_store_disjoint (by omega), Mem.load_store_disjoint (by omega), Mem.load_store_disjoint (by omega),
      ← h.slot]
    rfl
  · rw [eValueInum, Mem.load_store_disjoint (by omega)]
    exact h.inum

theorem store_inum (h : EntryAt m p e) : EntryAt (m.store (p + 4) 4 0) p e := by
  constructor
  · rw [slotAt, eName_store (by omega) (by omega), eNameIndex, eValueOffs, eValueSize, eHash,
      Mem.load_store_disjoint (by omega), Mem.load_store_disjoint (by omega), Mem.load_store_disjoint (by omega),
      Mem.load_store_disjoint (by omega), ← h.slot]
    rfl
  · rw [eValueInum, Mem.load_store_self]
    exact Nat.zero_mod _

theorem resetValue (h : EntryAt m p e) : EntryAt (Xattr.resetValue p m) p { e with offs := 0, size := 0 } :=
  (h.store_inum.store_offs (by decide)).store_size (by decide)

end EntryAt

theorem Entries.congr (h : Entries m p es) (heq : ∀ j, j < namesSize es → m' (p' + j) = m (p + j)) :
    Entries m' p' es := by
  induction es generalizing p p' with
  | nil => trivial
  | cons e es ih =>
      have hlen := e.name_lt_len
      rw [namesSize] at heq
      refine ⟨h.1.congr fun j hj => heq j (by omega), ih h.2 fun j hj => ?_⟩
      rw [Nat.add_assoc, Nat.add_assoc]
      exact heq (e.len + j) (by omega)

theorem entries_append : Entries m p (l ++ r) ↔ Entries m p l ∧ Entries m (p + namesSize l) r := by
  induction l generalizing p with
  | nil => exact (iff_of_eq (true_and _)).symm
  | cons e l ih => rw [List.cons_append, Entries, Entries, namesSize, ih, and_assoc, Nat.add_assoc]

theorem IsLastEntry.congr (h : IsLastEntry m p) (heq : ∀ j, j < 4 → m' (p' + j) = m (p + j)) : IsLastEntry m' p' := by
  rw [IsLastEntry, ← h]
  exact Mem.load_congr heq

/-- The entry at its address, with the lists on both sides of it. -/
theorem Entries.middle (h : Entries m p (l ++ e :: r)) : EntryAt m (p + namesSize l) e := (entries_append.mp h).2.1

end Entries

section Loops

variable {m : Mem} {p fend fuel : Nat} {e : Slot} {es l r : List Slot}

namespace Names

theorem tail (h : Names m p (e :: es)) : Names m (p + e.len) es := by
  refine ⟨h.entries.2, ?_, fun e' he' => h.indexed e' (List.mem_cons_of_mem e he')⟩
  rw [Nat.add_assoc]
  exact h.last

theorem last_nil (h : Names m p []) : IsLastEntry m p := h.last

theorem not_last (h : Names m p (e :: es)) : ¬IsLastEntry m p :=
  h.entries.1.not_last (h.indexed e List.mem_cons_self)

theorem next (h : Names m p (e :: es)) : xattrNext m p = p + e.len := h.entries.1.next

end Names

/-- The walk of `ext4_xattr_check_entries` over the names. -/
theorem findNamesEnd_eq (h : Names m p es) (hnul : ∀ e ∈ es, 0 ∉ e.name) (hend : p + namesSize es < fend)
    (hfuel : es.length < fuel) : findNamesEnd m fend fuel p = .ok (p + namesSize es) := by
  induction es generalizing p fuel with
  | nil =>
      obtain ⟨fuel, rfl⟩ := Nat.exists_eq_add_one_of_ne_zero (Nat.ne_of_gt hfuel)
      rw [findNamesEnd, if_pos h.last_nil]
      rfl
  | cons e es ih =>
      obtain ⟨fuel, rfl⟩ := Nat.exists_eq_add_one_of_ne_zero (Nat.ne_zero_of_lt hfuel)
      rw [namesSize] at hend ⊢
      have hname : 0 ∉ eName m p := by
        rw [h.entries.1.nameEq]
        exact hnul e List.mem_cons_self
      have hnext : ¬fend ≤ p + e.len := by omega
      rw [findNamesEnd, if_neg h.not_last, h.next, if_neg hnext, if_neg hname,
        ih h.tail (fun e' he' => hnul e' (List.mem_cons_of_mem e he')) (by omega) (by simpa using hfuel), Nat.add_assoc]

/-- What the values have to meet. -/
theorem checkValues_eq {q : Nat} (h : Names m p es)
    (hvalue : ∀ e ∈ es, e.size ≤ EXT4_XATTR_SIZE_MAX ∧
      (e.size ≠ 0 → q + 4 ≤ e.offs ∧ e.offs + xattrSize e.size ≤ fend)) (hfuel : es.length < fuel) :
    checkValues m fend q fuel p = 0 := by
  induction es generalizing p fuel with
  | nil =>
      obtain ⟨fuel, rfl⟩ := Nat.exists_eq_add_one_of_ne_zero (Nat.ne_of_gt hfuel)
      rw [checkValues, if_pos h.last_nil]
  | cons e es ih =>
      obtain ⟨fuel, rfl⟩ := Nat.exists_eq_add_one_of_ne_zero (Nat.ne_zero_of_lt hfuel)
      obtain ⟨hmax, hplace⟩ := hvalue e List.mem_cons_self
      have hsize := xattrSize_bounds e.size
      rw [checkValues, if_neg h.not_last, h.entries.1.valueSize, h.entries.1.valueOffs, h.next,
        if_neg (by omega), if_neg (by omega)]
      exact ih h.tail (fun e' he' => hvalue e' (List.mem_cons_of_mem e he')) (by simpa using hfuel)

theorem EntryAt.compareAt_eq (h : EntryAt m p e) (nameIndex : Nat) (name : Bytes) :
    compareAt m nameIndex name p = compareKey (nameIndex, name) e.key := by
  rw [compareAt, h.nameIndexEq, h.nameLen, h.nameEq]
  rfl

section Walk

variable {nameIndex : Nat} {name : Bytes} {sorted : Bool}

theorem findEntry_hit (h : Names m p (e :: es)) (hend : p + e.len < fend)
    (hcmp : compareKey (nameIndex, name) e.key = .eq) :
    findEntry m fend nameIndex name sorted (fuel + 1) p = .ok (true, p) := by
  have hnext : ¬fend ≤ p + e.len := by omega
  rw [findEntry, if_neg h.not_last, h.next, if_neg hnext, h.entries.1.compareAt_eq, hcmp]

theorem findEntry_before (h : Names m p (e :: es)) (hend : p + e.len < fend)
    (hcmp : compareKey (nameIndex, name) e.key = .lt) :
    findEntry m fend nameIndex name true (fuel + 1) p = .ok (false, p) := by
  have hnext : ¬fend ≤ p + e.len := by omega
  rw [findEntry, if_neg h.not_last, h.next, if_neg hnext, h.entries.1.compareAt_eq, hcmp]
  exact if_pos rfl

/-- The walk goes on behind an entry that is another one and that, in an order, is not behind the name. -/
theorem findEntry_pass (h : Names m p (e :: es)) (hend : p + e.len < fend)
    (hne : compareKey (nameIndex, name) e.key ≠ .eq)
    (hgt : sorted = true → compareKey (nameIndex, name) e.key = .gt) :
    findEntry m fend nameIndex name sorted (fuel + 1) p = findEntry m fend nameIndex name sorted fuel (p + e.len) := by
  have hnext : ¬fend ≤ p + e.len := by omega
  rw [findEntry, if_neg h.not_last, h.next, if_neg hnext, h.entries.1.compareAt_eq]
  cases hcmp : compareKey (nameIndex, name) e.key with
  | eq => exact absurd hcmp hne
  | gt => rfl
  | lt =>
      have hunsorted : sorted ≠ true := fun hs => by
        rw [hgt hs] at hcmp
        exact Ordering.noConfusion hcmp
      exact if_neg hunsorted

/-- The walk of `xattr_find_entry` is the search in the list of entries. -/
theorem findEntry_eq {found : Bool} (hstops : Keyed.Stops compareKey Slot.key sorted found (nameIndex, name) l r)
    (h : Names m p (l ++ r)) (hend : p + namesSize (l ++ r) < fend) (hfuel : (l ++ r).length < fuel) :
    findEntry m fend nameIndex name sorted fuel p = .ok (found, p + namesSize l) := by
  obtain ⟨hpassed, hhit, hexhausted, hbefore⟩ := hstops
  induction l generalizing p fuel with
  | nil =>
      obtain ⟨fuel, rfl⟩ := Nat.exists_eq_add_one_of_ne_zero (Nat.ne_zero_of_lt hfuel)
      rw [List.nil_append] at h hend
      cases found with
      | true =>
          obtain ⟨e, r, rfl, hcmp⟩ := hhit rfl
          rw [namesSize] at hend
          exact findEntry_hit h (by omega) hcmp
      | false =>
          cases r with
          | nil =>
              rw [findEntry, if_pos h.last_nil]
              rfl
          | cons e r =>
              cases sorted with
              | false => exact absurd (hexhausted rfl rfl) (List.cons_ne_nil e r)
              | true =>
                  rw [namesSize] at hend
                  exact findEntry_before h (by omega) (hbefore rfl rfl e r rfl)
  | cons e l ih =>
      obtain ⟨fuel, rfl⟩ := Nat.exists_eq_add_one_of_ne_zero (Nat.ne_zero_of_lt hfuel)
      obtain ⟨hne, hgt⟩ := hpassed e List.mem_cons_self
      rw [List.cons_append, namesSize] at hend
      rw [List.cons_append] at h
      rw [findEntry_pass h (by omega) hne hgt, namesSize, ← Nat.add_assoc]
      exact ih h.tail (by omega) (by simpa using hfuel) fun e' he' => hpassed e' (List.mem_cons_of_mem e he')

end Walk

/-- The first loop of `ext4_xattr_set_entry` finds the lowest value and the end of the names. -/
theorem minOffsAndLast_eq {minOffs hi : Nat} (h : Names m p es) (hend : p + namesSize es < fend)
    (hfuel : es.length < fuel) (hmin : minOffs ≤ hi) :
    minOffsAndLast m fend fuel minOffs p =
      .ok (min minOffs (Extent.lowest hi (es.map Slot.extent)), p + namesSize es) := by
  induction es generalizing p fuel minOffs with
  | nil =>
      obtain ⟨fuel, rfl⟩ := Nat.exists_eq_add_one_of_ne_zero (Nat.ne_of_gt hfuel)
      rw [minOffsAndLast, if_pos h.last_nil, List.map_nil, Extent.lowest, Nat.min_eq_left hmin]
      rfl
  | cons e es ih =>
      obtain ⟨fuel, rfl⟩ := Nat.exists_eq_add_one_of_ne_zero (Nat.ne_zero_of_lt hfuel)
      rw [namesSize] at hend ⊢
      have hnext : ¬fend ≤ p + e.len := by omega
      rw [minOffsAndLast, if_neg h.not_last, h.next, if_neg hnext, h.entries.1.inum, h.entries.1.valueSize,
        h.entries.1.valueOffs, List.map_cons, Extent.lowest, ← Nat.add_assoc]
      by_cases hsize : e.size ≠ 0
      · have hlen : e.extent.len ≠ 0 := xattrSize_ne_zero.mpr hsize
        rw [if_pos ⟨rfl, hsize⟩, if_pos hlen, ih h.tail (by omega) (by simpa using hfuel) (by omega), ← Nat.min_assoc]
        rfl
      · have hlen : ¬e.extent.len ≠ 0 := fun hlen => hsize (xattrSize_ne_zero.mp hlen)
        rw [if_neg fun hand => hsize hand.2, if_neg hlen, ih h.tail (by omega) (by simpa using hfuel) hmin]

theorem Names.congr {m' : Mem} {p' : Nat} (h : Names m p es)
    (heq : ∀ j, j < namesSize es + 4 → m' (p' + j) = m (p + j)) : Names m' p' es := by
  refine ⟨h.entries.congr fun j hj => heq j (by omega), h.last.congr fun j hj => ?_, h.indexed⟩
  rw [Nat.add_assoc, Nat.add_assoc]
  exact heq (namesSize es + j) (by omega)

/-- An entry that is replaced by one of the same length leaves a list of entries. -/
theorem Names.replace {m' : Mem} {e' : Slot} (h : Names m p (l ++ e :: r)) (hlen : e'.len = e.len)
    (hindex : e'.nameIndex ≠ 0) (he' : EntryAt m' (p + namesSize l) e')
    (heq : ∀ x, p ≤ x → x < p + namesSize (l ++ e :: r) + 4 →
      x < p + namesSize l ∨ p + namesSize l + e.len ≤ x → m' x = m x) : Names m' p (l ++ e' :: r) := by
  have hend : ∀ e : Slot, namesSize (l ++ e :: r) = namesSize l + e.len + namesSize r := fun e => by
    rw [namesSize_append, namesSize, Nat.add_assoc]
  rw [hend] at heq
  obtain ⟨hl, -, hr⟩ := entries_append.mp h.entries
  refine ⟨entries_append.mpr ⟨?_, he', ?_⟩, ?_, fun e'' he'' => ?_⟩
  · exact hl.congr fun j hj => heq _ (by omega) (by omega) (by omega)
  · rw [hlen]
    exact hr.congr fun j hj => heq _ (by omega) (by omega) (by omega)
  · have hlast := h.last
    rw [hend] at hlast ⊢
    rw [hlen]
    exact hlast.congr fun j hj => heq _ (by omega) (by omega) (by omega)
  · rw [List.mem_append, List.mem_cons] at he''
    obtain he'' | rfl | he'' := he''
    · exact h.indexed e'' (List.mem_append_left _ he'')
    · exact hindex
    · exact h.indexed e'' (List.mem_append_right _ (List.mem_cons_of_mem e he''))

/-- One step of the loop that adjusts the offsets: the entry it stands on is raised. -/
theorem EntryAt.adjust {gap : Extent} (h : EntryAt m p e)
    (hoffs : e.size ≠ 0 → e.offs < gap.offs → e.offs + gap.len < 65536) :
    EntryAt (if eValueInum m p = 0 ∧ eValueSize m p ≠ 0 ∧ eValueOffs m p < gap.offs then
      m.store (p + 2) 2 (eValueOffs m p + gap.len) else m) p (e.raise gap) := by
  rw [h.inum, h.valueSize, h.valueOffs]
  by_cases hlow : e.size ≠ 0 ∧ e.offs < gap.offs
  · have hraise : e.raise gap = { e with offs := e.offs + gap.len } := by
      rw [Slot.raise, Extent.raise_of_lt (xattrSize_ne_zero.mpr hlow.1) hlow.2]
      rfl
    rw [if_pos ⟨rfl, hlow⟩, hraise]
    exact h.store_offs (hoffs hlow.1 hlow.2)
  · have hraise : e.raise gap = e := by
      rw [Slot.raise, Extent.raise, if_neg fun hand => hlow ⟨xattrSize_ne_zero.mp hand.1, hand.2⟩]
      rfl
    rw [if_neg fun hand => hlow hand.2, hraise]
    exact h

/-- The loop that adjusts all value offsets raises every entry and writes nothing else. -/
theorem adjustOffsets_spec (gap : Extent) (h : Names m p es) (hfuel : es.length < fuel)
    (hoffs : ∀ e ∈ es, e.size ≠ 0 → e.offs < gap.offs → e.offs + gap.len < 65536) :
    Names (adjustOffsets gap.offs gap.len fuel p m) p (es.map (Slot.raise gap)) ∧
      ∀ x, x < p ∨ p + namesSize es ≤ x → adjustOffsets gap.offs gap.len fuel p m x = m x := by
  induction es generalizing p fuel m with
  | nil =>
      obtain ⟨fuel, rfl⟩ := Nat.exists_eq_add_one_of_ne_zero (Nat.ne_of_gt hfuel)
      rw [adjustOffsets, if_pos h.last_nil]
      exact ⟨h, fun _ _ => rfl⟩
  | cons e es ih =>
      obtain ⟨fuel, rfl⟩ := Nat.exists_eq_add_one_of_ne_zero (Nat.ne_zero_of_lt hfuel)
      have hlen := e.name_lt_len
      rw [adjustOffsets, if_neg h.not_last]
      have hentry := h.entries.1.adjust (hoffs e List.mem_cons_self)
      have hframe : ∀ x, x < p ∨ p + e.len ≤ x →
          (if eValueInum m p = 0 ∧ eValueSize m p ≠ 0 ∧ eValueOffs m p < gap.offs then
            m.store (p + 2) 2 (eValueOffs m p + gap.len) else m) x = m x := by
        intro x hx
        split
        · exact Mem.store_of_outside (by omega)
        · rfl
      dsimp only
      generalize (if eValueInum m p = 0 ∧ eValueSize m p ≠ 0 ∧ eValueOffs m p < gap.offs then
        m.store (p + 2) 2 (eValueOffs m p + gap.len) else m) = m' at hentry hframe ⊢
      have hnext : xattrNext m' p = p + e.len := hentry.next
      have htail : Names m' (p + e.len) es := h.tail.congr fun j hj => hframe _ (by omega)
      obtain ⟨hrest, hout⟩ := ih htail (by simpa using hfuel) fun e' he' => hoffs e' (List.mem_cons_of_mem e he')
      rw [hnext, namesSize]
      refine ⟨⟨⟨hentry.congr fun j hj => hout _ ?_, hrest.entries⟩, ?_, ?_⟩, fun x hx => ?_⟩
      · have hname : (e.raise gap).name = e.name := rfl
        rw [hname] at hj
        omega
      · rw [List.map_cons, namesSize, ← Nat.add_assoc]
        exact hrest.last
      · intro e' he'
        rw [List.map_cons] at he'
        obtain rfl | he' := List.mem_cons.mp he'
        · exact h.indexed e List.mem_cons_self
        · exact hrest.indexed e' he'
      · rw [hout x (by omega), hframe x (by omega)]

end Loops

end OsHw.Xattr
