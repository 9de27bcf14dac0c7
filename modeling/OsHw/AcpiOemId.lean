import OsHw.Acpi
import OsHw.Fold

/-! `ChangeACPITable(Signature, NULL)` on a well-formed graph. Nothing that the walk reads is ever written: the
updates touch the checksums and OEM identifiers of matching tables only, and the pointers, signatures and lengths
are elsewhere. So the walk visits the tables of the memory it began with, and does to each what a single update
does. -/

namespace OsHw.Acpi

/-- What the call without a new table does to one table. -/
abbrev visit (sig : Nat) : Mem → Nat → Mem := changeTable sig none

/-- The memory differs at most in the checksums and OEM identifiers of the tables with the signature. -/
def Spared (sig : Nat) (m : Mem) (cs : List ConfigurationTable) (m' : Mem) : Prop :=
  ∀ x, (∀ t ∈ tables m cs, signature m t = sig → x < t + checksumOffset ∨ t + oemIdOffset + oemIdSize ≤ x) →
    m' x = m x

/-- A table as the call leaves it. -/
structure Blank (m : Mem) (t : Nat) : Prop where
  oemId : ∀ x, t + oemIdOffset ≤ x → x < t + oemIdOffset + oemIdSize → m x = 0
  sum : m.sum t (length m t) = 0

section Visit

variable {sig t : Nat} {m : Mem}

/-- One update stays within seven bytes. -/
theorem visit_of_outside {x : Nat} (hx : x < t + checksumOffset ∨ t + oemIdOffset + oemIdSize ≤ x) :
    visit sig m t x = m x := by
  simp only [checksumOffset, oemIdOffset, oemIdSize] at hx
  have hbyte : x < t + checksumOffset ∨ t + checksumOffset + 1 ≤ x := by
    simp only [checksumOffset]
    omega
  have hoem : x < t + oemIdOffset ∨ t + oemIdOffset + oemIdSize ≤ x := by
    simp only [oemIdOffset, oemIdSize]
    omega
  unfold visit changeTable
  split
  · rw [updateAcpiChecksum, Mem.store_of_outside hbyte, Mem.store_of_outside hbyte]
    exact Mem.store_of_outside hoem
  · rfl

theorem agreeOn_visit {a n : Nat} (h : Apart a n (t + checksumOffset) 7) : Mem.AgreeOn (visit sig m t) m a n := by
  intro x h₁ h₂
  simp only [Apart, checksumOffset] at h
  exact visit_of_outside (by simp only [checksumOffset, oemIdOffset, oemIdSize]; omega)

theorem length_visit : length (visit sig m t) t = length m t :=
  (agreeOn_visit (by simp only [Apart, checksumOffset]; omega)).load

/-- The byte that is stored in the end, against the sum before. -/
theorem updateAcpiChecksum_eq (hlen : headerSize ≤ length m t) :
    ∃ v : UInt8, updateAcpiChecksum m t = m.store (t + checksumOffset) 1 v.toNat ∧
      m.sum t (length m t) + v = m (t + checksumOffset) := by
  have hlength : length (m.store (t + checksumOffset) 1 0) t = length m t :=
    Mem.load_store_disjoint (by simp only [checksumOffset]; omega)
  have hsum : (m.store (t + checksumOffset) 1 0).sum t (length m t) + m (t + checksumOffset) =
      m.sum t (length m t) + 0 :=
    Mem.sum_store_byte 0 (by omega) (by simp only [checksumOffset, headerSize] at hlen ⊢; omega)
  refine ⟨calculateCheckSum8 (m.store (t + checksumOffset) 1 0) t (length m t), ?_, ?_⟩
  · rw [updateAcpiChecksum, hlength, Mem.store_store]
  · rw [calculateCheckSum8]
    grind

/-- The checksum is the only byte that is written, and the bytes sum up to zero afterwards. -/
theorem updateAcpiChecksum_spec (hlen : headerSize ≤ length m t) :
    (∀ x, x ≠ t + checksumOffset → updateAcpiChecksum m t x = m x) ∧
      (updateAcpiChecksum m t).sum t (length m t) = 0 := by
  obtain ⟨v, hv, hsum⟩ := updateAcpiChecksum_eq hlen
  rw [hv]
  constructor
  · intro x hx
    exact Mem.store_of_outside (by omega)
  · have hstore := Mem.sum_store_byte (m := m) (n := length m t) v (Nat.le_add_right t checksumOffset)
      (by simp only [checksumOffset, headerSize] at hlen ⊢; omega)
    grind

/-- **One update.** The table it is for is blank afterwards. -/
theorem blank_visit (hlen : headerSize ≤ length m t) (hsig : signature m t = sig) : Blank (visit sig m t) t := by
  have hoem : length (m.store (t + oemIdOffset) oemIdSize 0) t = length m t :=
    Mem.load_store_disjoint (by simp only [oemIdOffset]; omega)
  have hvisit : visit sig m t = updateAcpiChecksum (m.store (t + oemIdOffset) oemIdSize 0) t := if_pos hsig
  obtain ⟨hother, hsum⟩ := updateAcpiChecksum_spec (hoem.symm ▸ hlen)
  constructor
  · intro x h₁ h₂
    have hne : x ≠ t + checksumOffset := by
      simp only [checksumOffset, oemIdOffset] at h₁ ⊢
      omega
    rw [hvisit, hother x hne, Mem.store, if_pos ⟨h₁, h₂⟩, Nat.zero_div]
    rfl
  · rw [length_visit, hvisit, ← hoem]
    exact hsum

/-- A blank table is left as it is. -/
theorem visit_of_blank (hlen : headerSize ≤ length m t) (h : Blank m t) : visit sig m t = m := by
  have hoem : m.store (t + oemIdOffset) oemIdSize 0 = m := by
    funext x
    by_cases hx : t + oemIdOffset ≤ x ∧ x < t + oemIdOffset + oemIdSize
    · rw [Mem.store, if_pos hx, Nat.zero_div, h.oemId x hx.1 hx.2]
      rfl
    · exact if_neg hx
  obtain ⟨v, hv, hsum⟩ := updateAcpiChecksum_eq hlen
  rw [h.sum, UInt8.zero_add] at hsum
  unfold visit changeTable
  split
  · dsimp only
    rw [hoem, hv, hsum, Mem.store_byte_self]
  · rfl

end Visit

section Walk

variable {sig t : Nat} {m m' : Mem} {cs : List ConfigurationTable}

theorem Spared.refl : Spared sig m cs m := fun _ _ => rfl

/-- What is in a table but not in its checksum or OEM identifier is as it was. -/
theorem Spared.load (h : Spared sig m cs m') (hm : WellFormed m cs) (ht : t ∈ tables m cs) {k n : Nat}
    (hk : k + n ≤ checksumOffset ∨ oemIdOffset + oemIdSize ≤ k) (hlen : k + n ≤ length m t) :
    m'.load (t + k) n = m.load (t + k) n := by
  apply Mem.AgreeOn.load
  intro x h₁ h₂
  refine h x fun s hs _ => ?_
  simp only [checksumOffset, oemIdOffset, oemIdSize] at hk ⊢
  by_cases hst : s = t
  · subst hst
    omega
  · have hapart := hm.apart s hs t ht hst
    have hheader := hm.header s hs
    simp only [Apart, headerSize] at hapart hheader
    omega

theorem Spared.signature (h : Spared sig m cs m') (hm : WellFormed m cs) (ht : t ∈ tables m cs) :
    signature m' t = signature m t := by
  have hheader := hm.header t ht
  rw [headerSize] at hheader
  exact h.load hm ht (k := 0) (.inl (by decide)) (by omega)

theorem Spared.length (h : Spared sig m cs m') (hm : WellFormed m cs) (ht : t ∈ tables m cs) :
    length m' t = length m t := by
  have hheader := hm.header t ht
  rw [headerSize] at hheader
  exact h.load hm ht (.inl (by decide)) (by omega)

theorem Spared.entryCount (h : Spared sig m cs m') (hm : WellFormed m cs) (ht : t ∈ tables m cs) :
    entryCount m' t = entryCount m t := by
  rw [Acpi.entryCount, Acpi.entryCount, h.length hm ht]

theorem entryCount_eq (hlen : headerSize ≤ Acpi.length m t) :
    entryCount m t = (Acpi.length m t - headerSize) / 8 := by
  have hlt : Acpi.length m t < 256 ^ 4 := Mem.load_lt m _ _
  simp only [Acpi.entryCount, headerSize] at hlen ⊢
  omega

theorem Spared.entry (h : Spared sig m cs m') (hm : WellFormed m cs) (ht : t ∈ tables m cs) {j : Nat}
    (hj : j < Acpi.entryCount m t) : entry m' t j = entry m t j := by
  have hheader := hm.header t ht
  rw [entryCount_eq hheader] at hj
  rw [Acpi.entry, Acpi.entry, Nat.add_assoc]
  refine h.load hm ht (.inr ?_) (by omega)
  simp only [oemIdOffset, oemIdSize, headerSize]
  omega

theorem Spared.fadt (h : Spared sig m cs m') (hm : WellFormed m cs) (ht : t ∈ tables m cs)
    (hfadt : Acpi.signature m t = fadtSignature) : dsdt m' t = dsdt m t ∧ firmwareCtrl m' t = firmwareCtrl m t := by
  have hlen := hm.fadt t ht hfadt
  rw [headerSize] at hlen
  constructor
  · exact h.load hm ht (.inr (by decide)) (by omega)
  · exact h.load hm ht (.inr (by decide)) (by omega)

theorem Spared.xsdtAddress (h : Spared sig m cs m') (hm : WellFormed m cs) {c : ConfigurationTable} (hc : c ∈ cs)
    (hacpi : c.isAcpi = true) : xsdtAddress m' c.vendorTable = xsdtAddress m c.vendorTable := by
  apply Mem.AgreeOn.load
  intro x h₁ h₂
  refine h x fun s hs _ => ?_
  have hapart := hm.root c hc hacpi s hs
  have hheader := hm.header s hs
  simp only [Apart, rsdpSize, headerSize] at hapart hheader
  simp only [checksumOffset, oemIdOffset, oemIdSize]
  omega

/-- An update of a table of the graph touches nothing else. -/
theorem Spared.visit (h : Spared sig m cs m') (hm : WellFormed m cs) (ht : t ∈ tables m cs) :
    Spared sig m cs (visit sig m' t) := by
  intro x hx
  by_cases hsig : Acpi.signature m t = sig
  · rw [visit_of_outside (hx t ht hsig)]
    exact h x hx
  · have hkeep : Acpi.visit sig m' t = m' := if_neg (h.signature hm ht ▸ hsig)
    rw [hkeep]
    exact h x hx

theorem Spared.foldl_visit (hm : WellFormed m cs) {ts : List Nat} (hts : ts ⊆ tables m cs)
    (h : Spared sig m cs m') : Spared sig m cs (ts.foldl (Acpi.visit sig) m') := by
  induction ts generalizing m' with
  | nil => exact h
  | cons t ts ih =>
      obtain ⟨ht, hts⟩ := List.cons_subset.mp hts
      exact ih hts (h.visit hm ht)

/-- The body of the inner loop visits a listed table and the two it leads to. -/
theorem changeEntry_eq (hm : WellFormed m cs) {xsdt j : Nat} (hx : xsdt ∈ tables m cs) (hj : j < entryCount m xsdt)
    (hsub : entryTables m (entry m xsdt j) ⊆ tables m cs) (h : Spared sig m cs m') :
    changeEntry sig none xsdt m' j = (entryTables m (entry m xsdt j)).foldl (Acpi.visit sig) m' := by
  have ht : entry m xsdt j ∈ tables m cs := hsub List.mem_cons_self
  have hvisit := h.visit hm ht
  unfold changeEntry
  dsimp only
  rw [h.entry hm hx hj, hvisit.signature hm ht]
  by_cases hfadt : signature m (entry m xsdt j) = fadtSignature
  · have hlist : entryTables m (entry m xsdt j) =
        [entry m xsdt j, dsdt m (entry m xsdt j), firmwareCtrl m (entry m xsdt j)] := by
      rw [entryTables, if_pos hfadt]
    have hdsdt : dsdt m (entry m xsdt j) ∈ tables m cs := hsub (by simp [hlist])
    have hnext := hvisit.visit hm hdsdt
    rw [if_pos hfadt, hlist, (hvisit.fadt hm ht hfadt).1, (hnext.fadt hm ht hfadt).2, List.foldl_cons,
      List.foldl_cons, List.foldl_cons, List.foldl_nil]
  · rw [if_neg hfadt, entryTables, if_neg hfadt, List.foldl_cons, List.foldl_nil]

/-- The body of the outer loop visits what the root pointer leads to. -/
theorem changeRoot_eq (hm : WellFormed m cs) {c : ConfigurationTable} (hc : c ∈ cs) (h : Spared sig m cs m') :
    changeRoot sig none m' c = (rootTables m c).foldl (Acpi.visit sig) m' := by
  have hsub : rootTables m c ⊆ tables m cs := fun t ht => List.mem_flatMap.mpr ⟨c, hc, ht⟩
  cases hacpi : c.isAcpi with
  | false => simp only [changeRoot, rootTables, hacpi, Bool.false_eq_true, if_false, List.foldl_nil]
  | true =>
      rw [rootTables, if_pos hacpi] at hsub ⊢
      obtain ⟨hx, hentries⟩ := List.cons_subset.mp hsub
      have hvisit := h.visit hm hx
      unfold changeRoot
      dsimp only
      rw [if_pos hacpi, h.xsdtAddress hm hc hacpi, hvisit.entryCount hm hx, List.foldl_cons, List.foldl_flatMap]
      have hentry : ∀ j ∈ List.range (entryCount m (Acpi.xsdtAddress m c.vendorTable)),
          entryTables m (Acpi.entry m (Acpi.xsdtAddress m c.vendorTable) j) ⊆ tables m cs := by
        intro j hj t ht
        apply hentries
        exact List.mem_flatMap.mpr ⟨j, hj, ht⟩
      apply foldl_eq_of_invariant (Spared sig m cs)
      · exact fun b j hj hb => hb.foldl_visit hm (hentry j hj)
      · exact fun b j hj hb => changeEntry_eq hm hx (List.mem_range.mp hj) (hentry j hj) hb
      · exact hvisit

/-- **The walk.** The call visits the tables of the memory it began with, in order. -/
theorem changeACPITable_eq (hm : WellFormed m cs) (h : Spared sig m cs m') :
    changeACPITable sig none m' cs = (tables m cs).foldl (Acpi.visit sig) m' := by
  rw [changeACPITable, tables, List.foldl_flatMap]
  apply foldl_eq_of_invariant (Spared sig m cs)
  · exact fun b c hc hb => hb.foldl_visit hm fun t ht => List.mem_flatMap.mpr ⟨c, hc, ht⟩
  · exact fun b c hc hb => changeRoot_eq hm hc hb
  · exact h

/-- A blank table stays so, whichever table of the graph is visited next. -/
theorem Blank.visit (h : Blank m' t) (hm : WellFormed m cs) (hspared : Spared sig m cs m') (ht : t ∈ tables m cs)
    {u : Nat} (hu : u ∈ tables m cs) : Blank (Acpi.visit sig m' u) t := by
  by_cases hut : u = t
  · subst hut
    rw [visit_of_blank (hspared.length hm ht ▸ hm.header u ht) h]
    exact h
  · have hapart := hm.apart u hu t ht hut
    have hheader := hm.header u hu
    have hlen := hspared.length hm ht
    simp only [Apart, headerSize] at hapart hheader
    have hagree : Mem.AgreeOn (Acpi.visit sig m' u) m' t (Acpi.length m' t) := by
      refine agreeOn_visit ?_
      simp only [Apart, checksumOffset]
      omega
    have hlength : Acpi.length (Acpi.visit sig m' u) t = Acpi.length m' t := by
      rw [(hspared.visit hm hu).length hm ht, hlen]
    have htable := hm.header t ht
    simp only [headerSize] at htable
    constructor
    · intro x h₁ h₂
      rw [← h.oemId x h₁ h₂]
      simp only [oemIdOffset, oemIdSize] at h₁ h₂
      exact hagree x (by omega) (by omega)
    · rw [hlength, hagree.sum]
      exact h.sum

theorem Blank.foldl_visit (h : Blank m' t) (hm : WellFormed m cs) (hspared : Spared sig m cs m')
    (ht : t ∈ tables m cs) {ts : List Nat} (hts : ts ⊆ tables m cs) : Blank (ts.foldl (Acpi.visit sig) m') t := by
  induction ts generalizing m' with
  | nil => exact h
  | cons u ts ih =>
      obtain ⟨hu, hts⟩ := List.cons_subset.mp hts
      exact ih (h.visit hm hspared ht hu) (hspared.visit hm hu) hts

/-- Every table with the signature that was visited is blank. -/
theorem blank_foldl_visit (hm : WellFormed m cs) (hspared : Spared sig m cs m') {ts : List Nat}
    (hts : ts ⊆ tables m cs) (ht : t ∈ ts) (hsig : Acpi.signature m t = sig) :
    Blank (ts.foldl (Acpi.visit sig) m') t := by
  induction ts generalizing m' with
  | nil => cases ht
  | cons u ts ih =>
      obtain ⟨hu, hrest⟩ := List.cons_subset.mp hts
      rcases List.mem_cons.mp ht with rfl | ht
      · have hblank : Blank (Acpi.visit sig m' t) t :=
          blank_visit (hspared.length hm hu ▸ hm.header t hu) ((hspared.signature hm hu).trans hsig)
        exact hblank.foldl_visit hm (hspared.visit hm hu) hu hrest
      · exact ih (hspared.visit hm hu) hrest ht

/-- Visits to tables that are blank or do not have the signature change nothing. -/
theorem foldl_visit_of_blank (hm : WellFormed m cs) (hspared : Spared sig m cs m') {ts : List Nat}
    (hts : ts ⊆ tables m cs) (hblank : ∀ t ∈ ts, Acpi.signature m t = sig → Blank m' t) :
    ts.foldl (Acpi.visit sig) m' = m' := by
  induction ts with
  | nil => rfl
  | cons t ts ih =>
      obtain ⟨ht, hts⟩ := List.cons_subset.mp hts
      obtain ⟨hhead, htail⟩ := List.forall_mem_cons.mp hblank
      have hvisit : Acpi.visit sig m' t = m' := by
        by_cases hsig : Acpi.signature m t = sig
        · exact visit_of_blank (hspared.length hm ht ▸ hm.header t ht) (hhead hsig)
        · exact if_neg (hspared.signature hm ht ▸ hsig)
      rw [List.foldl_cons, hvisit]
      exact ih hts htail

end Walk

/-- **Blanking.** On a well-formed graph the call without a new table leaves every table with the signature with a
zero OEM identifier and bytes that sum up to zero, changes no byte but the checksums and OEM identifiers of these
tables, and does nothing when it is made again. -/
theorem changeACPITable_null (sig : Nat) (m : Mem) (cs : List ConfigurationTable) (hm : WellFormed m cs) :
    (∀ t ∈ tables m cs, signature m t = sig →
      Blank (changeACPITable sig none m cs) t ∧ length (changeACPITable sig none m cs) t = length m t) ∧
    (∀ x, changeACPITable sig none m cs x ≠ m x →
      ∃ t ∈ tables m cs, signature m t = sig ∧ t + checksumOffset ≤ x ∧ x < t + oemIdOffset + oemIdSize) ∧
    changeACPITable sig none (changeACPITable sig none m cs) cs = changeACPITable sig none m cs := by
  have hwalk : changeACPITable sig none m cs = (tables m cs).foldl (visit sig) m := changeACPITable_eq hm .refl
  have hspared : Spared sig m cs (changeACPITable sig none m cs) := by
    rw [hwalk]
    exact Spared.foldl_visit hm (List.Subset.refl _) .refl
  have hblank : ∀ t ∈ tables m cs, signature m t = sig → Blank (changeACPITable sig none m cs) t := by
    intro t ht hsig
    rw [hwalk]
    exact blank_foldl_visit hm .refl (List.Subset.refl _) ht hsig
  refine ⟨fun t ht hsig => ⟨hblank t ht hsig, hspared.length hm ht⟩, ?_, ?_⟩
  · intro x hx
    by_contra hnone
    refine hx (hspared x fun t ht hsig => ?_)
    by_contra hin
    exact hnone ⟨t, ht, hsig, by omega, by omega⟩
  · rw [changeACPITable_eq hm hspared]
    exact foldl_visit_of_blank hm hspared (List.Subset.refl _) hblank

/-- The signature that `UefiMain` passes, the letters `DSDT`. -/
def dsdtSignature : Nat := 1413763908

/-- A root pointer at 64, its XSDT at 200 that lists the FADT at 300 twice, the FACS at 400 and the DSDT at 500. -/
def smallGraph : Mem :=
  let m : Mem := fun _ => 0
  let m := m.store 88 8 200
  let m := ((m.store 200 4 0x54445358).store 204 4 52).store 236 8 300
  let m := m.store 244 8 300
  let m := (((m.store 300 4 fadtSignature).store 304 4 44).store 336 4 400).store 340 4 500
  let m := (m.store 400 4 0x53434146).store 404 4 64
  ((m.store 500 4 dsdtSignature).store 504 4 36).store 510 6 0x205348434F42

/-- Both identifiers lead to the root pointer. -/
def smallConfiguration : List ConfigurationTable := [⟨.acpiTable, 64⟩, ⟨.other 1, 0⟩, ⟨.acpi20Table, 64⟩]

theorem smallGraph_wellFormed : WellFormed smallGraph smallConfiguration := by
  constructor <;> decide +kernel

theorem smallGraph_blank : Blank (changeACPITable dsdtSignature none smallGraph smallConfiguration) 500 :=
  ((changeACPITable_null dsdtSignature smallGraph smallConfiguration smallGraph_wellFormed).1 500 (by decide +kernel)
    (by decide +kernel)).1

end OsHw.Acpi
