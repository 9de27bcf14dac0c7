import OsHw.AcpiOemId

/-! The walk of `ChangeACPITable` with a new table or without. A table with the signature takes over the content of
the new one, and the pointers that are followed next are those of the new content. As long as every table that is
reached is one of a given list of disjoint tables and the new content fits, every visit stays within its table, so
what the walk reaches can be read off the memory it began with. -/

namespace OsHw.Acpi

/-- The table whose content a table has once it has been visited. -/
def source (sig : Nat) (newTable : Option Nat) (m : Mem) (table : Nat) : Nat :=
  if signature m table = sig then newTable.getD table else table

section Reads

variable (sig : Nat) (newTable : Option Nat)

end Reads

/-- Disjoint tables with room for what is copied over them. The new table is one of them or apart from all. -/
structure Fits (sig : Nat) (newTable : Option Nat) (m : Mem) (held : List Nat) : Prop where
  header : ∀ t ∈ held, headerSize ≤ length m t
  apart : ∀ t ∈ held, ∀ t' ∈ held, t ≠ t' → Apart t (length m t) t' (length m t')
  room : ∀ t ∈ held, signature m t = sig → length m (newTable.getD t) ≤ length m t
  new : ∀ t ∈ newTable, headerSize ≤ length m t ∧ (t ∈ held ∨ ∀ t' ∈ held, Apart t (length m t) t' (length m t'))
  fadt : ∀ t ∈ held, signature m (source sig newTable m t) = fadtSignature →
    headerSize + 8 ≤ length m (source sig newTable m t)

/-- A table of the list, or an address that a visit passes over: there is no signature there, and no table with the
signature either. -/
def Visitable (sig : Nat) (m : Mem) (held : List Nat) (a : Nat) : Prop :=
  a ∈ held ∨ signature m a ≠ sig ∧ ∀ t ∈ held, signature m t = sig → Apart a 4 t (length m t)

instance (sig : Nat) (m : Mem) (held : List Nat) : DecidablePred (Visitable sig m held) :=
  fun _ => inferInstanceAs (Decidable (_ ∨ _))

/-- A listed table is one of the list, and if it is a FADT once it has been visited, the two addresses it leads to are
as they should be. -/
def EntryLeads (P : Nat → Prop) (sig : Nat) (newTable : Option Nat) (m : Mem) (held : List Nat) (table : Nat) : Prop :=
  table ∈ held ∧ (signature m (source sig newTable m table) = fadtSignature →
    P (dsdt m (source sig newTable m table)) ∧ P (firmwareCtrl m (source sig newTable m table)))

/-- What a configuration table leads to. -/
def RootLeads (P : Nat → Prop) (sig : Nat) (newTable : Option Nat) (m : Mem) (held : List Nat)
    (c : ConfigurationTable) : Prop :=
  c.isAcpi = true → xsdtAddress m c.vendorTable ∈ held ∧
    ∀ j, j < entryCount m (source sig newTable m (xsdtAddress m c.vendorTable)) →
      EntryLeads P sig newTable m held (entry m (source sig newTable m (xsdtAddress m c.vendorTable)) j)

instance (P : Nat → Prop) [DecidablePred P] (sig : Nat) (newTable : Option Nat) (m : Mem) (held : List Nat)
    (table : Nat) : Decidable (EntryLeads P sig newTable m held table) := inferInstanceAs (Decidable (_ ∧ _))

instance (P : Nat → Prop) [DecidablePred P] (sig : Nat) (newTable : Option Nat) (m : Mem) (held : List Nat)
    (c : ConfigurationTable) : Decidable (RootLeads P sig newTable m held c) := inferInstanceAs (Decidable (_ → _))

theorem EntryLeads.mono {P Q : Nat → Prop} {sig : Nat} {newTable : Option Nat} {m : Mem} {held : List Nat} {t : Nat}
    (hPQ : ∀ a, P a → Q a) (h : EntryLeads P sig newTable m held t) : EntryLeads Q sig newTable m held t :=
  ⟨h.1, fun hfadt => ⟨hPQ _ (h.2 hfadt).1, hPQ _ (h.2 hfadt).2⟩⟩

theorem RootLeads.mono {P Q : Nat → Prop} {sig : Nat} {newTable : Option Nat} {m : Mem} {held : List Nat}
    {c : ConfigurationTable} (hPQ : ∀ a, P a → Q a) (h : RootLeads P sig newTable m held c) :
    RootLeads Q sig newTable m held c :=
  fun hacpi => ⟨(h hacpi).1, fun j hj => ((h hacpi).2 j hj).mono hPQ⟩

/-- A table that has been visited: what is in it but not in its checksum or OEM identifier is that of its source, and
a new content sums up to zero. -/
structure Visited (sig : Nat) (newTable : Option Nat) (m m' : Mem) (t : Nat) : Prop where
  bytes : ∀ k, k < length m (source sig newTable m t) → k < checksumOffset ∨ oemIdOffset + oemIdSize ≤ k →
    m' (t + k) = m (source sig newTable m t + k)
  sum : signature m t = sig → m'.sum t (length m (source sig newTable m t)) = 0

/-- The memory during the walk: it differs from the first one within tables with the signature only, and each of
these is as it was or has been visited. -/
structure Progress (sig : Nat) (newTable : Option Nat) (m : Mem) (held : List Nat) (m' : Mem) : Prop where
  frame : ∀ x, m' x ≠ m x → ∃ t ∈ held, signature m t = sig ∧ t ≤ x ∧ x < t + length m t
  status : ∀ t ∈ held, signature m t = sig → Mem.AgreeOn m' m t (length m t) ∨ Visited sig newTable m m' t

section Steps

variable {sig t u : Nat} {newTable : Option Nat} {m m' : Mem} {held : List Nat}

theorem source_of_ne (h : signature m t ≠ sig) : source sig newTable m t = t := if_neg h

theorem source_of_eq (h : signature m t = sig) : source sig newTable m t = newTable.getD t := if_pos h

theorem Fits.source_length (hf : Fits sig newTable m held) (ht : t ∈ held) :
    headerSize ≤ length m (source sig newTable m t) ∧ length m (source sig newTable m t) ≤ length m t := by
  by_cases hsig : signature m t = sig
  · rw [source_of_eq hsig]
    refine ⟨?_, hf.room t ht hsig⟩
    cases newTable with
    | none => exact hf.header t ht
    | some new => exact (hf.new new rfl).1
  · rw [source_of_ne hsig]
    exact ⟨hf.header t ht, Nat.le_refl _⟩

section Visited

variable (h : Visited sig newTable m m' t)

include h

theorem Visited.load {k n : Nat} (hk : k + n ≤ checksumOffset ∨ oemIdOffset + oemIdSize ≤ k)
    (hlen : k + n ≤ length m (source sig newTable m t)) :
    m'.load (t + k) n = m.load (source sig newTable m t + k) n := by
  apply Mem.load_congr
  intro j hj
  rw [Nat.add_assoc, Nat.add_assoc]
  exact h.bytes (k + j) (by omega) (by omega)

variable (hlen : headerSize ≤ Acpi.length m (source sig newTable m t))

include hlen

theorem Visited.signature : signature m' t = Acpi.signature m (source sig newTable m t) := by
  rw [headerSize] at hlen
  exact h.load (k := 0) (.inl (by decide)) (by omega)

theorem Visited.length : length m' t = Acpi.length m (source sig newTable m t) := by
  rw [headerSize] at hlen
  exact h.load (.inl (by decide)) (by omega)

theorem Visited.entryCount : entryCount m' t = Acpi.entryCount m (source sig newTable m t) := by
  rw [Acpi.entryCount, h.length hlen, Acpi.entryCount]

theorem Visited.entry {j : Nat} (hj : j < Acpi.entryCount m (source sig newTable m t)) :
    entry m' t j = Acpi.entry m (source sig newTable m t) j := by
  rw [entryCount_eq hlen] at hj
  rw [Acpi.entry, Acpi.entry, Nat.add_assoc, Nat.add_assoc]
  refine h.load (.inr ?_) (by omega)
  simp only [oemIdOffset, oemIdSize, headerSize]
  omega

omit hlen in
theorem Visited.fadt (hfadt : headerSize + 8 ≤ Acpi.length m (source sig newTable m t)) :
    dsdt m' t = dsdt m (source sig newTable m t) ∧
      firmwareCtrl m' t = firmwareCtrl m (source sig newTable m t) := by
  rw [headerSize] at hfadt
  constructor
  · exact h.load (.inr (by decide)) (by omega)
  · exact h.load (.inr (by decide)) (by omega)

end Visited

/-- A table that is apart from all tables with the signature, or does not have it, is as it was. -/
theorem Progress.agreeOn (hp : Progress sig newTable m held m') {a n : Nat}
    (ha : ∀ t ∈ held, signature m t = sig → Apart a n t (length m t)) : Mem.AgreeOn m' m a n := by
  intro x h₁ h₂
  by_contra hne
  obtain ⟨t, ht, hsig, h₃, h₄⟩ := hp.frame x hne
  have hapart := ha t ht hsig
  simp only [Apart] at hapart
  omega

theorem Progress.agreeOn_of_ne (hp : Progress sig newTable m held m') (hf : Fits sig newTable m held) (ht : t ∈ held)
    (hsig : signature m t ≠ sig) : Mem.AgreeOn m' m t (length m t) :=
  hp.agreeOn fun t' ht' hsig' => hf.apart t ht t' ht' fun he => hsig (he ▸ hsig')

theorem signature_of_agreeOn (h : Mem.AgreeOn m' m t (length m t)) (hlen : headerSize ≤ length m t) :
    signature m' t = signature m t := by
  rw [headerSize] at hlen
  exact Mem.AgreeOn.load fun x h₁ h₂ => h x h₁ (by omega)

theorem visited_of_agreeOn (h : Mem.AgreeOn m' m t (length m t)) (hsig : signature m t ≠ sig) :
    Visited sig newTable m m' t := by
  constructor
  · intro k hk _
    rw [source_of_ne hsig] at hk ⊢
    exact h (t + k) (by omega) (by omega)
  · exact fun he => absurd he hsig

/-- Only tables with the signature have it later. -/
theorem Progress.signature_eq (hp : Progress sig newTable m held m') (hf : Fits sig newTable m held) (ht : t ∈ held)
    (hsig : signature m' t = sig) : signature m t = sig := by
  by_contra hne
  rw [signature_of_agreeOn (hp.agreeOn_of_ne hf ht hne) (hf.header t ht)] at hsig
  exact hne hsig

/-- A table without the signature at the time has nothing left to be done. -/
theorem Progress.visited_of_ne (hp : Progress sig newTable m held m') (hf : Fits sig newTable m held) (ht : t ∈ held)
    (hsig : signature m' t ≠ sig) : Visited sig newTable m m' t := by
  by_cases hfirst : signature m t = sig
  · rcases hp.status t ht hfirst with hagree | hvisited
    · rw [signature_of_agreeOn hagree (hf.header t ht)] at hsig
      exact absurd hfirst hsig
    · exact hvisited
  · exact visited_of_agreeOn (hp.agreeOn_of_ne hf ht hfirst) hfirst

/-- The new table has kept what a visit takes from it. -/
theorem Progress.source_bytes (hp : Progress sig newTable m held m') (hf : Fits sig newTable m held) (ht : t ∈ held)
    (hsig : signature m t = sig) {k : Nat} (hk : k < length m (source sig newTable m t))
    (hout : k < checksumOffset ∨ oemIdOffset + oemIdSize ≤ k) :
    m' (source sig newTable m t + k) = m (source sig newTable m t + k) := by
  have hheld : ∀ u ∈ held, (signature m u = sig → source sig newTable m u = u) → k < length m u →
      m' (u + k) = m (u + k) := by
    intro u hu hself hku
    by_cases husig : signature m u = sig
    · rcases hp.status u hu husig with hagree | hvisited
      · exact hagree (u + k) (by omega) (by omega)
      · have hbytes := hvisited.bytes k
        rw [hself husig] at hbytes
        exact hbytes hku hout
    · exact hp.agreeOn_of_ne hf hu husig (u + k) (by omega) (by omega)
  cases newTable with
  | none =>
      have hself : source sig none m t = t := source_of_eq hsig
      rw [hself] at hk ⊢
      exact hheld t ht (fun _ => hself) hk
  | some new =>
      have hnew : source sig (some new) m t = new := source_of_eq hsig
      rw [hnew] at hk ⊢
      rcases (hf.new new rfl).2 with hmem | hapart
      · exact hheld new hmem (fun husig => source_of_eq husig) hk
      · exact hp.agreeOn (fun u hu _ => hapart u hu) (new + k) (by omega) (by omega)

/-- The content that a visit puts into a table, before the checksum. -/
def replaced (newTable : Option Nat) (m : Mem) (t : Nat) : Mem :=
  match newTable with
  | none => m.store (t + oemIdOffset) oemIdSize 0
  | some new => m.copy t new (length m new)

theorem changeTable_of_eq (h : signature m t = sig) :
    changeTable sig newTable m t = updateAcpiChecksum (replaced newTable m t) t := by
  refine (if_pos h).trans ?_
  cases newTable <;> rfl

theorem changeTable_of_ne (h : signature m t ≠ sig) : changeTable sig newTable m t = m := if_neg h

theorem Progress.source_length (hp : Progress sig newTable m held m') (hf : Fits sig newTable m held) (ht : t ∈ held)
    (hsig : signature m t = sig) :
    length m' (source sig newTable m t) = length m (source sig newTable m t) := by
  have hlen := (hf.source_length ht).1
  rw [headerSize] at hlen
  apply Mem.load_congr
  intro j hj
  rw [Nat.add_assoc]
  exact hp.source_bytes hf ht hsig (by omega) (.inl (by simp only [checksumOffset]; omega))

theorem Progress.replaced_spec (hp : Progress sig newTable m held m') (hf : Fits sig newTable m held) (ht : t ∈ held)
    (hsig : signature m t = sig) :
    (∀ k, k < length m (source sig newTable m t) → k < checksumOffset ∨ oemIdOffset + oemIdSize ≤ k →
      replaced newTable m' t (t + k) = m (source sig newTable m t + k)) ∧
    ∀ x, x < t ∨ t + length m (source sig newTable m t) ≤ x → replaced newTable m' t x = m' x := by
  have hlen := (hf.source_length ht).1
  have hbytes := fun k hk hout => hp.source_bytes hf ht hsig (k := k) hk hout
  have hlength := hp.source_length hf ht hsig
  rw [headerSize] at hlen
  rw [source_of_eq hsig] at hlen hbytes hlength ⊢
  cases newTable with
  | none =>
      constructor
      · intro k hk hout
        rw [← hbytes k hk hout]
        exact Mem.store_of_outside (by simp only [checksumOffset, oemIdOffset, oemIdSize] at hout ⊢; omega)
      · intro x hx
        apply Mem.store_of_outside
        simp only [Option.getD_none] at hlen hx
        simp only [oemIdOffset, oemIdSize]
        omega
  | some new =>
      simp only [Option.getD_some] at hbytes hlength ⊢
      constructor
      · intro k hk hout
        rw [replaced, Mem.copy, hlength, if_pos (by omega), Nat.add_sub_cancel_left]
        exact hbytes k hk hout
      · intro x hx
        rw [replaced, Mem.copy, hlength]
        exact if_neg (by omega)

/-- **One visit.** It stays within the room of its source, and the table is visited afterwards. -/
theorem Progress.changeTable_spec (hp : Progress sig newTable m held m') (hf : Fits sig newTable m held) (ht : t ∈ held)
    (hsig : signature m' t = sig) :
    Visited sig newTable m (changeTable sig newTable m' t) t ∧
      ∀ x, x < t ∨ t + length m (source sig newTable m t) ≤ x → changeTable sig newTable m' t x = m' x := by
  have hfirst := hp.signature_eq hf ht hsig
  obtain ⟨hbytes, hout⟩ := hp.replaced_spec hf ht hfirst
  have hlen := (hf.source_length ht).1
  have hlength : length (replaced newTable m' t) t = length m (source sig newTable m t) := by
    rw [headerSize] at hlen
    apply Mem.load_congr
    intro j hj
    rw [Nat.add_assoc, Nat.add_assoc]
    exact hbytes (4 + j) (by omega) (.inl (by simp only [checksumOffset]; omega))
  obtain ⟨hother, hsum⟩ := updateAcpiChecksum_spec (m := replaced newTable m' t) (t := t) (hlength.symm ▸ hlen)
  rw [changeTable_of_eq hsig]
  refine ⟨⟨?_, fun _ => hlength ▸ hsum⟩, ?_⟩
  · intro k hk hk'
    rw [hother (t + k) (by simp only [checksumOffset, oemIdOffset, oemIdSize] at hk' ⊢; omega)]
    exact hbytes k hk hk'
  · intro x hx
    rw [hother x (by simp only [checksumOffset, headerSize] at hlen ⊢; omega)]
    exact hout x hx

/-- A visit of one table leaves all others as they are. -/
theorem Progress.changeTable_apart (hp : Progress sig newTable m held m') (hf : Fits sig newTable m held)
    (ht : t ∈ held) {a n : Nat} (ha : Apart a n t (length m t)) :
    Mem.AgreeOn (changeTable sig newTable m' t) m' a n := by
  intro x h₁ h₂
  by_cases hsig : signature m' t = sig
  · apply (hp.changeTable_spec hf ht hsig).2 x
    have hroom := (hf.source_length ht).2
    simp only [Apart] at ha
    omega
  · rw [changeTable_of_ne hsig]

theorem Visited.of_agreeOn {m'' : Mem} (hf : Fits sig newTable m held) (hu : u ∈ held)
    (h : Visited sig newTable m m' u) (hagree : Mem.AgreeOn m'' m' u (Acpi.length m u)) :
    Visited sig newTable m m'' u := by
  have hroom := (hf.source_length hu).2
  constructor
  · intro k hk hout
    rw [hagree (u + k) (by omega) (by omega)]
    exact h.bytes k hk hout
  · intro hsig
    rw [← h.sum hsig]
    exact Mem.AgreeOn.sum fun x h₁ h₂ => hagree x h₁ (by omega)

theorem Progress.visited_step (hp : Progress sig newTable m held m') (hf : Fits sig newTable m held) (ht : t ∈ held)
    (hu : u ∈ held) (h : u = t ∨ Visited sig newTable m m' u) :
    Visited sig newTable m (changeTable sig newTable m' t) u := by
  by_cases hut : u = t
  · subst hut
    by_cases hsig : signature m' u = sig
    · exact (hp.changeTable_spec hf ht hsig).1
    · rw [changeTable_of_ne hsig]
      exact hp.visited_of_ne hf ht hsig
  · exact (h.resolve_left hut).of_agreeOn hf hu (hp.changeTable_apart hf ht (hf.apart u hu t ht hut))

theorem Progress.step (hp : Progress sig newTable m held m') (hf : Fits sig newTable m held) (ht : t ∈ held) :
    Progress sig newTable m held (changeTable sig newTable m' t) := by
  constructor
  · intro x hx
    by_cases hsame : changeTable sig newTable m' t x = m' x
    · exact hp.frame x (hsame ▸ hx)
    · by_cases hsig : signature m' t = sig
      · refine ⟨t, ht, hp.signature_eq hf ht hsig, ?_⟩
        by_contra hout
        refine hsame ((hp.changeTable_spec hf ht hsig).2 x ?_)
        have hroom := (hf.source_length ht).2
        omega
      · rw [changeTable_of_ne hsig] at hsame
        exact absurd rfl hsame
  · intro u hu husig
    by_cases hut : u = t
    · exact .inr (hp.visited_step hf ht hu (.inl hut))
    · rcases hp.status u hu husig with hagree | hvisited
      · left
        intro x h₁ h₂
        rw [hp.changeTable_apart hf ht (hf.apart u hu t ht hut) x h₁ h₂]
        exact hagree x h₁ h₂
      · exact .inr (hp.visited_step hf ht hu (.inr hvisited))

/-- A visit of one of the two tables of a FADT, which may not be there. -/
theorem Progress.visit (hp : Progress sig newTable m held m') (hf : Fits sig newTable m held) {a : Nat}
    (ha : Visitable sig m held a) : Progress sig newTable m held (changeTable sig newTable m' a) ∧
      ∀ u ∈ held, Visited sig newTable m m' u → Visited sig newTable m (changeTable sig newTable m' a) u := by
  rcases ha with ha | ⟨hsig, hapart⟩
  · exact ⟨hp.step hf ha, fun u hu hvisited => hp.visited_step hf ha hu (.inr hvisited)⟩
  · have hsame : signature m' a = signature m a := (hp.agreeOn hapart).load
    rw [changeTable_of_ne (hsame ▸ hsig)]
    exact ⟨hp, fun _ _ hvisited => hvisited⟩

section Walk

variable {xsdt j : Nat} {cs : List ConfigurationTable} {c : ConfigurationTable}

theorem Progress.refl : Progress sig newTable m held m :=
  ⟨fun _ hx => absurd rfl hx, fun _ _ _ => .inl fun _ _ _ => rfl⟩

theorem Progress.changeEntry (hp : Progress sig newTable m held m') (hf : Fits sig newTable m held) (hx : xsdt ∈ held)
    (hvisited : Visited sig newTable m m' xsdt) (hj : j < entryCount m (source sig newTable m xsdt))
    (hleads : EntryLeads (Visitable sig m held) sig newTable m held (entry m (source sig newTable m xsdt) j)) :
    Progress sig newTable m held (changeEntry sig newTable xsdt m' j) ∧
      Visited sig newTable m (changeEntry sig newTable xsdt m' j) xsdt := by
  rw [← hvisited.entry (hf.source_length hx).1 hj] at hleads
  generalize htable : entry m' xsdt j = table at hleads
  obtain ⟨ht, hnext⟩ := hleads
  have hp₁ := hp.step hf ht
  have hv₁ := hp.visited_step hf ht ht (.inl rfl)
  have hx₁ := hp.visited_step hf ht hx (.inr hvisited)
  simp only [Acpi.changeEntry, htable, hv₁.signature (hf.source_length ht).1]
  by_cases hfadt : signature m (source sig newTable m table) = fadtSignature
  · have hlen := hf.fadt table ht hfadt
    obtain ⟨hd, hfirmware⟩ := hnext hfadt
    obtain ⟨hp₂, hkept⟩ := hp₁.visit hf hd
    obtain ⟨hp₃, hkept'⟩ := hp₂.visit hf hfirmware
    rw [if_pos hfadt, (hv₁.fadt hlen).1, ((hkept table ht hv₁).fadt hlen).2]
    exact ⟨hp₃, hkept' xsdt hx (hkept xsdt hx hx₁)⟩
  · rw [if_neg hfadt]
    exact ⟨hp₁, hx₁⟩

theorem Progress.xsdtAddress (hp : Progress sig newTable m held m')
    (hroot : ∀ t ∈ held, Apart c.vendorTable rsdpSize t (length m t)) :
    xsdtAddress m' c.vendorTable = xsdtAddress m c.vendorTable := by
  have hagree : Mem.AgreeOn m' m c.vendorTable rsdpSize := hp.agreeOn fun t ht _ => hroot t ht
  simp only [rsdpSize] at hagree
  exact Mem.AgreeOn.load fun x h₁ h₂ => hagree x (by omega) (by omega)

theorem Progress.changeRoot (hp : Progress sig newTable m held m') (hf : Fits sig newTable m held)
    (hroot : c.isAcpi = true → ∀ t ∈ held, Apart c.vendorTable rsdpSize t (length m t))
    (hleads : RootLeads (Visitable sig m held) sig newTable m held c) :
    Progress sig newTable m held (changeRoot sig newTable m' c) := by
  cases hacpi : c.isAcpi with
  | false =>
      rw [Acpi.changeRoot, hacpi]
      exact hp
  | true =>
      obtain ⟨hx, hentries⟩ := hleads hacpi
      have hvisited := hp.visited_step hf hx hx (.inl rfl)
      simp only [Acpi.changeRoot, hacpi, if_true, hp.xsdtAddress (hroot hacpi),
        hvisited.entryCount (hf.source_length hx).1]
      have hloop := List.foldlRecOn
        (motive := fun b => Progress sig newTable m held b ∧
          Visited sig newTable m b (Acpi.xsdtAddress m c.vendorTable))
        (List.range (entryCount m (source sig newTable m (Acpi.xsdtAddress m c.vendorTable))))
        (Acpi.changeEntry sig newTable (Acpi.xsdtAddress m c.vendorTable)) ⟨hp.step hf hx, hvisited⟩
        fun b hb j hj => hb.1.changeEntry hf hx hb.2 (List.mem_range.mp hj) (hentries j (List.mem_range.mp hj))
      exact hloop.1

end Walk

end Steps

end OsHw.Acpi
