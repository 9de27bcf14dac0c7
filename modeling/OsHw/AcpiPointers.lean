import OsHw.AcpiWalk

/-! Which addresses `PrintAllACPITables` and `ChangeACPITable` take for tables, against the ones that the structures
define. Both functions read the 64-bit address of the XSDT from every root pointer, also from one of the first
revision, which ends before it, and both follow the 32-bit pointers of a FADT, also where they are zero. -/

namespace OsHw.Acpi

/-- What `PrintAllACPITables` prints of a table. -/
structure PrintedTable where
  address : Nat
  length : Nat
  signature : Nat
  oemId : Nat
  checksum : Nat

def printTable (m : Mem) (table : Nat) : PrintedTable :=
  ⟨table, length m table, signature m table, m.load (table + oemIdOffset) oemIdSize, m.load (table + checksumOffset) 1⟩

def printEntry (m : Mem) (table : Nat) : List PrintedTable :=
  printTable m table ::
    if signature m table = fadtSignature then [printTable m (dsdt m table), printTable m (firmwareCtrl m table)] else []

/-- The tables that are printed; the lines about the root pointers are left out. -/
def printAllACPITables (m : Mem) (cs : List ConfigurationTable) : List PrintedTable :=
  cs.flatMap fun c =>
    if c.isAcpi then
      let xsdt := xsdtAddress m c.vendorTable
      printTable m xsdt :: (List.range (entryCount m xsdt)).flatMap fun j => printEntry m (entry m xsdt j)
    else []

section Fields

variable (m : Mem)

def revision (root : Nat) : Nat := m.load (root + 15) 1

def rsdtAddress (root : Nat) : Nat := m.load (root + 16) 4

/-- The entries of an RSDT have 32 bits. -/
def rsdtEntry (rsdt j : Nat) : Nat := m.load (rsdt + headerSize + 4 * j) 4

def xFirmwareCtrl (fadt : Nat) : Nat := m.load (fadt + 132) 8

def xDsdt (fadt : Nat) : Nat := m.load (fadt + 140) 8

end Fields

section Specification

variable (sig : Nat) (newTable : Option Nat) (m : Mem) (cs : List ConfigurationTable)

/-- The addresses of tables that the structures define, starting from the root pointers. A table that is replaced
defines what the new content does. -/
inductive Defined : Nat → Prop
  | rsdt {c : ConfigurationTable} (hc : c ∈ cs) (hacpi : c.isAcpi = true) (h : rsdtAddress m c.vendorTable ≠ 0) :
      Defined (rsdtAddress m c.vendorTable)
  | rsdtEntry {c : ConfigurationTable} {j : Nat} (hc : c ∈ cs) (hacpi : c.isAcpi = true)
      (h : rsdtAddress m c.vendorTable ≠ 0) (hj : j < (length m (rsdtAddress m c.vendorTable) - headerSize) / 4) :
      Defined (rsdtEntry m (rsdtAddress m c.vendorTable) j)
  | xsdt {c : ConfigurationTable} (hc : c ∈ cs) (hacpi : c.isAcpi = true) (h : 2 ≤ revision m c.vendorTable) :
      Defined (xsdtAddress m c.vendorTable)
  | xsdtEntry {c : ConfigurationTable} {j : Nat} (hc : c ∈ cs) (hacpi : c.isAcpi = true)
      (h : 2 ≤ revision m c.vendorTable)
      (hj : j < entryCount m (source sig newTable m (xsdtAddress m c.vendorTable))) :
      Defined (entry m (source sig newTable m (xsdtAddress m c.vendorTable)) j)
  | dsdt {t : Nat} (ht : Defined t) (hfadt : signature m (source sig newTable m t) = fadtSignature)
      (h : dsdt m (source sig newTable m t) ≠ 0) : Defined (dsdt m (source sig newTable m t))
  | firmwareCtrl {t : Nat} (ht : Defined t) (hfadt : signature m (source sig newTable m t) = fadtSignature)
      (h : firmwareCtrl m (source sig newTable m t) ≠ 0) : Defined (firmwareCtrl m (source sig newTable m t))
  | xDsdt {t : Nat} (ht : Defined t) (hfadt : signature m (source sig newTable m t) = fadtSignature)
      (hlen : 148 ≤ length m (source sig newTable m t)) (h : xDsdt m (source sig newTable m t) ≠ 0) :
      Defined (xDsdt m (source sig newTable m t))
  | xFirmwareCtrl {t : Nat} (ht : Defined t) (hfadt : signature m (source sig newTable m t) = fadtSignature)
      (hlen : 140 ≤ length m (source sig newTable m t)) (h : xFirmwareCtrl m (source sig newTable m t) ≠ 0) :
      Defined (xFirmwareCtrl m (source sig newTable m t))

end Specification

section Pointers

variable {sig : Nat} {newTable : Option Nat} {m : Mem} {cs : List ConfigurationTable} {held : List Nat}

/-- The RSDT of a root pointer and its entries are in the list. -/
def RsdtListed (m : Mem) (held : List Nat) (c : ConfigurationTable) : Prop :=
  rsdtAddress m c.vendorTable ≠ 0 → rsdtAddress m c.vendorTable ∈ held ∧
    ∀ j, j < (length m (rsdtAddress m c.vendorTable) - headerSize) / 4 →
      rsdtEntry m (rsdtAddress m c.vendorTable) j ∈ held

/-- The XSDT of a root pointer and its entries are in the list. -/
def XsdtListed (sig : Nat) (newTable : Option Nat) (m : Mem) (held : List Nat) (c : ConfigurationTable) : Prop :=
  2 ≤ revision m c.vendorTable → xsdtAddress m c.vendorTable ∈ held ∧
    ∀ j, j < entryCount m (source sig newTable m (xsdtAddress m c.vendorTable)) →
      entry m (source sig newTable m (xsdtAddress m c.vendorTable)) j ∈ held

/-- What a FADT points to is in the list. -/
def FadtListed (sig : Nat) (newTable : Option Nat) (m : Mem) (held : List Nat) (t : Nat) : Prop :=
  signature m (source sig newTable m t) = fadtSignature →
    (dsdt m (source sig newTable m t) ≠ 0 → dsdt m (source sig newTable m t) ∈ held) ∧
    (firmwareCtrl m (source sig newTable m t) ≠ 0 → firmwareCtrl m (source sig newTable m t) ∈ held) ∧
    (xDsdt m (source sig newTable m t) ≠ 0 → xDsdt m (source sig newTable m t) ∈ held) ∧
    (xFirmwareCtrl m (source sig newTable m t) ≠ 0 → xFirmwareCtrl m (source sig newTable m t) ∈ held)

instance (c : ConfigurationTable) : Decidable (RsdtListed m held c) :=
  inferInstanceAs (Decidable (_ → _ ∧ ∀ j, j < _ → _))

instance (c : ConfigurationTable) : Decidable (XsdtListed sig newTable m held c) :=
  inferInstanceAs (Decidable (_ → _ ∧ ∀ j, j < _ → _))

instance (t : Nat) : Decidable (FadtListed sig newTable m held t) :=
  inferInstanceAs (Decidable (_ → _ ∧ _ ∧ _ ∧ _))

/-- A list that is closed under the pointers has all defined addresses. -/
theorem Defined.mem
    (hroots : ∀ c ∈ cs, c.isAcpi = true → RsdtListed m held c ∧ XsdtListed sig newTable m held c)
    (hfadts : ∀ t ∈ held, FadtListed sig newTable m held t)
    {t : Nat} (h : Defined sig newTable m cs t) : t ∈ held := by
  induction h with
  | rsdt hc hacpi h => exact ((hroots _ hc hacpi).1 h).1
  | rsdtEntry hc hacpi h hj => exact ((hroots _ hc hacpi).1 h).2 _ hj
  | xsdt hc hacpi h => exact ((hroots _ hc hacpi).2 h).1
  | xsdtEntry hc hacpi h hj => exact ((hroots _ hc hacpi).2 h).2 _ hj
  | dsdt _ hfadt h ih => exact (hfadts _ ih hfadt).1 h
  | firmwareCtrl _ hfadt h ih => exact (hfadts _ ih hfadt).2.1 h
  | xDsdt _ hfadt _ h ih => exact (hfadts _ ih hfadt).2.2.1 h
  | xFirmwareCtrl _ hfadt _ h ih => exact (hfadts _ ih hfadt).2.2.2 h

end Pointers

end OsHw.Acpi
