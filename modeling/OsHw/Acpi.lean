import OsHw.Bytes

/-! `ChangeACPITable` of the UEFI application. The tables are updated in place while the walk reads the pointers to
the next ones out of the same memory, so every function takes the memory as the steps before it left it. What is
printed on the way is left out. -/

namespace OsHw.Acpi

/-- The identifiers of configuration tables that are compared with. -/
inductive Guid where
  | acpiTable
  | acpi20Table
  | other (id : Nat)
deriving DecidableEq

structure ConfigurationTable where
  vendorGuid : Guid
  vendorTable : Nat

def ConfigurationTable.isAcpi (c : ConfigurationTable) : Bool :=
  c.vendorGuid = .acpiTable ∨ c.vendorGuid = .acpi20Table

/-- `sizeof(EFI_ACPI_DESCRIPTION_HEADER)`. -/
def headerSize : Nat := 36

/-- `sizeof(OemId)`. -/
def oemIdSize : Nat := 6

/-- The offset of `Checksum` in the header. -/
def checksumOffset : Nat := 9

/-- The offset of `OemId` in the header, right behind `Checksum`. -/
def oemIdOffset : Nat := 10

/-- `EFI_ACPI_6_3_FIXED_ACPI_DESCRIPTION_TABLE_SIGNATURE`, the letters `FACP`. -/
def fadtSignature : Nat := 0x50434146

section Fields

variable (m : Mem)

def signature (table : Nat) : Nat := m.load table 4

def length (table : Nat) : Nat := m.load (table + 4) 4

def xsdtAddress (root : Nat) : Nat := m.load (root + 24) 8

/-- `EntryPtr[j]`. -/
def entry (xsdt j : Nat) : Nat := m.load (xsdt + headerSize + 8 * j) 8

/-- `EntryCount`; the difference is one of 64 bits. -/
def entryCount (xsdt : Nat) : Nat := (length m xsdt + (2 ^ 64 - headerSize)) % 2 ^ 64 / 8

def firmwareCtrl (fadt : Nat) : Nat := m.load (fadt + 36) 4

def dsdt (fadt : Nat) : Nat := m.load (fadt + 40) 4

/-- The two's complement of the sum. -/
def calculateCheckSum8 (table n : Nat) : UInt8 := 0 - m.sum table n

end Fields

def updateAcpiChecksum (m : Mem) (table : Nat) : Mem :=
  let m := m.store (table + checksumOffset) 1 0
  m.store (table + checksumOffset) 1 (calculateCheckSum8 m table (length m table)).toNat

/-- What is done four times over: a table with the signature gets a new content, and its checksum. -/
def changeTable (sig : Nat) (newTable : Option Nat) (m : Mem) (table : Nat) : Mem :=
  if signature m table = sig then
    let m :=
      match newTable with
      | none => m.store (table + oemIdOffset) oemIdSize 0
      | some new => m.copy table new (length m new)
    updateAcpiChecksum m table
  else m

/-- The body of the loop over the entries. -/
def changeEntry (sig : Nat) (newTable : Option Nat) (xsdt : Nat) (m : Mem) (j : Nat) : Mem :=
  let table := entry m xsdt j
  let m := changeTable sig newTable m table
  if signature m table = fadtSignature then
    let m := changeTable sig newTable m (dsdt m table)
    changeTable sig newTable m (firmwareCtrl m table)
  else m

/-- The body of the loop over the configuration tables. -/
def changeRoot (sig : Nat) (newTable : Option Nat) (m : Mem) (c : ConfigurationTable) : Mem :=
  if c.isAcpi then
    let xsdt := xsdtAddress m c.vendorTable
    let m := changeTable sig newTable m xsdt
    (List.range (entryCount m xsdt)).foldl (changeEntry sig newTable xsdt) m
  else m

def changeACPITable (sig : Nat) (newTable : Option Nat) (m : Mem) (cs : List ConfigurationTable) : Mem :=
  cs.foldl (changeRoot sig newTable) m

/-! The tables of a memory, without any change to it. -/

/-- A listed table, followed by the two it leads to. -/
def entryTables (m : Mem) (table : Nat) : List Nat :=
  table :: if signature m table = fadtSignature then [dsdt m table, firmwareCtrl m table] else []

def rootTables (m : Mem) (c : ConfigurationTable) : List Nat :=
  if c.isAcpi then
    xsdtAddress m c.vendorTable ::
      (List.range (entryCount m (xsdtAddress m c.vendorTable))).flatMap fun j =>
        entryTables m (entry m (xsdtAddress m c.vendorTable) j)
  else []

/-- Every table that is reached, as often as it is. -/
def tables (m : Mem) (cs : List ConfigurationTable) : List Nat := cs.flatMap (rootTables m)

/-- Two ranges share no byte. -/
def Apart (a n b k : Nat) : Prop := a + n ≤ b ∨ b + k ≤ a

instance (a n b k : Nat) : Decidable (Apart a n b k) := inferInstanceAs (Decidable (_ ∨ _))

/-- The structure from the root pointer on. -/
def rsdpSize : Nat := 36

/-- A graph of tables: each has a header, a FADT its two pointers, and no two share a byte with each other or with
a root pointer. A table may be reached in several ways. -/
structure WellFormed (m : Mem) (cs : List ConfigurationTable) : Prop where
  header : ∀ t ∈ tables m cs, headerSize ≤ length m t
  fadt : ∀ t ∈ tables m cs, signature m t = fadtSignature → headerSize + 8 ≤ length m t
  apart : ∀ t ∈ tables m cs, ∀ t' ∈ tables m cs, t ≠ t' → Apart t (length m t) t' (length m t')
  root : ∀ c ∈ cs, c.isAcpi = true → ∀ t ∈ tables m cs, Apart c.vendorTable rsdpSize t (length m t)

end OsHw.Acpi
