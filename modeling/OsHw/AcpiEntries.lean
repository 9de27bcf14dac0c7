import OsHw.AcpiPointers

/-! The loops over the entries of an XSDT, in `PrintAllACPITables` and in `ChangeACPITable`. The number of entries is
computed once before a loop, from a length of 32 bits and in 64 bits without a sign, so a length below the size of
the header gives a number near `2 ^ 61`. A loop keeps within the table exactly when there is a header. -/

namespace OsHw.Acpi

/-- A loop over the entries of an XSDT, with the memory that its bound is computed from. -/
structure EntryLoop where
  memory : Mem
  xsdt : Nat

namespace EntryLoop

variable (l : EntryLoop)

/-- The `Length` field. -/
def length : Nat := Acpi.length l.memory l.xsdt

/-- How often the body runs. -/
def count : Nat := entryCount l.memory l.xsdt

/-- `&EntryPtr[j]`. -/
def slot (j : Nat) : Nat := l.xsdt + headerSize + 8 * j

/-- The addresses of 8 bytes each that the loop reads. -/
def slots : List Nat := (List.range l.count).map l.slot

/-- The loop of `PrintAllACPITables`. -/
def print : List PrintedTable := l.slots.flatMap fun a => printEntry l.memory (l.memory.load a 8)

/-- The loop of `ChangeACPITable`. -/
def change (sig : Nat) (newTable : Option Nat) : Mem :=
  (List.range l.count).foldl (changeEntry sig newTable l.xsdt) l.memory

/-- The entries that fit into the table behind the header are read, and nothing else. -/
structure Bounded : Prop where
  count : l.count = if headerSize ≤ l.length then (l.length - headerSize) / 8 else 0
  inside : ∀ a ∈ l.slots, l.xsdt + headerSize ≤ a ∧ a + 8 ≤ l.xsdt + l.length

end EntryLoop

/-- The loop that `PrintAllACPITables` runs for a configuration table. -/
def printRootLoop (m : Mem) (c : ConfigurationTable) : Option EntryLoop :=
  if c.isAcpi then some ⟨m, xsdtAddress m c.vendorTable⟩ else none

/-- The loop that `ChangeACPITable` runs, once the XSDT itself has been seen to. -/
def changeRootLoop (sig : Nat) (newTable : Option Nat) (m : Mem) (c : ConfigurationTable) : Option EntryLoop :=
  if c.isAcpi then
    some ⟨changeTable sig newTable m (xsdtAddress m c.vendorTable), xsdtAddress m c.vendorTable⟩
  else none

def printLoops (m : Mem) (cs : List ConfigurationTable) : List EntryLoop := cs.filterMap (printRootLoop m)

/-- Every loop starts from the memory that those before it have left. -/
def changeLoops (sig : Nat) (newTable : Option Nat) (m : Mem) (cs : List ConfigurationTable) : List EntryLoop :=
  outputs (changeRoot sig newTable) (fun m c => (changeRootLoop sig newTable m c).toList) m cs

section Loops

variable {sig : Nat} {newTable : Option Nat} {m : Mem} {cs : List ConfigurationTable} {c : ConfigurationTable}

/-- What is printed comes from these loops and the tables they are for. -/
theorem printAllACPITables_eq (m : Mem) (cs : List ConfigurationTable) :
    printAllACPITables m cs = (printLoops m cs).flatMap fun l => printTable l.memory l.xsdt :: l.print := by
  rw [printAllACPITables, printLoops]
  induction cs with
  | nil => rfl
  | cons c cs ih =>
      rw [List.flatMap_cons, ih]
      cases hacpi : c.isAcpi with
      | false => simp [printRootLoop, hacpi]
      | true =>
          simp only [List.filterMap_cons, printRootLoop, hacpi, if_true, List.flatMap_cons, EntryLoop.print,
            EntryLoop.slots, List.flatMap_map]
          rfl

/-- A configuration table changes what its loop changes, if it has one. -/
theorem changeRoot_eq_loop : changeRoot sig newTable m c =
    match changeRootLoop sig newTable m c with
    | some l => l.change sig newTable
    | none => m := by
  cases hacpi : c.isAcpi with
  | false => simp [changeRoot, changeRootLoop, hacpi]
  | true => simp [changeRoot, changeRootLoop, hacpi, EntryLoop.change, EntryLoop.count]

/-- The memory in the end is what the last loop leaves, if there is one. -/
theorem changeACPITable_eq_loops (m : Mem) (cs : List ConfigurationTable) : changeACPITable sig newTable m cs =
    match (changeLoops sig newTable m cs).getLast? with
    | some l => l.change sig newTable
    | none => m := by
  rw [changeACPITable, changeLoops]
  induction cs generalizing m with
  | nil => rfl
  | cons c cs ih =>
      rw [List.foldl_cons, ih, outputs, List.getLast?_append, changeRoot_eq_loop]
      generalize outputs _ _ _ cs = later
      cases hlast : later.getLast? with
      | some l => rfl
      | none => cases hloop : changeRootLoop sig newTable m c <;> rfl

end Loops

namespace EntryLoop

variable (l : EntryLoop)

theorem count_of_le (h : headerSize ≤ l.length) : l.count = (l.length - headerSize) / 8 := entryCount_eq h

/-- The difference wraps around. -/
theorem count_of_lt (h : l.length < headerSize) : l.count = (2 ^ 64 + l.length - headerSize) / 8 := by
  have hcount : l.count = (l.length + (2 ^ 64 - headerSize)) % 2 ^ 64 / 8 := rfl
  rw [hcount]
  simp only [headerSize] at h ⊢
  omega

theorem mem_slots {a : Nat} : a ∈ l.slots ↔ ∃ j < l.count, l.slot j = a := by
  simp only [slots, List.mem_map, List.mem_range]

/-- **One loop.** It keeps within the table exactly when the length has room for the header. -/
theorem bounded_iff : l.Bounded ↔ headerSize ≤ l.length := by
  constructor
  · intro h
    by_contra hlt
    have hwrapped := l.count_of_lt (by omega)
    have hcount := h.count
    rw [if_neg hlt, hwrapped] at hcount
    simp only [headerSize] at hcount
    omega
  · intro hle
    have hcount := l.count_of_le hle
    refine ⟨?_, fun a ha => ?_⟩
    · rw [if_pos hle]
      exact hcount
    · obtain ⟨j, hj, rfl⟩ := l.mem_slots.mp ha
      have hend : 8 * (j + 1) ≤ l.length - headerSize := by omega
      simp only [slot]
      omega

/-- Without room for the header the very first entry is outside. -/
theorem first_outside (h : l.length < headerSize) : ∃ a ∈ l.slots, l.xsdt + l.length < a := by
  have hcount := l.count_of_lt h
  refine ⟨l.slot 0, l.mem_slots.mpr ⟨0, ?_, rfl⟩, ?_⟩
  · rw [hcount]
    simp only [headerSize]
    omega
  · simp only [slot]
    omega

end EntryLoop

/-- **Entries.** Whatever is in the memory, every loop of a call keeps within its table exactly when the XSDT has room
for a header when the loop begins. -/
theorem loops_bounded_iff (sig : Nat) (newTable : Option Nat) (m : Mem) (cs : List ConfigurationTable) :
    (∀ l ∈ printLoops m cs, l.Bounded ↔ headerSize ≤ l.length) ∧
      ∀ l ∈ changeLoops sig newTable m cs, l.Bounded ↔ headerSize ≤ l.length :=
  ⟨fun l _ => l.bounded_iff, fun l _ => l.bounded_iff⟩

/-- A root pointer at 64 with an XSDT at 200 whose length is 35. -/
def shortXsdt : Mem :=
  let m : Mem := fun _ => 0
  let m := (((m.store 64 8 0x2052545020445352).store 79 1 2).store 84 4 36).store 88 8 200
  (m.store 200 4 0x54445358).store 204 4 35

def shortConfiguration : List ConfigurationTable := [⟨.acpi20Table, 64⟩]

/-- Both functions run a loop with the bound `2 ^ 61 - 1`, and the first entry is behind the table already. -/
theorem shortXsdt_not_bounded :
    (∃ l ∈ printLoops shortXsdt shortConfiguration, l.length = 35 ∧ l.count = 2 ^ 61 - 1 ∧
        (∃ a ∈ l.slots, l.xsdt + l.length < a) ∧ ¬l.Bounded) ∧
      ∃ l ∈ changeLoops fadtSignature none shortXsdt shortConfiguration, l.length = 35 ∧ l.count = 2 ^ 61 - 1 ∧
        (∃ a ∈ l.slots, l.xsdt + l.length < a) ∧ ¬l.Bounded := by
  have hx : xsdtAddress shortXsdt 64 = 200 := by decide +kernel
  have hkept : changeTable fadtSignature none shortXsdt 200 = shortXsdt := changeTable_of_ne (by decide +kernel)
  have hlen : EntryLoop.length ⟨shortXsdt, 200⟩ = 35 := by decide +kernel
  have hshort : EntryLoop.length ⟨shortXsdt, 200⟩ < headerSize := by
    rw [hlen]
    decide
  have hcount : EntryLoop.count ⟨shortXsdt, 200⟩ = 2 ^ 61 - 1 := by
    rw [EntryLoop.count_of_lt _ hshort, hlen]
    decide
  have hprint : ⟨shortXsdt, 200⟩ ∈ printLoops shortXsdt shortConfiguration := by
    refine List.mem_filterMap.mpr ⟨⟨.acpi20Table, 64⟩, List.mem_cons_self, ?_⟩
    rw [printRootLoop, hx]
    rfl
  have hchange : ⟨shortXsdt, 200⟩ ∈ changeLoops fadtSignature none shortXsdt shortConfiguration := by
    have hloop : changeRootLoop fadtSignature none shortXsdt ⟨.acpi20Table, 64⟩ = some ⟨shortXsdt, 200⟩ := by
      rw [changeRootLoop, hx, hkept]
      rfl
    rw [changeLoops, shortConfiguration, outputs, hloop]
    exact List.mem_cons_self
  have hfirst := EntryLoop.first_outside _ hshort
  have hnot : ¬EntryLoop.Bounded ⟨shortXsdt, 200⟩ := mt (EntryLoop.bounded_iff _).mp (by omega)
  exact ⟨⟨_, hprint, hlen, hcount, hfirst, hnot⟩, _, hchange, hlen, hcount, hfirst, hnot⟩

end OsHw.Acpi
