import OsHw.VTask

/-! All of a task's structure through the mapping. `update_vtask_page` computes how many pages the structure takes and
always fills five, the vDSO adds one page and the offset in the page to the base. As long as five pages are enough,
every byte of the structure shows at its place, wherever in its first page the structure starts. -/

namespace OsHw.VTask

/-- A `task_struct`. It does not run over the end of the address space, and `fork.c` has its size in an `int`. -/
structure TaskStruct where
  addr : Nat
  size : Nat
  inside : addr + size ≤ 2 ^ 64
  size_int : size < 2 ^ 31

/-- `addr & PAGE_MASK`. -/
def pageMask (addr : Nat) : Nat := addr - addr % pageSize

namespace TaskStruct

variable (task : TaskStruct)

def firstPage : Nat := pageMask task.addr

def lastPage : Nat := pageMask ((task.addr + task.size + 2 ^ 64 - 1) % 2 ^ 64)

/-- `npages` of `update_vtask_page`: a difference of 64 bits without a sign, kept in an `int`. -/
def npages : Int := (((task.lastPage + (2 ^ 64 - task.firstPage)) % 2 ^ 64 / pageSize + 1 : Nat) : Int).bmod (2 ^ 32)

end TaskStruct

/-- `__vdso_get_task_struct`, from the base that `__vdso_get_vtask_base` gives; `none` for `NULL`. -/
def vdsoGetTaskStruct (md : VtaskMetadata) (base : Nat) : Option Nat :=
  if md.valid then some (base + md.taskStruct) else none

/-- What a user address stands for when the mapping begins at a base. The page offset in the mapping is that of the
fault handler. -/
def Bound.translate (b : Bound) (base va : Nat) : Option Nat :=
  (b (va / pageSize - base / pageSize)).map (· * pageSize + va % pageSize)

/-- There is a metadata page with the magic number. -/
structure Vtask.Ready (v : Vtask) : Prop where
  page : v.vtaskPages 0 ≠ none
  magic : v.vtaskMeta.magic = vtaskMagic

section Fields

variable {v : Vtask} {task : TaskStruct} {b : Bound} {base f : Nat}

/-- Once there is a page for the metadata, the mapping is ready for good. -/
theorem ready_initVtask (metaPage : Nat) : (initVtask (some metaPage)).Ready := by
  refine ⟨?_, ?_⟩
  · simp [initVtask]
  · simp [initVtask]

theorem Vtask.Ready.update (h : v.Ready) (addr : Nat) (pid : Int32) (jiffies : UInt64) :
    (v.updateVtaskPage addr pid jiffies).Ready := by
  rw [Vtask.updateVtaskPage, if_neg h.page]
  exact ⟨h.page, h.magic⟩

/-- A number that an `int` can hold. -/
theorem bmod_of_lt {n : Nat} (h : n < 2 ^ 31) : (n : Int).bmod (2 ^ 32) = n := by
  apply Int.bmod_eq_of_le_mul_two
  · omega
  · omega

/-- The structure takes the pages from that of its first to that of its last byte. -/
theorem TaskStruct.npages_eq (task : TaskStruct) (hsize : 0 < task.size) :
    task.npages = ((task.addr + task.size - 1) / pageSize - task.addr / pageSize + 1 : Nat) := by
  have hinside := task.inside
  have hint := task.size_int
  have hlast : (task.addr + task.size + 2 ^ 64 - 1) % 2 ^ 64 = task.addr + task.size - 1 := by omega
  have hcount : (task.lastPage + (2 ^ 64 - task.firstPage)) % 2 ^ 64 / pageSize + 1 =
      (task.addr + task.size - 1) / pageSize - task.addr / pageSize + 1 := by
    rw [lastPage, firstPage, hlast]
    simp only [pageMask, pageSize]
    omega
  have hsmall : (task.addr + task.size - 1) / pageSize - task.addr / pageSize + 1 < 2 ^ 31 := by
    simp only [pageSize]
    omega
  unfold npages
  rw [hcount]
  exact bmod_of_lt hsmall

/-- A byte of the structure is in one of five pages when they are enough. -/
theorem TaskStruct.page_le (hpages : task.npages ≤ 5) (hf : f < task.size) :
    (task.addr + f) / pageSize ≤ task.addr / pageSize + 4 := by
  rw [task.npages_eq (by omega)] at hpages
  simp only [pageSize] at hpages ⊢
  omega

/-- The metadata that `update_vtask_page` leaves are valid, and give the place of the structure. -/
theorem vdsoGetTaskStruct_update (h : v.Ready) {pid : Int32} (hpid : pid ≠ 0) (addr : Nat) (jiffies : UInt64) :
    vdsoGetTaskStruct (v.updateVtaskPage addr pid jiffies).vtaskMeta base =
      some (base + pageSize + addr % pageSize) := by
  have hunsigned : pid.toUInt32 ≠ 0 := by
    intro hzero
    apply hpid
    rw [← Int32.toInt32_toUInt32 pid, hzero]
    rfl
  rw [Vtask.updateVtaskPage, if_neg h.page, vdsoGetTaskStruct, if_pos]
  · rw [VtaskMetadata.taskStruct, Nat.add_assoc]
  · simpa [VtaskMetadata.valid, h.magic] using hunsigned

/-- The translation undoes the address computation of the vDSO, whatever the pages are. -/
theorem Bound.translate_eq_phys (hbase : base % pageSize = 0) (x : Nat) : b.translate base (base + x) = b.phys x := by
  have hpage : (base + x) / pageSize - base / pageSize = x / pageSize := by
    simp only [pageSize] at hbase ⊢
    omega
  have hoff : (base + x) % pageSize = x % pageSize := by
    simp only [pageSize] at hbase ⊢
    omega
  rw [translate, hpage, hoff, phys]

end Fields

/-- **Fields.** Once `update_vtask_page` has run for a task whose structure takes at most five pages, and all six pages
are bound, every byte of the structure shows at its offset from `__vdso_get_task_struct`, inside the mapping. -/
theorem vdsoGetTaskStruct_bytes (v : Vtask) (hv : v.Ready) (task : TaskStruct) (hpages : task.npages ≤ 5) (pid : Int32)
    (hpid : pid ≠ 0) (jiffies : UInt64) (b : Bound)
    (hb : ∀ i, i < 6 → b i = (v.updateVtaskPage task.addr pid jiffies).vtaskPages i) (base : Nat)
    (hbase : base % pageSize = 0) (mem : Mem) :
    ∃ p, vdsoGetTaskStruct (v.updateVtaskPage task.addr pid jiffies).vtaskMeta base = some p ∧
      ∀ f, f < task.size → base ≤ p + f ∧ p + f < base + 6 * pageSize ∧
        (b.translate base (p + f)).map mem = some (mem (task.addr + f)) := by
  refine ⟨_, vdsoGetTaskStruct_update hv hpid task.addr jiffies, fun f hf => ?_⟩
  have hpage := task.page_le hpages hf
  have hindex : 1 ≤ (pageSize + task.addr % pageSize + f) / pageSize ∧
      (pageSize + task.addr % pageSize + f) / pageSize ≤ 5 := by
    simp only [pageSize] at hpage ⊢
    omega
  have hown := hb _ (Nat.lt_succ_of_le hindex.2)
  rw [vtaskPages_updateVtaskPage hv.page task.addr pid jiffies hindex] at hown
  refine ⟨by omega, ?_, ?_⟩
  · simp only [pageSize] at hindex ⊢
    omega
  · have hplace : base + pageSize + task.addr % pageSize + f = base + (pageSize + task.addr % pageSize + f) := by omega
    rw [hplace, Bound.translate_eq_phys hbase, phys_of_ownPages hown, Option.map_some]

/-- A structure of four pages that begins 96 bytes before the end of a page, and so takes five. -/
def lateTask : TaskStruct := ⟨12192, 16384, by decide, by decide⟩

def lateVtask : Vtask := (initVtask (some 1)).updateVtaskPage lateTask.addr 7 0

theorem lateTask_bytes : ∃ p, vdsoGetTaskStruct lateVtask.vtaskMeta 32768 = some p ∧
    ∀ f, f < 16384 → 32768 ≤ p + f ∧ p + f < 32768 + 6 * pageSize ∧
      (Bound.translate lateVtask.vtaskPages 32768 (p + f)).map UInt8.ofNat = some (UInt8.ofNat (12192 + f)) :=
  vdsoGetTaskStruct_bytes (initVtask (some 1)) (ready_initVtask 1) lateTask (by decide) 7 (by decide) 0
    lateVtask.vtaskPages (fun _ _ => rfl) 32768 (by decide) UInt8.ofNat

end OsHw.VTask
