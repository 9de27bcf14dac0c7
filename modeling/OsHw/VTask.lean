import Mathlib.Logic.Function.Basic
import OsHw.Run
import OsHw.Table
import OsHw.Bytes

/-! The `[vtask]` mapping of `arch/x86/entry/vdso`. One metadata page and one array of pages are global and
overwritten for every new task and every `execve`; an address space binds a page of the mapping when it is
first touched, and the functions of the vDSO combine the pages bound so with the metadata of the moment. The
system has tasks that are created, replace their image and exit, memory that is used again, and vDSO calls that
proceed one access at a time. -/

namespace OsHw.VTask

def pageSize : Nat := 4096

/-- `struct vtask_metadata`. -/
structure VtaskMetadata where
  magic : UInt64
  taskOffset : Nat
  taskStructAddr : Nat
  pid : UInt32
  timestamp : UInt64
  deriving DecidableEq, Repr

def vtaskMagic : UInt64 := 0x5441534B

/-- `vtask_meta` and `vtask_pages`, pages by their numbers. -/
structure Vtask where
  vtaskMeta : VtaskMetadata
  vtaskPages : Nat → Option Nat

/-- `init_vtask`, with the page it gets for the metadata. -/
def initVtask (metaPage : Option Nat) : Vtask where
  vtaskMeta := ⟨vtaskMagic, 0, 0, -114514, 0⟩
  vtaskPages i := if i = 0 then metaPage else none

/-- `update_vtask_page` for a task at an address. -/
def Vtask.updateVtaskPage (v : Vtask) (taskAddr : Nat) (pid : Int32) (jiffies : UInt64) : Vtask :=
  if v.vtaskPages 0 = none then v
  else
    let firstPage := taskAddr - taskAddr % pageSize
    let startPage := firstPage / pageSize
    { vtaskMeta := { v.vtaskMeta with
        taskOffset := taskAddr % pageSize
        taskStructAddr := taskAddr
        pid := pid.toUInt32
        timestamp := jiffies }
      vtaskPages i := if 1 ≤ i ∧ i ≤ 5 then some (startPage + (i - 1)) else v.vtaskPages i }

/-- The pages of the mapping that an address space has bound. -/
abbrev Bound := Nat → Option Nat

/-- A touch of page `i` binds it, once. -/
def Bound.touch (b : Bound) (v : Vtask) (i : Nat) : Bound :=
  if (b i).isSome then b else Function.update b i (v.vtaskPages i)

/-- What a user address, counted from the start of the mapping, stands for. -/
def Bound.phys (b : Bound) (va : Nat) : Option Nat := (b (va / pageSize)).map (· * pageSize + va % pageSize)

/-- The memory as it shows through the mapping. -/
def Bound.view (b : Bound) (mem : Mem) : Mem := fun va => ((b.phys va).map mem).getD 0

/-- The checks of `__vdso_get_task_struct`. The field `pid` is unsigned. -/
def VtaskMetadata.valid (md : VtaskMetadata) : Bool := md.magic = vtaskMagic ∧ ¬md.pid ≤ 0

/-- Where `__vdso_get_task_struct` takes the structure to be: in the page behind the metadata. -/
def VtaskMetadata.taskStruct (md : VtaskMetadata) : Nat := pageSize + md.taskOffset

theorem startPage_eq (addr : Nat) : (addr - addr % pageSize) / pageSize = addr / pageSize := by
  have h := Nat.div_add_mod addr pageSize
  have hsub : addr - addr % pageSize = pageSize * (addr / pageSize) := by omega
  rw [hsub, Nat.mul_div_cancel_left _ (by decide)]

/-- The page of a task's structure that page `i` of the mapping stands for. -/
def ownPage (addr i : Nat) : Nat := addr / pageSize + (i - 1)

/-- `update_vtask_page` describes the structure of the task it is called for. -/
theorem vtaskPages_updateVtaskPage {v : Vtask} (h : v.vtaskPages 0 ≠ none) (addr : Nat) (pid : Int32)
    (jiffies : UInt64) {i : Nat} (hi : 1 ≤ i ∧ i ≤ 5) :
    (v.updateVtaskPage addr pid jiffies).vtaskPages i = some (ownPage addr i) := by
  rw [Vtask.updateVtaskPage, if_neg h]
  simp only [if_pos hi, startPage_eq, ownPage]

/-- **Own pages.** Through pages bound to a task's structure, its byte `f` shows at the place where the structure
is taken to be. -/
theorem phys_of_ownPages {b : Bound} {addr f : Nat}
    (hb : b ((pageSize + addr % pageSize + f) / pageSize) =
      some (ownPage addr ((pageSize + addr % pageSize + f) / pageSize))) :
    b.phys (pageSize + addr % pageSize + f) = some (addr + f) := by
  rw [Bound.phys, hb, Option.map_some, ownPage, Option.some.injEq]
  simp only [pageSize]
  omega

abbrev Pid := Int32

abbrev MmId := Nat

structure Task where
  pid : Pid
  tgid : Pid
  addr : Nat
  /-- The address space, kernel threads have none. -/
  mm : Option MmId
  deriving DecidableEq, Repr

/-- `sizeof(struct task_struct)` and the place of the field `pid`. Wherever in its first page the structure
starts, the field is in the five pages of the mapping. -/
structure Layout where
  size : Nat
  pidOffset : Nat
  pid_in : pidOffset + 4 ≤ size
  pid_fits : pidOffset + 4 ≤ 4 * pageSize + 1

/-- Where a thread stands in `__vdso_get_task_pid`. -/
inductive Pc where
  | idle
  /-- The metadata has passed the checks. -/
  | checked
  /-- The address of the field `pid` is known. -/
  | reading (va : Nat)
  deriving DecidableEq, Repr

structure State where
  mem : Mem
  tasks : List Task
  vtask : Vtask
  mms : MmId → Bound
  nextMm : MmId
  pcs : Pid → Pc

inductive Label where
  /-- `copy_process`: a new process, a new thread, or a process in the parent's address space. -/
  | clone (parent child : Pid) (addr : Nat) (vm thread : Bool) (jiffies : UInt64)
  | exec (t : Pid) (jiffies : UInt64)
  | exit (t : Pid)
  /-- The kernel writes to memory that is not the `pid` of a live task. -/
  | write (a : Nat) (b : UInt8)
  /-- A thread touches a page of the mapping. -/
  | touch (t : Pid) (i : Nat)
  /-- `__vdso_get_task_pid` is called and checks the metadata. -/
  | call (t : Pid)
  /-- It reads `task_offset`. -/
  | offset (t : Pid)
  /-- It reads `task->pid` and returns it. -/
  | load (t : Pid)

inductive Event where
  | quiet
  /-- A call by a thread of the process `tgid` returned. -/
  | returned (tgid : Pid) (result : Int32)
  deriving DecidableEq, Repr

namespace State

variable (L : Layout)

def find (s : State) (t : Pid) : Option Task := Table.find Task.pid t s.tasks

def setPc (s : State) (t : Pid) (pc : Pc) : State := { s with pcs := Function.update s.pcs t pc }

def setBound (s : State) (M : MmId) (b : Bound) : State := { s with mms := Function.update s.mms M b }

/-- The kernel with one thread that has no address space, before any user process. -/
def init (metaPage : Option Nat) (addr : Nat) : State where
  mem := Mem.store (fun _ => 0) (addr + L.pidOffset) 4 1
  tasks := [⟨1, 1, addr, none⟩]
  vtask := initVtask metaPage
  mms _ _ := none
  nextMm := 0
  pcs _ := .idle

/-- `task_struct` of a new task does not overlap one in use. -/
def Free (s : State) (addr : Nat) : Prop := ∀ u ∈ s.tasks, addr + L.size ≤ u.addr ∨ u.addr + L.size ≤ addr

instance (s : State) (addr : Nat) : Decidable (s.Free L addr) := inferInstanceAs (Decidable (∀ _ ∈ _, _ ∨ _))

/-- The address space of a new task, and the number of address spaces used so far. -/
def cloneMm (s : State) (p : Task) (vm : Bool) : Option MmId × MmId :=
  match p.mm with
  | none => (none, s.nextMm)
  | some M => if vm then (some M, s.nextMm) else (some s.nextMm, s.nextMm + 1)

/-- The new task of `copy_process`. -/
def cloneTask (s : State) (p : Task) (child : Pid) (addr : Nat) (vm thread : Bool) : Task :=
  ⟨child, if thread then p.tgid else child, addr, (s.cloneMm p vm).1⟩

/-- `update_vtask_page` at the end of `copy_process`, for tasks that have an address space. -/
def updateFor (s : State) (u : Task) (jiffies : UInt64) : Vtask :=
  if u.mm.isSome then s.vtask.updateVtaskPage u.addr u.pid jiffies else s.vtask

/-- The thread after `execve`: it takes the number of its process and a new address space. -/
def execTask (s : State) (u : Task) : Task := { u with pid := u.tgid, mm := some s.nextMm }

def step (s : State) : Label → Option (State × Event)
  | .clone parent child addr vm thread jiffies =>
      match s.find parent with
      | none => none
      | some p =>
          if s.find child = none ∧ s.Free L addr ∧ (thread = true → vm = true) then
            let u := s.cloneTask p child addr vm thread
            some ({ s with
              mem := s.mem.store (addr + L.pidOffset) 4 child.toUInt32.toNat
              tasks := u :: s.tasks
              vtask := s.updateFor u jiffies
              mms := Function.update s.mms s.nextMm fun _ => none
              nextMm := (s.cloneMm p vm).2
              pcs := Function.update s.pcs child .idle }, .quiet)
          else none
  -- the other threads of the process are gone before `map_vdso` runs
  | .exec t jiffies =>
      match s.find t with
      | none => none
      | some u =>
          let u' := s.execTask u
          some ({ s with
            mem := s.mem.store (u.addr + L.pidOffset) 4 u'.pid.toUInt32.toNat
            tasks := u' :: s.tasks.filter fun v => v.tgid ≠ u.tgid
            vtask := s.updateFor u' jiffies
            mms := Function.update s.mms s.nextMm fun _ => none
            nextMm := s.nextMm + 1
            pcs := Function.update s.pcs u'.pid .idle }, .quiet)
  -- the leader's task stays until it is the last one of the process
  | .exit t =>
      match s.find t with
      | none => none
      | some u =>
          if u.pid = u.tgid ∧ ∃ v ∈ s.tasks, v.tgid = u.tgid ∧ v.pid ≠ u.pid then none
          else some ({ s with tasks := s.tasks.filter fun v => v.pid ≠ t }, .quiet)
  | .write a b =>
      if ∃ u ∈ s.tasks, u.addr + L.pidOffset ≤ a ∧ a < u.addr + L.pidOffset + 4 then none
      else some ({ s with mem := Function.update s.mem a b }, .quiet)
  | .touch t i =>
      match (s.find t).bind Task.mm with
      | none => none
      | some M =>
          let b := (s.mms M).touch s.vtask i
          if i ≤ 5 ∧ (b i).isSome then some (s.setBound M b, .quiet) else none
  | .call t =>
      match s.find t with
      | none => none
      | some u =>
          match u.mm with
          | none => none
          | some M =>
              let b := (s.mms M).touch s.vtask 0
              if s.pcs t = .idle ∧ (b 0).isSome then
                if s.vtask.vtaskMeta.valid then some ((s.setBound M b).setPc t .checked, .quiet)
                else some (s.setBound M b, .returned u.tgid (-1))
              else none
  | .offset t =>
      match s.find t with
      | none => none
      | some _ =>
          if s.pcs t = .checked then
            some (s.setPc t (.reading (s.vtask.vtaskMeta.taskStruct + L.pidOffset)), .quiet)
          else none
  | .load t =>
      match s.find t, s.pcs t with
      | some u, .reading va =>
          match u.mm with
          | none => none
          | some M =>
              let b := ((s.mms M).touch s.vtask (va / pageSize)).touch s.vtask ((va + 3) / pageSize)
              if (b (va / pageSize)).isSome ∧ (b ((va + 3) / pageSize)).isSome then
                some ((s.setBound M b).setPc t .idle,
                  .returned u.tgid (UInt32.ofNat ((b.view s.mem).load va 4)).toInt32)
              else none
      | _, _ => none

end State

end OsHw.VTask
