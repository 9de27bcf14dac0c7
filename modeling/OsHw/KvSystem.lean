import OsHw.KvStore
import OsHw.Run

/-! The system the store is part of: any number of processes and threads whose `write_kv`, `read_kv`,
`copy_process`, `execve` and `do_exit` are cut into the steps between which the scheduler may switch. A
locked section is one step. A label names the task that moves and what the outside world decides: the
address `kmalloc` returns or its failure, the new task and its pid, the error `copy_process` meets. -/

namespace OsHw.Kv

/-- The error exits of `copy_process`, in the order of the code. -/
inductive ForkError where
  | invalidFlags | sigpending | dupTaskStruct
  | copyCreds | nprocLimit | maxThreads | mempolicy | schedFork | perfEvent | auditAlloc
  | securityTaskAlloc | copySemundo | copyFiles | copyFs | copySighand | copySignal | copyMm
  | copyNamespaces | copyIo | copyThread | allocPid | pidfdUnusedFd | pidfdFile | pidfdPutUser
  | cgroupCanFork | pidnsDying | fatalSignal
  deriving DecidableEq, Repr

/-- How far `copy_process` has come at an error exit. -/
inductive ForkStage where
  | beforeDup | beforeInit | afterInit
  deriving DecidableEq, Repr

namespace ForkError

def stage : ForkError → ForkStage
  | .invalidFlags | .sigpending | .dupTaskStruct => .beforeDup
  | .cgroupCanFork | .pidnsDying | .fatalSignal => .afterInit
  | _ => .beforeInit

/-- The value `copy_process` returns: fixed by the exit, or passed on from the callee that failed. -/
def retval (callee : Int) : ForkError → Int
  | .invalidFlags => -22
  | .sigpending => -513
  | .dupTaskStruct => -12
  | .nprocLimit | .maxThreads => -11
  | .pidnsDying => -12
  | .fatalSignal => -4
  | _ => callee

end ForkError

inductive Label where
  /-- `write_kv(k, v)` up to its allocation, and the address `kmalloc` returns. -/
  | writeAlloc (t : TaskPtr) (k v : Int32) (newKv : Option Addr)
  /-- The locked section of `write_kv(k, v)`. -/
  | writeLock (t : TaskPtr) (k v : Int32)
  /-- `write_kv` frees the pair it did not need. -/
  | writeFree (t : TaskPtr)
  | readKv (t : TaskPtr) (k : Int32)
  /-- `copy_process` up to and with `dup_task_struct`. -/
  | dupTask (t p : TaskPtr) (cloneThread : Bool)
  /-- `copy_process` sets the ids of the child and calls `kv_store_init`. -/
  | forkInit (t : TaskPtr) (pid : Pid)
  | forkFail (t : TaskPtr) (e : ForkError) (callee : Int)
  /-- `copy_process` makes the child visible and returns it. -/
  | forkDone (t : TaskPtr)
  | doExit (t : TaskPtr)
  /-- One iteration of the loop of `kv_store_exit`. -/
  | exitBucket (t : TaskPtr)
  /-- `execve` enters `de_thread`. -/
  | execve (t : TaskPtr)
  /-- `de_thread` finds all other threads gone and completes. -/
  | deThread (t : TaskPtr)
  | execFail (t : TaskPtr)
  deriving DecidableEq, Repr

/-- The steps of `execve`. -/
def Label.isExec : Label → Bool
  | .execve _ | .deThread _ | .execFail _ => true
  | _ => false

/-- What a step shows: what a system call returns, what a locked section did to which store, and which
process an allocation was made for. -/
inductive Event where
  | silent
  | ret (t : TaskPtr) (retval : Int)
  | kmalloc (tgid : Pid) (a : Addr)
  | wrote (leader : TaskPtr) (k v : Int32)
  | read (leader t : TaskPtr) (k : Int32) (retval : Int)
  | torn (leader : TaskPtr) (i : BucketIdx)
  deriving DecidableEq, Repr

namespace Kernel

/-- A task's system call or user code may start something new. -/
def atUser (s : Kernel) (t : TaskPtr) : Option Task :=
  (s.task t).bind fun tx => if tx.pc = .user then some tx else none

/-- `write_kv` computes its bucket and allocates `new_kv`. -/
def writeAlloc (s : Kernel) (t : TaskPtr) (k v : Int32) (newKv : Option Addr) : Option (Kernel × Event) :=
  (s.atUser t).bind fun tx =>
  (getHashBucket tx k).bind fun b =>
  match newKv with
  | none => some (s, .ret t (-enomem))
  | some a =>
      if a ∉ s.allocs then
        some ((s.kmalloc a).setTask t { tx with pc := .writeLocking b k v a },
          .kmalloc tx.tgid a)
      else none

/-- `write_kv` in its locked section. -/
def writeLock (s : Kernel) (t : TaskPtr) (k v : Int32) : Option (Kernel × Event) :=
  (s.task t).bind fun tx =>
  match tx.pc with
  | .writeLocking b k' v' a =>
      if k = k' ∧ v = v' then
        let (s', found) := s.writeLocked b k v a
        some (s'.setTask t { tx with pc := if found then .writeFreeing a else .user }, .wrote b.1 k v)
      else none
  | _ => none

/-- `write_kv` frees the unused pair and returns. -/
def writeFree (s : Kernel) (t : TaskPtr) : Option (Kernel × Event) :=
  (s.task t).bind fun tx =>
  match tx.pc with
  | .writeFreeing a => some ((s.kfree a).setTask t { tx with pc := .user }, .ret t 0)
  | _ => none

/-- `read_kv`. -/
def readStep (s : Kernel) (t : TaskPtr) (k : Int32) : Option (Kernel × Event) :=
  (s.atUser t).bind fun tx =>
  (s.readKv tx k).bind fun r => some (s, .read (getProcessTask tx) t k r)

/-- `dup_task_struct` in `copy_process`. -/
def dupTask (s : Kernel) (t p : TaskPtr) (cloneThread : Bool) : Option (Kernel × Event) :=
  (s.atUser t).bind fun tx =>
  if s.task p = none then
    some ((({ s.dupHeads t p with tasklist := p :: s.tasklist }.setTask p
      { tx with pc := .embryo false }).setTask t { tx with pc := .copying p cloneThread }), .silent)
  else none

/-- `alloc_pid` returns an id that no task that is not gone uses as its own or as its group's. -/
def pidFree (s : Kernel) (pid : Pid) : Prop :=
  ∀ x ∈ s.tasklist, ∀ tx ∈ s.task x, tx.pc ≠ .dead → tx.pid ≠ pid ∧ tx.tgid ≠ pid

instance (s : Kernel) (pid : Pid) : Decidable (s.pidFree pid) :=
  inferInstanceAs (Decidable (∀ x ∈ s.tasklist, ∀ tx ∈ s.task x, tx.pc ≠ .dead → tx.pid ≠ pid ∧ tx.tgid ≠ pid))

/-- The ids `copy_process` gives the child. -/
def childTask (current : Task) (p : TaskPtr) (pid : Pid) (cloneThread : Bool) : Task :=
  if cloneThread then
    { pid := pid, groupLeader := current.groupLeader, tgid := current.tgid, pc := .embryo true }
  else
    { pid := pid, groupLeader := p, tgid := pid, pc := .embryo true }

/-- `copy_process` sets the ids and calls `kv_store_init`. -/
def forkInit (s : Kernel) (t : TaskPtr) (pid : Pid) : Option (Kernel × Event) :=
  (s.task t).bind fun tx =>
  match tx.pc with
  | .copying p cloneThread =>
      (s.task p).bind fun px =>
      if px.pc = .embryo false ∧ s.pidFree pid then
        let child := childTask tx p pid cloneThread
        some (((s.setTask p child).kvStoreInit p child).setTask t { tx with pc := .copied p }, .silent)
      else none
  | _ => none

/-- The child is dropped: `free_task`. -/
def freeTask (s : Kernel) (p : TaskPtr) : Kernel :=
  { s with task := Function.update s.task p none, tasklist := s.tasklist.filter (· ≠ p) }

/-- `copy_process` leaves through one of its error exits. -/
def forkFail (s : Kernel) (t : TaskPtr) (e : ForkError) (callee : Int) : Option (Kernel × Event) :=
  (s.task t).bind fun tx =>
  match e.stage, tx.pc with
  | .beforeDup, .user => some (s, .ret t (e.retval callee))
  | .beforeInit, .copying p _ =>
      if (s.task p).map (·.pc) = some (.embryo false) then
        some ((s.freeTask p).setTask t { tx with pc := .user }, .ret t (e.retval callee))
      else none
  | .afterInit, .copied p =>
      if (s.task p).map (·.pc) = some (.embryo true) then
        some ((s.freeTask p).setTask t { tx with pc := .user }, .ret t (e.retval callee))
      else none
  | _, _ => none

/-- `copy_process` returns the child, which can run from now on. -/
def forkDone (s : Kernel) (t : TaskPtr) : Option (Kernel × Event) :=
  (s.task t).bind fun tx =>
  match tx.pc with
  | .copied p =>
      (s.task p).bind fun px =>
      if px.pc = .embryo true then
        some ((s.setTask p { px with pc := .user }).setTask t { tx with pc := .user }, .ret t px.pid)
      else none
  | _ => none

/-- `do_exit` calls `kv_store_exit`, which returns at once unless the task is a group leader. -/
def doExit (s : Kernel) (t : TaskPtr) : Option (Kernel × Event) :=
  (s.atUser t).bind fun tx =>
  some (s.setTask t { tx with pc := if tx.pid ≠ tx.tgid then .dead else .exiting 0 }, .silent)

/-- One iteration of the loop over the buckets in `kv_store_exit`. -/
def exitBucket (s : Kernel) (t : TaskPtr) : Option (Kernel × Event) :=
  (s.task t).bind fun tx =>
  match tx.pc with
  | .exiting i =>
      if h : i < 1024 then
        some ((s.drainBucket (t, ⟨i, h⟩)).setTask t
          { tx with pc := if i + 1 < 1024 then .exiting (i + 1) else .dead }, .torn t ⟨i, h⟩)
      else none
  | _ => none

/-- `execve` enters `de_thread`. -/
def execve (s : Kernel) (t : TaskPtr) : Option (Kernel × Event) :=
  (s.atUser t).bind fun tx => some (s.setTask t { tx with pc := .deThread }, .silent)

/-- All other threads of the group are past `kv_store_exit`. -/
def othersDead (s : Kernel) (t : TaskPtr) (tx : Task) : Prop :=
  ∀ x ∈ s.tasklist, x ≠ t → ∀ y ∈ s.task x, y.groupLeader = tx.groupLeader → y.pc = .dead

instance (s : Kernel) (t : TaskPtr) (tx : Task) : Decidable (s.othersDead t tx) :=
  inferInstanceAs (Decidable (∀ x ∈ s.tasklist, x ≠ t → ∀ y ∈ s.task x,
    y.groupLeader = tx.groupLeader → y.pc = .dead))

/-- `de_thread` completes. A thread that is not the leader exchanges ids with the leader and becomes its
own group leader, with its own `task_struct` and so its own chain heads. -/
def deThread (s : Kernel) (t : TaskPtr) : Option (Kernel × Event) :=
  (s.task t).bind fun tx =>
  if tx.pc = .deThread ∧ s.othersDead t tx then
    if tx.groupLeader = t then some (s.setTask t { tx with pc := .user }, .silent)
    else
      (s.task tx.groupLeader).bind fun leader =>
      some ((s.setTask tx.groupLeader { leader with pid := tx.pid, groupLeader := t }).setTask t
        { tx with pid := leader.pid, groupLeader := t, pc := .user }, .silent)
  else none

/-- `de_thread` is interrupted and returns `-EAGAIN`. -/
def execFail (s : Kernel) (t : TaskPtr) : Option (Kernel × Event) :=
  (s.task t).bind fun tx =>
  if tx.pc = .deThread then some (s.setTask t { tx with pc := .user }, .ret t (-11)) else none

def step (s : Kernel) : Label → Option (Kernel × Event)
  | .writeAlloc t k v newKv => s.writeAlloc t k v newKv
  | .writeLock t k v => s.writeLock t k v
  | .writeFree t => s.writeFree t
  | .readKv t k => s.readStep t k
  | .dupTask t p cloneThread => s.dupTask t p cloneThread
  | .forkInit t pid => s.forkInit t pid
  | .forkFail t e callee => s.forkFail t e callee
  | .forkDone t => s.forkDone t
  | .doExit t => s.doExit t
  | .exitBucket t => s.exitBucket t
  | .execve t => s.execve t
  | .deThread t => s.deThread t
  | .execFail t => s.execFail t

/-- A machine with one task, which leads its own group and has an empty store. -/
def init (leader : TaskPtr) (pid : Pid) : Kernel where
  task := fun x => if x = leader then some ⟨pid, pid, leader, .user⟩ else none
  tasklist := [leader]
  mem := ⟨fun _ => none, fun _ => none, fun _ => none⟩
  pair := fun _ => default
  allocs := []
  frees := fun _ => 0

/-! ### What a step can do

One inversion lemma for each operation, with its guards. -/

section Inversion

variable {s s' : Kernel} {t p : TaskPtr} {tx : Task} {k v : Int32} {e : Event}

theorem atUser_eq_some_iff : s.atUser t = some tx ↔ s.task t = some tx ∧ tx.pc = .user := by
  simp only [atUser, Option.bind_eq_some_iff, Option.ite_none_right_eq_some, Option.some.injEq]
  constructor
  · rintro ⟨tx', ht, hpc, rfl⟩
    exact ⟨ht, hpc⟩
  · rintro ⟨ht, hpc⟩
    exact ⟨tx, ht, hpc, rfl⟩

theorem getHashBucket_eq_some_iff {b : Bucket} :
    getHashBucket tx k = some b ↔ b.1 = tx.groupLeader ∧ bucketIdx k = some b.2 := by
  simp only [getHashBucket, getProcessTask, Option.map_eq_some_iff]
  constructor
  · rintro ⟨i, hi, rfl⟩
    exact ⟨rfl, hi⟩
  · rintro ⟨hb, hk⟩
    exact ⟨b.2, hk, by rw [← hb]⟩

theorem writeAlloc_cases {newKv : Option Addr} (h : s.writeAlloc t k v newKv = some (s', e)) :
    ∃ tx b, s.task t = some tx ∧ tx.pc = .user ∧ getHashBucket tx k = some b ∧
      ((newKv = none ∧ s' = s ∧ e = .ret t (-enomem)) ∨
        ∃ a, newKv = some a ∧ a ∉ s.allocs ∧ e = .kmalloc tx.tgid a ∧
          s' = (s.kmalloc a).setTask t { tx with pc := .writeLocking b k v a }) := by
  simp only [writeAlloc, Option.bind_eq_some_iff, atUser_eq_some_iff] at h
  obtain ⟨tx, ⟨ht, hpc⟩, b, hb, h⟩ := h
  refine ⟨tx, b, ht, hpc, hb, ?_⟩
  cases newKv with
  | none =>
      cases h
      exact .inl ⟨rfl, rfl, rfl⟩
  | some a =>
      simp only [Option.ite_none_right_eq_some] at h
      obtain ⟨ha, h⟩ := h
      cases h
      exact .inr ⟨a, rfl, ha, rfl, rfl⟩

theorem writeLock_cases (h : s.writeLock t k v = some (s', e)) :
    ∃ tx b a, s.task t = some tx ∧ tx.pc = .writeLocking b k v a ∧ e = .wrote b.1 k v ∧
      ((∃ found, s.findKey b k = some found ∧
          s' = (s.setValue found v).setTask t { tx with pc := .writeFreeing a }) ∨
        (s.findKey b k = none ∧ s' = (s.linkPair b a k v).setTask t { tx with pc := .user })) := by
  simp only [writeLock, Option.bind_eq_some_iff] at h
  obtain ⟨tx, ht, h⟩ := h
  split at h
  · rename_i b k' v' a hpc
    simp only [Option.ite_none_right_eq_some] at h
    obtain ⟨⟨rfl, rfl⟩, h⟩ := h
    cases hfind : s.findKey b k with
    | some found =>
        simp only [writeLocked, hfind] at h
        cases h
        exact ⟨tx, b, a, ht, hpc, rfl, .inl ⟨found, hfind, rfl⟩⟩
    | none =>
        simp only [writeLocked, hfind] at h
        cases h
        exact ⟨tx, b, a, ht, hpc, rfl, .inr ⟨hfind, rfl⟩⟩
  · cases h

theorem writeFree_cases (h : s.writeFree t = some (s', e)) :
    ∃ tx a, s.task t = some tx ∧ tx.pc = .writeFreeing a ∧ e = .ret t 0 ∧
      s' = (s.kfree a).setTask t { tx with pc := .user } := by
  simp only [writeFree, Option.bind_eq_some_iff] at h
  obtain ⟨tx, ht, h⟩ := h
  split at h
  · rename_i a hpc
    cases h
    exact ⟨tx, a, ht, hpc, rfl, rfl⟩
  · cases h

theorem readStep_cases (h : s.readStep t k = some (s', e)) :
    ∃ tx b, s.task t = some tx ∧ tx.pc = .user ∧ getHashBucket tx k = some b ∧ s' = s ∧
      e = .read b.1 t k (s.readLocked b k) := by
  simp only [readStep, Kernel.readKv, Option.bind_eq_some_iff, atUser_eq_some_iff,
    Option.map_eq_some_iff] at h
  obtain ⟨tx, ⟨ht, hpc⟩, r, ⟨b, hb, rfl⟩, h⟩ := h
  cases h
  exact ⟨tx, b, ht, hpc, hb, rfl, by rw [(getHashBucket_eq_some_iff.mp hb).1, getProcessTask]⟩

theorem dupTask_cases {cloneThread : Bool} (h : s.dupTask t p cloneThread = some (s', e)) :
    ∃ tx, s.task t = some tx ∧ tx.pc = .user ∧ s.task p = none ∧ e = .silent ∧
      s' = ({ s.dupHeads t p with tasklist := p :: s.tasklist }.setTask p
        { tx with pc := .embryo false }).setTask t { tx with pc := .copying p cloneThread } := by
  simp only [dupTask, Option.bind_eq_some_iff, atUser_eq_some_iff, Option.ite_none_right_eq_some] at h
  obtain ⟨tx, ⟨ht, hpc⟩, hp, h⟩ := h
  cases h
  exact ⟨tx, ht, hpc, hp, rfl, rfl⟩

theorem forkInit_cases {pid : Pid} (h : s.forkInit t pid = some (s', e)) :
    ∃ tx p cloneThread px, s.task t = some tx ∧ tx.pc = .copying p cloneThread ∧ s.task p = some px ∧
      px.pc = .embryo false ∧ s.pidFree pid ∧ e = .silent ∧
      s' = ((s.setTask p (childTask tx p pid cloneThread)).kvStoreInit p
        (childTask tx p pid cloneThread)).setTask t { tx with pc := .copied p } := by
  simp only [forkInit, Option.bind_eq_some_iff] at h
  obtain ⟨tx, ht, h⟩ := h
  split at h
  · rename_i p cloneThread hpc
    simp only [Option.bind_eq_some_iff, Option.ite_none_right_eq_some] at h
    obtain ⟨px, hp, ⟨hppc, hpid⟩, h⟩ := h
    cases h
    exact ⟨tx, p, cloneThread, px, ht, hpc, hp, hppc, hpid, rfl, rfl⟩
  · cases h

theorem forkFail_cases {err : ForkError} {callee : Int} (h : s.forkFail t err callee = some (s', e)) :
    ∃ tx, s.task t = some tx ∧ e = .ret t (err.retval callee) ∧
      ((err.stage = .beforeDup ∧ tx.pc = .user ∧ s' = s) ∨
        ∃ p px, s.task p = some px ∧ s' = (s.freeTask p).setTask t { tx with pc := .user } ∧
          ((err.stage = .beforeInit ∧ (∃ c, tx.pc = .copying p c) ∧ px.pc = .embryo false) ∨
            (err.stage = .afterInit ∧ tx.pc = .copied p ∧ px.pc = .embryo true))) := by
  simp only [forkFail, Option.bind_eq_some_iff] at h
  obtain ⟨tx, ht, h⟩ := h
  refine ⟨tx, ht, ?_⟩
  split at h
  · rename_i hst hpc
    cases h
    exact ⟨rfl, .inl ⟨hst, hpc, rfl⟩⟩
  · rename_i p c hst hpc
    simp only [Option.ite_none_right_eq_some, Option.map_eq_some_iff] at h
    obtain ⟨⟨px, hp, hppc⟩, h⟩ := h
    cases h
    exact ⟨rfl, .inr ⟨p, px, hp, rfl, .inl ⟨hst, ⟨c, hpc⟩, hppc⟩⟩⟩
  · rename_i p hst hpc
    simp only [Option.ite_none_right_eq_some, Option.map_eq_some_iff] at h
    obtain ⟨⟨px, hp, hppc⟩, h⟩ := h
    cases h
    exact ⟨rfl, .inr ⟨p, px, hp, rfl, .inr ⟨hst, hpc, hppc⟩⟩⟩
  · cases h

theorem forkDone_cases (h : s.forkDone t = some (s', e)) :
    ∃ tx p px, s.task t = some tx ∧ tx.pc = .copied p ∧ s.task p = some px ∧ px.pc = .embryo true ∧
      e = .ret t px.pid ∧
      s' = (s.setTask p { px with pc := .user }).setTask t { tx with pc := .user } := by
  simp only [forkDone, Option.bind_eq_some_iff] at h
  obtain ⟨tx, ht, h⟩ := h
  split at h
  · rename_i p hpc
    simp only [Option.bind_eq_some_iff, Option.ite_none_right_eq_some] at h
    obtain ⟨px, hp, hppc, h⟩ := h
    cases h
    exact ⟨tx, p, px, ht, hpc, hp, hppc, rfl, rfl⟩
  · cases h

theorem doExit_cases (h : s.doExit t = some (s', e)) :
    ∃ tx, s.task t = some tx ∧ tx.pc = .user ∧ e = .silent ∧
      s' = s.setTask t { tx with pc := if tx.pid ≠ tx.tgid then .dead else .exiting 0 } := by
  simp only [doExit, Option.bind_eq_some_iff, atUser_eq_some_iff] at h
  obtain ⟨tx, ⟨ht, hpc⟩, h⟩ := h
  cases h
  exact ⟨tx, ht, hpc, rfl, rfl⟩

theorem exitBucket_cases (h : s.exitBucket t = some (s', e)) :
    ∃ tx, ∃ i : BucketIdx, s.task t = some tx ∧ tx.pc = .exiting i ∧ e = .torn t i ∧
      s' = (s.drainBucket (t, i)).setTask t
        { tx with pc := if i.val + 1 < 1024 then .exiting (i.val + 1) else .dead } := by
  simp only [exitBucket, Option.bind_eq_some_iff] at h
  obtain ⟨tx, ht, h⟩ := h
  split at h
  · rename_i i hpc
    simp only [Option.dite_none_right_eq_some] at h
    obtain ⟨hi, h⟩ := h
    cases h
    exact ⟨tx, ⟨i, hi⟩, ht, hpc, rfl, rfl⟩
  · cases h

theorem execve_cases (h : s.execve t = some (s', e)) :
    ∃ tx, s.task t = some tx ∧ tx.pc = .user ∧ e = .silent ∧
      s' = s.setTask t { tx with pc := .deThread } := by
  simp only [execve, Option.bind_eq_some_iff, atUser_eq_some_iff] at h
  obtain ⟨tx, ⟨ht, hpc⟩, h⟩ := h
  cases h
  exact ⟨tx, ht, hpc, rfl, rfl⟩

theorem deThread_cases (h : s.deThread t = some (s', e)) :
    ∃ tx, s.task t = some tx ∧ tx.pc = .deThread ∧ s.othersDead t tx ∧ e = .silent ∧
      ((tx.groupLeader = t ∧ s' = s.setTask t { tx with pc := .user }) ∨
        (tx.groupLeader ≠ t ∧ ∃ leader, s.task tx.groupLeader = some leader ∧
          s' = (s.setTask tx.groupLeader { leader with pid := tx.pid, groupLeader := t }).setTask t
            { tx with pid := leader.pid, groupLeader := t, pc := .user })) := by
  simp only [deThread, Option.bind_eq_some_iff, Option.ite_none_right_eq_some] at h
  obtain ⟨tx, ht, ⟨hpc, hdead⟩, h⟩ := h
  split at h
  · rename_i hlead
    cases h
    exact ⟨tx, ht, hpc, hdead, rfl, .inl ⟨hlead, rfl⟩⟩
  · rename_i hlead
    simp only [Option.bind_eq_some_iff] at h
    obtain ⟨leader, hl, h⟩ := h
    cases h
    exact ⟨tx, ht, hpc, hdead, rfl, .inr ⟨hlead, leader, hl, rfl⟩⟩

theorem execFail_cases (h : s.execFail t = some (s', e)) :
    ∃ tx, s.task t = some tx ∧ tx.pc = .deThread ∧ e = .ret t (-11) ∧
      s' = s.setTask t { tx with pc := .user } := by
  simp only [execFail, Option.bind_eq_some_iff, Option.ite_none_right_eq_some] at h
  obtain ⟨tx, ht, hpc, h⟩ := h
  cases h
  exact ⟨tx, ht, hpc, rfl, rfl⟩

end Inversion

/-! ### When a step is enabled

The converse: with its guards met, the operation takes the step. -/

section Enabled

variable {s : Kernel} {t p : TaskPtr} {tx px : Task} {b : Bucket} {k v : Int32} {a : Addr}

theorem writeAlloc_none (ht : s.task t = some tx) (hpc : tx.pc = .user) (hb : getHashBucket tx k = some b) :
    s.step (.writeAlloc t k v none) = some (s, .ret t (-enomem)) := by
  show s.writeAlloc t k v none = _
  rw [writeAlloc, atUser_eq_some_iff.mpr ⟨ht, hpc⟩, Option.bind_some, hb, Option.bind_some]

theorem writeAlloc_some (ht : s.task t = some tx) (hpc : tx.pc = .user) (hb : getHashBucket tx k = some b)
    (ha : a ∉ s.allocs) : s.step (.writeAlloc t k v (some a)) =
      some ((s.kmalloc a).setTask t { tx with pc := .writeLocking b k v a }, .kmalloc tx.tgid a) := by
  show s.writeAlloc t k v (some a) = _
  rw [writeAlloc, atUser_eq_some_iff.mpr ⟨ht, hpc⟩, Option.bind_some, hb, Option.bind_some]
  simp only [if_pos ha]

theorem writeLock_found {found : Addr} (ht : s.task t = some tx) (hpc : tx.pc = .writeLocking b k v a)
    (hfind : s.findKey b k = some found) : s.step (.writeLock t k v) =
      some ((s.setValue found v).setTask t { tx with pc := .writeFreeing a }, .wrote b.1 k v) := by
  show s.writeLock t k v = _
  simp only [writeLock, ht, Option.bind_some, hpc, and_self, if_true, writeLocked, hfind]

theorem writeLock_linked (ht : s.task t = some tx) (hpc : tx.pc = .writeLocking b k v a)
    (hfind : s.findKey b k = none) : s.step (.writeLock t k v) =
      some ((s.linkPair b a k v).setTask t { tx with pc := .user }, .wrote b.1 k v) := by
  show s.writeLock t k v = _
  simp only [writeLock, ht, Option.bind_some, hpc, and_self, if_true, writeLocked, hfind, Bool.false_eq_true,
    if_false]

theorem writeFree_eq (ht : s.task t = some tx) (hpc : tx.pc = .writeFreeing a) :
    s.step (.writeFree t) = some ((s.kfree a).setTask t { tx with pc := .user }, .ret t 0) := by
  show s.writeFree t = _
  simp only [writeFree, ht, Option.bind_some, hpc]

theorem readStep_eq (ht : s.task t = some tx) (hpc : tx.pc = .user) (hb : getHashBucket tx k = some b) :
    s.step (.readKv t k) = some (s, .read b.1 t k (s.readLocked b k)) := by
  show s.readStep t k = _
  rw [readStep, atUser_eq_some_iff.mpr ⟨ht, hpc⟩, Option.bind_some, Kernel.readKv, hb, Option.map_some,
    Option.bind_some, (getHashBucket_eq_some_iff.mp hb).1]
  rfl

theorem dupTask_eq {c : Bool} (ht : s.task t = some tx) (hpc : tx.pc = .user) (hp : s.task p = none) :
    s.step (.dupTask t p c) = some ((({ s.dupHeads t p with tasklist := p :: s.tasklist }.setTask p
      { tx with pc := .embryo false }).setTask t { tx with pc := .copying p c }), .silent) := by
  show s.dupTask t p c = _
  rw [dupTask, atUser_eq_some_iff.mpr ⟨ht, hpc⟩, Option.bind_some, if_pos hp]

theorem forkInit_eq {c : Bool} {pid : Pid} (ht : s.task t = some tx) (hpc : tx.pc = .copying p c)
    (hp : s.task p = some px) (hppc : px.pc = .embryo false) (hpid : s.pidFree pid) :
    s.step (.forkInit t pid) = some (((s.setTask p (childTask tx p pid c)).kvStoreInit p
      (childTask tx p pid c)).setTask t { tx with pc := .copied p }, .silent) := by
  show s.forkInit t pid = _
  simp only [forkInit, ht, Option.bind_some, hpc, hp, hppc, hpid, and_self, if_true]

theorem forkFail_beforeDup {err : ForkError} {callee : Int} (ht : s.task t = some tx) (hpc : tx.pc = .user)
    (herr : err.stage = .beforeDup) :
    s.step (.forkFail t err callee) = some (s, .ret t (err.retval callee)) := by
  show s.forkFail t err callee = _
  simp only [forkFail, ht, Option.bind_some, hpc, herr]

theorem forkFail_beforeInit {err : ForkError} {callee : Int} {c : Bool} (ht : s.task t = some tx)
    (hpc : tx.pc = .copying p c) (hp : s.task p = some px) (hppc : px.pc = .embryo false)
    (herr : err.stage = .beforeInit) : s.step (.forkFail t err callee) =
      some ((s.freeTask p).setTask t { tx with pc := .user }, .ret t (err.retval callee)) := by
  show s.forkFail t err callee = _
  simp only [forkFail, ht, Option.bind_some, hpc, herr, hp, Option.map_some, hppc, if_true]

theorem forkFail_afterInit {err : ForkError} {callee : Int} (ht : s.task t = some tx) (hpc : tx.pc = .copied p)
    (hp : s.task p = some px) (hppc : px.pc = .embryo true) (herr : err.stage = .afterInit) :
    s.step (.forkFail t err callee) =
      some ((s.freeTask p).setTask t { tx with pc := .user }, .ret t (err.retval callee)) := by
  show s.forkFail t err callee = _
  simp only [forkFail, ht, Option.bind_some, hpc, herr, hp, Option.map_some, hppc, if_true]

theorem forkDone_eq (ht : s.task t = some tx) (hpc : tx.pc = .copied p) (hp : s.task p = some px)
    (hppc : px.pc = .embryo true) : s.step (.forkDone t) =
      some ((s.setTask p { px with pc := .user }).setTask t { tx with pc := .user }, .ret t px.pid) := by
  show s.forkDone t = _
  simp only [forkDone, ht, Option.bind_some, hpc, hp, hppc, if_true]

theorem doExit_eq (ht : s.task t = some tx) (hpc : tx.pc = .user) : s.step (.doExit t) =
    some (s.setTask t { tx with pc := if tx.pid ≠ tx.tgid then .dead else .exiting 0 }, .silent) := by
  show s.doExit t = _
  rw [doExit, atUser_eq_some_iff.mpr ⟨ht, hpc⟩, Option.bind_some]

theorem exitBucket_eq {i : BucketIdx} (ht : s.task t = some tx) (hpc : tx.pc = .exiting i) :
    s.step (.exitBucket t) = some ((s.drainBucket (t, i)).setTask t
      { tx with pc := if i.val + 1 < 1024 then .exiting (i.val + 1) else .dead }, .torn t i) := by
  show s.exitBucket t = _
  simp only [exitBucket, ht, Option.bind_some, hpc, i.isLt, dite_true]

end Enabled

end Kernel

end OsHw.Kv
