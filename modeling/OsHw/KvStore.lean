import OsHw.Hlist
import Mathlib.Data.Int.Basic
import Mathlib.Tactic.SplitIfs

/-! The per-process key/value store of `kernel/kv_store.c`. A `kv_pair` lives in kmalloc'ed memory and
is linked into one of the 1024 `hlist` buckets embedded in the `task_struct` of the thread group
leader. Addresses stand for allocations: a fresh one is never an earlier one again, and how often each
has been handed to `kfree` is counted, so that a second `kfree` or a pointer to freed memory can be
expressed. The functions here are the sequential ones; `KvSystem` interleaves them. -/

namespace OsHw.Kv

/-- A `struct task_struct *`. -/
abbrev TaskPtr := Nat

/-- A `struct kv_pair *`. -/
abbrev Addr := Nat

/-- A `pid_t`. -/
abbrev Pid := Nat

/-- The index range of `kv_data.kv_store` and `kv_data.kv_locks`. -/
abbrev BucketIdx := Fin 1024

/-- The address `&task->kv_data.kv_store[i]` of a bucket that exists. -/
abbrev Bucket := TaskPtr × BucketIdx

def enoent : Int := 2

def enomem : Int := 12

/-- `kv_hash`: the C remainder, whose sign follows the key. -/
def kvHash (key : Int32) : Int32 := key % 1024

/-- The bucket index of a key, when the hash is an index of the arrays at all. -/
def bucketIdx (key : Int32) : Option BucketIdx :=
  if h : 0 ≤ (kvHash key).toInt ∧ (kvHash key).toInt < 1024 then
    some ⟨(kvHash key).toInt.toNat, by omega⟩
  else none

theorem bucketIdx_eq_some_iff {k : Int32} {i : BucketIdx} :
    bucketIdx k = some i ↔ (kvHash k).toInt = (i.val : Int) := by
  unfold bucketIdx
  have hi := i.isLt
  split_ifs with h
  · rw [Option.some.injEq, Fin.ext_iff]
    simp only
    omega
  · simp only [false_iff]
    omega

/-- The payload of a `struct kv_pair`; its `node` is in the list memory. -/
structure KvPair where
  key : Int32
  value : Int32
  deriving DecidableEq, Repr, Inhabited

/-- Where a task is between two of its steps. The pointers that `write_kv` computed before its
allocation are part of it, as they are locals of that call. -/
inductive Pc where
  /-- In user mode, or between two system calls. -/
  | user
  /-- In `write_kv`, `new_kv` allocated, about to take the bucket lock. -/
  | writeLocking (bucket : Bucket) (k v : Int32) (newKv : Addr)
  /-- In `write_kv`, the key was found, the unused `new_kv` still to be freed. -/
  | writeFreeing (newKv : Addr)
  /-- In `copy_process` after `dup_task_struct`, before the child's ids are set. -/
  | copying (p : TaskPtr) (cloneThread : Bool)
  /-- In `copy_process` after `kv_store_init`. -/
  | copied (p : TaskPtr)
  /-- A child under construction that cannot run yet. -/
  | embryo (initialised : Bool)
  /-- In `de_thread`, waiting for the other threads of the group. -/
  | deThread
  /-- In `do_exit`, at bucket `i` of the loop of `kv_store_exit`. -/
  | exiting (i : Nat)
  /-- Past `kv_store_exit` in `do_exit`. -/
  | dead
  deriving DecidableEq, Repr

/-- The fields of `struct task_struct` the store depends on, and the place of the task. The chain heads
`kv_data.kv_store` are in the list memory, under the task's address. -/
structure Task where
  pid : Pid
  tgid : Pid
  groupLeader : TaskPtr
  pc : Pc
  deriving DecidableEq, Repr

structure Kernel where
  task : TaskPtr → Option Task
  /-- Every `task_struct` that exists. -/
  tasklist : List TaskPtr
  mem : Hlist.Mem Bucket Addr
  pair : Addr → KvPair
  /-- Every address `kmalloc` has returned. -/
  allocs : List Addr
  /-- How often each address has been passed to `kfree`. -/
  frees : Addr → Nat

namespace Kernel

def setTask (s : Kernel) (x : TaskPtr) (tx : Task) : Kernel :=
  { s with task := Function.update s.task x (some tx) }

/-- `kmalloc` of a `kv_pair` returns an address. -/
def kmalloc (s : Kernel) (a : Addr) : Kernel := { s with allocs := a :: s.allocs }

/-- `kfree` of a `kv_pair`. -/
def kfree (s : Kernel) (a : Addr) : Kernel :=
  { s with frees := Function.update s.frees a (s.frees a + 1) }

/-- The memory of an address is in use: allocated and not freed. -/
def Allocated (s : Kernel) (a : Addr) : Prop := a ∈ s.allocs ∧ s.frees a = 0

instance (s : Kernel) (a : Addr) : Decidable (s.Allocated a) := inferInstanceAs (Decidable (_ ∧ _))

/-- The nodes `hlist_for_each_entry` visits in a bucket. No chain is longer than the number of
allocations, which bounds the walk. -/
def entries (s : Kernel) (b : Bucket) : List Addr := s.mem.walk s.allocs.length (s.mem.first b)

/-- The search loop of `write_kv` and `read_kv`: the first node with the key. -/
def findKey (s : Kernel) (b : Bucket) (k : Int32) : Option Addr :=
  (s.entries b).find? fun a => (s.pair a).key == k

/-- `get_process_task`: the group leader of the current task. -/
def getProcessTask (current : Task) : TaskPtr := current.groupLeader

/-- `get_hash_bucket`: the bucket of a key in the store of the current task's group; there is none when
the index is not one of the array. -/
def getHashBucket (current : Task) (k : Int32) : Option Bucket :=
  (bucketIdx k).map fun i => (getProcessTask current, i)

/-- `found->value = v`. -/
def setValue (s : Kernel) (found : Addr) (v : Int32) : Kernel :=
  { s with pair := Function.update s.pair found { s.pair found with value := v } }

/-- The new pair gets its contents and becomes the first node of the bucket. -/
def linkPair (s : Kernel) (b : Bucket) (newKv : Addr) (k v : Int32) : Kernel :=
  { s with
    pair := Function.update s.pair newKv ⟨k, v⟩
    mem := s.mem.addHead newKv b }

/-- The locked section of `write_kv`: update in place, or link the new pair at the head. The flag says
whether the key was found, so that `new_kv` is unused. -/
def writeLocked (s : Kernel) (b : Bucket) (k v : Int32) (newKv : Addr) : Kernel × Bool :=
  match s.findKey b k with
  | some found => (s.setValue found v, true)
  | none => (s.linkPair b newKv k v, false)

/-- The locked section of `read_kv`. -/
def readLocked (s : Kernel) (b : Bucket) (k : Int32) : Int :=
  match s.findKey b k with
  | some kv => (s.pair kv).value.toInt
  | none => -enoent

/-- `read_kv` called by a task. -/
def readKv (s : Kernel) (current : Task) (k : Int32) : Option Int :=
  (getHashBucket current k).map fun b => s.readLocked b k

/-- Other chain heads, the links of the nodes unchanged. -/
def setFirst (s : Kernel) (first : Bucket → Option Addr) : Kernel :=
  { s with mem := { s.mem with first := first } }

/-- `kv_store_init`: only for a group leader, every chain head becomes empty. -/
def kvStoreInit (s : Kernel) (x : TaskPtr) (tx : Task) : Kernel :=
  if tx.pid ≠ tx.tgid then s
  else s.setFirst fun b => if b.1 = x then none else s.mem.first b

/-- The `hlist_for_each_entry_safe` loop of `kv_store_exit` on one bucket: the successor is read before
the node is unlinked and freed. -/
def drain : Nat → Option Addr → Kernel → Kernel
  | 0, _, s => s
  | _ + 1, none, s => s
  | fuel + 1, some kv, s =>
      let tmp := s.mem.next kv
      drain fuel tmp ({ s with mem := s.mem.del kv }.kfree kv)

/-- One iteration of the outer loop of `kv_store_exit`, under the lock of the bucket. -/
def drainBucket (s : Kernel) (b : Bucket) : Kernel := drain s.allocs.length (s.mem.first b) s

/-- `arch_dup_task_struct`: the child's `task_struct` is a byte copy of the creator's, chain heads
included. -/
def dupHeads (s : Kernel) (orig child : TaskPtr) : Kernel :=
  s.setFirst fun b => if b.1 = child then s.mem.first (orig, b.2) else s.mem.first b

end Kernel

end OsHw.Kv
