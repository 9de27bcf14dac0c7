import OsHw.KvSystem

/-! Where the store lies in the `task_struct` of the leader. `kv_data` is the array of the 1024 chain heads
directly followed by the array of the 1024 locks, and both are indexed by the C remainder of the key. The
module says which bytes a system call touches and for which keys these are the head and the lock of a
bucket, which is when the bucket of `KvStore` exists at all. -/

namespace OsHw.Kv

/-- The offset of `kv_data` in `task_struct` and `sizeof(spinlock_t)`. -/
structure Layout where
  kvData : Nat
  spinlockSize : Nat
  spinlockSize_pos : 0 < spinlockSize

/-- `sizeof(struct hlist_head)`, one pointer. -/
def hlistHeadSize : Nat := 8

/-- A range of bytes in a `task_struct`. -/
structure Access where
  task : TaskPtr
  start : Int
  size : Nat
  deriving DecidableEq, Repr

/-- The two system calls, with the arguments user space passes. -/
inductive Syscall where
  | writeKv (k v : Int32)
  | readKv (k : Int32)
  deriving DecidableEq, Repr

/-- The key both `write_kv` and `read_kv` hand to `get_hash_bucket` and `get_bucket_lock`. -/
def Syscall.key : Syscall → Int32
  | .writeKv k _ => k
  | .readKv k => k

/-- A system call made by a thread. -/
structure Call where
  current : Task
  syscall : Syscall

def Call.key (c : Call) : Int32 := c.syscall.key

namespace Layout

variable (lay : Layout)

/-- `&task->kv_data.kv_store[i]`, for any `int` index. -/
def kvStore (task : TaskPtr) (i : Int) : Access where
  task := task
  start := lay.kvData + i * hlistHeadSize
  size := hlistHeadSize

/-- `&task->kv_data.kv_locks[i]`, for any `int` index. -/
def kvLocks (task : TaskPtr) (i : Int) : Access where
  task := task
  start := lay.kvData + 1024 * hlistHeadSize + i * lay.spinlockSize
  size := lay.spinlockSize

/-- The whole array `kv_store`. -/
def kvStoreArray (task : TaskPtr) : Access where
  task := task
  start := lay.kvData
  size := 1024 * hlistHeadSize

/-- The whole array `kv_locks`. -/
def kvLocksArray (task : TaskPtr) : Access where
  task := task
  start := lay.kvData + 1024 * hlistHeadSize
  size := 1024 * lay.spinlockSize

/-- `get_hash_bucket`, as an address. -/
def getHashBucket (current : Task) (key : Int32) : Access :=
  lay.kvStore (Kernel.getProcessTask current) (kvHash key).toInt

/-- `get_bucket_lock`, as an address. -/
def getBucketLock (current : Task) (key : Int32) : Access :=
  lay.kvLocks (Kernel.getProcessTask current) (kvHash key).toInt

end Layout

namespace Access

def Within (a region : Access) : Prop :=
  a.task = region.task ∧ region.start ≤ a.start ∧ a.start + a.size ≤ region.start + region.size

def Disjoint (a b : Access) : Prop := a.task ≠ b.task ∨ a.start + a.size ≤ b.start ∨ b.start + b.size ≤ a.start

instance (a region : Access) : Decidable (a.Within region) := inferInstanceAs (Decidable (_ ∧ _))

instance (a b : Access) : Decidable (a.Disjoint b) := inferInstanceAs (Decidable (_ ∨ _))

end Access

/-- The call stays inside the store of the leader: head and lock are elements of their arrays, of the same
bucket, and the lock is no part of a chain head. -/
structure Call.InBounds (lay : Layout) (leader : TaskPtr) (c : Call) : Prop where
  head : (lay.getHashBucket c.current c.key).Within (lay.kvStoreArray leader)
  lock : (lay.getBucketLock c.current c.key).Within (lay.kvLocksArray leader)
  bucket : ∃ i : BucketIdx, lay.getHashBucket c.current c.key = lay.kvStore leader i ∧
    lay.getBucketLock c.current c.key = lay.kvLocks leader i
  apart : ∀ i : BucketIdx, (lay.getBucketLock c.current c.key).Disjoint (lay.kvStore leader i)

section Hash

variable {k : Int32}

theorem kvHash_toInt (k : Int32) : (kvHash k).toInt = k.toInt.tmod 1024 := Int32.toInt_mod k 1024

/-- The C remainder is an index of the arrays unless the key is negative and no multiple of 1024. -/
theorem kvHash_nonneg_iff : 0 ≤ (kvHash k).toInt ↔ 0 ≤ k.toInt ∨ 1024 ∣ k.toInt := by
  rw [kvHash_toInt, Int.tmod_eq_emod]
  have hpos : 0 ≤ k.toInt % 1024 := Int.emod_nonneg _ (by decide)
  have hlt : k.toInt % 1024 < 1024 := Int.emod_lt_of_pos _ (by decide)
  split_ifs with h
  · simp [h, hpos]
  · simp only [h, iff_false]
    omega

theorem kvHash_lt (k : Int32) : (kvHash k).toInt < 1024 := by
  rw [kvHash_toInt]
  exact Int.tmod_lt_of_pos _ (by decide)

end Hash

/-- The bucket of `KvStore` exists exactly when the address computed is that of a chain head, and is that
bucket's. -/
theorem Layout.getHashBucket_eq_iff {lay : Layout} {tx : Task} {k : Int32} {b : Bucket} :
    lay.getHashBucket tx k = lay.kvStore b.1 b.2 ↔ Kernel.getHashBucket tx k = some b := by
  rw [Kernel.getHashBucket_eq_some_iff, bucketIdx_eq_some_iff, Layout.getHashBucket, Layout.kvStore,
    Layout.kvStore, Access.mk.injEq, Kernel.getProcessTask, hlistHeadSize]
  constructor
  · rintro ⟨htask, hstart, -⟩
    exact ⟨htask.symm, by omega⟩
  · rintro ⟨htask, hhash⟩
    exact ⟨htask.symm, by omega, rfl⟩

namespace Call

variable {lay : Layout} {leader : TaskPtr} {c : Call}

/-- A lock of the array lies after all chain heads. -/
theorem kvLocks_disjoint_kvStore {i : Int} (hi : 0 ≤ i) (j : BucketIdx) :
    (lay.kvLocks leader i).Disjoint (lay.kvStore leader j) := by
  refine .inr (.inr ?_)
  have hj := j.isLt
  have hpos : 0 ≤ i * (lay.spinlockSize : Int) := Int.mul_nonneg hi (by omega)
  simp only [Layout.kvStore, Layout.kvLocks, hlistHeadSize]
  omega

theorem inBounds_of_hash_nonneg (hc : c.current.groupLeader = leader) (h : 0 ≤ (kvHash c.key).toInt) :
    c.InBounds lay leader := by
  subst hc
  have hlt := kvHash_lt c.key
  refine ⟨⟨rfl, ?_, ?_⟩, ⟨rfl, ?_, ?_⟩, ⟨⟨(kvHash c.key).toInt.toNat, by omega⟩, ?_, ?_⟩, fun i => ?_⟩
  · simp only [Layout.getHashBucket, Layout.kvStore, Layout.kvStoreArray, hlistHeadSize]
    omega
  · simp only [Layout.getHashBucket, Layout.kvStore, Layout.kvStoreArray, hlistHeadSize]
    omega
  · have hmul : 0 ≤ (kvHash c.key).toInt * (lay.spinlockSize : Int) := Int.mul_nonneg h (by omega)
    simp only [Layout.getBucketLock, Layout.kvLocks, Layout.kvLocksArray]
    omega
  · have hmul : ((kvHash c.key).toInt + 1) * (lay.spinlockSize : Int) ≤ 1024 * (lay.spinlockSize : Int) :=
      Int.mul_le_mul_of_nonneg_right (by omega) (by omega)
    rw [Int.add_mul, Int.one_mul] at hmul
    simp only [Layout.getBucketLock, Layout.kvLocks, Layout.kvLocksArray]
    omega
  · simp only [Layout.getHashBucket, Kernel.getProcessTask, Int.toNat_of_nonneg h]
  · simp only [Layout.getBucketLock, Kernel.getProcessTask, Int.toNat_of_nonneg h]
  · exact kvLocks_disjoint_kvStore h i

/-- A negative remainder is an address in front of the array. -/
theorem hash_nonneg_of_inBounds (h : c.InBounds lay leader) : 0 ≤ (kvHash c.key).toInt := by
  have hstart := h.head.2.1
  simp only [Layout.getHashBucket, Layout.kvStore, Layout.kvStoreArray, hlistHeadSize] at hstart
  omega

/-- **Bounds.** Whatever threads of a group call and in whatever order, the calls touch nothing of the
`task_struct` but heads and locks of buckets exactly when no key is negative, multiples of 1024 apart. -/
theorem inBounds_iff_keys (lay : Layout) (leader : TaskPtr) (calls : List Call)
    (hcalls : ∀ c ∈ calls, c.current.groupLeader = leader) :
    (∀ c ∈ calls, c.InBounds lay leader) ↔ ∀ c ∈ calls, 0 ≤ c.key.toInt ∨ 1024 ∣ c.key.toInt := by
  refine forall₂_congr fun c hc => ?_
  rw [← kvHash_nonneg_iff]
  exact ⟨hash_nonneg_of_inBounds, inBounds_of_hash_nonneg (hcalls c hc)⟩

/-- A build with 4-byte spinlocks. -/
def smallLocks : Layout := ⟨4096, 4, by decide⟩

/-- A leader reads key 5. -/
def leaderRead : Call := ⟨⟨1, 1, 1, .user⟩, .readKv 5⟩

/-- Another thread of its group writes key -1024. -/
def threadWrite : Call := ⟨⟨2, 1, 1, .user⟩, .writeKv (-1024) 7⟩

theorem inBounds_leaderRead_threadWrite : leaderRead.InBounds smallLocks 1 ∧ threadWrite.InBounds smallLocks 1 := by
  have h := (inBounds_iff_keys smallLocks 1 [leaderRead, threadWrite] (by decide)).mpr (by decide)
  exact ⟨h leaderRead (by simp), h threadWrite (by simp)⟩

/-- `read_kv(-1)` uses the bytes in front of `kv_store` as a chain head and the last chain head as a lock. -/
theorem read_minus_one_out_of_bounds :
    ¬(∀ (lay : Layout) (leader : TaskPtr) (c : Call), c.current.groupLeader = leader → c.InBounds lay leader) ∧
      ¬(smallLocks.getHashBucket ⟨1, 1, 1, .user⟩ (-1)).Within (smallLocks.kvStoreArray 1) ∧
      ¬(smallLocks.getBucketLock ⟨1, 1, 1, .user⟩ (-1)).Disjoint (smallLocks.kvStore 1 1023) := by
  refine ⟨fun h => ?_, by decide, by decide⟩
  have hin := h smallLocks 1 ⟨⟨1, 1, 1, .user⟩, .readKv (-1)⟩ rfl
  exact absurd hin.head (by decide)

end Call

end OsHw.Kv
