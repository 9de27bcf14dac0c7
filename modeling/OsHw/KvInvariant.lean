import OsHw.KvSystem
import Mathlib.Data.List.Perm.Subperm

/-! The representation invariant of the store. The chain heads of a group leader are well linked, hold
allocated pairs only, in the bucket of their key and with no key twice; a pair that a `write_kv` in
progress holds is allocated and linked nowhere. The heads of a task that is not a leader are left-over
copies and satisfy nothing. Each operation of `KvStore` is shown to keep the invariant, together with
what it does to the value found under every key. -/

namespace OsHw.Kv

/-- The pair a `write_kv` in progress has allocated and not yet given away. -/
def Pc.newKv : Pc → Option Addr
  | .writeLocking _ _ _ a => some a
  | .writeFreeing a => some a
  | _ => none

namespace Kernel

/-- `x` leads its own thread group: its chain heads are the store of a process. -/
def IsLeader (s : Kernel) (x : TaskPtr) : Prop := ∃ tx, s.task x = some tx ∧ tx.groupLeader = x

/-- `x` is in a `write_kv` that holds `a`. -/
def Holds (s : Kernel) (x : TaskPtr) (a : Addr) : Prop := ∃ tx, s.task x = some tx ∧ tx.pc.newKv = some a

/-- The value the store of a group has under a key. -/
def lookup (s : Kernel) (leader : TaskPtr) (k : Int32) : Option Int32 :=
  (bucketIdx k).bind fun i => (s.findKey (leader, i) k).map fun a => (s.pair a).value

/-- A bucket as it should be: a chain of allocated pairs whose keys belong there and differ. -/
structure GoodBucket (s : Kernel) (b : Bucket) (l : List Addr) : Prop where
  chain : s.mem.Chain b l
  allocated : ∀ a ∈ l, s.Allocated a
  bucket : ∀ a ∈ l, bucketIdx (s.pair a).key = some b.2
  keys : (l.map fun a => (s.pair a).key).Nodup

structure StoreInv (s : Kernel) : Prop where
  good : ∀ x, s.IsLeader x → ∀ i, ∃ l, s.GoodBucket (x, i) l
  held : ∀ x a, s.Holds x a → s.Allocated a ∧ s.mem.pprev a = none
  heldOnce : ∀ x y a, s.Holds x a → s.Holds y a → x = y
  locking : ∀ x tx b k v a, s.task x = some tx → tx.pc = .writeLocking b k v a →
    b.1 = tx.groupLeader ∧ bucketIdx k = some b.2
  fresh : ∀ a, a ∉ s.allocs → s.mem.pprev a = none ∧ s.frees a = 0

section Bucket

variable {s : Kernel} {b b' : Bucket} {l l' : List Addr} {k v : Int32} {a : Addr}

theorem GoodBucket.entries_eq (hb : s.GoodBucket b l) : s.entries b = l := by
  have hsub : l ⊆ s.allocs := fun a ha => (hb.allocated a ha).1
  exact Hlist.Mem.Linked.walk_eq hb.chain (List.subperm_of_subset hb.chain.nodup hsub).length_le

theorem GoodBucket.findKey_eq (hb : s.GoodBucket b l) (k : Int32) :
    s.findKey b k = l.find? fun a => (s.pair a).key == k := by
  rw [findKey, hb.entries_eq]

theorem GoodBucket.findKey_eq_some_iff (hb : s.GoodBucket b l) :
    s.findKey b k = some a ↔ a ∈ l ∧ (s.pair a).key = k := by
  rw [hb.findKey_eq]
  constructor
  · intro h
    exact ⟨List.mem_of_find?_eq_some h, by simpa using List.find?_some h⟩
  · rintro ⟨ha, rfl⟩
    cases hfind : l.find? fun c => (s.pair c).key == (s.pair a).key with
    | none =>
        have := List.find?_eq_none.mp hfind a ha
        simp at this
    | some c =>
        have hkey : (s.pair c).key = (s.pair a).key := by simpa using List.find?_some hfind
        rw [List.inj_on_of_nodup_map hb.keys (List.mem_of_find?_eq_some hfind) ha hkey]

theorem GoodBucket.findKey_eq_none_iff (hb : s.GoodBucket b l) :
    s.findKey b k = none ↔ ∀ a ∈ l, (s.pair a).key ≠ k := by
  rw [hb.findKey_eq, List.find?_eq_none]
  simp

/-- A bucket is as it should be in every state that agrees on its nodes. -/
theorem GoodBucket.frame {s' : Kernel} (hb : s.GoodBucket b l) (hchain : s'.mem.Chain b l)
    (halloc : ∀ a ∈ l, s'.Allocated a) (hkey : ∀ a ∈ l, (s'.pair a).key = (s.pair a).key) :
    s'.GoodBucket b l where
  chain := hchain
  allocated := halloc
  bucket a ha := by rw [hkey a ha, hb.bucket a ha]
  keys := by
    rw [List.map_congr_left (g := fun a => (s.pair a).key) fun a ha => hkey a ha]
    exact hb.keys

theorem GoodBucket.findKey_frame {s' : Kernel} (hb : s.GoodBucket b l) (hb' : s'.GoodBucket b l)
    (hkey : ∀ a ∈ l, (s'.pair a).key = (s.pair a).key) (k : Int32) : s'.findKey b k = s.findKey b k := by
  ext a
  rw [hb.findKey_eq_some_iff, hb'.findKey_eq_some_iff]
  exact and_congr_right fun ha => by rw [hkey a ha]

end Bucket

section Inv

variable {s : Kernel} {x y t : TaskPtr} {tx : Task} {b : Bucket} {k v : Int32} {a : Addr}

theorem lookup_eq (hk : bucketIdx k = some b.2) :
    s.lookup b.1 k = (s.findKey b k).map fun a => (s.pair a).value := by
  rw [lookup, hk, Option.bind_some]

theorem lookup_frame {s' : Kernel} (hb : ∀ i, s'.findKey (x, i) k = s.findKey (x, i) k)
    (hval : ∀ i a, s.findKey (x, i) k = some a → (s'.pair a).value = (s.pair a).value) :
    s'.lookup x k = s.lookup x k := by
  unfold lookup
  cases bucketIdx k with
  | none => rfl
  | some i =>
      rw [Option.bind_some, Option.bind_some, hb i]
      cases hfind : s.findKey (x, i) k with
      | none => rfl
      | some a => rw [Option.map_some, Option.map_some, hval i a hfind]

/-! ### Steps that move a task and leave the store alone -/

theorem setTask_task_eq_some_iff {u tx' : Task} :
    (s.setTask t u).task x = some tx' ↔ (x = t ∧ tx' = u) ∨ (x ≠ t ∧ s.task x = some tx') := by
  by_cases hxt : x = t
  · subst hxt
    simp [setTask, eq_comm]
  · simp [setTask, hxt]

/-- Tasks at different places are different tasks. -/
theorem task_ne {px : Task} (ht : s.task t = some tx) (hx : s.task x = some px) (hpc : tx.pc ≠ px.pc) : t ≠ x := by
  rintro rfl
  rw [ht] at hx
  cases hx
  exact hpc rfl

/-- A task is not at a free place. -/
theorem task_ne_of_none (ht : s.task t = some tx) (hx : s.task x = none) : t ≠ x := by
  rintro rfl
  rw [ht] at hx
  cases hx

/-- A task that is not under construction is not one that is. -/
theorem task_ne_embryo {px : Task} {b : Bool} (ht : s.task t = some tx) (hemb : ∀ b, tx.pc ≠ .embryo b)
    (hx : s.task x = some px) (hpc : px.pc = .embryo b) : t ≠ x :=
  task_ne ht hx fun he => hemb b (he.trans hpc)

theorem IsLeader.ne_of_none (ht : s.IsLeader t) (hx : s.task x = none) : t ≠ x := by
  obtain ⟨tx, ht, -⟩ := ht
  exact task_ne_of_none ht hx

theorem isLeader_setPc_iff (ht : s.task t = some tx) {pc : Pc} :
    (s.setTask t { tx with pc := pc }).IsLeader x ↔ s.IsLeader x := by
  constructor
  · rintro ⟨tx', hx, hlead⟩
    rcases setTask_task_eq_some_iff.mp hx with ⟨rfl, rfl⟩ | ⟨-, h⟩
    · exact ⟨tx, ht, hlead⟩
    · exact ⟨tx', h, hlead⟩
  · rintro ⟨tx', hx, hlead⟩
    by_cases hxt : x = t
    · subst hxt
      rw [ht] at hx
      cases hx
      exact ⟨_, setTask_task_eq_some_iff.mpr (.inl ⟨rfl, rfl⟩), hlead⟩
    · exact ⟨tx', setTask_task_eq_some_iff.mpr (.inr ⟨hxt, hx⟩), hlead⟩

theorem holds_setPc_iff {pc : Pc} :
    (s.setTask t { tx with pc := pc }).Holds x a ↔ (x = t ∧ pc.newKv = some a) ∨ (x ≠ t ∧ s.Holds x a) := by
  constructor
  · rintro ⟨tx', hx, ha⟩
    rcases setTask_task_eq_some_iff.mp hx with ⟨rfl, rfl⟩ | ⟨hxt, h⟩
    · exact .inl ⟨rfl, ha⟩
    · exact .inr ⟨hxt, tx', h, ha⟩
  · rintro (⟨rfl, ha⟩ | ⟨hxt, tx', hx, ha⟩)
    · exact ⟨_, setTask_task_eq_some_iff.mpr (.inl ⟨rfl, rfl⟩), ha⟩
    · exact ⟨tx', setTask_task_eq_some_iff.mpr (.inr ⟨hxt, hx⟩), ha⟩

/-- The tasks may change as long as every leader was one or has empty heads, and nothing is held or
about to be locked that was not. -/
theorem StoreInv.retask (hs : s.StoreInv) (task : TaskPtr → Option Task) (tasklist : List TaskPtr)
    (hlead : ∀ x tx, task x = some tx → tx.groupLeader = x →
      s.IsLeader x ∨ ∀ i, s.mem.first (x, i) = none)
    (hheld : ∀ x tx a, task x = some tx → tx.pc.newKv = some a → s.Holds x a)
    (hlock : ∀ x tx b k v a, task x = some tx → tx.pc = .writeLocking b k v a →
      b.1 = tx.groupLeader ∧ bucketIdx k = some b.2) :
    StoreInv { s with task := task, tasklist := tasklist } where
  good := by
    rintro x ⟨tx, hx, hleader⟩ i
    rcases hlead x tx hx hleader with h | h
    · obtain ⟨l, hl⟩ := hs.good x h i
      exact ⟨l, hl.chain, hl.allocated, hl.bucket, hl.keys⟩
    · exact ⟨[], Hlist.Mem.chain_nil_iff.mpr (h i), by simp, by simp, by simp⟩
  held := by
    rintro x a ⟨tx, hx, ha⟩
    exact hs.held x a (hheld x tx a hx ha)
  heldOnce := by
    rintro x y a ⟨tx, hx, hxa⟩ ⟨ty, hy, hya⟩
    exact hs.heldOnce x y a (hheld x tx a hx hxa) (hheld y ty a hy hya)
  locking := hlock
  fresh := hs.fresh

/-- Only the heads of tasks that lead no group change. -/
theorem StoreInv.rehead (hs : s.StoreInv) (first : Bucket → Option Addr)
    (hfirst : ∀ x i, s.IsLeader x → first (x, i) = s.mem.first (x, i)) :
    (s.setFirst first).StoreInv where
  good := by
    intro x hx i
    obtain ⟨l, hl⟩ := hs.good x hx i
    exact ⟨l, hl.chain.frame (hfirst x i hx) fun _ _ => ⟨rfl, rfl⟩, hl.allocated, hl.bucket, hl.keys⟩
  held := hs.held
  heldOnce := hs.heldOnce
  locking := hs.locking
  fresh := hs.fresh

/-- A task moves on within its own steps and holds at most what it held. -/
theorem StoreInv.setPc (hs : s.StoreInv) (ht : s.task t = some tx) (pc : Pc)
    (hheld : ∀ a, pc.newKv = some a → tx.pc.newKv = some a)
    (hlock : ∀ b k v a, pc = .writeLocking b k v a → b.1 = tx.groupLeader ∧ bucketIdx k = some b.2) :
    (s.setTask t { tx with pc := pc }).StoreInv := by
  refine hs.retask _ _ (fun x tx' hx hlead => ?_) (fun x tx' a hx ha => ?_)
    (fun x tx' b k v a hx hpc => ?_)
  · exact .inl ((isLeader_setPc_iff ht).mp ⟨tx', hx, hlead⟩)
  · have hx' : (s.setTask t { tx with pc := pc }).Holds x a := ⟨tx', hx, ha⟩
    rcases holds_setPc_iff.mp hx' with ⟨rfl, h⟩ | ⟨-, h⟩
    · exact ⟨tx, ht, hheld a h⟩
    · exact h
  · rcases setTask_task_eq_some_iff.mp hx with ⟨rfl, rfl⟩ | ⟨-, h⟩
    · exact hlock b k v a hpc
    · exact hs.locking x tx' b k v a h hpc

/-! ### Allocation and release of a pair that is not linked -/

/-- `kmalloc` returns a new address, which the caller holds from then on. -/
theorem StoreInv.kmalloc (hs : s.StoreInv) (ht : s.task t = some tx) (ha : a ∉ s.allocs)
    (hbt : b.1 = tx.groupLeader) (hk : bucketIdx k = some b.2) :
    ((s.kmalloc a).setTask t { tx with pc := .writeLocking b k v a }).StoreInv := by
  obtain ⟨hpprev, hfrees⟩ := hs.fresh a ha
  have hmono : ∀ c, s.Allocated c → c ∈ a :: s.allocs ∧ s.frees c = 0 :=
    fun c hc => ⟨List.mem_cons_of_mem _ hc.1, hc.2⟩
  have hnot : ∀ x, ¬s.Holds x a := fun x hx => ha (hs.held x a hx).1.1
  refine ⟨fun x hx i => ?_, fun x c hc => ?_, fun x y c hx hy => ?_, fun x tx' b' k' v' c hx hpc => ?_,
    fun c hc => ?_⟩
  · obtain ⟨l, hl⟩ := hs.good x ((isLeader_setPc_iff ht).mp hx) i
    exact ⟨l, hl.chain, fun c hc => hmono c (hl.allocated c hc), hl.bucket, hl.keys⟩
  · rcases holds_setPc_iff.mp hc with ⟨-, h⟩ | ⟨-, h⟩
    · cases h
      exact ⟨⟨List.mem_cons_self, hfrees⟩, hpprev⟩
    · exact ⟨hmono c (hs.held x c h).1, (hs.held x c h).2⟩
  · rcases holds_setPc_iff.mp hx with ⟨rfl, h⟩ | ⟨-, h⟩
    · rcases holds_setPc_iff.mp hy with ⟨rfl, -⟩ | ⟨-, h'⟩
      · rfl
      · cases h
        exact absurd h' (hnot y)
    · rcases holds_setPc_iff.mp hy with ⟨-, h'⟩ | ⟨-, h'⟩
      · cases h'
        exact absurd h (hnot x)
      · exact hs.heldOnce x y c h h'
  · rcases setTask_task_eq_some_iff.mp hx with ⟨rfl, rfl⟩ | ⟨-, h⟩
    · cases hpc
      exact ⟨hbt, hk⟩
    · exact hs.locking x tx' b' k' v' c h hpc
  · exact hs.fresh c fun hmem => hc (List.mem_cons_of_mem _ hmem)

/-- Freeing an address that no chain has and no other call holds. -/
theorem StoreInv.kfree (hs : s.StoreInv) (ht : s.task t = some tx) (ha : tx.pc.newKv = some a) :
    ((s.kfree a).setTask t { tx with pc := .user }).StoreInv := by
  have hheld : s.Holds t a := ⟨tx, ht, ha⟩
  obtain ⟨halloc, hpprev⟩ := hs.held t a hheld
  have hkeep : ∀ c, c ≠ a → s.Allocated c → (s.kfree a).Allocated c :=
    fun c hc h => ⟨h.1, by simp [Kernel.kfree, hc, h.2]⟩
  have hs' : (s.setTask t { tx with pc := .user }).StoreInv := hs.setPc ht .user (by simp [Pc.newKv]) (by simp)
  refine ⟨fun x hx i => ?_, fun x c hc => ?_, hs'.heldOnce, hs'.locking, fun c hc => ?_⟩
  · obtain ⟨l, hl⟩ := hs'.good x hx i
    refine ⟨l, hl.chain, fun c hc => hkeep c (fun he => ?_) (hl.allocated c hc), hl.bucket, hl.keys⟩
    exact Hlist.Mem.Linked.pprev_ne_none hl.chain hc (he ▸ hpprev)
  · rcases holds_setPc_iff.mp hc with ⟨-, h⟩ | ⟨hxt, h⟩
    · cases h
    · have hca : c ≠ a := fun he => hxt (hs.heldOnce x t a (he ▸ h) hheld)
      exact ⟨hkeep c hca (hs.held x c h).1, (hs.held x c h).2⟩
  · have hca : c ≠ a := fun he => hc (he ▸ halloc.1)
    exact ⟨(hs.fresh c hc).1, by simp [setTask, Kernel.kfree, hca, (hs.fresh c hc).2]⟩

/-! ### The locked sections -/

@[simp] theorem setValue_key (found c : Addr) : ((s.setValue found v).pair c).key = (s.pair c).key := by
  by_cases hc : c = found
  · subst hc
    simp [Kernel.setValue]
  · simp [Kernel.setValue, hc]

theorem GoodBucket.setValue {l : List Addr} (hb : s.GoodBucket b l) (found : Addr) :
    (s.setValue found v).GoodBucket b l :=
  hb.frame hb.chain hb.allocated fun c _ => setValue_key found c

/-- The key is found: only a value changes. -/
theorem StoreInv.setValue (hs : s.StoreInv) (found : Addr) : (s.setValue found v).StoreInv := by
  refine ⟨fun x hx i => ?_, hs.held, hs.heldOnce, hs.locking, hs.fresh⟩
  obtain ⟨l, hl⟩ := hs.good x hx i
  exact ⟨l, hl.setValue found⟩

theorem linkPair_pair_of_ne {c : Addr} (hca : c ≠ a) : (s.linkPair b a k v).pair c = s.pair c := by
  simp [Kernel.linkPair, hca]

/-- The bucket a new pair is linked into. -/
theorem GoodBucket.linkPair {l : List Addr} (hb : s.GoodBucket b l) (hk : bucketIdx k = some b.2)
    (hfind : s.findKey b k = none) (halloc : s.Allocated a) (hpprev : s.mem.pprev a = none) :
    (s.linkPair b a k v).GoodBucket b (a :: l) := by
  have hal : ∀ c ∈ l, c ≠ a := fun c hc he => Hlist.Mem.Linked.pprev_ne_none hb.chain hc (he ▸ hpprev)
  have hmap : (l.map fun c => ((s.linkPair b a k v).pair c).key) = l.map fun c => (s.pair c).key :=
    List.map_congr_left fun c hc => by rw [linkPair_pair_of_ne (hal c hc)]
  have hself : (s.linkPair b a k v).pair a = ⟨k, v⟩ := by simp [Kernel.linkPair]
  refine ⟨hb.chain.addHead_self hpprev, fun c hc => ?_, fun c hc => ?_, ?_⟩
  · rcases List.mem_cons.mp hc with rfl | hc
    · exact halloc
    · exact hb.allocated c hc
  · rcases List.mem_cons.mp hc with rfl | hc
    · rw [hself]
      exact hk
    · rw [linkPair_pair_of_ne (hal c hc)]
      exact hb.bucket c hc
  · rw [List.map_cons, List.nodup_cons, hmap, hself]
    refine ⟨?_, hb.keys⟩
    simp only [List.mem_map, not_exists, not_and]
    exact fun c hc => hb.findKey_eq_none_iff.mp hfind c hc

/-- Every other bucket of a leader stays as it is when a pair is linked. -/
theorem GoodBucket.linkPair_of_ne {b' : Bucket} {l l' : List Addr} (hb' : s.GoodBucket b' l')
    (hb : s.GoodBucket b l) (hne : b' ≠ b) (hpprev : s.mem.pprev a = none) :
    (s.linkPair b a k v).GoodBucket b' l' := by
  refine hb'.frame (hb'.chain.addHead_of_ne hb.chain hne hpprev) hb'.allocated fun c hc => ?_
  have hca : c ≠ a := fun he => Hlist.Mem.Linked.pprev_ne_none hb'.chain hc (he ▸ hpprev)
  rw [linkPair_pair_of_ne hca]

/-- The key is not found: the pair held by the caller is linked and no longer held. -/
theorem StoreInv.linkPair (hs : s.StoreInv) (ht : s.task t = some tx) (ha : tx.pc.newKv = some a)
    (hb : s.IsLeader b.1) (hk : bucketIdx k = some b.2) (hfind : s.findKey b k = none) :
    ((s.linkPair b a k v).setTask t { tx with pc := .user }).StoreInv := by
  have hheld : s.Holds t a := ⟨tx, ht, ha⟩
  obtain ⟨halloc, hpprev⟩ := hs.held t a hheld
  obtain ⟨l, hl⟩ := hs.good b.1 hb b.2
  have hs' : (s.setTask t { tx with pc := .user }).StoreInv := hs.setPc ht .user (by simp [Pc.newKv]) (by simp)
  refine ⟨fun x hx i => ?_, fun x c hc => ?_, hs'.heldOnce, hs'.locking, fun c hc => ?_⟩
  · by_cases hbi : (x, i) = b
    · subst hbi
      obtain ⟨h₁, h₂, h₃, h₄⟩ := hl.linkPair (v := v) hk hfind halloc hpprev
      exact ⟨a :: l, h₁, h₂, h₃, h₄⟩
    · obtain ⟨l', hl'⟩ := hs.good x ((isLeader_setPc_iff ht).mp hx) i
      obtain ⟨h₁, h₂, h₃, h₄⟩ := hl'.linkPair_of_ne (k := k) (v := v) hl hbi hpprev
      exact ⟨l', h₁, h₂, h₃, h₄⟩
  · rcases holds_setPc_iff.mp hc with ⟨-, h⟩ | ⟨hxt, h⟩
    · cases h
    · have hca : c ≠ a := fun he => hxt (hs.heldOnce x t a (he ▸ h) hheld)
      exact ⟨(hs.held x c h).1, hl.chain.addHead_pprev_eq_none (hs.held x c h).2 hca⟩
  · have hca : c ≠ a := fun he => hc (he ▸ halloc.1)
    exact ⟨hl.chain.addHead_pprev_eq_none (hs.fresh c hc).1 hca, (hs.fresh c hc).2⟩

/-! ### Teardown -/

/-- What emptying a bucket with the nodes `l` does. -/
structure Drained (s : Kernel) (b : Bucket) (l : List Addr) (s' : Kernel) : Prop where
  task : s'.task = s.task
  tasklist : s'.tasklist = s.tasklist
  pair : s'.pair = s.pair
  allocs : s'.allocs = s.allocs
  empty : s'.mem.first b = none
  first : ∀ b', b' ≠ b → s'.mem.first b' = s.mem.first b'
  chain : ∀ b' l', b' ≠ b → s.mem.Chain b' l' → s'.mem.Chain b' l'
  pprev : ∀ a, s'.mem.pprev a = if a ∈ l then none else s.mem.pprev a
  frees : ∀ a, s'.frees a = if a ∈ l then s.frees a + 1 else s.frees a

/-- The loop of `kv_store_exit` on one bucket unlinks and frees every node once. The induction is on the
nodes that are still linked. -/
theorem drained_drain {l : List Addr} {fuel : Nat} (hc : s.mem.Chain b l) (hfuel : l.length ≤ fuel) :
    s.Drained b l (drain fuel (s.mem.first b) s) := by
  induction l generalizing s fuel with
  | nil =>
      have hfirst := Hlist.Mem.chain_nil_iff.mp hc
      have hdrain : drain fuel (s.mem.first b) s = s := by
        rw [hfirst]
        cases fuel <;> rfl
      rw [hdrain]
      exact ⟨rfl, rfl, rfl, rfl, hfirst, fun _ _ => rfl, fun _ _ _ h => h, by simp, by simp⟩
  | cons n l ih =>
      cases fuel with
      | zero => simp at hfuel
      | succ fuel =>
          obtain ⟨hfirst, -, -⟩ := Hlist.Mem.chain_cons_iff.mp hc
          obtain ⟨hnl, -⟩ := List.nodup_cons.mp hc.nodup
          rw [hfirst, drain]
          set s₁ : Kernel := { s with mem := s.mem.del n }.kfree n with hs₁
          have hnext : s.mem.next n = s₁.mem.first b := by
            show s.mem.next n = (s.mem.del n).first b
            rw [hc.del_first_eq]
            simp
          have h := ih (s := s₁) hc.del_self (Nat.le_of_succ_le_succ hfuel)
          rw [← hnext] at h
          refine ⟨h.task, h.tasklist, h.pair, h.allocs, h.empty, fun b' hb' => ?_, fun b' l' hb' hc' => ?_,
            fun a => ?_, fun a => ?_⟩
          · rw [h.first b' hb']
            exact hc.del_first_of_ne hb'
          · exact h.chain b' l' hb' (hc'.del_of_ne hc hb')
          · rw [h.pprev a]
            by_cases han : a = n
            · subst han
              rw [if_neg hnl, if_pos List.mem_cons_self]
              exact hc.del_pprev_self
            · by_cases hal : a ∈ l
              · rw [if_pos hal, if_pos (List.mem_cons_of_mem _ hal)]
              · have hmem : a ∉ n :: l := by simp [han, hal]
                rw [if_neg hal, if_neg hmem]
                exact hc.del_pprev_of_not_mem hmem
          · rw [h.frees a]
            by_cases han : a = n
            · subst han
              simp [hnl, hs₁, Kernel.kfree]
            · simp [han, hs₁, Kernel.kfree]

theorem GoodBucket.drained {l : List Addr} (hb : s.GoodBucket b l) : s.Drained b l (s.drainBucket b) := by
  have hsub : l ⊆ s.allocs := fun a ha => (hb.allocated a ha).1
  exact drained_drain hb.chain (List.subperm_of_subset hb.chain.nodup hsub).length_le

theorem Drained.goodBucket_self {s' : Kernel} {l : List Addr} (h : s.Drained b l s') : s'.GoodBucket b [] :=
  ⟨Hlist.Mem.chain_nil_iff.mpr h.empty, by simp, by simp, by simp⟩

theorem Drained.goodBucket_of_ne {s' : Kernel} {b' : Bucket} {l l' : List Addr} (h : s.Drained b l s')
    (hb : s.GoodBucket b l) (hb' : s.GoodBucket b' l') (hne : b' ≠ b) : s'.GoodBucket b' l' := by
  refine hb'.frame (h.chain b' l' hne hb'.chain) (fun a ha => ?_) (fun a _ => by rw [h.pair])
  have hal : a ∉ l := fun hmem => hne (hb'.chain.head_eq hb.chain ha hmem)
  exact ⟨by rw [h.allocs]; exact (hb'.allocated a ha).1, by rw [h.frees, if_neg hal]; exact (hb'.allocated a ha).2⟩

theorem StoreInv.drain (hs : s.StoreInv) (hb : s.IsLeader b.1) : (s.drainBucket b).StoreInv := by
  obtain ⟨l, hl⟩ := hs.good b.1 hb b.2
  have h := hl.drained
  have hlead : ∀ x, (s.drainBucket b).IsLeader x → s.IsLeader x := by
    rintro x ⟨tx, hx, hleader⟩
    exact ⟨tx, by rw [← h.task]; exact hx, hleader⟩
  have hholds : ∀ x a, (s.drainBucket b).Holds x a → s.Holds x a := by
    rintro x a ⟨tx, hx, ha⟩
    exact ⟨tx, by rw [← h.task]; exact hx, ha⟩
  refine ⟨fun x hx i => ?_, fun x a ha => ?_, fun x y a hx hy => ?_, fun x tx b' k v a hx hpc => ?_,
    fun a ha => ?_⟩
  · by_cases hbi : (x, i) = b
    · subst hbi
      exact ⟨[], h.goodBucket_self⟩
    · obtain ⟨l', hl'⟩ := hs.good x (hlead x hx) i
      exact ⟨l', h.goodBucket_of_ne hl hl' hbi⟩
  · obtain ⟨halloc, hpprev⟩ := hs.held x a (hholds x a ha)
    have hal : a ∉ l := fun hmem => Hlist.Mem.Linked.pprev_ne_none hl.chain hmem hpprev
    exact ⟨⟨by rw [h.allocs]; exact halloc.1, by rw [h.frees, if_neg hal]; exact halloc.2⟩,
      by rw [h.pprev, if_neg hal]; exact hpprev⟩
  · exact hs.heldOnce x y a (hholds x a hx) (hholds y a hy)
  · exact hs.locking x tx b' k v a (by rw [← h.task]; exact hx) hpc
  · rw [h.allocs] at ha
    have hal : a ∉ l := fun hmem => ha (hl.allocated a hmem).1
    rw [h.pprev, h.frees, if_neg hal, if_neg hal]
    exact hs.fresh a ha

end Inv

end Kernel

end OsHw.Kv
