import OsHw.KvRefine

/-! The store of a process as a finite map. As long as the leader of a thread group lives, `read_kv` in
any of its threads answers from the last locked section that wrote the key, whatever the other threads
of the machine do between the steps of a call, and the buckets hold every key at most once and in the
place its hash says. -/

namespace OsHw.Kv

/-- What `read_kv` returns when the map holds this under the key. -/
def readResult : Option Int32 → Int
  | some v => v.toInt
  | none => -enoent

/-- The steps of `write_kv` on a key; the last one, freeing an unused pair, no longer depends on it. -/
def Label.WritesKey (k : Int32) : Label → Prop
  | .writeAlloc _ k' _ _ => k' = k
  | .writeLock _ k' _ => k' = k
  | .writeFree _ => True
  | _ => False

namespace Kernel

variable {s s' : Kernel} {x t : TaskPtr} {tx : Task} {b : Bucket} {k : Int32} {e : Event} {es : List Event}

theorem readLocked_eq (hk : bucketIdx k = some b.2) : s.readLocked b k = readResult (s.lookup b.1 k) := by
  rw [lookup_eq hk, readLocked]
  cases s.findKey b k <;> rfl

/-- `read_kv` on a key that has a bucket answers from the map of the group. -/
theorem readKv_eq (tx : Task) (k : Int32) :
    s.readKv tx k = (bucketIdx k).map fun _ => readResult (s.lookup tx.groupLeader k) := by
  unfold readKv getHashBucket getProcessTask
  cases hk : bucketIdx k with
  | none => rfl
  | some i =>
      rw [Option.map_some, Option.map_some, Option.map_some]
      exact congrArg some (readLocked_eq (b := (tx.groupLeader, i)) hk)

/-- The map of a leader that lives is made of the last writes. -/
theorem TraceInv.lookup_eq_lastWrite (hs : s.TraceInv es) (hx : s.task x = some tx) (hlead : tx.groupLeader = x)
    (hlive : ¬tx.pc.Gone) (k : Int32) : s.lookup x k = lastWrite x k es := by
  rw [hs.refines x ⟨tx, hx, hlead⟩ k]
  refine absStore_eq_lastWrite fun i hi => ?_
  obtain ⟨tx', hx', hgone⟩ := hs.torn x i hi
  rw [hx] at hx'
  cases hx'
  exact hlive hgone

/-- A step of `write_kv` on a key changes the map of no group under any other key. -/
theorem Inv.lookup_of_writesKey (hs : s.Inv) {l : Label} (hl : l.WritesKey k) (h : s.step l = some (s', e))
    (hx : s.IsLeader x) {k' : Int32} (hk : k' ≠ k) : s'.lookup x k' = s.lookup x k' := by
  rw [hs.step_lookup h hx k']
  cases l with
  | writeAlloc t k₀ v newKv =>
      obtain ⟨tx, b, -, -, -, ⟨-, -, rfl⟩ | ⟨a, -, -, rfl, -⟩⟩ := writeAlloc_cases h <;> rfl
  | writeLock t k₀ v =>
      obtain ⟨tx, b, a, -, -, rfl, -⟩ := writeLock_cases h
      have hk₀ : k' ≠ k₀ := fun he => hk (he.trans hl)
      exact if_neg fun he => hk₀ he.2
  | writeFree t =>
      obtain ⟨tx, a, -, -, rfl, -⟩ := writeFree_cases h
      rfl
  | _ => exact absurd hl not_false

/-- The buckets of a leader hold every key at most once, in the bucket of its hash. -/
theorem StoreInv.entries_unique (hs : s.StoreInv) (hx : s.IsLeader x) {i j : BucketIdx} {a c : Addr}
    (ha : a ∈ s.entries (x, i)) (hc : c ∈ s.entries (x, j)) (hkey : (s.pair a).key = (s.pair c).key) :
    i = j ∧ a = c := by
  obtain ⟨l, hl⟩ := hs.good x hx i
  obtain ⟨l', hl'⟩ := hs.good x hx j
  rw [hl.entries_eq] at ha
  rw [hl'.entries_eq] at hc
  have hij : i = j := by
    have h := hl.bucket a ha
    rw [hkey, hl'.bucket c hc, Option.some.injEq] at h
    exact h.symm
  subst hij
  have hll : l = l' := by rw [← hl.entries_eq, hl'.entries_eq]
  subst hll
  exact ⟨rfl, List.inj_on_of_nodup_map hl.keys ha hc hkey⟩

theorem StoreInv.entries_hash (hs : s.StoreInv) (hx : s.IsLeader x) {i : BucketIdx} {a : Addr}
    (ha : a ∈ s.entries (x, i)) : (kvHash (s.pair a).key).toInt = (i.val : Int) := by
  obtain ⟨l, hl⟩ := hs.good x hx i
  rw [hl.entries_eq] at ha
  exact bucketIdx_eq_some_iff.mp (hl.bucket a ha)

theorem StoreInv.entries_nodup (hs : s.StoreInv) (hx : s.IsLeader x) (i : BucketIdx) :
    (s.entries (x, i)).Nodup := by
  obtain ⟨l, hl⟩ := hs.good x hx i
  rw [hl.entries_eq]
  exact hl.chain.nodup

/-- **Linearizability.** After any run of any number of processes and threads, in the store of a group
whose leader lives: a `read_kv` that has its locked section now returns the value of the last locked
section that wrote the key, or `-ENOENT`; a `write_kv` whose allocation fails changes nothing; no step of
a `write_kv` changes what is read under another key; and the buckets hold every key at most once, in the
bucket of its hash. -/
theorem store_linearizable {leader : TaskPtr} {pid : Pid} {ls : List Label}
    (hls : ∀ l ∈ ls, l.isExec = false)
    (hrun : OsHw.run Kernel.step (Kernel.init leader pid) ls = some (s, es))
    (hx : s.task x = some tx) (hlead : tx.groupLeader = x) (hlive : ¬tx.pc.Gone) :
    (∀ t ty k, s.task t = some ty → ty.groupLeader = x → ty.pc = .user → (bucketIdx k).isSome →
      s.step (.readKv t k) = some (s, .read x t k (readResult (lastWrite x k es)))) ∧
    (∀ t k v s' e, s.step (.writeAlloc t k v none) = some (s', e) → s' = s ∧ e = .ret t (-enomem)) ∧
    (∀ l k s' e, l.WritesKey k → s.step l = some (s', e) →
      ∀ ty, ty.groupLeader = x → ∀ k', k' ≠ k → s'.readKv ty k' = s.readKv ty k') ∧
    (∀ i, (s.entries (x, i)).Nodup) ∧
    (∀ i j, ∀ a ∈ s.entries (x, i), ∀ c ∈ s.entries (x, j), (s.pair a).key = (s.pair c).key → i = j ∧ a = c) ∧
    ∀ i, ∀ a ∈ s.entries (x, i), (kvHash (s.pair a).key).toInt = (i.val : Int) := by
  have hs : s.TraceInv es := TraceInv.run (along_execClean hls) hrun
  have hleader : s.IsLeader x := ⟨tx, hx, hlead⟩
  refine ⟨fun t ty k ht htx hpc hk => ?_, fun t k v s' e h => ?_, fun l k s' e hl h ty hty k' hk' => ?_,
    hs.inv.store.entries_nodup hleader, fun i j a ha c hc => hs.inv.store.entries_unique hleader ha hc,
    fun i a ha => hs.inv.store.entries_hash hleader ha⟩
  · obtain ⟨i, hi⟩ := Option.isSome_iff_exists.mp hk
    have hb : getHashBucket ty k = some (x, i) := getHashBucket_eq_some_iff.mpr ⟨htx.symm, hi⟩
    rw [readStep_eq ht hpc hb, readLocked_eq hi, hs.lookup_eq_lastWrite hx hlead hlive]
  · obtain ⟨ty, b, -, -, -, ⟨-, rfl, rfl⟩ | ⟨a, ha, -⟩⟩ :=
      writeAlloc_cases (show s.writeAlloc t k v none = some (s', e) from h)
    · exact ⟨rfl, rfl⟩
    · cases ha
  · rw [readKv_eq, readKv_eq, hty, hs.inv.lookup_of_writesKey hl h hleader hk']

/-- Two threads of one process write two keys that share a bucket, the second one while the first is
between its allocation and its locked section. -/
def collidingWrites : List Label :=
  [.dupTask 1 2 true, .forkInit 1 2, .forkDone 1, .writeAlloc 1 5 7 (some 100), .writeAlloc 2 1029 9 (some 101),
    .writeLock 2 1029 9, .writeLock 1 5 7]

theorem store_linearizable_collidingWrites : ∃ s es,
    OsHw.run Kernel.step (Kernel.init 1 1) collidingWrites = some (s, es) ∧
      s.step (.readKv 2 5) = some (s, .read 1 2 5 7) ∧ s.step (.readKv 2 1029) = some (s, .read 1 2 1029 9) := by
  have hview : (OsHw.run Kernel.step (Kernel.init 1 1) collidingWrites).map
      (fun r => (r.1.task 1, r.1.task 2, lastWrite 1 5 r.2, lastWrite 1 1029 r.2)) =
      some (some ⟨1, 1, 1, .user⟩, some ⟨2, 1, 1, .user⟩, some 7, some 9) := by decide
  obtain ⟨⟨s, es⟩, hrun, hs⟩ := Option.map_eq_some_iff.mp hview
  simp only [Prod.mk.injEq] at hs
  obtain ⟨hL, hT, h5, h1029⟩ := hs
  have h := (store_linearizable (by decide) hrun hL rfl (by simp [Pc.Gone])).1
  refine ⟨s, es, hrun, ?_, ?_⟩
  · have hread := h 2 _ 5 hT rfl rfl (by decide)
    rwa [h5] at hread
  · have hread := h 2 _ 1029 hT rfl rfl (by decide)
    rwa [h1029] at hread

end Kernel

end OsHw.Kv
