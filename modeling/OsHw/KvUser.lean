import OsHw.KvLifetime

/-! What a user program sees of `read_kv`. The kernel returns the value as a `long`, or `-ENOENT`; `syscall()` takes a
range of negative numbers for errors; and the wrapper of the test programs takes what is left of the negative ones.
A value comes back, and tells the key from one that was never written, exactly when it is not negative. -/

namespace OsHw.Kv

/-- What `syscall()` of the C library makes of the result of a system call: the number it returns, and `errno` when
it is set. -/
def glibcSyscall (r : Int) : Int × Option Int32 :=
  if -4095 ≤ r ∧ r ≤ -1 then (-1, some (Int32.ofInt (-r))) else (r, none)

/-- What a call leaves in user space; `errno` only when it was set. -/
structure UserResult where
  ret : Int32
  errno : Option Int32
  deriving DecidableEq, Repr

/-- The wrapper `read_kv` around the system call. -/
def userReadKv (r : Int) : UserResult :=
  let (ret, errno) := glibcSyscall r
  if ret < 0 ∧ ret ≠ -enoent then ⟨-1, some (Int32.ofInt (-ret))⟩ else ⟨Int32.ofInt ret, errno⟩

/-- The wrapper returns the value, and something else for a key that was never written. -/
structure ReadsBack (v : Int32) (r : Int) : Prop where
  value : (userReadKv r).ret = v
  missing : (userReadKv (readResult none)).ret ≠ (userReadKv r).ret

section Wrapper

variable {r : Int} {v : Int32}

theorem ret_userReadKv_of_nonneg (h : 0 ≤ r) : (userReadKv r).ret = Int32.ofInt r := by
  have hrange : ¬(-4095 ≤ r ∧ r ≤ -1) := by omega
  have hneg : ¬(r < 0 ∧ r ≠ -enoent) := by omega
  rw [userReadKv, glibcSyscall, if_neg hrange]
  dsimp only
  rw [if_neg hneg]

/-- Nothing is left of a negative number: what `syscall()` lets through, the wrapper does not. -/
theorem ret_userReadKv_of_neg (h : r < 0) : (userReadKv r).ret = -1 := by
  rw [userReadKv, glibcSyscall]
  by_cases hrange : -4095 ≤ r ∧ r ≤ -1
  · rw [if_pos hrange]
    rfl
  · have hneg : r < 0 ∧ r ≠ -enoent := by
      rw [enoent]
      omega
    rw [if_neg hrange]
    dsimp only
    rw [if_pos hneg]

theorem readsBack_iff : ReadsBack v (readResult (some v)) ↔ 0 ≤ v := by
  have hmissing : (userReadKv (readResult none)).ret = -1 := ret_userReadKv_of_neg (by decide)
  rw [Int32.le_iff_toInt_le, Int32.toInt_zero]
  constructor
  · intro h
    by_contra hneg
    exact h.missing (hmissing.trans (ret_userReadKv_of_neg (by simpa [readResult] using hneg)).symm)
  · intro hpos
    have hvalue : (userReadKv (readResult (some v))).ret = v :=
      (ret_userReadKv_of_nonneg hpos).trans (Int32.ofInt_toInt v)
    refine ⟨hvalue, fun heq => ?_⟩
    rw [hmissing, hvalue] at heq
    rw [← heq] at hpos
    exact absurd hpos (by decide)

end Wrapper

namespace Kernel

variable {s s' : Kernel} {b : Bucket} {k v : Int32} {a : Addr}

/-- A locked section of `write_kv` leaves its value under the key, in any memory: the node it found keeps its key, and
a node it adds is the first one. -/
theorem lookup_writeLocked (hk : bucketIdx k = some b.2) (ha : a ∈ s.allocs) (v : Int32) :
    (s.writeLocked b k v a).1.lookup b.1 k = some v := by
  rw [lookup_eq hk, writeLocked]
  cases hfind : s.findKey b k with
  | some found =>
      have hkey : ∀ c, ((s.setValue found v).pair c).key = (s.pair c).key := by
        intro c
        by_cases hc : c = found
        · subst hc
          simp [setValue]
        · simp [setValue, hc]
      have hsame : (s.setValue found v).findKey b k = s.findKey b k := by
        simp only [findKey, hkey]
        rfl
      have hself : ((s.setValue found v).pair found).value = v := by simp [setValue]
      dsimp only
      rw [hsame, hfind, Option.map_some, hself]
  | none =>
      obtain ⟨n, hn⟩ := Nat.exists_eq_succ_of_ne_zero (Nat.ne_of_gt (List.length_pos_of_mem ha))
      have hwalk : (s.linkPair b a k v).entries b = a :: (s.linkPair b a k v).mem.walk n
          ((s.linkPair b a k v).mem.next a) := by
        have hfirst : (s.linkPair b a k v).mem.first b = some a := by simp [linkPair, Hlist.Mem.addHead]
        show (s.linkPair b a k v).mem.walk s.allocs.length ((s.linkPair b a k v).mem.first b) = _
        rw [hn, hfirst]
        rfl
      have hself : (s.linkPair b a k v).pair a = ⟨k, v⟩ := by simp [linkPair]
      simp [findKey, hwalk, hself]

/-- **User space.** After a locked section of `write_kv`, and until another one on the key, the wrapper returns the
value and a different one for a missing key exactly when the value is not negative: in any store whatever as long
as the key is left alone, and after every run in which the leader lives. -/
theorem userReadKv_iff (k v : Int32) :
    (∀ (s s' : Kernel) (tx ty : Task) (b : Bucket) (a : Addr), getHashBucket tx k = some b → a ∈ s.allocs →
      ty.groupLeader = tx.groupLeader → s'.lookup b.1 k = (s.writeLocked b k v a).1.lookup b.1 k →
      ∃ r, s'.readKv ty k = some r ∧ (ReadsBack v r ↔ 0 ≤ v)) ∧
    ∀ (leader : TaskPtr) (pid : Pid) (ls : List Label) (s : Kernel) (es : List Event) (x t : TaskPtr) (tx ty : Task),
      Along Kernel.step ExecClean (Kernel.init leader pid) ls →
      OsHw.run Kernel.step (Kernel.init leader pid) ls = some (s, es) →
      s.task x = some tx → tx.groupLeader = x → ¬tx.pc.Gone → s.task t = some ty → ty.groupLeader = x →
      ty.pc = .user → (bucketIdx k).isSome → lastWrite x k es = some v →
      (∃ r, s.step (.readKv t k) = some (s, .read x t k r) ∧ (ReadsBack v r ↔ 0 ≤ v)) ∧
      ∀ k', (bucketIdx k').isSome → lastWrite x k' es = none →
        s.step (.readKv t k') = some (s, .read x t k' (readResult none)) := by
  constructor
  · intro s s' tx ty b a hb ha hgroup hkeep
    obtain ⟨hleader, hk⟩ := getHashBucket_eq_some_iff.mp hb
    rw [lookup_writeLocked hk ha, hleader, ← hgroup] at hkeep
    exact ⟨_, readKv_of_lookup hkeep, readsBack_iff⟩
  · intro leader pid ls s es x t tx ty hclean hrun hx hlead hlive ht htx hpc hk hw
    have hs : s.TraceInv es := TraceInv.run hclean hrun
    have hread : ∀ k', (bucketIdx k').isSome →
        s.step (.readKv t k') = some (s, .read x t k' (readResult (lastWrite x k' es))) := by
      intro k' hk'
      obtain ⟨i, hi⟩ := Option.isSome_iff_exists.mp hk'
      have hb : getHashBucket ty k' = some (x, i) := getHashBucket_eq_some_iff.mpr ⟨htx.symm, hi⟩
      rw [readStep_eq ht hpc hb, readLocked_eq hi, hs.lookup_eq_lastWrite hx hlead hlive]
    refine ⟨⟨_, hread k hk, ?_⟩, fun k' hk' hnone => ?_⟩
    · rw [hw]
      exact readsBack_iff
    · rw [hread k' hk', hnone]

/-- One `write_kv` by the only task. -/
def oneWrite (v : Int32) : List Label := [.writeAlloc 1 5 v (some 100), .writeLock 1 5 v]

theorem oneWrite_readsBack : ∃ s es r, OsHw.run Kernel.step (Kernel.init 1 1) (oneWrite 7) = some (s, es) ∧
    s.step (.readKv 1 5) = some (s, .read 1 1 5 r) ∧ ReadsBack 7 r := by
  have hview : (OsHw.run Kernel.step (Kernel.init 1 1) (oneWrite 7)).map
      (fun r => (r.1.task 1, lastWrite 1 5 r.2)) = some (some ⟨1, 1, 1, .user⟩, some 7) := by decide
  obtain ⟨⟨s, es⟩, hrun, hs⟩ := Option.map_eq_some_iff.mp hview
  simp only [Prod.mk.injEq] at hs
  obtain ⟨ht, hw⟩ := hs
  obtain ⟨⟨r, hread, hiff⟩, -⟩ := (userReadKv_iff 5 7).2 1 1 (oneWrite 7) s es 1 1 _ _
    (along_execClean (by decide)) hrun ht rfl (by simp [Pc.Gone]) ht rfl rfl (by decide) hw
  exact ⟨s, es, r, hrun, hread, hiff.mpr (by decide)⟩

/-- The kernel has the value and returns it, and the wrapper returns what it returns for a missing key. -/
theorem oneWrite_lost :
    (OsHw.run Kernel.step (Kernel.init 1 1) (oneWrite (-5))).map (fun r => (r.1.step (.readKv 1 5)).map Prod.snd) =
      some (some (.read 1 1 5 (-5))) ∧
    (userReadKv (-5)).ret = -1 ∧ ¬ReadsBack (-5) (-5) ∧
    (OsHw.run Kernel.step (Kernel.init 1 1) (oneWrite (-1))).map (fun r => (r.1.step (.readKv 1 5)).map Prod.snd) =
      some (some (.read 1 1 5 (-1))) ∧
    (userReadKv (-1)).ret = (userReadKv (readResult none)).ret ∧ ¬ReadsBack (-1) (-1) := by
  refine ⟨by decide, by decide, fun h => ?_, by decide, by decide, fun h => ?_⟩
  · exact absurd h.value (by decide)
  · exact h.missing (by decide)

end Kernel

end OsHw.Kv
