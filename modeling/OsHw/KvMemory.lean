import OsHw.KvRefine

/-! What a step does to the memory of the pairs. Of all steps of the system only four touch it: the
allocation of `write_kv` hands a new pair to the caller, its locked section may link that pair into a
bucket or else leaves it to be freed, and an iteration of the teardown loop frees the pairs of one bucket.
Everything the later modules say about allocated, linked and freed pairs is derived from this list. -/

namespace OsHw.Kv.Kernel

variable {s s' : Kernel} {x t : TaskPtr} {tx : Task} {b : Bucket} {k v : Int32} {e : Event} {a : Addr}

/-- Following the links from a chain head of the task leads to `a`. -/
def Reaches (s : Kernel) (x : TaskPtr) (a : Addr) : Prop :=
  ∃ (i : BucketIdx) (n : Nat), a ∈ s.mem.walk n (s.mem.first (x, i))

theorem StoreInv.mem_entries_of_reaches (hs : s.StoreInv) (hx : s.IsLeader x) (ha : s.Reaches x a) :
    ∃ i, a ∈ s.entries (x, i) := by
  obtain ⟨i, n, ha⟩ := ha
  obtain ⟨l, hl⟩ := hs.good x hx i
  rw [Hlist.Mem.Linked.walk_eq_take hl.chain] at ha
  exact ⟨i, by rw [hl.entries_eq]; exact List.mem_of_mem_take ha⟩

/-- The pairs before and after a step. The chains are those of the tasks that lead a group before it. -/
inductive MemStep (s s' : Kernel) (l : Label) (e : Event) : Prop where
  /-- Nothing is allocated, linked, unlinked, handed over or freed. -/
  | quiet (hlabel : ∀ t, l ≠ .exitBucket t) (hallocs : s'.allocs = s.allocs) (hfrees : s'.frees = s.frees)
      (hentries : ∀ b, s.IsLeader b.1 → s'.entries b = s.entries b)
      (hholds : ∀ x a, s'.Holds x a ↔ s.Holds x a)
  /-- `t` gets the new pair `a`. -/
  | alloc (t : TaskPtr) (tx : Task) (a : Addr) (hlabel : ∀ t, l ≠ .exitBucket t) (ht : s.task t = some tx)
      (hpc : tx.pc = .user) (hevent : e = .kmalloc tx.tgid a) (hnew : a ∉ s.allocs)
      (hallocs : s'.allocs = a :: s.allocs)
      (hfrees : s'.frees = s.frees) (hentries : ∀ b, s.IsLeader b.1 → s'.entries b = s.entries b)
      (hholds : ∀ x c, s'.Holds x c ↔ (x = t ∧ c = a) ∨ s.Holds x c)
  /-- The pair `a` that `t` holds becomes the first of the bucket `b`. -/
  | link (t : TaskPtr) (tx : Task) (b : Bucket) (k v : Int32) (a : Addr) (hlabel : l = .writeLock t k v)
      (ht : s.task t = some tx) (hpc : tx.pc = .writeLocking b k v a) (hlead : s.IsLeader b.1)
      (hallocs : s'.allocs = s.allocs) (hfrees : s'.frees = s.frees)
      (hself : s'.entries b = a :: s.entries b)
      (hentries : ∀ b', s.IsLeader b'.1 → b' ≠ b → s'.entries b' = s.entries b')
      (hholds : ∀ x c, s'.Holds x c ↔ x ≠ t ∧ s.Holds x c)
  /-- `t` frees the pair `a` it holds. -/
  | free (t : TaskPtr) (a : Addr) (hlabel : ∀ t, l ≠ .exitBucket t) (hheld : s.Holds t a)
      (hallocs : s'.allocs = s.allocs)
      (hfrees : ∀ c, s'.frees c = if c = a then s.frees c + 1 else s.frees c)
      (hentries : ∀ b, s.IsLeader b.1 → s'.entries b = s.entries b)
      (hholds : ∀ x c, s'.Holds x c ↔ x ≠ t ∧ s.Holds x c)
  /-- The pairs of the bucket `b` are unlinked and freed. -/
  | drain (b : Bucket) (hlabel : l = .exitBucket b.1) (hlead : s.IsLeader b.1)
      (hpc : ∃ tx, s.task b.1 = some tx ∧ tx.pc = .exiting b.2) (hallocs : s'.allocs = s.allocs)
      (hfrees : ∀ c, s'.frees c = if c ∈ s.entries b then s.frees c + 1 else s.frees c)
      (hself : s'.entries b = [])
      (hentries : ∀ b', s.IsLeader b'.1 → b' ≠ b → s'.entries b' = s.entries b')
      (hholds : ∀ x a, s'.Holds x a ↔ s.Holds x a)

theorem holds_iff (ht : s.task t = some tx) : s.Holds t a ↔ tx.pc.newKv = some a := by
  constructor
  · rintro ⟨tx', ht', ha⟩
    rw [ht] at ht'
    cases ht'
    exact ha
  · exact fun ha => ⟨tx, ht, ha⟩

/-- A task that goes on holding what it holds. -/
theorem holds_setTask (ht : s.task t = some tx) {u : Task} (hu : u.pc.newKv = tx.pc.newKv) :
    (s.setTask t u).Holds x a ↔ s.Holds x a := by
  by_cases hxt : x = t
  · subst hxt
    rw [holds_iff ht, holds_iff (setTask_task_eq_some_iff.mpr (.inl ⟨rfl, rfl⟩)), hu]
  · constructor
    · rintro ⟨tx', hx, ha⟩
      rcases setTask_task_eq_some_iff.mp hx with ⟨rfl, -⟩ | ⟨-, hx⟩
      · exact absurd rfl hxt
      · exact ⟨tx', hx, ha⟩
    · rintro ⟨tx', hx, ha⟩
      exact ⟨tx', setTask_task_eq_some_iff.mpr (.inr ⟨hxt, hx⟩), ha⟩

/-- A new task that holds nothing. -/
theorem holds_setTask_of_none {p : TaskPtr} {u : Task} (hp : s.task p = none) (hu : u.pc.newKv = none) :
    (s.setTask p u).Holds x a ↔ s.Holds x a := by
  constructor
  · rintro ⟨tx, hx, ha⟩
    rcases setTask_task_eq_some_iff.mp hx with ⟨-, rfl⟩ | ⟨-, hx⟩
    · rw [hu] at ha
      cases ha
    · exact ⟨tx, hx, ha⟩
  · rintro ⟨tx, hx, ha⟩
    exact ⟨tx, setTask_task_eq_some_iff.mpr (.inr ⟨task_ne_of_none hx hp, hx⟩), ha⟩

/-- A task that goes away and holds nothing. -/
theorem holds_freeTask {p : TaskPtr} {px : Task} (hp : s.task p = some px) (hpc : px.pc.newKv = none) :
    (s.freeTask p).Holds x a ↔ s.Holds x a := by
  constructor
  · rintro ⟨tx, hx, ha⟩
    exact ⟨tx, (freeTask_task_eq_some_iff.mp hx).2, ha⟩
  · rintro ⟨tx, hx, ha⟩
    have hne : x ≠ p := by
      refine task_ne hx hp fun he => ?_
      rw [he, hpc] at ha
      cases ha
    exact ⟨tx, freeTask_task_eq_some_iff.mpr ⟨hne, hx⟩, ha⟩

/-- A task that gives away what it holds. -/
theorem holds_setPc_of_none {pc : Pc} (hpc : pc.newKv = none) :
    (s.setTask t { tx with pc := pc }).Holds x a ↔ x ≠ t ∧ s.Holds x a := by
  rw [holds_setPc_iff, hpc]
  simp

/-- **Memory inversion.** Every step is one of the five. -/
theorem Inv.step_memory (hs : s.Inv) {l : Label} (h : s.step l = some (s', e)) : MemStep s s' l e := by
  cases l with
  | writeAlloc t k v newKv =>
      obtain ⟨tx, b, ht, hpc, -, ⟨-, rfl, -⟩ | ⟨a, -, ha, rfl, rfl⟩⟩ := writeAlloc_cases h
      · exact .quiet (by simp) rfl rfl (fun _ _ => rfl) fun _ _ => Iff.rfl
      · refine .alloc t tx a (by simp) ht hpc rfl ha rfl rfl (fun b hb => ?_) (fun x c => ?_)
        · obtain ⟨l, hl⟩ := hs.store.good b.1 hb b.2
          have hl' : (s.kmalloc a).GoodBucket b l := ⟨hl.chain,
            fun c hc => ⟨List.mem_cons_of_mem _ (hl.allocated c hc).1, (hl.allocated c hc).2⟩, hl.bucket, hl.keys⟩
          rw [hl.entries_eq]
          exact hl'.entries_eq
        · rw [holds_setPc_iff]
          simp only [Pc.newKv, Option.some.injEq, eq_comm (a := a)]
          refine or_congr_right ⟨fun hx => hx.2, fun hx => ⟨?_, hx⟩⟩
          rintro rfl
          have hheld := (holds_iff ht).mp hx
          rw [hpc] at hheld
          cases hheld
  | writeLock t k v =>
      obtain ⟨tx, b, a, ht, hpc, -, ⟨found, -, rfl⟩ | ⟨hfind, rfl⟩⟩ := writeLock_cases h
      · exact .quiet (by simp) rfl rfl (fun _ _ => rfl) fun x c =>
          holds_setTask (s := s.setValue found v) ht (by rw [hpc]; rfl)
      · obtain ⟨hb, hk⟩ := hs.store.locking t tx b k v a ht hpc
        have hlead : s.IsLeader b.1 := hb ▸ hs.tasks.isLeader ht (by simp [hpc])
        obtain ⟨halloc, hpprev⟩ := hs.store.held t a ⟨tx, ht, by rw [hpc]; rfl⟩
        obtain ⟨l, hl⟩ := hs.store.good b.1 hlead b.2
        refine .link t tx b k v a rfl ht hpc hlead rfl rfl ?_ (fun b' hb' hne => ?_)
          fun x c => holds_setPc_of_none (s := s.linkPair b a k v) rfl
        · rw [hl.entries_eq]
          exact (hl.linkPair (v := v) hk hfind halloc hpprev).entries_eq
        · obtain ⟨l', hl'⟩ := hs.store.good b'.1 hb' b'.2
          rw [hl'.entries_eq]
          exact (hl'.linkPair_of_ne (k := k) (v := v) hl hne hpprev).entries_eq
  | writeFree t =>
      obtain ⟨tx, a, ht, hpc, -, rfl⟩ := writeFree_cases h
      refine .free t a (by simp) ⟨tx, ht, by rw [hpc]; rfl⟩ rfl (fun c => ?_) (fun _ _ => rfl)
        fun x c => holds_setPc_of_none (s := s.kfree a) rfl
      show Function.update s.frees a (s.frees a + 1) c = _
      by_cases hc : c = a
      · simp [hc]
      · simp [hc]
  | readKv t k =>
      obtain ⟨tx, b, -, -, -, rfl, -⟩ := readStep_cases h
      exact .quiet (by simp) rfl rfl (fun _ _ => rfl) fun _ _ => Iff.rfl
  | dupTask t p c =>
      obtain ⟨tx, ht, hpc, hp, -, rfl⟩ := dupTask_cases h
      have hpt : t ≠ p := task_ne_of_none ht hp
      refine .quiet (by simp) rfl rfl (fun b hb => ?_) fun x a => ?_
      · exact entries_setFirst (if_neg (hb.ne_of_none hp))
      · refine (holds_setTask (setTask_task_eq_some_iff.mpr (.inr ⟨hpt, ht⟩)) (by rw [hpc]; rfl)).trans ?_
        exact holds_setTask_of_none (s := { s.dupHeads t p with tasklist := p :: s.tasklist }) hp rfl
  | forkInit t pid =>
      obtain ⟨tx, p, c, px, ht, hpc, hp, hppc, -, -, rfl⟩ := forkInit_cases h
      have hpt : t ≠ p := task_ne ht hp (by simp [hpc, hppc])
      have hnp : ¬s.IsLeader p := hs.not_isLeader_embryo hp hppc
      rw [kvStoreInit_setTask]
      refine .quiet (by simp) kvStoreInit_allocs kvStoreInit_frees (fun b hb => ?_) fun x a => ?_
      · show (s.kvStoreInit p (childTask tx p pid c)).entries b = s.entries b
        unfold kvStoreInit
        split
        · rfl
        · exact entries_setFirst (if_neg fun he : b.1 = p => hnp (he ▸ hb))
      · have ht' : ((s.kvStoreInit p (childTask tx p pid c)).setTask p (childTask tx p pid c)).task t = some tx :=
          setTask_task_eq_some_iff.mpr (.inr ⟨hpt, by rw [kvStoreInit_task]; exact ht⟩)
        rw [holds_setTask ht' (by rw [hpc]; rfl), holds_setTask (by rw [kvStoreInit_task]; exact hp)
          (by rw [hppc, childTask_pc]; rfl)]
        simp only [Holds, kvStoreInit_task]
  | forkFail t err callee =>
      obtain ⟨tx, ht, -, ⟨-, -, rfl⟩ | ⟨p, px, hp, rfl, hstage⟩⟩ := forkFail_cases h
      · exact .quiet (by simp) rfl rfl (fun _ _ => rfl) fun _ _ => Iff.rfl
      · obtain ⟨hppc, hpc, hpt⟩ : px.pc.newKv = none ∧ tx.pc.newKv = none ∧ t ≠ p := by
          rcases hstage with ⟨-, ⟨c, hpc⟩, hppc⟩ | ⟨-, hpc, hppc⟩
          · exact ⟨by rw [hppc]; rfl, by rw [hpc]; rfl, task_ne ht hp (by simp [hpc, hppc])⟩
          · exact ⟨by rw [hppc]; rfl, by rw [hpc]; rfl, task_ne ht hp (by simp [hpc, hppc])⟩
        refine .quiet (by simp) rfl rfl (fun _ _ => rfl) fun x a => ?_
        rw [holds_setTask (freeTask_task_eq_some_iff.mpr ⟨hpt, ht⟩) (by rw [hpc]; rfl)]
        exact holds_freeTask hp hppc
  | forkDone t =>
      obtain ⟨tx, p, px, ht, hpc, hp, hppc, -, rfl⟩ := forkDone_cases h
      have hpt : t ≠ p := task_ne ht hp (by simp [hpc, hppc])
      refine .quiet (by simp) rfl rfl (fun _ _ => rfl) fun x c => ?_
      rw [holds_setTask (setTask_task_eq_some_iff.mpr (.inr ⟨hpt, ht⟩)) (by rw [hpc]; rfl),
        holds_setTask hp (by rw [hppc]; rfl)]
  | doExit t =>
      obtain ⟨tx, ht, hpc, -, rfl⟩ := doExit_cases h
      refine .quiet (by simp) rfl rfl (fun _ _ => rfl) fun x c => holds_setTask ht ?_
      rw [hpc]
      split <;> rfl
  | exitBucket t =>
      obtain ⟨tx, i, ht, hpc, -, rfl⟩ := exitBucket_cases h
      have hlead : s.IsLeader t := ⟨tx, ht, hs.tasks.exiting t tx i ht hpc⟩
      obtain ⟨l, hl⟩ := hs.store.good t hlead i
      have hdr := hl.drained
      refine .drain (t, i) rfl hlead ⟨tx, ht, hpc⟩ hdr.allocs (fun c => ?_) hdr.goodBucket_self.entries_eq
        (fun b' hb' hne => ?_) fun x c => ?_
      · rw [hl.entries_eq]
        exact hdr.frees c
      · obtain ⟨l', hl'⟩ := hs.store.good b'.1 hb' b'.2
        rw [hl'.entries_eq]
        exact (hdr.goodBucket_of_ne hl hl' hne).entries_eq
      · rw [holds_setTask (by rw [hdr.task]; exact ht) ?_]
        · simp only [Holds, hdr.task]
        · rw [hpc]
          split <;> rfl
  | execve t =>
      obtain ⟨tx, ht, hpc, -, rfl⟩ := execve_cases h
      exact .quiet (by simp) rfl rfl (fun _ _ => rfl) fun x c => holds_setTask ht (by rw [hpc]; rfl)
  | deThread t =>
      obtain ⟨tx, ht, hpc, -, -, ⟨-, rfl⟩ | ⟨hne, leader, hl, rfl⟩⟩ := deThread_cases h
      · exact .quiet (by simp) rfl rfl (fun _ _ => rfl) fun x c => holds_setTask ht (by rw [hpc]; rfl)
      · refine .quiet (by simp) rfl rfl (fun _ _ => rfl) fun x c => ?_
        refine (holds_setTask (setTask_task_eq_some_iff.mpr (.inr ⟨hne.symm, ht⟩)) (by rw [hpc]; rfl)).trans ?_
        exact holds_setTask hl rfl
  | execFail t =>
      obtain ⟨tx, ht, hpc, -, rfl⟩ := execFail_cases h
      exact .quiet (by simp) rfl rfl (fun _ _ => rfl) fun x c => holds_setTask ht (by rw [hpc]; rfl)

/-! ### The loop of `kv_store_exit` as a whole -/

end OsHw.Kv.Kernel
