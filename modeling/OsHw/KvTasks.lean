import OsHw.KvStep

/-! The life of a task. Forwards: a task that is not under construction is never dropped, stays gone once
it is gone and keeps its leader unless `execve` promotes it. Backwards: every task of the next state stayed
where it was, made one of the moves of the system, or was made by `copy_process`. -/

namespace OsHw.Kv

/-- A task whose teardown has begun. -/
def Pc.Gone (pc : Pc) : Prop := pc = .dead ∨ ∃ i, pc = .exiting i

namespace Kernel

variable {s s' : Kernel} {x t : TaskPtr} {tx : Task} {e : Event}

/-- What a step may do to a task that is not under construction. -/
structure Keeps (l : Label) (x : TaskPtr) (tx tx' : Task) : Prop where
  tgid : tx'.tgid = tx.tgid
  embryo : ∀ b, tx'.pc ≠ .embryo b
  gone : tx.pc.Gone → tx'.pc.Gone
  dead : tx.pc = .dead → tx'.pc = .dead
  leader : tx'.groupLeader = tx.groupLeader ∨
    (l.isExec = true ∧ tx.groupLeader ≠ x ∧ tx'.groupLeader = x) ∨ (l.isExec = true ∧ tx.pc = .dead)

theorem Keeps.refl {l : Label} (hemb : ∀ b, tx.pc ≠ .embryo b) : Keeps l x tx tx :=
  ⟨rfl, hemb, id, id, .inl rfl⟩

theorem Keeps.setPc {l : Label} {pc : Pc} (hpc : ∀ b, pc ≠ .embryo b) (hgone : ¬tx.pc.Gone) :
    Keeps l x tx { tx with pc := pc } :=
  ⟨rfl, hpc, fun h => absurd h hgone, fun h => absurd (.inl h) hgone, .inl rfl⟩

/-- The task that moves is in a state it could move from; all others are as they were. -/
theorem setPc_keeps {l : Label} {ty : Task} {pc : Pc} (ht : s.task t = some ty) (hx : s.task x = some tx)
    (hemb : ∀ b, tx.pc ≠ .embryo b) (hself : Keeps l t ty { ty with pc := pc }) :
    ∃ tx', (s.setTask t { ty with pc := pc }).task x = some tx' ∧ Keeps l x tx tx' := by
  by_cases hxt : x = t
  · subst hxt
    rw [ht] at hx
    cases hx
    exact ⟨_, setTask_task_eq_some_iff.mpr (.inl ⟨rfl, rfl⟩), hself⟩
  · exact ⟨tx, setTask_task_eq_some_iff.mpr (.inr ⟨hxt, hx⟩), .refl hemb⟩

/-- A task that is not under construction is never dropped, keeps its group's id and, without `execve`,
its leader. -/
theorem Inv.step_task (hs : s.Inv) {l : Label} (h : s.step l = some (s', e)) (hx : s.task x = some tx)
    (hemb : ∀ b, tx.pc ≠ .embryo b) : ∃ tx', s'.task x = some tx' ∧ Keeps l x tx tx' := by
  cases l with
  | writeAlloc t k₀ v newKv =>
      obtain ⟨ty, b, ht, hpc, -, ⟨-, rfl, rfl⟩ | ⟨a, -, -, rfl, rfl⟩⟩ := writeAlloc_cases h
      · exact ⟨tx, hx, .refl hemb⟩
      · exact setPc_keeps (s := s.kmalloc a) ht hx hemb (.setPc (by simp) (by simp [Pc.Gone, hpc]))
  | writeLock t k₀ v =>
      obtain ⟨ty, b, a, ht, hpc, rfl, ⟨found, -, rfl⟩ | ⟨-, rfl⟩⟩ := writeLock_cases h
      · exact setPc_keeps (s := s.setValue found v) ht hx hemb (.setPc (by simp) (by simp [Pc.Gone, hpc]))
      · exact setPc_keeps (s := s.linkPair b a k₀ v) ht hx hemb (.setPc (by simp) (by simp [Pc.Gone, hpc]))
  | writeFree t =>
      obtain ⟨ty, a, ht, hpc, rfl, rfl⟩ := writeFree_cases h
      exact setPc_keeps (s := s.kfree a) ht hx hemb (.setPc (by simp) (by simp [Pc.Gone, hpc]))
  | readKv t k₀ =>
      obtain ⟨ty, b, -, -, -, rfl, rfl⟩ := readStep_cases h
      exact ⟨tx, hx, .refl hemb⟩
  | dupTask t p c =>
      obtain ⟨ty, ht, hpc, hp, rfl, rfl⟩ := dupTask_cases h
      exact setPc_keeps (setTask_task_eq_some_iff.mpr (.inr ⟨task_ne_of_none ht hp, ht⟩))
        (setTask_task_eq_some_iff.mpr (.inr ⟨task_ne_of_none hx hp, hx⟩)) hemb
        (.setPc (by simp) (by simp [Pc.Gone, hpc]))
  | forkInit t pid =>
      obtain ⟨ty, p, c, px, ht, hpc, hp, hppc, -, rfl, rfl⟩ := forkInit_cases h
      have htask : ∀ y ty', s.task y = some ty' → (∀ b, ty'.pc ≠ .embryo b) →
          ((s.setTask p (childTask ty p pid c)).kvStoreInit p (childTask ty p pid c)).task y = some ty' := by
        intro y ty' hy hty
        rw [kvStoreInit_task]
        exact setTask_task_eq_some_iff.mpr (.inr ⟨task_ne_embryo hy hty hp hppc, hy⟩)
      exact setPc_keeps (htask t ty ht (by simp [hpc])) (htask x tx hx hemb) hemb
        (.setPc (by simp) (by simp [Pc.Gone, hpc]))
  | forkFail t err callee =>
      obtain ⟨ty, ht, rfl, ⟨-, -, rfl⟩ | ⟨p, px, hp, rfl, hstage⟩⟩ := forkFail_cases h
      · exact ⟨tx, hx, .refl hemb⟩
      · obtain ⟨⟨b, hppc⟩, hty⟩ : (∃ b, px.pc = .embryo b) ∧ ((∀ b, ty.pc ≠ .embryo b) ∧ ¬ty.pc.Gone) := by
          rcases hstage with ⟨-, ⟨c, hpc⟩, hppc⟩ | ⟨-, hpc, hppc⟩
          · exact ⟨⟨_, hppc⟩, by simp [hpc], by simp [Pc.Gone, hpc]⟩
          · exact ⟨⟨_, hppc⟩, by simp [hpc], by simp [Pc.Gone, hpc]⟩
        exact setPc_keeps (freeTask_task_eq_some_iff.mpr ⟨task_ne_embryo ht hty.1 hp hppc, ht⟩)
          (freeTask_task_eq_some_iff.mpr ⟨task_ne_embryo hx hemb hp hppc, hx⟩) hemb (.setPc (by simp) hty.2)
  | forkDone t =>
      obtain ⟨ty, p, px, ht, hpc, hp, hppc, rfl, rfl⟩ := forkDone_cases h
      exact setPc_keeps (setTask_task_eq_some_iff.mpr (.inr ⟨task_ne_embryo ht (by simp [hpc]) hp hppc, ht⟩))
        (setTask_task_eq_some_iff.mpr (.inr ⟨task_ne_embryo hx hemb hp hppc, hx⟩)) hemb
        (.setPc (by simp) (by simp [Pc.Gone, hpc]))
  | doExit t =>
      obtain ⟨ty, ht, hpc, rfl, rfl⟩ := doExit_cases h
      refine setPc_keeps ht hx hemb (.setPc (fun b => ?_) (by simp [Pc.Gone, hpc]))
      split <;> simp
  | exitBucket t =>
      obtain ⟨ty, i, ht, hpc, rfl, rfl⟩ := exitBucket_cases h
      obtain ⟨l, hl⟩ := hs.store.good t ⟨ty, ht, hs.tasks.exiting t ty i ht hpc⟩ i
      refine setPc_keeps (by rw [hl.drained.task]; exact ht) (by rw [hl.drained.task]; exact hx) hemb
        ⟨rfl, fun b => ?_, fun _ => ?_, fun hd => ?_, .inl rfl⟩
      · split <;> simp
      · split
        · exact .inr ⟨_, rfl⟩
        · exact .inl rfl
      · rw [hpc] at hd
        cases hd
  | execve t =>
      obtain ⟨ty, ht, hpc, rfl, rfl⟩ := execve_cases h
      exact setPc_keeps ht hx hemb (.setPc (by simp) (by simp [Pc.Gone, hpc]))
  | deThread t =>
      obtain ⟨ty, ht, hpc, hothers, rfl, ⟨-, rfl⟩ | ⟨hne, leader, hl, rfl⟩⟩ := deThread_cases h
      · exact setPc_keeps ht hx hemb (.setPc (by simp) (by simp [Pc.Gone, hpc]))
      · obtain ⟨lx, hl', hlead, -⟩ := hs.tasks.leader t ty ht (by simp [hpc])
        rw [hl] at hl'
        cases hl'
        have hldead := hothers _ (hs.tasks.listed _ _ hl) hne leader hl hlead
        have hgone : ¬ty.pc.Gone := by simp [Pc.Gone, hpc]
        by_cases hxt : x = t
        · -- the thread itself becomes its own leader
          subst hxt
          rw [ht] at hx
          cases hx
          exact ⟨_, setTask_task_eq_some_iff.mpr (.inl ⟨rfl, rfl⟩), rfl, by simp, fun h => absurd h hgone,
            fun h => absurd (.inl h) hgone, .inr (.inl ⟨rfl, hne, rfl⟩)⟩
        · by_cases hxl : x = ty.groupLeader
          · -- the old leader, which is gone, is handed over to it
            subst hxl
            rw [hl] at hx
            cases hx
            exact ⟨_, setTask_task_eq_some_iff.mpr (.inr ⟨hxt, setTask_task_eq_some_iff.mpr (.inl ⟨rfl, rfl⟩)⟩),
              rfl, hemb, id, id, .inr (.inr ⟨rfl, hldead⟩)⟩
          · exact ⟨tx, setTask_task_eq_some_iff.mpr (.inr ⟨hxt, setTask_task_eq_some_iff.mpr (.inr ⟨hxl, hx⟩)⟩),
              .refl hemb⟩
  | execFail t =>
      obtain ⟨ty, ht, hpc, rfl, rfl⟩ := execFail_cases h
      exact setPc_keeps ht hx hemb (.setPc (by simp) (by simp [Pc.Gone, hpc]))

/-- The moves of a task other than those of `execve`, from where it is to where it is next. -/
inductive Moves (l : Label) (x : TaskPtr) (tx : Task) : Pc → Prop where
  | writeAlloc (b : Bucket) (k v : Int32) (a : Addr) (hl : l = .writeAlloc x k v (some a)) (hpc : tx.pc = .user)
      (hb : getHashBucket tx k = some b) : Moves l x tx (.writeLocking b k v a)
  | writeFound (b : Bucket) (k v : Int32) (a : Addr) (hl : l = .writeLock x k v)
      (hpc : tx.pc = .writeLocking b k v a) : Moves l x tx (.writeFreeing a)
  | writeLinked (b : Bucket) (k v : Int32) (a : Addr) (hl : l = .writeLock x k v)
      (hpc : tx.pc = .writeLocking b k v a) : Moves l x tx .user
  | writeFree (a : Addr) (hl : l = .writeFree x) (hpc : tx.pc = .writeFreeing a) : Moves l x tx .user
  | dupTask (p : TaskPtr) (c : Bool) (hl : l = .dupTask x p c) (hpc : tx.pc = .user) : Moves l x tx (.copying p c)
  | forkInit (p : TaskPtr) (c : Bool) (pid : Pid) (hl : l = .forkInit x pid) (hpc : tx.pc = .copying p c) :
      Moves l x tx (.copied p)
  | forkFail (p : TaskPtr) (err : ForkError) (callee : Int) (hl : l = .forkFail x err callee)
      (hpc : (∃ c, tx.pc = .copying p c) ∨ tx.pc = .copied p) : Moves l x tx .user
  | forkDone (p : TaskPtr) (hl : l = .forkDone x) (hpc : tx.pc = .copied p) : Moves l x tx .user
  /-- The child of a finished `copy_process` begins to run. -/
  | wakeUp (t : TaskPtr) (hl : l = .forkDone t) (hpc : tx.pc = .embryo true) : Moves l x tx .user
  | exitThread (hl : l = .doExit x) (hpc : tx.pc = .user) (hid : tx.pid ≠ tx.tgid) : Moves l x tx .dead
  | exitLeader (hl : l = .doExit x) (hpc : tx.pc = .user) (hid : tx.pid = tx.tgid) : Moves l x tx (.exiting 0)
  | exitBucket (i : BucketIdx) (hl : l = .exitBucket x) (hpc : tx.pc = .exiting i) (hi : i.val + 1 < 1024) :
      Moves l x tx (.exiting (i.val + 1))
  | exitDone (i : BucketIdx) (hl : l = .exitBucket x) (hpc : tx.pc = .exiting i) (hi : ¬i.val + 1 < 1024) :
      Moves l x tx .dead

/-- Where a task of the next state comes from: it stayed, it moved, or `copy_process` made it. -/
inductive Origin (s : Kernel) (l : Label) (x : TaskPtr) : Task → Prop where
  | stays (tx : Task) (hx : s.task x = some tx) : Origin s l x tx
  | moves (tx : Task) (pc : Pc) (hx : s.task x = some tx) (hm : Moves l x tx pc) : Origin s l x { tx with pc := pc }
  | dup (t : TaskPtr) (ty : Task) (c : Bool) (hl : l = .dupTask t x c) (ht : s.task t = some ty)
      (hpc : ty.pc = .user) (hx : s.task x = none) : Origin s l x { ty with pc := .embryo false }
  | child (t : TaskPtr) (ty px : Task) (pid : Pid) (c : Bool) (hl : l = .forkInit t pid) (ht : s.task t = some ty)
      (hpc : ty.pc = .copying x c) (hx : s.task x = some px) (hppc : px.pc = .embryo false) :
      Origin s l x (childTask ty x pid c)

theorem Origin.setTask (s₁ : Kernel) {l : Label} {ty tx' : Task} {pc : Pc} (htask : s₁.task = s.task)
    (hy : s.task t = some ty) (hm : Moves l t ty pc) (hx' : (s₁.setTask t { ty with pc := pc }).task x = some tx') :
    s.Origin l x tx' := by
  rcases setTask_task_eq_some_iff.mp hx' with ⟨rfl, rfl⟩ | ⟨-, hx'⟩
  · exact .moves ty pc hy hm
  · exact .stays tx' (by rw [← htask]; exact hx')

/-- **Task inversion.** What a step without `execve` can do to the tasks. -/
theorem Inv.step_origin (hs : s.Inv) {l : Label} (hl : l.isExec = false) (h : s.step l = some (s', e))
    {tx' : Task} (hx' : s'.task x = some tx') : s.Origin l x tx' := by
  cases l with
  | writeAlloc t k v newKv =>
      obtain ⟨ty, b, ht, hpc, hb, ⟨-, rfl, -⟩ | ⟨a, rfl, -, -, rfl⟩⟩ := writeAlloc_cases h
      · exact .stays tx' hx'
      · exact .setTask (s.kmalloc a) rfl ht (.writeAlloc b k v a rfl hpc hb) hx'
  | writeLock t k v =>
      obtain ⟨ty, b, a, ht, hpc, -, ⟨found, -, rfl⟩ | ⟨-, rfl⟩⟩ := writeLock_cases h
      · exact .setTask (s.setValue found v) rfl ht (.writeFound b k v a rfl hpc) hx'
      · exact .setTask (s.linkPair b a k v) rfl ht (.writeLinked b k v a rfl hpc) hx'
  | writeFree t =>
      obtain ⟨ty, a, ht, hpc, -, rfl⟩ := writeFree_cases h
      exact .setTask (s.kfree a) rfl ht (.writeFree a rfl hpc) hx'
  | readKv t k =>
      obtain ⟨ty, b, -, -, -, rfl, -⟩ := readStep_cases h
      exact .stays tx' hx'
  | dupTask t p c =>
      obtain ⟨ty, ht, hpc, hp, -, rfl⟩ := dupTask_cases h
      rcases setTask_task_eq_some_iff.mp hx' with ⟨rfl, rfl⟩ | ⟨-, hx'⟩
      · exact .moves ty _ ht (.dupTask p c rfl hpc)
      · rcases setTask_task_eq_some_iff.mp hx' with ⟨rfl, rfl⟩ | ⟨-, hx'⟩
        · exact .dup t ty c rfl ht hpc hp
        · exact .stays tx' hx'
  | forkInit t pid =>
      obtain ⟨ty, p, c, px, ht, hpc, hp, hppc, -, -, rfl⟩ := forkInit_cases h
      rcases setTask_task_eq_some_iff.mp hx' with ⟨rfl, rfl⟩ | ⟨-, hx'⟩
      · exact .moves ty _ ht (.forkInit p c pid rfl hpc)
      · rw [kvStoreInit_setTask] at hx'
        rcases setTask_task_eq_some_iff.mp hx' with ⟨rfl, rfl⟩ | ⟨-, hx'⟩
        · exact .child t ty px pid c rfl ht hpc hp hppc
        · rw [kvStoreInit_task] at hx'
          exact .stays tx' hx'
  | forkFail t err callee =>
      obtain ⟨ty, ht, -, ⟨-, -, rfl⟩ | ⟨p, px, -, rfl, hstage⟩⟩ := forkFail_cases h
      · exact .stays tx' hx'
      · rcases setTask_task_eq_some_iff.mp hx' with ⟨rfl, rfl⟩ | ⟨-, hx'⟩
        · refine .moves ty _ ht (.forkFail p err callee rfl ?_)
          rcases hstage with ⟨-, hpc, -⟩ | ⟨-, hpc, -⟩
          · exact .inl hpc
          · exact .inr hpc
        · exact .stays tx' (freeTask_task_eq_some_iff.mp hx').2
  | forkDone t =>
      obtain ⟨ty, p, px, ht, hpc, hp, hppc, -, rfl⟩ := forkDone_cases h
      rcases setTask_task_eq_some_iff.mp hx' with ⟨rfl, rfl⟩ | ⟨-, hx'⟩
      · exact .moves ty _ ht (.forkDone p rfl hpc)
      · exact .setTask s rfl hp (.wakeUp t rfl hppc) hx'
  | doExit t =>
      obtain ⟨ty, ht, hpc, -, rfl⟩ := doExit_cases h
      split at hx'
      · rename_i hid
        exact .setTask s rfl ht (.exitThread rfl hpc hid) hx'
      · rename_i hid
        exact .setTask s rfl ht (.exitLeader rfl hpc (not_not.mp hid)) hx'
  | exitBucket t =>
      obtain ⟨ty, i, ht, hpc, -, rfl⟩ := exitBucket_cases h
      obtain ⟨l, hl⟩ := hs.store.good t ⟨ty, ht, hs.tasks.exiting t ty i ht hpc⟩ i
      split at hx'
      · rename_i hi
        exact .setTask _ hl.drained.task ht (.exitBucket i rfl hpc hi) hx'
      · rename_i hi
        exact .setTask _ hl.drained.task ht (.exitDone i rfl hpc hi) hx'
  | execve t => cases hl
  | deThread t => cases hl
  | execFail t => cases hl

/-- A task becomes a leader when its creator sets its ids or when `de_thread` promotes it, with empty
heads in both cases. -/
theorem Inv.step_newLeader (hs : s.Inv) {l : Label} (hclean : s.ExecClean l) (h : s.step l = some (s', e))
    (hx' : s'.IsLeader x) (hx : ¬s.IsLeader x) :
    e = .silent ∧ (∀ i, s'.mem.first (x, i) = none) ∧
      ∀ tx, s.task x = some tx → (∃ b, tx.pc = .embryo b) ∨ tx.pc = .deThread := by
  have hmove : ∀ {s₁ : Kernel} {y : TaskPtr} {ty : Task} {pc : Pc}, s₁.task = s.task → s.task y = some ty →
      ¬(s₁.setTask y { ty with pc := pc }).IsLeader x := by
    intro s₁ y ty pc htask hy hlead
    refine hx ?_
    obtain ⟨tx, htx, hself⟩ := (isLeader_setPc_iff (s := s₁) (by rw [htask]; exact hy)).mp hlead
    exact ⟨tx, by rw [← htask]; exact htx, hself⟩
  cases l with
  | writeAlloc t k₀ v newKv =>
      obtain ⟨ty, b, ht, -, -, ⟨-, rfl, -⟩ | ⟨a, -, -, -, rfl⟩⟩ := writeAlloc_cases h
      · exact absurd hx' hx
      · exact absurd hx' (hmove rfl ht)
  | writeLock t k₀ v =>
      obtain ⟨ty, b, a, ht, -, -, ⟨found, -, rfl⟩ | ⟨-, rfl⟩⟩ := writeLock_cases h
      · exact absurd hx' (hmove rfl ht)
      · exact absurd hx' (hmove rfl ht)
  | writeFree t =>
      obtain ⟨ty, a, ht, -, -, rfl⟩ := writeFree_cases h
      exact absurd hx' (hmove rfl ht)
  | readKv t k₀ =>
      obtain ⟨ty, b, -, -, -, rfl, -⟩ := readStep_cases h
      exact absurd hx' hx
  | dupTask t p c =>
      obtain ⟨ty, ht, hpc, hp, -, rfl⟩ := dupTask_cases h
      obtain ⟨lx, hl, -⟩ := hs.tasks.leader t ty ht (by simp [hpc])
      obtain ⟨tx', hx', hself⟩ := hx'
      rcases setTask_task_eq_some_iff.mp hx' with ⟨rfl, rfl⟩ | ⟨-, hx'⟩
      · exact absurd ⟨ty, ht, hself⟩ hx
      · rcases setTask_task_eq_some_iff.mp hx' with ⟨rfl, rfl⟩ | ⟨-, hx'⟩
        · rw [show ty.groupLeader = x from hself, hp] at hl
          cases hl
        · exact absurd ⟨tx', hx', hself⟩ hx
  | forkInit t pid =>
      obtain ⟨ty, p, c, px, ht, hpc, hp, hppc, -, rfl, rfl⟩ := forkInit_cases h
      obtain ⟨tx', hx', hself⟩ := hx'
      rcases setTask_task_eq_some_iff.mp hx' with ⟨rfl, rfl⟩ | ⟨-, hx'⟩
      · exact absurd ⟨ty, ht, hself⟩ hx
      · rw [kvStoreInit_setTask] at hx'
        rcases setTask_task_eq_some_iff.mp hx' with ⟨rfl, rfl⟩ | ⟨-, hx'⟩
        · cases c with
          | true =>
              have hlead := hs.tasks.isLeader ht (by simp [hpc])
              rw [show ty.groupLeader = x from hself] at hlead
              exact absurd hlead hx
          | false =>
              refine ⟨rfl, fun i => ?_, fun tx htx => ?_⟩
              · simp [kvStoreInit, childTask, setFirst, setTask]
              · rw [hp] at htx
                cases htx
                exact .inl ⟨_, hppc⟩
        · rw [kvStoreInit_task] at hx'
          exact absurd ⟨tx', hx', hself⟩ hx
  | forkFail t err callee =>
      obtain ⟨ty, ht, -, ⟨-, -, rfl⟩ | ⟨p, px, -, rfl, -⟩⟩ := forkFail_cases h
      · exact absurd hx' hx
      · obtain ⟨tx', hx', hself⟩ := hx'
        rcases setTask_task_eq_some_iff.mp hx' with ⟨rfl, rfl⟩ | ⟨-, hx'⟩
        · exact absurd ⟨ty, ht, hself⟩ hx
        · exact absurd ⟨tx', (freeTask_task_eq_some_iff.mp hx').2, hself⟩ hx
  | forkDone t =>
      obtain ⟨ty, p, px, ht, -, hp, -, -, rfl⟩ := forkDone_cases h
      obtain ⟨tx', hx', hself⟩ := hx'
      rcases setTask_task_eq_some_iff.mp hx' with ⟨rfl, rfl⟩ | ⟨-, hx'⟩
      · exact absurd ⟨ty, ht, hself⟩ hx
      · exact absurd ⟨tx', hx', hself⟩ (hmove rfl hp)
  | doExit t =>
      obtain ⟨ty, ht, -, -, rfl⟩ := doExit_cases h
      exact absurd hx' (hmove rfl ht)
  | exitBucket t =>
      obtain ⟨ty, i, ht, hpc, -, rfl⟩ := exitBucket_cases h
      obtain ⟨l, hl⟩ := hs.store.good t ⟨ty, ht, hs.tasks.exiting t ty i ht hpc⟩ i
      exact absurd hx' (hmove hl.drained.task ht)
  | execve t =>
      obtain ⟨ty, ht, -, -, rfl⟩ := execve_cases h
      exact absurd hx' (hmove rfl ht)
  | deThread t =>
      obtain ⟨ty, ht, hpc, -, rfl, ⟨-, rfl⟩ | ⟨hne, leader, hl, rfl⟩⟩ := deThread_cases h
      · exact absurd hx' (hmove rfl ht)
      · obtain ⟨tx', hx', hself⟩ := hx'
        rcases setTask_task_eq_some_iff.mp hx' with ⟨rfl, rfl⟩ | ⟨hxt, hx'⟩
        · refine ⟨rfl, hclean ty ht hne, fun tx htx => ?_⟩
          rw [ht] at htx
          cases htx
          exact .inr hpc
        · rcases setTask_task_eq_some_iff.mp hx' with ⟨-, rfl⟩ | ⟨-, hx'⟩
          · exact absurd hself.symm hxt
          · exact absurd ⟨tx', hx', hself⟩ hx
  | execFail t =>
      obtain ⟨ty, ht, -, -, rfl⟩ := execFail_cases h
      exact absurd hx' (hmove rfl ht)

end Kernel

end OsHw.Kv
