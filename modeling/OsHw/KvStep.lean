import OsHw.KvInvariant

/-! Every step keeps the invariant. The task part says that a task that is not gone has a group leader
that exists, leads itself and has the group's id as its pid, and that `pid == tgid` holds of leaders only,
which is what `kv_store_init` and `kv_store_exit` test. The one step that needs a condition is the end of
`de_thread` in a thread that is not the leader: its own chain heads, copied when it was created, must be
empty. -/

namespace OsHw.Kv.Kernel

structure TaskInv (s : Kernel) : Prop where
  listed : ∀ x tx, s.task x = some tx → x ∈ s.tasklist
  leader : ∀ x tx, s.task x = some tx → tx.pc ≠ .dead →
    ∃ lx, s.task tx.groupLeader = some lx ∧ lx.groupLeader = tx.groupLeader ∧
      (lx.pid = tx.tgid ∧ lx.tgid = tx.tgid) ∧ lx.pc ≠ .embryo false ∧ (lx.pc = .embryo true → x = tx.groupLeader)
  ids : ∀ x tx, s.task x = some tx → tx.pc ≠ .dead → tx.pc ≠ .embryo false →
    (tx.pid = tx.tgid ↔ tx.groupLeader = x)
  exiting : ∀ x tx i, s.task x = some tx → tx.pc = .exiting i → tx.groupLeader = x

structure Inv (s : Kernel) : Prop where
  tasks : s.TaskInv
  store : s.StoreInv

/-- The heads a thread is about to make the store of its process are empty. -/
def ExecClean (s : Kernel) : Label → Prop
  | .deThread t => ∀ tx, s.task t = some tx → tx.groupLeader ≠ t → ∀ i, s.mem.first (t, i) = none
  | _ => True

section Tasks

variable {s s' : Kernel} {x t p : TaskPtr} {tx px : Task}

/-- A task that is not gone belongs to the store of a leader. -/
theorem TaskInv.isLeader (hs : s.TaskInv) (ht : s.task t = some tx) (hpc : tx.pc ≠ .dead) :
    s.IsLeader tx.groupLeader := by
  obtain ⟨lx, hl, hlead, -⟩ := hs.leader t tx ht hpc
  exact ⟨lx, hl, hlead⟩

theorem TaskInv.congr (hs : s.TaskInv) (htask : s'.task = s.task) (hlist : s'.tasklist = s.tasklist) :
    s'.TaskInv := by
  refine ⟨?_, ?_, ?_, ?_⟩
  · rw [htask, hlist]
    exact hs.listed
  · rw [htask]
    exact hs.leader
  · rw [htask]
    exact hs.ids
  · rw [htask]
    exact hs.exiting

theorem TaskInv.setPc (hs : s.TaskInv) (ht : s.task t = some tx) (hdead : tx.pc ≠ .dead)
    (hembryo : tx.pc ≠ .embryo false) (pc : Pc) (hpc : ∀ b, pc ≠ .embryo b)
    (hexit : ∀ i, pc = .exiting i → tx.groupLeader = t) :
    (s.setTask t { tx with pc := pc }).TaskInv := by
  refine ⟨fun x tx' hx => ?_, fun x tx' hx hd => ?_, fun x tx' hx hd he => ?_, fun x tx' i hx hi => ?_⟩
  · rcases setTask_task_eq_some_iff.mp hx with ⟨rfl, -⟩ | ⟨-, h⟩
    · exact hs.listed x tx ht
    · exact hs.listed x tx' h
  · obtain ⟨lx, hl, hlead, hpid, hf, htr⟩ : ∃ lx, s.task tx'.groupLeader = some lx ∧
        lx.groupLeader = tx'.groupLeader ∧ (lx.pid = tx'.tgid ∧ lx.tgid = tx'.tgid) ∧ lx.pc ≠ .embryo false ∧
        (lx.pc = .embryo true → x = tx'.groupLeader) := by
      rcases setTask_task_eq_some_iff.mp hx with ⟨rfl, rfl⟩ | ⟨-, h⟩
      · exact hs.leader x tx ht hdead
      · exact hs.leader x tx' h hd
    by_cases hlt : tx'.groupLeader = t
    · rw [hlt, ht] at hl
      cases hl
      refine ⟨_, setTask_task_eq_some_iff.mpr (.inl ⟨hlt, rfl⟩), hlead, hpid, hpc false, fun h => ?_⟩
      exact absurd h (hpc true)
    · exact ⟨lx, setTask_task_eq_some_iff.mpr (.inr ⟨hlt, hl⟩), hlead, hpid, hf, htr⟩
  · rcases setTask_task_eq_some_iff.mp hx with ⟨rfl, rfl⟩ | ⟨-, h⟩
    · exact hs.ids x tx ht hdead hembryo
    · exact hs.ids x tx' h hd he
  · rcases setTask_task_eq_some_iff.mp hx with ⟨rfl, rfl⟩ | ⟨-, h⟩
    · exact hexit i hi
    · exact hs.exiting x tx' i h hi

/-- The leader of a task that is neither gone nor under construction is not under construction. -/
theorem TaskInv.leader_not_embryo (hs : s.TaskInv) (ht : s.task t = some tx) (hdead : tx.pc ≠ .dead)
    (hpc : ∀ b, tx.pc ≠ .embryo b) :
    ∃ lx, s.task tx.groupLeader = some lx ∧ lx.groupLeader = tx.groupLeader ∧
      (lx.pid = tx.tgid ∧ lx.tgid = tx.tgid) ∧ ∀ b, lx.pc ≠ .embryo b := by
  obtain ⟨lx, hl, hlead, hpid, hf, htr⟩ := hs.leader t tx ht hdead
  refine ⟨lx, hl, hlead, hpid, fun b => ?_⟩
  cases b with
  | false => exact hf
  | true =>
      intro h
      have hself := htr h
      rw [← hself, ht] at hl
      cases hl
      exact hpc true h

/-- A copy of the current task is added under a new address. -/
theorem TaskInv.dup (hs : s.TaskInv) (ht : s.task t = some tx) (hpc : tx.pc = .user) (hp : s.task p = none) :
    ({ s with tasklist := p :: s.tasklist }.setTask p { tx with pc := .embryo false }).TaskInv := by
  have hne : ∀ y ty, s.task y = some ty → y ≠ p := fun y ty hy => task_ne_of_none hy hp
  refine ⟨fun x tx' hx => ?_, fun x tx' hx hd => ?_, fun x tx' hx hd he => ?_, fun x tx' i hx hi => ?_⟩
  · rcases setTask_task_eq_some_iff.mp hx with ⟨rfl, -⟩ | ⟨-, h⟩
    · exact List.mem_cons_self
    · exact List.mem_cons_of_mem _ (hs.listed x tx' h)
  · rcases setTask_task_eq_some_iff.mp hx with ⟨rfl, rfl⟩ | ⟨-, h⟩
    · obtain ⟨lx, hl, hlead, hpid, hemb⟩ := hs.leader_not_embryo ht (by simp [hpc]) (by simp [hpc])
      exact ⟨lx, setTask_task_eq_some_iff.mpr (.inr ⟨hne _ _ hl, hl⟩), hlead, hpid, hemb false,
        fun h => absurd h (hemb true)⟩
    · obtain ⟨lx, hl, hrest⟩ := hs.leader x tx' h hd
      exact ⟨lx, setTask_task_eq_some_iff.mpr (.inr ⟨hne _ _ hl, hl⟩), hrest⟩
  · rcases setTask_task_eq_some_iff.mp hx with ⟨rfl, rfl⟩ | ⟨-, h⟩
    · exact absurd rfl he
    · exact hs.ids x tx' h hd he
  · rcases setTask_task_eq_some_iff.mp hx with ⟨rfl, rfl⟩ | ⟨-, h⟩
    · cases hi
    · exact hs.exiting x tx' i h hi

theorem childTask_pc {pid : Pid} {c : Bool} : (childTask tx p pid c).pc = .embryo true := by
  cases c <;> rfl

/-- A task under construction gets its ids. -/
theorem TaskInv.child (hs : s.TaskInv) {pid : Pid} (cloneThread : Bool) (ht : s.task t = some tx)
    (hdead : tx.pc ≠ .dead) (hemb : ∀ b, tx.pc ≠ .embryo b) (hp : s.task p = some px)
    (hppc : px.pc = .embryo false) (hpid : s.pidFree pid) :
    (s.setTask p (childTask tx p pid cloneThread)).TaskInv := by
  have hpid' : tx.tgid ≠ pid := (hpid t (hs.listed t tx ht) tx ht hdead).2
  obtain ⟨lx, hl, hlead, hlpid, hlemb⟩ := hs.leader_not_embryo ht hdead hemb
  have hlp : tx.groupLeader ≠ p := by
    intro he
    rw [he, hp] at hl
    cases hl
    exact hlemb false hppc
  refine ⟨fun x tx' hx => ?_, fun x tx' hx hd => ?_, fun x tx' hx hd he => ?_, fun x tx' i hx hi => ?_⟩
  · rcases setTask_task_eq_some_iff.mp hx with ⟨rfl, -⟩ | ⟨-, h⟩
    · exact hs.listed x px hp
    · exact hs.listed x tx' h
  · rcases setTask_task_eq_some_iff.mp hx with ⟨rfl, rfl⟩ | ⟨-, h⟩
    · cases cloneThread with
      | true =>
          exact ⟨lx, setTask_task_eq_some_iff.mpr (.inr ⟨hlp, hl⟩), hlead, hlpid, hlemb false,
            fun h => absurd h (hlemb true)⟩
      | false =>
          exact ⟨_, setTask_task_eq_some_iff.mpr (.inl ⟨rfl, rfl⟩), rfl, ⟨rfl, rfl⟩, by simp [childTask_pc],
            fun _ => rfl⟩
    · obtain ⟨ly, hly, hylead, hypid, hyf, hytr⟩ := hs.leader x tx' h hd
      refine ⟨ly, setTask_task_eq_some_iff.mpr (.inr ⟨?_, hly⟩), hylead, hypid, hyf, hytr⟩
      intro he
      rw [he, hp] at hly
      cases hly
      exact hyf hppc
  · rcases setTask_task_eq_some_iff.mp hx with ⟨rfl, rfl⟩ | ⟨-, h⟩
    · cases cloneThread with
      | true => exact ⟨fun h => absurd h.symm hpid', fun h => absurd h hlp⟩
      | false => exact ⟨fun _ => rfl, fun _ => rfl⟩
    · exact hs.ids x tx' h hd he
  · rcases setTask_task_eq_some_iff.mp hx with ⟨rfl, rfl⟩ | ⟨-, h⟩
    · rw [childTask_pc] at hi
      cases hi
    · exact hs.exiting x tx' i h hi

theorem freeTask_task_eq_some_iff : (s.freeTask p).task x = some tx ↔ x ≠ p ∧ s.task x = some tx := by
  by_cases hxp : x = p
  · subst hxp
    simp [freeTask]
  · simp [freeTask, hxp]

/-- A task under construction disappears. -/
theorem TaskInv.freeTask (hs : s.TaskInv) {b : Bool} (hp : s.task p = some px) (hppc : px.pc = .embryo b) :
    (s.freeTask p).TaskInv := by
  refine ⟨fun x tx' hx => ?_, fun x tx' hx hd => ?_, fun x tx' hx hd he => ?_, fun x tx' i hx hi => ?_⟩
  · obtain ⟨hxp, h⟩ := freeTask_task_eq_some_iff.mp hx
    exact List.mem_filter.mpr ⟨hs.listed x tx' h, by simpa using hxp⟩
  · obtain ⟨hxp, h⟩ := freeTask_task_eq_some_iff.mp hx
    obtain ⟨lx, hl, hlead, hpid, hf, htr⟩ := hs.leader x tx' h hd
    refine ⟨lx, freeTask_task_eq_some_iff.mpr ⟨?_, hl⟩, hlead, hpid, hf, htr⟩
    intro he
    rw [he, hp] at hl
    cases hl
    cases b with
    | false => exact hf hppc
    | true => exact hxp ((htr hppc).trans he)
  · obtain ⟨-, h⟩ := freeTask_task_eq_some_iff.mp hx
    exact hs.ids x tx' h hd he
  · exact hs.exiting x tx' i (freeTask_task_eq_some_iff.mp hx).2 hi

/-- `de_thread` hands the leadership to the only thread left. -/
theorem TaskInv.promote (hs : s.TaskInv) {leader : Task} (ht : s.task t = some tx) (hpc : tx.pc = .deThread)
    (hothers : s.othersDead t tx) (hne : tx.groupLeader ≠ t) (hl : s.task tx.groupLeader = some leader) :
    ((s.setTask tx.groupLeader { leader with pid := tx.pid, groupLeader := t }).setTask t
      { tx with pid := leader.pid, groupLeader := t, pc := .user }).TaskInv := by
  obtain ⟨lx, hl', hlead, hpid, -⟩ := hs.leader t tx ht (by simp [hpc])
  rw [hl] at hl'
  cases hl'
  have hldead : leader.pc = .dead := hothers _ (hs.listed _ _ hl) hne leader hl hlead
  -- no other task of the group is left, and `t` led nobody
  have hother : ∀ x tx', x ≠ t → s.task x = some tx' → tx'.pc ≠ .dead →
      tx'.groupLeader ≠ tx.groupLeader ∧ tx'.groupLeader ≠ t := by
    intro x tx' hxt hx hd
    refine ⟨fun he => hd (hothers x (hs.listed x tx' hx) hxt tx' hx he), fun he => ?_⟩
    obtain ⟨ly, hly, hylead, -⟩ := hs.leader x tx' hx hd
    rw [he, ht] at hly
    cases hly
    exact hne (hylead.trans he)
  have hcases : ∀ x tx', ((s.setTask tx.groupLeader { leader with pid := tx.pid, groupLeader := t }).setTask t
      { tx with pid := leader.pid, groupLeader := t, pc := .user }).task x = some tx' →
      (x = t ∧ tx' = { tx with pid := leader.pid, groupLeader := t, pc := .user }) ∨
        (x = tx.groupLeader ∧ tx'.pc = .dead) ∨ (x ≠ t ∧ x ≠ tx.groupLeader ∧ s.task x = some tx') := by
    intro x tx' hx
    rcases setTask_task_eq_some_iff.mp hx with h | ⟨hxt, h⟩
    · exact .inl h
    · rcases setTask_task_eq_some_iff.mp h with ⟨rfl, rfl⟩ | ⟨hxl, h⟩
      · exact .inr (.inl ⟨rfl, hldead⟩)
      · exact .inr (.inr ⟨hxt, hxl, h⟩)
  refine ⟨fun x tx' hx => ?_, fun x tx' hx hd => ?_, fun x tx' hx hd he => ?_, fun x tx' i hx hi => ?_⟩
  · rcases hcases x tx' hx with ⟨rfl, -⟩ | ⟨rfl, -⟩ | ⟨-, -, h⟩
    · exact hs.listed x tx ht
    · exact hs.listed _ leader hl
    · exact hs.listed x tx' h
  · rcases hcases x tx' hx with ⟨rfl, rfl⟩ | ⟨-, h⟩ | ⟨hxt, -, h⟩
    · exact ⟨_, setTask_task_eq_some_iff.mpr (.inl ⟨rfl, rfl⟩), rfl, ⟨hpid.1, rfl⟩, by simp, by simp⟩
    · exact absurd h hd
    · obtain ⟨hxl, hxt'⟩ := hother x tx' hxt h hd
      obtain ⟨ly, hly, hrest⟩ := hs.leader x tx' h hd
      exact ⟨ly, setTask_task_eq_some_iff.mpr (.inr ⟨hxt', setTask_task_eq_some_iff.mpr (.inr ⟨hxl, hly⟩)⟩),
        hrest⟩
  · rcases hcases x tx' hx with ⟨rfl, rfl⟩ | ⟨-, h⟩ | ⟨-, -, h⟩
    · exact ⟨fun _ => rfl, fun _ => hpid.1⟩
    · exact absurd h hd
    · exact hs.ids x tx' h hd he
  · rcases hcases x tx' hx with ⟨rfl, rfl⟩ | ⟨-, h⟩ | ⟨-, -, h⟩
    · cases hi
    · rw [h] at hi
      cases hi
    · exact hs.exiting x tx' i h hi

end Tasks

/-! ### The steps -/

section Steps

variable {s s' : Kernel} {t p : TaskPtr} {tx : Task} {k v : Int32} {e : Event}

/-- A task moves on within its own steps. -/
theorem Inv.setPc (hs : s.Inv) (ht : s.task t = some tx) (pc : Pc) (hdead : tx.pc ≠ .dead)
    (hembryo : tx.pc ≠ .embryo false) (hpc : ∀ b, pc ≠ .embryo b)
    (hexit : ∀ i, pc = .exiting i → tx.groupLeader = t) (hheld : ∀ a, pc.newKv = some a → tx.pc.newKv = some a)
    (hlock : ∀ b k v a, pc ≠ .writeLocking b k v a) : (s.setTask t { tx with pc := pc }).Inv :=
  ⟨hs.tasks.setPc ht hdead hembryo pc hpc hexit,
    hs.store.setPc ht pc hheld fun b k v a h => absurd h (hlock b k v a)⟩

theorem Inv.writeAlloc {newKv : Option Addr} (hs : s.Inv) (h : s.writeAlloc t k v newKv = some (s', e)) :
    s'.Inv := by
  obtain ⟨tx, b, ht, hpc, hb, ⟨-, rfl, -⟩ | ⟨a, -, ha, -, rfl⟩⟩ := writeAlloc_cases h
  · exact hs
  · obtain ⟨hb₁, hb₂⟩ := getHashBucket_eq_some_iff.mp hb
    refine ⟨?_, hs.store.kmalloc ht ha hb₁ hb₂⟩
    exact (hs.tasks.setPc ht (by simp [hpc]) (by simp [hpc]) (.writeLocking b k v a) (by simp)
      (by simp)).congr rfl rfl

theorem Inv.writeLock (hs : s.Inv) (h : s.writeLock t k v = some (s', e)) : s'.Inv := by
  obtain ⟨tx, b, a, ht, hpc, -, ⟨found, -, rfl⟩ | ⟨hfind, rfl⟩⟩ := writeLock_cases h
  · have hs' : (s.setValue found v).Inv := ⟨hs.tasks.congr rfl rfl, hs.store.setValue found⟩
    exact hs'.setPc ht _ (by simp [hpc]) (by simp [hpc]) (by simp) (by simp) (by simp [hpc, Pc.newKv]) (by simp)
  · obtain ⟨hb, hk⟩ := hs.store.locking t tx b k v a ht hpc
    have hlead : s.IsLeader b.1 := hb ▸ hs.tasks.isLeader ht (by simp [hpc])
    refine ⟨?_, hs.store.linkPair ht (by simp [hpc, Pc.newKv]) hlead hk hfind⟩
    exact (hs.tasks.setPc ht (by simp [hpc]) (by simp [hpc]) .user (by simp) (by simp)).congr rfl rfl

theorem Inv.writeFree (hs : s.Inv) (h : s.writeFree t = some (s', e)) : s'.Inv := by
  obtain ⟨tx, a, ht, hpc, -, rfl⟩ := writeFree_cases h
  refine ⟨?_, hs.store.kfree ht (by simp [hpc, Pc.newKv])⟩
  exact (hs.tasks.setPc ht (by simp [hpc]) (by simp [hpc]) .user (by simp) (by simp)).congr rfl rfl

theorem Inv.dupTask {c : Bool} (hs : s.Inv) (h : s.dupTask t p c = some (s', e)) : s'.Inv := by
  obtain ⟨tx, ht, hpc, hp, -, rfl⟩ := dupTask_cases h
  have hpt : t ≠ p := task_ne_of_none ht hp
  have hnp : ∀ x, s.IsLeader x → x ≠ p := fun x hx => hx.ne_of_none hp
  have hlp : tx.groupLeader ≠ p := hnp _ (hs.tasks.isLeader ht (by simp [hpc]))
  -- the copied heads belong to nobody's store, then the new task appears, then the creator moves on
  have hcopy : (s.dupHeads t p).StoreInv :=
    hs.store.rehead _ fun x i hx => if_neg (hnp x hx)
  have hembryo : ({ s.dupHeads t p with tasklist := p :: s.tasklist }.setTask p
      { tx with pc := .embryo false }).StoreInv := by
    refine hcopy.retask _ _ (fun x tx' hx hlead => ?_) (fun x tx' a hx ha => ?_)
      (fun x tx' b k v a hx hw => ?_)
    · rcases setTask_task_eq_some_iff.mp hx with ⟨rfl, rfl⟩ | ⟨-, h⟩
      · exact absurd hlead hlp
      · exact .inl ⟨tx', h, hlead⟩
    · rcases setTask_task_eq_some_iff.mp hx with ⟨rfl, rfl⟩ | ⟨-, h⟩
      · cases ha
      · exact ⟨tx', h, ha⟩
    · rcases setTask_task_eq_some_iff.mp hx with ⟨rfl, rfl⟩ | ⟨-, h⟩
      · cases hw
      · exact hs.store.locking x tx' b k v a h hw
  have hinv : Inv ({ s.dupHeads t p with tasklist := p :: s.tasklist }.setTask p
      { tx with pc := .embryo false }) :=
    ⟨(hs.tasks.dup ht hpc hp).congr rfl rfl, hembryo⟩
  have ht' : ({ s.dupHeads t p with tasklist := p :: s.tasklist }.setTask p
      { tx with pc := .embryo false }).task t = some tx :=
    setTask_task_eq_some_iff.mpr (.inr ⟨hpt, ht⟩)
  exact hinv.setPc ht' _ (by simp [hpc]) (by simp [hpc]) (by simp) (by simp) (by simp [Pc.newKv]) (by simp)

/-- A task under construction leads nobody and is not led by itself before it has its ids. -/
theorem Inv.not_isLeader_embryo (hs : s.Inv) {px : Task} (hp : s.task p = some px)
    (hppc : px.pc = .embryo false) : ¬s.IsLeader p := by
  rintro ⟨px', hp', hlead⟩
  rw [hp] at hp'
  cases hp'
  obtain ⟨lx, hl, -, -, hf, -⟩ := hs.tasks.leader p px hp (by simp [hppc])
  rw [hlead, hp] at hl
  cases hl
  exact hf hppc

theorem kvStoreInit_setTask {u : Task} :
    (s.setTask p u).kvStoreInit p u = (s.kvStoreInit p u).setTask p u := by
  unfold kvStoreInit
  split <;> rfl

@[simp] theorem kvStoreInit_task {u : Task} : (s.kvStoreInit p u).task = s.task := by
  unfold kvStoreInit
  split <;> rfl

@[simp] theorem kvStoreInit_tasklist {u : Task} : (s.kvStoreInit p u).tasklist = s.tasklist := by
  unfold kvStoreInit
  split <;> rfl

@[simp] theorem kvStoreInit_allocs {u : Task} : (s.kvStoreInit p u).allocs = s.allocs := by
  unfold kvStoreInit
  split <;> rfl

@[simp] theorem kvStoreInit_frees {u : Task} : (s.kvStoreInit p u).frees = s.frees := by
  unfold kvStoreInit
  split <;> rfl

theorem Inv.forkInit {pid : Pid} (hs : s.Inv) (h : s.forkInit t pid = some (s', e)) : s'.Inv := by
  obtain ⟨tx, p, c, px, ht, hpc, hp, hppc, hpid, -, rfl⟩ := forkInit_cases h
  have hpt : t ≠ p := task_ne ht hp (by simp [hpc, hppc])
  have hnp : ¬s.IsLeader p := hs.not_isLeader_embryo hp hppc
  have hlp : tx.groupLeader ≠ p := fun he => hnp (he ▸ hs.tasks.isLeader ht (by simp [hpc]))
  have hchild := hs.tasks.child c ht (by simp [hpc]) (by simp [hpc]) hp hppc hpid
  -- `kv_store_init` touches the heads of the child only, and clears them when it leads a group
  have hinit : (s.kvStoreInit p (childTask tx p pid c)).StoreInv := by
    unfold kvStoreInit
    split
    · exact hs.store
    · exact hs.store.rehead _ fun x i hx => if_neg fun he : x = p => hnp (he ▸ hx)
  have htask : (s.kvStoreInit p (childTask tx p pid c)).task = s.task := kvStoreInit_task
  have hstore : ((s.kvStoreInit p (childTask tx p pid c)).setTask p (childTask tx p pid c)).StoreInv := by
    refine hinit.retask _ _ (fun x tx' hx hlead => ?_) (fun x tx' a hx ha => ?_)
      (fun x tx' b k v a hx hw => ?_)
    · rcases setTask_task_eq_some_iff.mp hx with ⟨rfl, rfl⟩ | ⟨-, h⟩
      · cases c with
        | true => exact absurd hlead hlp
        | false =>
            refine .inr fun i => ?_
            simp [kvStoreInit, childTask, setFirst]
      · exact .inl ⟨tx', h, hlead⟩
    · rcases setTask_task_eq_some_iff.mp hx with ⟨rfl, rfl⟩ | ⟨-, h⟩
      · rw [childTask_pc] at ha
        cases ha
      · exact ⟨tx', h, ha⟩
    · rcases setTask_task_eq_some_iff.mp hx with ⟨rfl, rfl⟩ | ⟨-, h⟩
      · rw [childTask_pc] at hw
        cases hw
      · rw [htask] at h
        exact hs.store.locking x tx' b k v a h hw
  have hinv : ((s.setTask p (childTask tx p pid c)).kvStoreInit p (childTask tx p pid c)).Inv := by
    rw [kvStoreInit_setTask]
    refine ⟨hchild.congr ?_ ?_, hstore⟩
    · show Function.update _ _ _ = Function.update _ _ _
      rw [htask]
    · exact kvStoreInit_tasklist
  have ht' : ((s.setTask p (childTask tx p pid c)).kvStoreInit p (childTask tx p pid c)).task t = some tx := by
    rw [kvStoreInit_setTask]
    exact setTask_task_eq_some_iff.mpr (.inr ⟨hpt, by rw [htask]; exact ht⟩)
  exact hinv.setPc ht' _ (by simp [hpc]) (by simp [hpc]) (by simp) (by simp) (by simp [Pc.newKv]) (by simp)

theorem Inv.forkFail {err : ForkError} {callee : Int} (hs : s.Inv)
    (h : s.forkFail t err callee = some (s', e)) : s'.Inv := by
  obtain ⟨tx, ht, -, ⟨-, -, rfl⟩ | ⟨p, px, hp, rfl, hstage⟩⟩ := forkFail_cases h
  · exact hs
  · obtain ⟨b, hppc, hpt, hd, he⟩ : ∃ b, px.pc = .embryo b ∧ t ≠ p ∧ tx.pc ≠ .dead ∧ tx.pc ≠ .embryo false := by
      rcases hstage with ⟨-, ⟨c, hpc⟩, hppc⟩ | ⟨-, hpc, hppc⟩
      · exact ⟨false, hppc, task_ne ht hp (by simp [hpc, hppc]), by simp [hpc], by simp [hpc]⟩
      · exact ⟨true, hppc, task_ne ht hp (by simp [hpc, hppc]), by simp [hpc], by simp [hpc]⟩
    have hinv : (s.freeTask p).Inv := by
      refine ⟨hs.tasks.freeTask hp hppc, hs.store.retask _ _ (fun x tx' hx hlead => ?_)
        (fun x tx' a hx ha => ?_) (fun x tx' b k v a hx hw => ?_)⟩
      · exact .inl ⟨tx', (freeTask_task_eq_some_iff.mp hx).2, hlead⟩
      · exact ⟨tx', (freeTask_task_eq_some_iff.mp hx).2, ha⟩
      · exact hs.store.locking x tx' b k v a (freeTask_task_eq_some_iff.mp hx).2 hw
    exact hinv.setPc (freeTask_task_eq_some_iff.mpr ⟨hpt, ht⟩) _ hd he (by simp) (by simp)
      (by simp [Pc.newKv]) (by simp)

theorem Inv.forkDone (hs : s.Inv) (h : s.forkDone t = some (s', e)) : s'.Inv := by
  obtain ⟨tx, p, px, ht, hpc, hp, hppc, -, rfl⟩ := forkDone_cases h
  have hpt : t ≠ p := task_ne ht hp (by simp [hpc, hppc])
  have hinv : (s.setTask p { px with pc := .user }).Inv :=
    hs.setPc hp _ (by simp [hppc]) (by simp [hppc]) (by simp) (by simp) (by simp [Pc.newKv]) (by simp)
  exact hinv.setPc (setTask_task_eq_some_iff.mpr (.inr ⟨hpt, ht⟩)) _ (by simp [hpc]) (by simp [hpc]) (by simp)
    (by simp) (by simp [Pc.newKv]) (by simp)

theorem Inv.doExit (hs : s.Inv) (h : s.doExit t = some (s', e)) : s'.Inv := by
  obtain ⟨tx, ht, hpc, -, rfl⟩ := doExit_cases h
  refine hs.setPc ht _ (by simp [hpc]) (by simp [hpc]) (fun b => ?_) (fun i hi => ?_) (fun a ha => ?_)
    (fun b k v a => ?_)
  · split <;> simp
  · split at hi
    · cases hi
    · rename_i hid
      exact (hs.tasks.ids t tx ht (by simp [hpc]) (by simp [hpc])).mp (not_not.mp hid)
  · split at ha <;> cases ha
  · split <;> simp

theorem Inv.exitBucket (hs : s.Inv) (h : s.exitBucket t = some (s', e)) : s'.Inv := by
  obtain ⟨tx, i, ht, hpc, -, rfl⟩ := exitBucket_cases h
  have hlead := hs.tasks.exiting t tx i ht hpc
  have hleader : s.IsLeader t := ⟨tx, ht, hlead⟩
  obtain ⟨l, hl⟩ := hs.store.good t hleader i
  have hinv : (s.drainBucket (t, i)).Inv :=
    ⟨hs.tasks.congr hl.drained.task hl.drained.tasklist, hs.store.drain (b := (t, i)) hleader⟩
  refine hinv.setPc (by rw [hl.drained.task]; exact ht) _ (by simp [hpc]) (by simp [hpc]) (fun b => ?_)
    (fun _ _ => hlead) (fun a ha => ?_) (fun b k v a => ?_)
  · split <;> simp
  · split at ha <;> cases ha
  · split <;> simp

theorem Inv.deThread (hs : s.Inv) (hclean : s.ExecClean (.deThread t)) (h : s.deThread t = some (s', e)) :
    s'.Inv := by
  obtain ⟨tx, ht, hpc, hothers, -, ⟨-, rfl⟩ | ⟨hne, leader, hl, rfl⟩⟩ := deThread_cases h
  · exact hs.setPc ht _ (by simp [hpc]) (by simp [hpc]) (by simp) (by simp) (by simp [Pc.newKv]) (by simp)
  · refine ⟨hs.tasks.promote ht hpc hothers hne hl, hs.store.retask _ _ (fun x tx' hx hlead => ?_)
      (fun x tx' a hx ha => ?_) (fun x tx' b k v a hx hw => ?_)⟩
    · rcases setTask_task_eq_some_iff.mp hx with ⟨rfl, -⟩ | ⟨hxt, h⟩
      · exact .inr (hclean tx ht hne)
      · rcases setTask_task_eq_some_iff.mp h with ⟨-, rfl⟩ | ⟨-, h⟩
        · exact absurd hlead.symm hxt
        · exact .inl ⟨tx', h, hlead⟩
    · rcases setTask_task_eq_some_iff.mp hx with ⟨-, rfl⟩ | ⟨-, h⟩
      · cases ha
      · rcases setTask_task_eq_some_iff.mp h with ⟨rfl, rfl⟩ | ⟨-, h⟩
        · exact ⟨leader, hl, ha⟩
        · exact ⟨tx', h, ha⟩
    · rcases setTask_task_eq_some_iff.mp hx with ⟨-, rfl⟩ | ⟨-, h⟩
      · cases hw
      · rcases setTask_task_eq_some_iff.mp h with ⟨rfl, rfl⟩ | ⟨-, h⟩
        · obtain ⟨lx, hl', hlead, -⟩ := hs.tasks.leader t tx ht (by simp [hpc])
          rw [hl] at hl'
          cases hl'
          have hdead := hothers _ (hs.tasks.listed _ _ hl) hne leader hl hlead
          rw [show leader.pc = .writeLocking b k v a from hw] at hdead
          cases hdead
        · exact hs.store.locking x tx' b k v a h hw

/-- **The invariant is preserved by every step** whose execution, if it promotes a thread to leader,
promotes one with empty heads. -/
theorem Inv.step (hs : s.Inv) {l : Label} (hclean : s.ExecClean l) (h : s.step l = some (s', e)) : s'.Inv := by
  cases l with
  | writeAlloc t k v newKv => exact hs.writeAlloc h
  | writeLock t k v => exact hs.writeLock h
  | writeFree t => exact hs.writeFree h
  | readKv t k =>
      obtain ⟨tx, b, -, -, -, rfl, -⟩ := readStep_cases h
      exact hs
  | dupTask t p c => exact hs.dupTask h
  | forkInit t pid => exact hs.forkInit h
  | forkFail t err callee => exact hs.forkFail h
  | forkDone t => exact hs.forkDone h
  | doExit t => exact hs.doExit h
  | exitBucket t => exact hs.exitBucket h
  | execve t =>
      obtain ⟨tx, ht, hpc, -, rfl⟩ := execve_cases h
      exact hs.setPc ht _ (by simp [hpc]) (by simp [hpc]) (by simp) (by simp) (by simp [Pc.newKv]) (by simp)
  | deThread t => exact hs.deThread hclean h
  | execFail t =>
      obtain ⟨tx, ht, hpc, -, rfl⟩ := execFail_cases h
      exact hs.setPc ht _ (by simp [hpc]) (by simp [hpc]) (by simp) (by simp) (by simp [Pc.newKv]) (by simp)

theorem Inv.init (leader : TaskPtr) (pid : Pid) : (Kernel.init leader pid).Inv := by
  have hone : ∀ x tx, (Kernel.init leader pid).task x = some tx → x = leader ∧ tx = ⟨pid, pid, leader, .user⟩ := by
    intro x tx hx
    simp only [Kernel.init, Option.ite_none_right_eq_some, Option.some.injEq] at hx
    exact ⟨hx.1, hx.2.symm⟩
  refine ⟨⟨fun x tx hx => ?_, fun x tx hx _ => ?_, fun x tx hx _ _ => ?_, fun x tx i hx hi => ?_⟩,
    ⟨fun x _ i => ⟨[], .nil _, by simp, by simp, by simp⟩, ?_, ?_, fun x tx b k v a hx hw => ?_, ?_⟩⟩
  · obtain ⟨rfl, -⟩ := hone x tx hx
    exact List.mem_cons_self
  · obtain ⟨rfl, rfl⟩ := hone x tx hx
    exact ⟨_, hx, rfl, ⟨rfl, rfl⟩, by simp, by simp⟩
  · obtain ⟨rfl, rfl⟩ := hone x tx hx
    simp
  · obtain ⟨rfl, rfl⟩ := hone x tx hx
    cases hi
  · rintro x a ⟨tx, hx, ha⟩
    obtain ⟨-, rfl⟩ := hone x tx hx
    cases ha
  · rintro x y a ⟨tx, hx, ha⟩ -
    obtain ⟨-, rfl⟩ := hone x tx hx
    cases ha
  · obtain ⟨-, rfl⟩ := hone x tx hx
    cases hw
  · exact fun _ _ => ⟨rfl, rfl⟩

theorem Inv.run (hs : s.Inv) {ls : List Label} {es : List Event} (hclean : Along Kernel.step ExecClean s ls)
    (h : OsHw.run Kernel.step s ls = some (s', es)) : s'.Inv :=
  run_invariant (fun _ s => s.Inv) ExecClean
    (fun _ _ _ _ _ hs hclean hstep => Inv.step hs hclean hstep) hs hclean h

end Steps

end OsHw.Kv.Kernel
