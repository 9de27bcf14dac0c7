import OsHw.KvAccounting
import OsHw.KvLinearizable

/-! Isolation of processes. A child of `copy_process` starts as a byte copy of its creator, chain heads
included, and `kv_store_init` severs the sharing. From then on the store operations of one thread group cannot
be noticed by any other: take them out of a run and all other threads read the same. The proof compares the
two runs step by step; the states agree on everything but the store and the calls in progress of the group
that was silenced. -/

namespace OsHw.Kv

/-- The thread that makes the step, when it is a step of `write_kv` or `read_kv`. -/
def Label.storeCaller : Label → Option TaskPtr
  | .writeAlloc t _ _ _ => some t
  | .writeLock t _ _ => some t
  | .writeFree t => some t
  | .readKv t _ => some t
  | _ => none

/-- The steps of `copy_process`. -/
def Label.isFork : Label → Bool
  | .dupTask _ _ _ | .forkInit _ _ | .forkFail _ _ _ | .forkDone _ => true
  | _ => false

/-- Where a thread is when its store calls are left out. -/
def Pc.hideCall : Pc → Pc
  | .writeLocking _ _ _ _ => .user
  | .writeFreeing _ => .user
  | pc => pc

/-- The reads made outside a group, with what they returned. -/
def Event.readElsewhere (y : TaskPtr) : Event → Option (TaskPtr × TaskPtr × Int32 × Int)
  | .read leader t k r => if leader = y then none else some (leader, t, k, r)
  | _ => none

namespace Kernel

variable {s s' r r' : Kernel} {x y t p : TaskPtr} {tx ty u : Task} {k v : Int32} {e : Event} {a : Addr}
  {es : List Event}

/-- A task as seen when the store calls of the group `y` are left out. -/
def hideCalls (y : TaskPtr) (tx : Task) : Task :=
  if tx.groupLeader = y then { tx with pc := tx.pc.hideCall } else tx

/-- The labels of a run without the store operations of the threads that belong to the group `y` at its end. -/
def withoutCallsOf (s : Kernel) (y : TaskPtr) (ls : List Label) : List Label :=
  ls.filter fun l => match l.storeCaller with
    | some t => !decide ((s.task t).map (·.groupLeader) = some y)
    | none => true

/-- The states of a run and of the run without the store calls of the group `y`. -/
structure Similar (y : TaskPtr) (s r : Kernel) : Prop where
  left : s.Inv
  right : r.Inv
  tasklist : r.tasklist = s.tasklist
  task : ∀ x, r.task x = (s.task x).map (hideCalls y)
  allocs : r.allocs ⊆ s.allocs
  lookup : ∀ x, x ≠ y → s.IsLeader x → ∀ k, r.lookup x k = s.lookup x k

@[simp] theorem hideCalls_groupLeader : (hideCalls y tx).groupLeader = tx.groupLeader := by
  unfold hideCalls
  split <;> rfl

theorem hideCalls_of_ne (h : tx.groupLeader ≠ y) : hideCalls y tx = tx := if_neg h

theorem hideCalls_of_pc (h : tx.pc.hideCall = tx.pc) : hideCalls y tx = tx := by
  unfold hideCalls
  split
  · rw [h]
  · rfl

theorem hideCalls_eq (h : tx.groupLeader ≠ y ∨ tx.pc.hideCall = tx.pc) : hideCalls y tx = tx :=
  h.elim hideCalls_of_ne hideCalls_of_pc

/-- Both states change the same task in the same way. -/
theorem map_setTask (htask : ∀ x, r.task x = (s.task x).map (hideCalls y)) (hu : hideCalls y u = u) (x : TaskPtr) :
    (r.setTask t u).task x = ((s.setTask t u).task x).map (hideCalls y) := by
  by_cases hxt : x = t
  · subst hxt
    simp [Kernel.setTask, hu]
  · simp [Kernel.setTask, hxt, htask]

theorem isLeader_map (htask : ∀ x, r.task x = (s.task x).map (hideCalls y)) : r.IsLeader x ↔ s.IsLeader x := by
  constructor
  · rintro ⟨tx, hx, hlead⟩
    rw [htask, Option.map_eq_some_iff] at hx
    obtain ⟨tx', hx, rfl⟩ := hx
    exact ⟨tx', hx, by rwa [hideCalls_groupLeader] at hlead⟩
  · rintro ⟨tx, hx, hlead⟩
    exact ⟨hideCalls y tx, by rw [htask, hx, Option.map_some], by rwa [hideCalls_groupLeader]⟩

namespace Similar

theorem task_of_eq (h : Similar y s r) (ht : s.task t = some tx) (hhide : tx.groupLeader ≠ y ∨ tx.pc.hideCall = tx.pc) :
    r.task t = some tx := by
  rw [h.task, ht, Option.map_some, hideCalls_eq hhide]

/-- A step both runs take, with the same event. -/
theorem step (h : Similar y s r) {l : Label} (hl : l.isExec = false) (hs : s.step l = some (s', e))
    (hr : r.step l = some (r', e)) (hlist : r'.tasklist = s'.tasklist)
    (htask : ∀ x, r'.task x = (s'.task x).map (hideCalls y)) (hallocs : r'.allocs ⊆ s'.allocs) :
    Similar y s' r' := by
  refine ⟨h.left.step (execClean_of_isExec hl) hs, h.right.step (execClean_of_isExec hl) hr, hlist, htask, hallocs,
    fun x hxy hx' k => ?_⟩
  by_cases hx : s.IsLeader x
  · rw [h.left.step_lookup hs hx, h.right.step_lookup hr ((isLeader_map h.task).mpr hx)]
    have hsame : r.lookup x = s.lookup x := funext (h.lookup x hxy hx)
    cases e <;> simp only [Event.apply, hsame]
  · obtain ⟨-, hfirst, -⟩ := h.left.step_newLeader (execClean_of_isExec hl) hs hx' hx
    obtain ⟨-, hfirst', -⟩ := h.right.step_newLeader (execClean_of_isExec hl) hr ((isLeader_map htask).mpr hx')
      fun hr => hx ((isLeader_map h.task).mp hr)
    rw [lookup_eq_none_of_first hfirst, lookup_eq_none_of_first hfirst']

/-- Outside the silenced group a locked section finds the key in both runs or in neither. -/
theorem findKey_isSome (h : Similar y s r) {b : Bucket} (hb : b.1 ≠ y) (hlead : s.IsLeader b.1)
    (hk : bucketIdx k = some b.2) : (r.findKey b k).isSome = (s.findKey b k).isSome := by
  have hsame := h.lookup b.1 hb hlead k
  rw [lookup_eq hk, lookup_eq hk] at hsame
  rw [← Option.isSome_map (f := fun a => (r.pair a).value), hsame, Option.isSome_map]

theorem pidFree (h : Similar y s r) {pid : Pid} (hpid : s.pidFree pid) : r.pidFree pid := by
  intro x hx tx htx hdead
  rw [h.tasklist] at hx
  have htx' : r.task x = some tx := htx
  rw [h.task, Option.map_eq_some_iff] at htx'
  obtain ⟨tx', hx', rfl⟩ := htx'
  have hlive : tx'.pc ≠ .dead := by
    intro hd
    rw [hideCalls_of_pc (by rw [hd]; rfl), hd] at hdead
    exact hdead rfl
  have hids := hpid x hx tx' hx' hlive
  unfold hideCalls
  split <;> exact hids

/-- **A step that is kept** is enabled in the run without the calls of `y` and shows the same. -/
theorem keep (h : Similar y s r) {l : Label} (hl : l.isExec = false)
    (hcaller : ∀ t, l.storeCaller = some t → ∀ tx, s.task t = some tx → tx.groupLeader ≠ y)
    (hs : s.step l = some (s', e)) : ∃ r', r.step l = some (r', e) ∧ Similar y s' r' := by
  cases l with
  | writeAlloc t k v newKv =>
      obtain ⟨tx, b, ht, hpc, hb, ⟨rfl, rfl, rfl⟩ | ⟨a, rfl, ha, rfl, rfl⟩⟩ := writeAlloc_cases hs
      · have ht' := h.task_of_eq ht (.inl (hcaller t rfl tx ht))
        exact ⟨r, writeAlloc_none ht' hpc hb, h⟩
      · have hne := hcaller t rfl tx ht
        have ht' := h.task_of_eq ht (.inl hne)
        have hr := writeAlloc_some (v := v) ht' hpc hb fun hmem => ha (h.allocs hmem)
        exact ⟨_, hr, h.step hl hs hr h.tasklist (map_setTask (s := s.kmalloc a) (r := r.kmalloc a) h.task
          (hideCalls_of_ne hne)) (List.cons_subset_cons a h.allocs)⟩
  | writeLock t k v =>
      obtain ⟨tx, b, a, ht, hpc, rfl, hcase⟩ := writeLock_cases hs
      have hne := hcaller t rfl tx ht
      have ht' := h.task_of_eq ht (.inl hne)
      obtain ⟨hb, hk⟩ := h.left.store.locking t tx b k v a ht hpc
      have hsome := h.findKey_isSome (b := b) (hb ▸ hne) (hb ▸ h.left.tasks.isLeader ht (by simp [hpc])) hk
      rcases hcase with ⟨found, hfind, rfl⟩ | ⟨hfind, rfl⟩
      · rw [hfind, Option.isSome_some] at hsome
        obtain ⟨found', hfind'⟩ := Option.isSome_iff_exists.mp hsome
        have hr := writeLock_found ht' hpc hfind'
        exact ⟨_, hr, h.step hl hs hr h.tasklist (map_setTask (s := s.setValue found v) (r := r.setValue found' v)
          h.task (hideCalls_of_ne hne)) h.allocs⟩
      · rw [hfind, Option.isSome_none, Option.isSome_eq_false_iff, Option.isNone_iff_eq_none] at hsome
        have hr := writeLock_linked ht' hpc hsome
        exact ⟨_, hr, h.step hl hs hr h.tasklist (map_setTask (s := s.linkPair b a k v) (r := r.linkPair b a k v)
          h.task (hideCalls_of_ne hne)) h.allocs⟩
  | writeFree t =>
      obtain ⟨tx, a, ht, hpc, rfl, rfl⟩ := writeFree_cases hs
      have hne := hcaller t rfl tx ht
      have hr := writeFree_eq (h.task_of_eq ht (.inl hne)) hpc
      exact ⟨_, hr, h.step hl hs hr h.tasklist (map_setTask (s := s.kfree a) (r := r.kfree a) h.task
        (hideCalls_of_ne hne)) h.allocs⟩
  | readKv t k =>
      obtain ⟨tx, b, ht, hpc, hb, rfl, rfl⟩ := readStep_cases hs
      have hne := hcaller t rfl tx ht
      obtain ⟨hb₁, hb₂⟩ := getHashBucket_eq_some_iff.mp hb
      have hlead := h.left.tasks.isLeader ht (by simp [hpc])
      have hread : r.readLocked b k = s'.readLocked b k := by
        rw [readLocked_eq hb₂, readLocked_eq hb₂, h.lookup b.1 (hb₁ ▸ hne) (hb₁ ▸ hlead)]
      refine ⟨r, ?_, h⟩
      rw [readStep_eq (h.task_of_eq ht (.inl hne)) hpc hb, hread]
  | dupTask t p c =>
      obtain ⟨tx, ht, hpc, hp, rfl, rfl⟩ := dupTask_cases hs
      have ht' := h.task_of_eq ht (.inr (by rw [hpc]; rfl))
      have hr := dupTask_eq (c := c) ht' hpc (by rw [h.task, hp]; rfl)
      refine ⟨_, hr, h.step hl hs hr (congrArg (p :: ·) h.tasklist) (fun x => ?_) h.allocs⟩
      exact map_setTask (map_setTask h.task (hideCalls_of_pc rfl)) (hideCalls_of_pc rfl) x
  | forkInit t pid =>
      obtain ⟨tx, p, c, px, ht, hpc, hp, hppc, hpid, rfl, rfl⟩ := forkInit_cases hs
      have ht' := h.task_of_eq ht (.inr (by rw [hpc]; rfl))
      have hp' := h.task_of_eq hp (.inr (by rw [hppc]; rfl))
      have hr := forkInit_eq ht' hpc hp' hppc (h.pidFree hpid)
      refine ⟨_, hr, h.step hl hs hr ?_ (map_setTask (fun x => ?_) (hideCalls_of_pc rfl)) ?_⟩
      · show (kvStoreInit _ _ _).tasklist = (kvStoreInit _ _ _).tasklist
        rw [kvStoreInit_tasklist, kvStoreInit_tasklist]
        exact h.tasklist
      · rw [kvStoreInit_task, kvStoreInit_task]
        exact map_setTask h.task (hideCalls_of_pc (by rw [childTask_pc]; rfl)) x
      · show (kvStoreInit _ _ _).allocs ⊆ (kvStoreInit _ _ _).allocs
        rw [kvStoreInit_allocs, kvStoreInit_allocs]
        exact h.allocs
  | forkFail t err callee =>
      obtain ⟨tx, ht, rfl, ⟨hst, hpc, rfl⟩ | ⟨p, px, hp, rfl, hstage⟩⟩ := forkFail_cases hs
      · exact ⟨r, forkFail_beforeDup (h.task_of_eq ht (.inr (by rw [hpc]; rfl))) hpc hst, h⟩
      · obtain ⟨r', rfl, hr⟩ : ∃ r', r' = (r.freeTask p).setTask t { tx with pc := .user } ∧
            r.step (.forkFail t err callee) = some (r', .ret t (err.retval callee)) := by
          rcases hstage with ⟨hst, ⟨c, hpc⟩, hppc⟩ | ⟨hst, hpc, hppc⟩
          · exact ⟨_, rfl, forkFail_beforeInit (h.task_of_eq ht (.inr (by rw [hpc]; rfl))) hpc
              (h.task_of_eq hp (.inr (by rw [hppc]; rfl))) hppc hst⟩
          · exact ⟨_, rfl, forkFail_afterInit (h.task_of_eq ht (.inr (by rw [hpc]; rfl))) hpc
              (h.task_of_eq hp (.inr (by rw [hppc]; rfl))) hppc hst⟩
        refine ⟨_, hr, h.step hl hs hr ?_ (map_setTask (fun x => ?_) (hideCalls_of_pc rfl)) h.allocs⟩
        · show r.tasklist.filter (· ≠ p) = s.tasklist.filter (· ≠ p)
          rw [h.tasklist]
        · by_cases hxp : x = p
          · subst hxp
            simp [Kernel.freeTask]
          · simp [Kernel.freeTask, hxp, h.task]
  | forkDone t =>
      obtain ⟨tx, p, px, ht, hpc, hp, hppc, rfl, rfl⟩ := forkDone_cases hs
      have ht' := h.task_of_eq ht (.inr (by rw [hpc]; rfl))
      have hp' := h.task_of_eq hp (.inr (by rw [hppc]; rfl))
      have hr := forkDone_eq ht' hpc hp' hppc
      exact ⟨_, hr, h.step hl hs hr h.tasklist
        (map_setTask (map_setTask h.task (hideCalls_of_pc rfl)) (hideCalls_of_pc rfl)) h.allocs⟩
  | doExit t =>
      obtain ⟨tx, ht, hpc, rfl, rfl⟩ := doExit_cases hs
      have ht' := h.task_of_eq ht (.inr (by rw [hpc]; rfl))
      have hr := doExit_eq ht' hpc
      refine ⟨_, hr, h.step hl hs hr h.tasklist (map_setTask h.task (hideCalls_of_pc ?_)) h.allocs⟩
      split <;> rfl
  | exitBucket t =>
      obtain ⟨tx, i, ht, hpc, rfl, rfl⟩ := exitBucket_cases hs
      have ht' := h.task_of_eq ht (.inr (by rw [hpc]; rfl))
      have hr := exitBucket_eq ht' hpc
      obtain ⟨l, hl₁⟩ := h.left.store.good t ⟨tx, ht, h.left.tasks.exiting t tx i ht hpc⟩ i
      obtain ⟨l', hl₂⟩ := h.right.store.good t ⟨tx, ht', h.right.tasks.exiting t tx i ht' hpc⟩ i
      refine ⟨_, hr, h.step hl hs hr ?_ (map_setTask (fun x => ?_) (hideCalls_of_pc ?_)) ?_⟩
      · exact hl₂.drained.tasklist.trans (h.tasklist.trans hl₁.drained.tasklist.symm)
      · rw [hl₂.drained.task, hl₁.drained.task]
        exact h.task x
      · split <;> rfl
      · show (r.drainBucket (t, i)).allocs ⊆ (s.drainBucket (t, i)).allocs
        rw [hl₂.drained.allocs, hl₁.drained.allocs]
        exact h.allocs
  | execve t => cases hl
  | deThread t => cases hl
  | execFail t => cases hl

/-- A thread of the silenced group moves within its store calls and changes no other group's map. -/
theorem left_move (h : Similar y s r) {l : Label} (hl : l.isExec = false) {pc : Pc} (hs : s.step l = some (s', e))
    (ht : s.task t = some tx) (hy : tx.groupLeader = y) (hpc : tx.pc.hideCall = pc.hideCall)
    (htask : s'.task = (s.setTask t { tx with pc := pc }).task) (hlist : s'.tasklist = s.tasklist)
    (hallocs : s.allocs ⊆ s'.allocs) (hevent : ∀ (m : Stores) x, x ≠ y → e.apply m x = m x) : Similar y s' r := by
  refine ⟨h.left.step (execClean_of_isExec hl) hs, h.right, h.tasklist.trans hlist.symm, fun x => ?_,
    fun a ha => hallocs (h.allocs ha), fun x hxy hx k => ?_⟩
  · rw [h.task, htask]
    by_cases hxt : x = t
    · subst hxt
      rw [ht, setTask_task_eq_some_iff.mpr (.inl ⟨rfl, rfl⟩), Option.map_some, Option.map_some]
      simp only [hideCalls, hy, if_true, hpc]
    · simp [Kernel.setTask, hxt]
  · have hx₀ : s.IsLeader x := by
      obtain ⟨lx, hx, hlead⟩ := hx
      rw [htask] at hx
      exact (isLeader_setPc_iff ht).mp ⟨lx, hx, hlead⟩
    rw [h.left.step_lookup hs hx₀, hevent _ x hxy]
    exact h.lookup x hxy hx₀ k

/-- **A step that is left out** changes nothing the comparison sees and no read elsewhere. -/
theorem drop (h : Similar y s r) {l : Label} (hcaller : l.storeCaller = some t)
    (hown : ∀ tx, s.task t = some tx → tx.groupLeader = y) (hs : s.step l = some (s', e)) :
    Similar y s' r ∧ e.readElsewhere y = none := by
  cases l with
  | writeAlloc t' k v newKv =>
      cases hcaller
      obtain ⟨tx, b, ht, hpc, -, ⟨-, rfl, rfl⟩ | ⟨a, -, -, rfl, rfl⟩⟩ := writeAlloc_cases hs
      · exact ⟨h, rfl⟩
      · exact ⟨h.left_move rfl hs ht (hown tx ht) (by rw [hpc]; rfl) rfl rfl (List.subset_cons_self a s.allocs)
          fun _ _ _ => rfl, rfl⟩
  | writeLock t' k v =>
      cases hcaller
      obtain ⟨tx, b, a, ht, hpc, rfl, hcase⟩ := writeLock_cases hs
      have hb : b.1 = y := (h.left.store.locking t tx b k v a ht hpc).1.trans (hown tx ht)
      have hevent : ∀ (m : Stores) x, x ≠ y → (Event.wrote b.1 k v).apply m x = m x := by
        intro m x hx
        funext k'
        exact if_neg fun he => hx (he.1.trans hb)
      rcases hcase with ⟨found, -, rfl⟩ | ⟨-, rfl⟩
      · exact ⟨h.left_move rfl hs ht (hown tx ht) (by rw [hpc]; rfl) rfl rfl (List.Subset.refl _) hevent, rfl⟩
      · exact ⟨h.left_move rfl hs ht (hown tx ht) (by rw [hpc]; rfl) rfl rfl (List.Subset.refl _) hevent, rfl⟩
  | writeFree t' =>
      cases hcaller
      obtain ⟨tx, a, ht, hpc, rfl, rfl⟩ := writeFree_cases hs
      exact ⟨h.left_move rfl hs ht (hown tx ht) (by rw [hpc]; rfl) rfl rfl (List.Subset.refl _)
        fun _ _ _ => rfl, rfl⟩
  | readKv t' k =>
      cases hcaller
      obtain ⟨tx, b, ht, hpc, hb, rfl, rfl⟩ := readStep_cases hs
      exact ⟨h, if_pos ((getHashBucket_eq_some_iff.mp hb).1.trans (hown tx ht))⟩
  | dupTask | forkInit | forkFail | forkDone | doExit | exitBucket | execve | deThread | execFail => cases hcaller

end Similar

theorem Similar.init (y leader : TaskPtr) (pid : Pid) :
    Similar y (Kernel.init leader pid) (Kernel.init leader pid) where
  left := Inv.init leader pid
  right := Inv.init leader pid
  tasklist := rfl
  task x := by
    simp only [Kernel.init]
    split
    · rw [Option.map_some, hideCalls_of_pc rfl]
    · rfl
  allocs := List.Subset.refl _
  lookup _ _ _ _ := rfl

/-! ### Membership in a group -/

/-- Without `execve` a task that is not under construction is in the same group at the end of the run. -/
theorem Inv.run_groupLeader (hs : s.Inv) {ls : List Label} (hls : ∀ l ∈ ls, l.isExec = false)
    (hrun : OsHw.run Kernel.step s ls = some (s', es)) (hx : s.task x = some tx) (hemb : ∀ b, tx.pc ≠ .embryo b) :
    (s'.task x).map (·.groupLeader) = some tx.groupLeader := by
  induction ls generalizing s tx es with
  | nil =>
      cases hrun
      rw [hx, Option.map_some]
  | cons l ls ih =>
      obtain ⟨hl, hls⟩ := List.forall_mem_cons.mp hls
      obtain ⟨s₁, e, es₁, hstep, hrest, rfl⟩ := run_cons_eq_some_iff.mp hrun
      obtain ⟨tx₁, hx₁, hk⟩ := hs.step_task hstep hx hemb
      rw [ih (hs.step (execClean_of_isExec hl) hstep) hls hrest hx₁ hk.embryo]
      rcases hk.leader with hlead | ⟨hexec, -⟩ | ⟨hexec, -⟩
      · rw [hlead]
      · rw [hl] at hexec
        cases hexec
      · rw [hl] at hexec
        cases hexec

/-- Only a task that runs makes a store call. -/
theorem not_embryo_of_storeCaller {l : Label} (hcaller : l.storeCaller = some t) (hs : s.step l = some (s', e))
    (ht : s.task t = some tx) (b : Bool) : tx.pc ≠ .embryo b := by
  have hwith : ∀ ty, s.task t = some ty → (∀ b, ty.pc ≠ .embryo b) → tx.pc ≠ .embryo b := by
    intro ty hty hemb
    rw [ht] at hty
    cases hty
    exact hemb b
  cases l with
  | writeAlloc t' k v newKv =>
      cases hcaller
      obtain ⟨ty, b, hty, hpc, -⟩ := writeAlloc_cases hs
      exact hwith ty hty (by simp [hpc])
  | writeLock t' k v =>
      cases hcaller
      obtain ⟨ty, b, a, hty, hpc, -⟩ := writeLock_cases hs
      exact hwith ty hty (by simp [hpc])
  | writeFree t' =>
      cases hcaller
      obtain ⟨ty, a, hty, hpc, -⟩ := writeFree_cases hs
      exact hwith ty hty (by simp [hpc])
  | readKv t' k =>
      cases hcaller
      obtain ⟨ty, b, hty, hpc, -⟩ := readStep_cases hs
      exact hwith ty hty (by simp [hpc])
  | dupTask | forkInit | forkFail | forkDone | doExit | exitBucket | execve | deThread | execFail => cases hcaller

/-- The group a thread belongs to at the end is the one it belonged to at each of its store calls. -/
theorem Inv.along_groupLeader (hs : s.Inv) {ls : List Label} (hls : ∀ l ∈ ls, l.isExec = false)
    (hrun : OsHw.run Kernel.step s ls = some (s', es)) :
    Along Kernel.step (fun s l => l.isExec = false ∧ ∀ t, l.storeCaller = some t → ∀ tx, s.task t = some tx →
      (s'.task t).map (·.groupLeader) = some tx.groupLeader) s ls := by
  induction ls generalizing s es with
  | nil => trivial
  | cons l ls ih =>
      obtain ⟨hl, hls'⟩ := List.forall_mem_cons.mp hls
      intro s₁ e hstep
      have hrun' := hrun
      obtain ⟨s₂, e₂, es₂, hstep₂, hrest, rfl⟩ := run_cons_eq_some_iff.mp hrun'
      rw [hstep] at hstep₂
      cases hstep₂
      refine ⟨⟨hl, fun t hcaller tx ht => ?_⟩, ih (hs.step (execClean_of_isExec hl) hstep) hls' hrest⟩
      exact hs.run_groupLeader hls hrun ht (not_embryo_of_storeCaller hcaller hstep ht)

/-- **Noninterference.** The run without the store calls of one group exists and every read in every other
group returns the same. -/
theorem run_withoutCallsOf {leader : TaskPtr} {pid : Pid} {ls : List Label} (hls : ∀ l ∈ ls, l.isExec = false)
    (hrun : OsHw.run Kernel.step (Kernel.init leader pid) ls = some (s, es)) (y : TaskPtr) :
    ∃ r es', OsHw.run Kernel.step (Kernel.init leader pid) (s.withoutCallsOf y ls) = some (r, es') ∧
      es.filterMap (Event.readElsewhere y) = es'.filterMap (Event.readElsewhere y) := by
  suffices h : ∃ r es', OsHw.run Kernel.step (Kernel.init leader pid) (s.withoutCallsOf y ls) = some (r, es') ∧
      Similar y s r ∧ es.filterMap (Event.readElsewhere y) = es'.filterMap (Event.readElsewhere y) by
    obtain ⟨r, es', hrun', -, hvis⟩ := h
    exact ⟨r, es', hrun', hvis⟩
  refine run_filter (Similar y)
    (fun s₀ l => l.isExec = false ∧ ∀ t, l.storeCaller = some t → ∀ tx, s₀.task t = some tx →
      (s.task t).map (·.groupLeader) = some tx.groupLeader) (fun _ _ => True)
    (fun s₀ r₀ l s' e hsim hok hkept hstep => ?_) (fun s₀ r₀ l s' e hsim hok hdropped hstep => ?_)
    (Similar.init y leader pid) ((Inv.init leader pid).along_groupLeader hls hrun)
    (Along.of_forall _ (s.withoutCallsOf y ls) fun _ _ _ => trivial) hrun
  · have hother : ∀ t, l.storeCaller = some t → ∀ tx, s₀.task t = some tx → tx.groupLeader ≠ y := by
      intro t hcaller tx ht hy
      simp [hcaller, hok.2 t hcaller tx ht, hy] at hkept
    obtain ⟨r', hr, hsim'⟩ := hsim.keep hok.1 hother hstep
    exact ⟨r', e, hr, fun _ => ⟨hsim', rfl⟩⟩
  · cases hcaller : l.storeCaller with
    | none =>
        simp only [hcaller] at hdropped
        cases hdropped
    | some t =>
        simp only [hcaller, Bool.not_eq_false', decide_eq_true_eq] at hdropped
        refine hsim.drop hcaller (fun tx ht => ?_) hstep
        rw [hok.2 t hcaller tx ht] at hdropped
        exact Option.some.inj hdropped

/-! ### Creation and failure of a child -/

/-- The chain heads of a leader under construction are empty. -/
theorem TraceInv.first_of_embryo (hs : s.TraceInv es) {px : Task} {b : Bool} (hp : s.task p = some px)
    (hppc : px.pc = .embryo b) (hlead : px.groupLeader = p) (i : BucketIdx) : s.mem.first (p, i) = none := by
  obtain ⟨l, hl⟩ := hs.inv.store.good p ⟨px, hp, hlead⟩ i
  have hnil : l = [] := by
    rw [List.eq_nil_iff_forall_not_mem]
    intro a ha
    obtain ⟨lx, hlx, -, hemb⟩ := hs.leader_of_linked (a := a) (b := (p, i))
      ⟨⟨px, hp, hlead⟩, by rw [hl.entries_eq]; exact ha⟩
    rw [hp] at hlx
    cases hlx
    exact hemb b hppc
  subst hnil
  exact Hlist.Mem.chain_nil_iff.mp hl.chain

/-- No step of `copy_process` allocates, frees, changes or moves a pair, or touches the heads of a leader. -/
theorem Inv.step_isFork (hs : s.Inv) {l : Label} (hl : l.isFork = true) (h : s.step l = some (s', e)) :
    s'.allocs = s.allocs ∧ s'.frees = s.frees ∧ s'.pair = s.pair ∧ s'.mem.next = s.mem.next ∧
      s'.mem.pprev = s.mem.pprev ∧ ∀ x, s.IsLeader x → ∀ i, s'.mem.first (x, i) = s.mem.first (x, i) := by
  cases l with
  | dupTask t p c =>
      obtain ⟨tx, ht, hpc, hp, -, rfl⟩ := dupTask_cases h
      exact ⟨rfl, rfl, rfl, rfl, rfl, fun x hx i => if_neg (hx.ne_of_none hp)⟩
  | forkInit t pid =>
      obtain ⟨tx, p, c, px, ht, hpc, hp, hppc, -, -, rfl⟩ := forkInit_cases h
      have hnp : ∀ x, s.IsLeader x → x ≠ p := fun x hx he => hs.not_isLeader_embryo hp hppc (he ▸ hx)
      rw [kvStoreInit_setTask]
      show (s.kvStoreInit p (childTask tx p pid c)).allocs = s.allocs ∧
        (s.kvStoreInit p (childTask tx p pid c)).frees = s.frees ∧
        (s.kvStoreInit p (childTask tx p pid c)).pair = s.pair ∧
        (s.kvStoreInit p (childTask tx p pid c)).mem.next = s.mem.next ∧
        (s.kvStoreInit p (childTask tx p pid c)).mem.pprev = s.mem.pprev ∧
        ∀ x, s.IsLeader x → ∀ i, (s.kvStoreInit p (childTask tx p pid c)).mem.first (x, i) = s.mem.first (x, i)
      unfold kvStoreInit
      split
      · exact ⟨rfl, rfl, rfl, rfl, rfl, fun _ _ _ => rfl⟩
      · exact ⟨rfl, rfl, rfl, rfl, rfl, fun x hx i => if_neg (hnp x hx)⟩
  | forkFail t err callee =>
      obtain ⟨tx, -, -, ⟨-, -, rfl⟩ | ⟨p, px, -, rfl, -⟩⟩ := forkFail_cases h
      · exact ⟨rfl, rfl, rfl, rfl, rfl, fun _ _ _ => rfl⟩
      · exact ⟨rfl, rfl, rfl, rfl, rfl, fun _ _ _ => rfl⟩
  | forkDone t =>
      obtain ⟨tx, p, px, -, -, -, -, -, rfl⟩ := forkDone_cases h
      exact ⟨rfl, rfl, rfl, rfl, rfl, fun _ _ _ => rfl⟩
  | writeAlloc | writeLock | writeFree | readKv | doExit | exitBucket | execve | deThread | execFail => cases hl

/-- **Isolation.** After any run without `execve`: a child that `copy_process` returns as a new process has an
empty store; the reads of all other groups are those of the run without the store calls of a group; no pair is
reachable from the stores of two leaders; and no step of `copy_process`, its error exits included, frees or
changes a pair or touches the store of a group that exists. -/
theorem processes_isolated {leader : TaskPtr} {pid : Pid} {ls : List Label} (hls : ∀ l ∈ ls, l.isExec = false)
    (hrun : OsHw.run Kernel.step (Kernel.init leader pid) ls = some (s, es)) :
    (∀ t tx p px s' e, s.task t = some tx → tx.pc = .copied p → s.task p = some px → px.groupLeader = p →
      s.step (.forkDone t) = some (s', e) → ∀ i, s'.mem.first (p, i) = none) ∧
    (∀ y, ∃ r es', OsHw.run Kernel.step (Kernel.init leader pid) (s.withoutCallsOf y ls) = some (r, es') ∧
      es.filterMap (Event.readElsewhere y) = es'.filterMap (Event.readElsewhere y)) ∧
    (∀ x y a, s.IsLeader x → s.IsLeader y → s.Reaches x a → s.Reaches y a → x = y) ∧
    ∀ l s' e, l.isFork = true → s.step l = some (s', e) →
      s'.allocs = s.allocs ∧ s'.frees = s.frees ∧ s'.pair = s.pair ∧ s'.mem.next = s.mem.next ∧
        s'.mem.pprev = s.mem.pprev ∧ ∀ x, s.IsLeader x → ∀ i, s'.mem.first (x, i) = s.mem.first (x, i) := by
  have hs : s.TraceInv es := TraceInv.run (along_execClean hls) hrun
  refine ⟨fun t tx p px s' e ht hpc hp hlead h i => ?_, run_withoutCallsOf hls hrun, fun x y a hx hy hax hay => ?_,
    fun l s' e hl h => hs.inv.step_isFork hl h⟩
  · obtain ⟨tx', p', px', ht', hpc', hp', hppc, -, rfl⟩ := forkDone_cases h
    rw [ht] at ht'
    cases ht'
    rw [hpc] at hpc'
    cases hpc'
    rw [hp] at hp'
    cases hp'
    exact hs.first_of_embryo hp hppc hlead i
  · obtain ⟨i, hi⟩ := hs.inv.store.mem_entries_of_reaches hx hax
    obtain ⟨j, hj⟩ := hs.inv.store.mem_entries_of_reaches hy hay
    have hlx : s.Linked a (x, i) := ⟨hx, hi⟩
    have hly : s.Linked a (y, j) := ⟨hy, hj⟩
    exact congrArg Prod.fst (hs.inv.store.linked_unique hlx hly)

/-- A process forks after a write; parent and child write the same key and read it. -/
def forkAndWrite : List Label :=
  [.writeAlloc 1 5 7 (some 100), .writeLock 1 5 7, .dupTask 1 2 false, .forkInit 1 2, .forkDone 1,
    .writeAlloc 2 5 9 (some 101), .writeLock 2 5 9, .readKv 1 5, .readKv 2 5]

theorem processes_isolated_forkAndWrite : ∃ s es r es',
    OsHw.run Kernel.step (Kernel.init 1 1) forkAndWrite = some (s, es) ∧
      OsHw.run Kernel.step (Kernel.init 1 1) (s.withoutCallsOf 2 forkAndWrite) = some (r, es') ∧
      es.filterMap (Event.readElsewhere 2) = [(1, 1, 5, 7)] ∧
      es'.filterMap (Event.readElsewhere 2) = [(1, 1, 5, 7)] := by
  have hview : (OsHw.run Kernel.step (Kernel.init 1 1) forkAndWrite).map
      (fun r => r.2.filterMap (Event.readElsewhere 2)) = some [(1, 1, 5, 7)] := by decide
  obtain ⟨⟨s, es⟩, hrun, hreads⟩ := Option.map_eq_some_iff.mp hview
  obtain ⟨r, es', hrun', hsame⟩ := (processes_isolated (by decide) hrun).2.1 2
  exact ⟨s, es, r, es', hrun, hrun', hreads, by rw [← hsame]; exact hreads⟩

end Kernel

end OsHw.Kv
