import OsHw.VTask

/-! Whose `pid` a vDSO call returns. A page of the mapping is bound when it is first touched, to whatever task
was created or replaced its image last, and the offset in it is read at every call. A run in which every page is
bound, and every offset read, while the global variables describe the process itself returns to every process
its own number. -/

namespace OsHw.VTask.State

variable {L : Layout} {s s' : State} {e : Event} {l : Label} {t : Pid}

/-- The process of every thread has a leader, structures in use are apart and hold the numbers of their tasks, and
what a process has bound or is about to read belongs to its leader. -/
structure Inv (L : Layout) (s : State) : Prop where
  unique : ∀ u ∈ s.tasks, ∀ v ∈ s.tasks, u.pid = v.pid → u = v
  leader : ∀ u ∈ s.tasks, ∃ l ∈ s.tasks, l.pid = u.tgid ∧ l.tgid = u.tgid
  apart : ∀ u ∈ s.tasks, ∀ v ∈ s.tasks, u ≠ v → u.addr + L.size ≤ v.addr ∨ v.addr + L.size ≤ u.addr
  pids : ∀ u ∈ s.tasks, s.mem.load (u.addr + L.pidOffset) 4 = u.pid.toUInt32.toNat
  bound : ∀ u ∈ s.tasks, ∀ l ∈ s.tasks, l.pid = u.tgid → ∀ M, u.mm = some M →
    ∀ i p, 1 ≤ i → s.mms M i = some p → p = ownPage l.addr i
  reading : ∀ u ∈ s.tasks, ∀ l ∈ s.tasks, l.pid = u.tgid → ∀ va, s.pcs u.pid = .reading va →
    va = pageSize + l.addr % pageSize + L.pidOffset
  fresh : ∀ u ∈ s.tasks, ∀ M, u.mm = some M → M < s.nextMm

theorem find_mem {u : Task} (h : s.find t = some u) : u ∈ s.tasks ∧ u.pid = t :=
  ⟨List.mem_of_find?_eq_some h, by simpa using List.find?_some h⟩

theorem find_none {u : Task} (h : s.find t = none) (hu : u ∈ s.tasks) : u.pid ≠ t := by
  rintro rfl
  exact Table.find_eq_none.mp h (List.mem_map_of_mem hu)

/-- The task list of a state is cut down to whole processes or to all but a thread. -/
theorem Inv.restrict (hs : Inv L s) {ts : List Task} (hts : ∀ v ∈ ts, v ∈ s.tasks)
    (hclosed : ∀ v ∈ ts, ∃ l ∈ ts, l.pid = v.tgid ∧ l.tgid = v.tgid) : Inv L { s with tasks := ts } where
  unique u hu v hv := hs.unique u (hts u hu) v (hts v hv)
  leader := hclosed
  apart u hu v hv := hs.apart u (hts u hu) v (hts v hv)
  pids u hu := hs.pids u (hts u hu)
  bound u hu l hl := hs.bound u (hts u hu) l (hts l hl)
  reading u hu l hl := hs.reading u (hts u hu) l (hts l hl)
  fresh u hu := hs.fresh u (hts u hu)

/-- The state after a task has been added, with its number written to its structure and a new address space ready. -/
def insert (s : State) (L : Layout) (u : Task) (v : Vtask) (nextMm : MmId) : State :=
  { mem := s.mem.store (u.addr + L.pidOffset) 4 u.pid.toUInt32.toNat
    tasks := u :: s.tasks
    vtask := v
    mms := Function.update s.mms s.nextMm fun _ => none
    nextMm
    pcs := Function.update s.pcs u.pid .idle }

theorem Inv.insert (hs : Inv L s) {u : Task} {v : Vtask} {nextMm : MmId} (hnew : ∀ v ∈ s.tasks, v.pid ≠ u.pid)
    (hlead : ∃ l ∈ u :: s.tasks, l.pid = u.tgid ∧ l.tgid = u.tgid) (hfree : s.Free L u.addr)
    (hbound : ∀ M, u.mm = some M → M ≠ s.nextMm → ∀ l ∈ u :: s.tasks, l.pid = u.tgid →
      ∀ i p, 1 ≤ i → s.mms M i = some p → p = ownPage l.addr i)
    (hfresh : ∀ M, u.mm = some M → M < nextMm) (hnext : s.nextMm ≤ nextMm) :
    Inv L (s.insert L u v nextMm) := by
  have hpid := L.pid_in
  -- no old task has the new one for its leader
  have hold : ∀ w ∈ s.tasks, ∀ l ∈ u :: s.tasks, l.pid = w.tgid → l ∈ s.tasks := by
    intro w hw l hl hlw
    rcases List.mem_cons.mp hl with rfl | hl
    · obtain ⟨l', hl', hpid', -⟩ := hs.leader w hw
      exact absurd (hpid'.trans hlw.symm) (hnew l' hl')
    · exact hl
  refine ⟨?_, ?_, ?_, ?_, ?_, ?_, ?_⟩
  · intro w hw w' hw' hpids
    rcases List.mem_cons.mp hw with rfl | hw₁
    · rcases List.mem_cons.mp hw' with rfl | hw₂
      · rfl
      · exact absurd hpids.symm (hnew w' hw₂)
    · rcases List.mem_cons.mp hw' with rfl | hw₂
      · exact absurd hpids (hnew w hw₁)
      · exact hs.unique w hw₁ w' hw₂ hpids
  · intro w hw
    rcases List.mem_cons.mp hw with rfl | hw₁
    · exact hlead
    · obtain ⟨l, hl, hrest⟩ := hs.leader w hw₁
      exact ⟨l, List.mem_cons_of_mem _ hl, hrest⟩
  · intro w hw w' hw' hne
    rcases List.mem_cons.mp hw with rfl | hw₁
    · rcases List.mem_cons.mp hw' with rfl | hw₂
      · exact absurd rfl hne
      · exact hfree w' hw₂
    · rcases List.mem_cons.mp hw' with rfl | hw₂
      · exact (hfree w hw₁).symm
      · exact hs.apart w hw₁ w' hw₂ hne
  · intro w hw
    rcases List.mem_cons.mp hw with rfl | hw₁
    · have hlt : w.pid.toUInt32.toNat < 256 ^ 4 := w.pid.toUInt32.toNat_lt
      exact (Mem.load_store_self _ _ _ _).trans (Nat.mod_eq_of_lt hlt)
    · have hdisj := hfree w hw₁
      refine (Mem.load_store_disjoint ?_).trans (hs.pids w hw₁)
      omega
  · intro w hw l hl hlw M hM i p hi hp
    by_cases hMn : M = s.nextMm
    · subst hMn
      simp [State.insert] at hp
    · have hold' : s.mms M i = some p := by simpa [State.insert, hMn] using hp
      rcases List.mem_cons.mp hw with rfl | hw₁
      · exact hbound M hM hMn l hl hlw i p hi hold'
      · exact hs.bound w hw₁ l (hold w hw₁ l hl hlw) hlw M hM i p hi hold'
  · intro w hw l hl hlw va hva
    rcases List.mem_cons.mp hw with rfl | hw₁
    · simp [State.insert] at hva
    · have hva' : s.pcs w.pid = .reading va := by simpa [State.insert, hnew w hw₁] using hva
      exact hs.reading w hw₁ l (hold w hw₁ l hl hlw) hlw va hva'
  · intro w hw M hM
    rcases List.mem_cons.mp hw with rfl | hw₁
    · exact hfresh M hM
    · exact Nat.lt_of_lt_of_le (hs.fresh w hw₁ M hM) hnext

/-- Should page `i` of an address space be bound now, it is bound to the structure of every process that uses the
address space. -/
def BindsOwn (s : State) (M : MmId) (i : Nat) : Prop :=
  1 ≤ i → s.mms M i = none → ∀ u ∈ s.tasks, u.mm = some M → ∀ l ∈ s.tasks, l.pid = u.tgid →
    s.vtask.vtaskPages i = some (ownPage l.addr i)

/-- The condition on one step. A page is bound while `vtask_pages` describes the process that touches it, the offset
is read while `vtask_meta` does, and a new process that shares an address space finds no page of a task bound
there. -/
def Orderly (s : State) : Label → Prop
  | .clone parent _ _ vm thread _ => vm = true → thread = false → ∀ u ∈ s.tasks, u.pid = parent →
      ∀ M, u.mm = some M → ∀ i, 1 ≤ i → s.mms M i = none
  | .touch t i => ∀ u ∈ s.tasks, u.pid = t → ∀ M, u.mm = some M → s.BindsOwn M i
  | .offset t => ∀ u ∈ s.tasks, u.pid = t → ∀ l ∈ s.tasks, l.pid = u.tgid →
      s.vtask.vtaskMeta.taskOffset = l.addr % pageSize
  | .load t => ∀ u ∈ s.tasks, u.pid = t → ∀ M, u.mm = some M → ∀ va, s.pcs t = .reading va →
      s.BindsOwn M (va / pageSize) ∧ s.BindsOwn M ((va + 3) / pageSize)
  | _ => True

theorem touch_eq_some {b : Bound} {v : Vtask} {i j p : Nat} (h : b.touch v i j = some p) :
    b j = some p ∨ (j = i ∧ b i = none ∧ v.vtaskPages i = some p) := by
  rw [Bound.touch] at h
  split at h
  · exact .inl h
  · rename_i hnone
    by_cases hj : j = i
    · subst hj
      rw [Function.update_self] at h
      exact .inr ⟨rfl, by simpa using hnone, h⟩
    · rw [Function.update_of_ne hj] at h
      exact .inl h

theorem touch_eq_none {b : Bound} {v : Vtask} {i j : Nat} (h : b.touch v i j = none) : b j = none := by
  rw [Bound.touch] at h
  split at h
  · exact h
  · rename_i hnone
    by_cases hj : j = i
    · subst hj
      simpa using hnone
    · rwa [Function.update_of_ne hj] at h

/-- A change of what one address space has bound. -/
theorem Inv.setBound (hs : Inv L s) {M : MmId} {b : Bound}
    (hb : ∀ u ∈ s.tasks, u.mm = some M → ∀ l ∈ s.tasks, l.pid = u.tgid →
      ∀ i p, 1 ≤ i → b i = some p → p = ownPage l.addr i) : Inv L (s.setBound M b) where
  unique := hs.unique
  leader := hs.leader
  apart := hs.apart
  pids := hs.pids
  bound u hu l hl hlu M' hM' i p hi hp := by
    by_cases hMM : M' = M
    · subst hMM
      have hp' : b i = some p := by simpa [State.setBound] using hp
      exact hb u hu hM' l hl hlu i p hi hp'
    · have hp' : s.mms M' i = some p := by simpa [State.setBound, hMM] using hp
      exact hs.bound u hu l hl hlu M' hM' i p hi hp'
  reading := hs.reading
  fresh := hs.fresh

theorem Inv.touch_own (hs : Inv L s) {M : MmId} {i : Nat} (hi : s.BindsOwn M i) {u l : Task} (hu : u ∈ s.tasks)
    (hM : u.mm = some M) (hl : l ∈ s.tasks) (hlu : l.pid = u.tgid) {j p : Nat} (hj : 1 ≤ j)
    (h : (s.mms M).touch s.vtask i j = some p) : p = ownPage l.addr j := by
  rcases touch_eq_some h with h | ⟨rfl, hnone, h⟩
  · exact hs.bound u hu l hl hlu M hM j p hj h
  · rw [hi hj hnone u hu hM l hl hlu, Option.some.injEq] at h
    exact h.symm

theorem Inv.touch_own_twice (hs : Inv L s) {M : MmId} {i k : Nat} (hi : s.BindsOwn M i) (hk : s.BindsOwn M k)
    {u l : Task} (hu : u ∈ s.tasks) (hM : u.mm = some M) (hl : l ∈ s.tasks) (hlu : l.pid = u.tgid) {j p : Nat}
    (hj : 1 ≤ j) (h : ((s.mms M).touch s.vtask i).touch s.vtask k j = some p) : p = ownPage l.addr j := by
  rcases touch_eq_some h with h | ⟨rfl, hnone, h⟩
  · exact hs.touch_own hi hu hM hl hlu hj h
  · rw [hk hj (touch_eq_none hnone) u hu hM l hl hlu, Option.some.injEq] at h
    exact h.symm

/-- A thread moves on in its call. -/
theorem Inv.setPc (hs : Inv L s) (t : Pid) {pc : Pc}
    (hpc : ∀ u ∈ s.tasks, u.pid = t → ∀ l ∈ s.tasks, l.pid = u.tgid → ∀ va, pc = .reading va →
      va = pageSize + l.addr % pageSize + L.pidOffset) : Inv L (s.setPc t pc) where
  unique := hs.unique
  leader := hs.leader
  apart := hs.apart
  pids := hs.pids
  bound := hs.bound
  reading u hu l hl hlu va hva := by
    by_cases ht : u.pid = t
    · have hva' : pc = .reading va := by simpa [State.setPc, ht] using hva
      exact hpc u hu ht l hl hlu va hva'
    · have hva' : s.pcs u.pid = .reading va := by simpa [State.setPc, ht] using hva
      exact hs.reading u hu l hl hlu va hva'
  fresh := hs.fresh

/-- What the four bytes read at the end of a call hold, when all is the process's own. -/
theorem Inv.load_own (hs : Inv L s) {u l : Task} (hu : u ∈ s.tasks) (hl : l ∈ s.tasks) (hlu : l.pid = u.tgid)
    {b : Bound} {va : Nat} (hva : s.pcs u.pid = .reading va)
    (hb : ∀ i p, 1 ≤ i → b i = some p → p = ownPage l.addr i) (h₀ : (b (va / pageSize)).isSome)
    (h₃ : (b ((va + 3) / pageSize)).isSome) : (UInt32.ofNat ((b.view s.mem).load va 4)).toInt32 = u.tgid := by
  obtain rfl := hs.reading u hu l hl hlu va hva
  have hshow : ∀ j, j < 4 →
      b.view s.mem (pageSize + l.addr % pageSize + L.pidOffset + j) = s.mem (l.addr + L.pidOffset + j) := by
    intro j hj
    obtain ⟨p, hp⟩ : ∃ p, b ((pageSize + l.addr % pageSize + (L.pidOffset + j)) / pageSize) = some p := by
      rw [← Option.isSome_iff_exists, ← Nat.add_assoc]
      -- a field of four bytes is on one page or on two
      have hpage : (pageSize + l.addr % pageSize + L.pidOffset + j) / pageSize =
            (pageSize + l.addr % pageSize + L.pidOffset) / pageSize ∨
          (pageSize + l.addr % pageSize + L.pidOffset + j) / pageSize =
            (pageSize + l.addr % pageSize + L.pidOffset + 3) / pageSize := by
        simp only [pageSize]
        omega
      rcases hpage with hpage | hpage
      · rwa [hpage]
      · rwa [hpage]
    have hpos : 1 ≤ (pageSize + l.addr % pageSize + (L.pidOffset + j)) / pageSize := by
      simp only [pageSize]
      omega
    have hphys := phys_of_ownPages (hp.trans (congrArg some (hb _ p hpos hp)))
    rw [Nat.add_assoc _ L.pidOffset, Bound.view, hphys, ← Nat.add_assoc]
    rfl
  rw [Mem.load_congr hshow, hs.pids l hl, hlu, UInt32.ofNat_toNat, Int32.toInt32_toUInt32]

/-- A call that returned gave the number of the caller's process, or reported that there is none. -/
def Event.Own (e : Event) : Prop := ∀ g r, e = .returned g r → r = g ∨ r = -1

theorem Event.own_quiet : Event.Own .quiet := fun _ _ h => nomatch h

theorem inv_clone {parent child : Pid} {addr : Nat} {vm thread : Bool} {jiffies : UInt64} (hs : Inv L s)
    (hl : s.Orderly (.clone parent child addr vm thread jiffies))
    (h : s.step L (.clone parent child addr vm thread jiffies) = some (s', e)) : Inv L s' ∧ Event.Own e := by
  simp only [step] at h
  split at h
  · cases h
  rename_i p hparent
  split at h
  · rename_i hguard
    obtain ⟨hchild, hfree, hvm⟩ := hguard
    cases h
    refine ⟨?_, Event.own_quiet⟩
    obtain ⟨hp, hpid⟩ := find_mem hparent
    obtain ⟨q, hq, hqpid, hqtgid⟩ := hs.leader p hp
    have hmm : ∀ M, (s.cloneTask p child addr vm thread).mm = some M →
        M < (s.cloneMm p vm).2 ∧ (M ≠ s.nextMm → vm = true ∧ p.mm = some M) := by
      intro M hM
      simp only [cloneTask, cloneMm] at hM ⊢
      cases hpm : p.mm with
      | none => simp [hpm] at hM
      | some M' =>
          have hlt := hs.fresh p hp M' hpm
          cases vm with
          | true =>
              simp only [hpm, if_true, Option.some.injEq] at hM ⊢
              subst hM
              exact ⟨hlt, fun _ => ⟨trivial, rfl⟩⟩
          | false =>
              simp only [hpm, Bool.false_eq_true, if_false, Option.some.injEq] at hM ⊢
              subst hM
              exact ⟨Nat.lt_succ_self _, fun hne => absurd rfl hne⟩
    have hnext : s.nextMm ≤ (s.cloneMm p vm).2 := by
      rw [cloneMm]
      cases p.mm <;> cases vm <;> simp
    refine hs.insert (u := s.cloneTask p child addr vm thread) (fun v hv => find_none hchild hv) ?_ hfree ?_
      (fun M hM => (hmm M hM).1) hnext
    · cases thread with
      | true => exact ⟨q, List.mem_cons_of_mem _ hq, hqpid, hqtgid⟩
      | false => exact ⟨_, List.mem_cons_self, rfl, rfl⟩
    · intro M hM hne l hl' hlu i page hi hpage
      obtain ⟨hvm', hpM⟩ := (hmm M hM).2 hne
      cases thread with
      | true =>
          rcases List.mem_cons.mp hl' with rfl | hl'
          · exact absurd (hqpid.trans hlu.symm) (find_none hchild hq)
          · exact hs.bound p hp l hl' hlu M hpM i page hi hpage
      | false =>
          rw [hl hvm' rfl p hp hpid M hpM i hi] at hpage
          cases hpage
  · cases h

theorem inv_exec {jiffies : UInt64} (hs : Inv L s) (h : s.step L (.exec t jiffies) = some (s', e)) :
    Inv L s' ∧ Event.Own e := by
  simp only [step] at h
  split at h
  · cases h
  rename_i u hfind
  cases h
  refine ⟨?_, Event.own_quiet⟩
  obtain ⟨hu, -⟩ := find_mem hfind
  have hmem : ∀ v, v ∈ s.tasks.filter (fun v => v.tgid ≠ u.tgid) ↔ v ∈ s.tasks ∧ v.tgid ≠ u.tgid := by
    intro v
    simp [List.mem_filter]
  have hrest : Inv L { s with tasks := s.tasks.filter fun v => v.tgid ≠ u.tgid } := by
    refine hs.restrict (fun v hv => ((hmem v).mp hv).1) fun v hv => ?_
    obtain ⟨hv, hne⟩ := (hmem v).mp hv
    obtain ⟨l, hl, hlpid, hltgid⟩ := hs.leader v hv
    exact ⟨l, (hmem l).mpr ⟨hl, hltgid ▸ hne⟩, hlpid, hltgid⟩
  refine hrest.insert (u := s.execTask u) (fun v hv heq => ?_) ⟨_, List.mem_cons_self, rfl, rfl⟩ (fun v hv => ?_)
    (fun M hM hne => ?_) (fun M hM => ?_) (Nat.le_succ _)
  · obtain ⟨hv, hne⟩ := (hmem v).mp hv
    obtain ⟨l, hl, hlpid, hltgid⟩ := hs.leader u hu
    have hvl : v = l := hs.unique v hv l hl (heq.trans hlpid.symm)
    exact hne (hvl ▸ hltgid)
  · obtain ⟨hv, hne⟩ := (hmem v).mp hv
    exact hs.apart u hu v hv fun huv => hne (huv ▸ rfl)
  · exact absurd (Option.some.inj hM).symm hne
  · exact Option.some.inj hM ▸ Nat.lt_succ_self _

theorem inv_exit (hs : Inv L s) (h : s.step L (.exit t) = some (s', e)) : Inv L s' ∧ Event.Own e := by
  simp only [step] at h
  split at h
  · cases h
  rename_i u hfind
  split at h
  · cases h
  rename_i hguard
  cases h
  refine ⟨?_, Event.own_quiet⟩
  obtain ⟨hu, rfl⟩ := find_mem hfind
  have hmem : ∀ v, v ∈ s.tasks.filter (fun v => v.pid ≠ u.pid) ↔ v ∈ s.tasks ∧ v.pid ≠ u.pid := by
    intro v
    simp [List.mem_filter]
  refine hs.restrict (fun v hv => ((hmem v).mp hv).1) fun v hv => ?_
  obtain ⟨hv', hne⟩ := (hmem v).mp hv
  obtain ⟨l, hl, hlpid, hltgid⟩ := hs.leader v hv'
  refine ⟨l, (hmem l).mpr ⟨hl, fun hlu => hguard ?_⟩, hlpid, hltgid⟩
  have hlu' : l = u := hs.unique l hl u hu hlu
  subst hlu'
  exact ⟨hlpid.trans hltgid.symm, v, hv', hltgid.symm, hne⟩

theorem inv_write {a : Nat} {b : UInt8} (hs : Inv L s) (h : s.step L (.write a b) = some (s', e)) :
    Inv L s' ∧ Event.Own e := by
  simp only [step] at h
  split at h
  · cases h
  rename_i hguard
  cases h
  refine ⟨⟨hs.unique, hs.leader, hs.apart, fun u hu => ?_, hs.bound, hs.reading, hs.fresh⟩, Event.own_quiet⟩
  have hagree : Mem.AgreeOn (Function.update s.mem a b) s.mem (u.addr + L.pidOffset) 4 := by
    intro x h₁ h₂
    refine Function.update_of_ne (fun hxa => hguard ⟨u, hu, ?_⟩) b s.mem
    subst hxa
    exact ⟨h₁, h₂⟩
  exact hagree.load.trans (hs.pids u hu)

theorem inv_touch {i : Nat} (hs : Inv L s) (hl : s.Orderly (.touch t i)) (h : s.step L (.touch t i) = some (s', e)) :
    Inv L s' ∧ Event.Own e := by
  simp only [step] at h
  split at h
  · cases h
  rename_i M hM
  obtain ⟨u, hfind, hM⟩ := Option.bind_eq_some_iff.mp hM
  split at h
  · cases h
    obtain ⟨hu, hpid⟩ := find_mem hfind
    have hown := hl u hu hpid M hM
    refine ⟨hs.setBound fun v hv hvM l hl hlv j p hj hp => ?_, Event.own_quiet⟩
    exact hs.touch_own hown hv hvM hl hlv hj hp
  · cases h

theorem inv_call (hs : Inv L s) (h : s.step L (.call t) = some (s', e)) : Inv L s' ∧ Event.Own e := by
  simp only [step] at h
  split at h
  · cases h
  split at h
  · cases h
  rename_i M hM
  have hbind : Inv L (s.setBound M ((s.mms M).touch s.vtask 0)) := by
    refine hs.setBound fun v hv hvM l hl hlv j p hj hp => ?_
    exact hs.touch_own (fun h => absurd h (by decide)) hv hvM hl hlv hj hp
  split at h
  · split at h
    · cases h
      exact ⟨hbind.setPc t fun _ _ _ _ _ _ _ => (nomatch ·), Event.own_quiet⟩
    · cases h
      refine ⟨hbind, fun g r hr => ?_⟩
      cases hr
      exact .inr rfl
  · cases h

theorem inv_offset (hs : Inv L s) (hl : s.Orderly (.offset t)) (h : s.step L (.offset t) = some (s', e)) :
    Inv L s' ∧ Event.Own e := by
  simp only [step] at h
  split at h
  · cases h
  split at h
  · cases h
    refine ⟨hs.setPc t fun u hu hut l hl' hlu va hva => ?_, Event.own_quiet⟩
    cases hva
    rw [VtaskMetadata.taskStruct, hl u hu hut l hl' hlu]
  · cases h

theorem inv_load (hs : Inv L s) (hl : s.Orderly (.load t)) (h : s.step L (.load t) = some (s', e)) :
    Inv L s' ∧ Event.Own e := by
  simp only [step] at h
  split at h
  · rename_i u va hfind hva
    split at h
    · cases h
    rename_i M hM
    obtain ⟨hu, rfl⟩ := find_mem hfind
    obtain ⟨hown, hown'⟩ := hl u hu rfl M hM va hva
    split at h
    · rename_i hsome
      cases h
      constructor
      · refine Inv.setPc (hs.setBound fun v hv hvM l hl hlv j p hj hp => ?_) _ fun _ _ _ _ _ _ _ hpc => nomatch hpc
        exact hs.touch_own_twice hown hown' hv hvM hl hlv hj hp
      · intro g r hr
        cases hr
        obtain ⟨l, hl, hlu, -⟩ := hs.leader u hu
        refine .inl (hs.load_own hu hl hlu hva (fun i p hi hp => ?_) hsome.1 hsome.2)
        exact hs.touch_own_twice hown hown' hu hM hl hlu hi hp
    · cases h
  · cases h

theorem inv_step (hs : Inv L s) (hl : s.Orderly l) (h : s.step L l = some (s', e)) : Inv L s' ∧ Event.Own e := by
  cases l with
  | clone parent child addr vm thread jiffies => exact inv_clone hs hl h
  | exec t jiffies => exact inv_exec hs h
  | exit t => exact inv_exit hs h
  | write a b => exact inv_write hs h
  | touch t i => exact inv_touch hs hl h
  | call t => exact inv_call hs h
  | offset t => exact inv_offset hs hl h
  | load t => exact inv_load hs hl h

end OsHw.VTask.State
