import Mathlib.Logic.Function.Basic
import OsHw.Run
import OsHw.Fairness

/-! The first calls of `get_thread_socket_stats`. The manager is initialised by whoever finds it is not, without
a lock: the lock is part of what is initialised. Every caller goes through the code one access to the shared
memory at a time, in any order with the others. What an initialisation that comes late destroys is compared
with the exact condition under which it destroys nothing. -/

namespace OsHw.Net.Init

abbrev Caller := Nat

/-- Where a caller stands. `socket_fairness_init` is called from `get_thread_socket_stats`, which goes on to look
the thread up, or from `socket_fairness_module_init`, which returns. -/
inductive Pc where
  | idle
  /-- At the test of `is_initialized` in `get_thread_socket_stats`. -/
  | entry (tid : Tid)
  /-- At the test of `is_initialized` in `socket_fairness_init`. -/
  | initTest (job : Option Tid)
  | initLock (job : Option Tid)
  | initList (job : Option Tid)
  | initLimits (job : Option Tid)
  | initFlag (job : Option Tid)
  | acquire (tid : Tid)
  | lookup (tid : Tid)
  | insert (tid : Tid)
  | release
  deriving DecidableEq, Repr

/-- Where `socket_fairness_init` returns to. -/
def Pc.afterInit : Option Tid → Pc
  | some tid => .acquire tid
  | none => .idle

structure State where
  mgr : SocketFairnessManager
  /-- `socket_fairness_mgr.lock` is held. -/
  held : Bool
  pc : Caller → Pc

inductive Label where
  /-- A caller enters `get_thread_socket_stats(tid, true)`. -/
  | begin (i : Caller) (tid : Tid)
  /-- A caller enters `socket_fairness_module_init`, with the outcome of `proc_create`. -/
  | moduleInit (i : Caller) (procCreate : Bool)
  /-- The next access of a caller, with the outcome of a `kmalloc` it may make. -/
  | next (i : Caller) (kmalloc : Bool)
  /-- `socket_fairness_exit`. -/
  | exit
  deriving DecidableEq, Repr

/-- What a step does to the entries of the list. -/
inductive Note where
  | quiet
  | inserted (tid : Tid)
  | cleared
  deriving DecidableEq, Repr

namespace State

/-- The memory before any caller has run. -/
def init (pastEnd : PastEnd) : State := ⟨.zeroed pastEnd, false, fun _ => .idle⟩

def goto (s : State) (i : Caller) (pc : Pc) : State := { s with pc := Function.update s.pc i pc }

def setHeld (s : State) (held : Bool) : State := { s with held }

def setMgr (s : State) (m : SocketFairnessManager) : State := { s with mgr := m }

@[simp] theorem goto_mgr (s : State) (i : Caller) (pc : Pc) : (s.goto i pc).mgr = s.mgr := rfl

@[simp] theorem goto_held (s : State) (i : Caller) (pc : Pc) : (s.goto i pc).held = s.held := rfl

@[simp] theorem goto_pc (s : State) (i : Caller) (pc : Pc) : (s.goto i pc).pc = Function.update s.pc i pc := rfl

@[simp] theorem setHeld_mgr (s : State) (b : Bool) : (s.setHeld b).mgr = s.mgr := rfl

@[simp] theorem setHeld_held (s : State) (b : Bool) : (s.setHeld b).held = b := rfl

@[simp] theorem setMgr_mgr (s : State) (m : SocketFairnessManager) : (s.setMgr m).mgr = m := rfl

/-- One access of the caller, `none` when it waits for the lock or has nothing to do. -/
def next (s : State) (i : Caller) (kmalloc : Bool) : Option (State × Note) :=
  match s.pc i with
  | .idle => none
  | .entry tid => some (s.goto i (if s.mgr.isInitialized then .acquire tid else .initTest (some tid)), .quiet)
  | .initTest job => some (s.goto i (if s.mgr.isInitialized then .afterInit job else .initLock job), .quiet)
  | .initLock job => some ((s.setHeld false).goto i (.initList job), .quiet)
  | .initList job => some ((s.setMgr { s.mgr with threads := [] }).goto i (.initLimits job), .quiet)
  | .initLimits job =>
      some ((s.setMgr { s.mgr with
        maxSocketsPerThread := 10
        maxPendingPerThread := 5
        throttleThreshold := 1000
        fairnessEnabled := true }).goto i (.initFlag job), .quiet)
  | .initFlag job => some ((s.setMgr { s.mgr with isInitialized := true }).goto i (.afterInit job), .quiet)
  | .acquire tid => if s.held then none else some ((s.setHeld true).goto i (.lookup tid), .quiet)
  | .lookup tid => some (s.goto i (if (s.mgr.entry tid).isSome then .release else .insert tid), .quiet)
  | .insert tid =>
      if kmalloc then
        some ((s.setMgr { s.mgr with threads := .new tid :: s.mgr.threads }).goto i .release, .inserted tid)
      else some (s.goto i .release, .quiet)
  | .release => some ((s.setHeld false).goto i .idle, .quiet)

def step (s : State) : Label → Option (State × Note)
  | .begin i tid => if s.pc i = .idle then some (s.goto i (.entry tid), .quiet) else none
  | .moduleInit i procCreate =>
      if s.pc i = .idle then some (if procCreate then s.goto i (.initTest none) else s, .quiet) else none
  | .next i kmalloc => s.next i kmalloc
  -- the list is emptied under the lock, `is_initialized` stays set
  | .exit => if s.held then none else some (s.setMgr { s.mgr with threads := [] }, .cleared)

section Alone

open SocketFairnessManager

variable {s : State} {i : Caller} {tid : Tid}

@[simp] theorem goto_goto (pc pc' : Pc) : (s.goto i pc).goto i pc' = s.goto i pc' := by simp [goto]

@[simp] theorem goto_setHeld (pc : Pc) (b : Bool) : (s.goto i pc).setHeld b = (s.setHeld b).goto i pc := rfl

@[simp] theorem goto_setMgr (pc : Pc) (m : SocketFairnessManager) :
    (s.goto i pc).setMgr m = (s.setMgr m).goto i pc := rfl

@[simp] theorem setMgr_setMgr (m m' : SocketFairnessManager) : (s.setMgr m).setMgr m' = s.setMgr m' := rfl

theorem setHeld_of_held {b : Bool} (h : s.held = b) : s.setHeld b = s := by
  subst h
  rfl

/-- The locked part of a call that nobody disturbs. -/
theorem run_locked (kmalloc : Bool) (hpc : s.pc i = .acquire tid) (hfree : s.held = false)
    (hinit : s.mgr.isInitialized = true) :
    ∃ n s' os, run step s (List.replicate n (.next i kmalloc)) = some (s', os) ∧
      s'.mgr = (s.mgr.getThreadSocketStats tid true kmalloc).1 ∧ s'.held = false ∧ s'.pc i = .idle := by
  cases hent : s.mgr.entry tid with
  | some st =>
      refine ⟨3, ?_⟩
      simp [run, step, next, hpc, hfree, hent, List.replicate, getThreadSocketStats, socketFairnessInit, hinit]
  | none =>
      refine ⟨4, ?_⟩
      cases kmalloc <;>
        simp [run, step, next, hpc, hfree, hent, List.replicate, getThreadSocketStats, socketFairnessInit, hinit]

/-- **A call alone.** A caller that nobody disturbs does what `get_thread_socket_stats` does in one go. -/
theorem run_alone (tid : Tid) (kmalloc : Bool) (hidle : s.pc i = .idle) (hfree : s.held = false) :
    ∃ n s' os, run step s (.begin i tid :: List.replicate n (.next i kmalloc)) = some (s', os) ∧
      s'.mgr = (s.mgr.getThreadSocketStats tid true kmalloc).1 ∧ s'.held = false ∧ s'.pc i = .idle := by
  -- the state in which the caller waits for the lock
  obtain ⟨n, s', os, hrun, hmgr, hrest⟩ : ∃ n s' os,
      run step ((s.setMgr s.mgr.socketFairnessInit).goto i (.acquire tid))
        (List.replicate n (.next i kmalloc)) = some (s', os) ∧
      s'.mgr = (s.mgr.socketFairnessInit.getThreadSocketStats tid true kmalloc).1 ∧ s'.held = false ∧
      s'.pc i = .idle := by
    refine run_locked kmalloc (by simp) hfree ?_
    cases hinit : s.mgr.isInitialized <;> simp [socketFairnessInit, hinit]
  cases hinit : s.mgr.isInitialized with
  | true =>
      simp only [socketFairnessInit, hinit, if_true] at hrun hmgr
      refine ⟨n + 1, s', .quiet :: .quiet :: os, ?_, hmgr, hrest⟩
      have hrun' : run step (s.goto i (.acquire tid)) (List.replicate n (.next i kmalloc)) = some (s', os) := hrun
      simp [run, step, next, hidle, List.replicate_succ, hinit, hrun']
  | false =>
      have hagain : s.mgr.socketFairnessInit.socketFairnessInit = s.mgr.socketFairnessInit := by
        simp [socketFairnessInit, hinit]
      rw [getThreadSocketStats, hagain] at hmgr
      refine ⟨n + 6, s', List.replicate 7 .quiet ++ os, ?_, hmgr, hrest⟩
      simp only [socketFairnessInit, hinit, Bool.false_eq_true, if_false] at hrun
      simp [run, step, next, hidle, List.replicate, hinit, Pc.afterInit, setHeld_of_held hfree, hrun]

end Alone

/-- The ids of the entries in the list. -/
def tids (s : State) : List Tid := s.mgr.threads.map ThreadSocketStats.tid

end State

/-- The ids inserted since the last `socket_fairness_exit`. -/
def inserted : List Note → List Tid :=
  List.foldl (fun tids note =>
    match note with
    | .quiet => tids
    | .inserted tid => tid :: tids
    | .cleared => []) []

theorem inserted_append (os : List Note) (o : Note) :
    inserted (os ++ [o]) =
      match o with
      | .quiet => inserted os
      | .inserted tid => tid :: inserted os
      | .cleared => [] := by
  rw [inserted, List.foldl_append]
  rfl

namespace State

/-- No thread has two entries, and an entry once inserted is found. -/
def KeepsEntries (os : List Note) (s : State) : Prop :=
  s.tids.Nodup ∧ ∀ tid ∈ inserted os, (s.mgr.entry tid).isSome

/-- The condition on one step: the list head is initialised while the list is empty, and a caller that inserts
an entry still finds none for the thread. -/
def Orderly (s : State) : Label → Prop
  | .next i kmalloc =>
      match s.pc i with
      | .initList _ => s.mgr.threads = []
      | .insert tid => kmalloc = true → s.mgr.entry tid = none
      | _ => True
  | _ => True

variable {s s' : State} {os : List Note} {o : Note} {l : Label}

theorem entry_isSome (tid : Tid) : (s.mgr.entry tid).isSome ↔ tid ∈ s.tids := by
  rw [Option.isSome_iff_ne_none, Ne, SocketFairnessManager.entry_eq_none, not_not, tids]

theorem keepsEntries_iff : s.KeepsEntries os ↔ s.tids.Nodup ∧ inserted os ⊆ s.tids :=
  and_congr_right fun _ => forall_congr' fun tid => imp_congr_right fun _ => entry_isSome tid

/-- What a step does to the list. -/
inductive Change (s : State) (l : Label) (s' : State) (o : Note) : Prop where
  | same (threads : s'.mgr.threads = s.mgr.threads) (note : o = .quiet) (ok : s.Orderly l)
  | reset (threads : s'.mgr.threads = []) (note : o = .quiet) (ok : s.Orderly l ↔ s.mgr.threads = [])
  | insert (tid : Tid) (threads : s'.mgr.threads = .new tid :: s.mgr.threads) (note : o = .inserted tid)
      (ok : s.Orderly l ↔ s.mgr.entry tid = none)
  | clear (threads : s'.mgr.threads = []) (note : o = .cleared) (ok : s.Orderly l)

theorem next_change {i : Caller} {kmalloc : Bool} (h : s.next i kmalloc = some (s', o)) :
    Change s (.next i kmalloc) s' o := by
  rw [next] at h
  cases hpc : s.pc i with
  | idle => simp [hpc] at h
  | initList job =>
      simp only [hpc, Option.some.injEq, Prod.mk.injEq] at h
      obtain ⟨rfl, rfl⟩ := h
      exact .reset rfl rfl (by simp [Orderly, hpc])
  | acquire tid =>
      simp only [hpc] at h
      split at h
      · cases h
      · cases h
        exact .same rfl rfl (by simp [Orderly, hpc])
  | insert tid =>
      simp only [hpc] at h
      cases kmalloc with
      | true =>
          cases h
          exact .insert tid rfl rfl (by simp [Orderly, hpc])
      | false =>
          cases h
          exact .same rfl rfl (by simp [Orderly, hpc])
  | _ =>
      simp only [hpc, Option.some.injEq, Prod.mk.injEq] at h
      obtain ⟨rfl, rfl⟩ := h
      exact .same rfl rfl (by simp [Orderly, hpc])

theorem step_change (h : s.step l = some (s', o)) : Change s l s' o := by
  cases l with
  | begin i tid =>
      simp only [step] at h
      split at h
      · cases h
        exact .same rfl rfl trivial
      · cases h
  | moduleInit i procCreate =>
      simp only [step] at h
      split at h
      · cases h
        cases procCreate <;> exact .same rfl rfl trivial
      · cases h
  | next i kmalloc => exact next_change h
  | exit =>
      simp only [step] at h
      split at h
      · cases h
      · cases h
        exact .clear rfl rfl trivial

theorem tids_of_threads {ts : List ThreadSocketStats} (h : s.mgr.threads = ts) :
    s.tids = ts.map ThreadSocketStats.tid := congrArg (List.map ThreadSocketStats.tid) h

/-- Every entry in the list was inserted. -/
theorem tids_subset_step (h : s.step l = some (s', o)) (hs : s.tids ⊆ inserted os) :
    s'.tids ⊆ inserted (os ++ [o]) := by
  rw [inserted_append]
  cases step_change h with
  | same threads note ok =>
      rw [note, tids_of_threads threads]
      exact hs
  | reset threads note ok =>
      rw [tids_of_threads threads]
      exact List.nil_subset _
  | insert tid threads note ok =>
      rw [note, tids_of_threads threads]
      exact List.cons_subset_cons tid hs
  | clear threads note ok =>
      rw [tids_of_threads threads]
      exact List.nil_subset _

theorem keepsEntries_step_iff (h : s.step l = some (s', o)) (hs : s.tids ⊆ inserted os) (hkeep : s.KeepsEntries os) :
    s'.KeepsEntries (os ++ [o]) ↔ s.Orderly l := by
  rw [keepsEntries_iff] at hkeep ⊢
  obtain ⟨hnodup, hsub⟩ := hkeep
  rw [inserted_append]
  cases step_change h with
  | same threads note ok =>
      rw [note, tids_of_threads threads]
      exact ⟨fun _ => ok, fun _ => ⟨hnodup, hsub⟩⟩
  | reset threads note ok =>
      rw [note, tids_of_threads threads, ok]
      constructor
      · rintro ⟨-, hnone⟩
        have hempty : s.tids ⊆ [] := List.Subset.trans hs hnone
        exact List.map_eq_nil_iff.mp (List.subset_nil.mp hempty)
      · intro hempty
        rw [tids_of_threads hempty] at hsub
        exact ⟨List.nodup_nil, hsub⟩
  | insert tid threads note ok =>
      rw [note, tids_of_threads threads, ok, SocketFairnessManager.entry_eq_none]
      constructor
      · rintro ⟨hnodup', -⟩
        exact (List.nodup_cons.mp hnodup').1
      · intro hnew
        exact ⟨List.nodup_cons.mpr ⟨hnew, hnodup⟩, List.cons_subset_cons tid hsub⟩
  | clear threads note ok =>
      rw [note, tids_of_threads threads]
      exact ⟨fun _ => ok, fun _ => ⟨List.nodup_nil, List.nil_subset _⟩⟩

/-- **Initialisation.** Throughout a run no thread has two entries and no entry is lost exactly when every step of
it is orderly. -/
theorem keepsEntries_throughout_iff (pastEnd : PastEnd) (ls : List Label) :
    Throughout step KeepsEntries (init pastEnd) ls ↔ Along step Orderly (init pastEnd) ls := by
  refine throughout_iff_along (fun os s => s.tids ⊆ inserted os) (fun _ _ => True) ?_ ?_ ls
    (Along.of_forall _ _ fun _ _ _ => trivial) (List.nil_subset _) ⟨List.nodup_nil, fun _ h => nomatch h⟩
  · intro os s l s' o _ hs _ h
    exact tids_subset_step h hs
  · intro os s l s' o _ hs hkeep h
    exact keepsEntries_step_iff h hs hkeep

/-- Two threads call for the first time. Both find the manager uninitialised; the first initialises it and
inserts its entry, then the second initialises it again. -/
def race : List Label :=
  [.begin 1 101, .begin 2 102, .next 1 true, .next 2 true, .next 1 true, .next 2 true] ++
    List.replicate 7 (.next 1 true) ++ List.replicate 2 (.next 2 true)

theorem race_loses_entry :
    ¬Throughout step KeepsEntries (init ⟨0, 0, 0⟩) race ∧
      ∃ s os, run step (init ⟨0, 0, 0⟩) race = some (s, os) ∧ inserted os = [101] ∧ s.mgr.threads = [] := by
  have hend : ∃ s os, run step (init ⟨0, 0, 0⟩) race = some (s, os) ∧ inserted os = [101] ∧ s.mgr.threads = [] :=
    ⟨_, _, rfl, rfl, rfl⟩
  refine ⟨fun h => ?_, hend⟩
  obtain ⟨s, os, hrun, hins, hthreads⟩ := hend
  have hfound := (h race (List.prefix_refl _) s os hrun).2 101 (by simp [hins])
  rw [entry_isSome, tids, hthreads] at hfound
  cases hfound

/-- The caller is between taking and releasing the lock. -/
def Locked (s : State) (i : Caller) : Prop :=
  match s.pc i with
  | .lookup _ | .insert _ | .release => True
  | _ => False

/-- Only one caller is inside the lock, and what it found out there is still true. -/
structure Exclusion (s : State) : Prop where
  held : ∀ i, s.Locked i → s.held = true
  only : ∀ i j, s.Locked i → s.Locked j → i = j
  absent : ∀ i tid, s.pc i = .insert tid → s.mgr.entry tid = none

/-- The lock is initialised while nobody holds it and the list head while the list is empty. -/
def InitsUnused (s : State) : Label → Prop
  | .next i _ =>
      match s.pc i with
      | .initLock _ => s.held = false
      | .initList _ => s.mgr.threads = []
      | _ => True
  | _ => True

theorem Exclusion.orderly (hs : s.Exclusion) (hl : s.InitsUnused l) : s.Orderly l := by
  cases l with
  | next i kmalloc =>
      rw [InitsUnused] at hl
      rw [Orderly]
      cases hpc : s.pc i with
      | initList job =>
          rw [hpc] at hl
          exact hl
      | insert tid => exact fun _ => hs.absent i tid hpc
      | _ => trivial
  | _ => trivial

theorem locked_goto_self {i : Caller} {pc : Pc} :
    (s.goto i pc).Locked i ↔ pc = .release ∨ ∃ tid, pc = .lookup tid ∨ pc = .insert tid := by
  rw [Locked, goto_pc, Function.update_self]
  cases pc <;> simp

theorem locked_goto_ne {i j : Caller} (hj : j ≠ i) (pc : Pc) : (s.goto i pc).Locked j ↔ s.Locked j := by
  rw [Locked, goto_pc, Function.update_of_ne hj, Locked]

/-- A caller outside the lock goes on outside it, and leaves the lock and the list as they were. -/
theorem Exclusion.goto_outside (hs : s.Exclusion) {t : State} (hheld : t.held = s.held)
    (hthreads : t.mgr.threads = s.mgr.threads) (hpcs : t.pc = s.pc) (i : Caller) {pc : Pc}
    (hpc : ¬(s.goto i pc).Locked i) : (t.goto i pc).Exclusion := by
  have hlocked : ∀ j, (t.goto i pc).Locked j → j ≠ i ∧ s.Locked j := by
    intro j hj
    rw [Locked, goto_pc, hpcs] at hj
    by_cases hji : j = i
    · subst hji
      exact absurd hj hpc
    · exact ⟨hji, (locked_goto_ne hji pc).mp hj⟩
  refine ⟨fun j hj => ?_, fun j k hj hk => hs.only j k (hlocked j hj).2 (hlocked k hk).2, fun j tid hj => ?_⟩
  · exact hheld.trans (hs.held j (hlocked j hj).2)
  · have hjl : (t.goto i pc).Locked j := by
      rw [Locked, hj]
      trivial
    rw [goto_pc, hpcs, Function.update_of_ne (hlocked j hjl).1] at hj
    rw [goto_mgr, SocketFairnessManager.entry, hthreads]
    exact hs.absent j tid hj

/-- The only caller inside the lock goes on inside it. -/
theorem exclusion_goto_inside {i : Caller} (hothers : ∀ j, j ≠ i → ¬s.Locked j) (hheld : s.held = true) {pc : Pc}
    (hpc : ∀ tid, pc = .insert tid → s.mgr.entry tid = none) : (s.goto i pc).Exclusion := by
  have hlocked : ∀ j, (s.goto i pc).Locked j → j = i := by
    intro j hj
    by_contra hji
    exact hothers j hji ((locked_goto_ne hji pc).mp hj)
  refine ⟨fun j _ => hheld, fun j k hj hk => (hlocked j hj).trans (hlocked k hk).symm, fun j tid hj => ?_⟩
  have hji : j = i := by
    apply hlocked
    rw [Locked, hj]
    trivial
  subst hji
  rw [goto_pc, Function.update_self] at hj
  exact hpc tid hj

theorem exclusion_of_unlocked (h : ∀ i, ¬s.Locked i) : s.Exclusion := by
  refine ⟨fun i hi => absurd hi (h i), fun i _ hi _ => absurd hi (h i), fun i tid hi => absurd ?_ (h i)⟩
  rw [Locked, hi]
  trivial

theorem Exclusion.others (hs : s.Exclusion) {i j : Caller} (hi : s.Locked i) (hj : j ≠ i) : ¬s.Locked j :=
  fun h => hj (hs.only j i h hi)

theorem Exclusion.unlocked (hs : s.Exclusion) (hheld : s.held = false) (i : Caller) : ¬s.Locked i := by
  intro hi
  rw [hs.held i hi] at hheld
  cases hheld

theorem exclusion_next {i : Caller} {kmalloc : Bool} (hs : s.Exclusion) (hl : s.InitsUnused (.next i kmalloc))
    (h : s.next i kmalloc = some (s', o)) : s'.Exclusion := by
  rw [next] at h
  rw [InitsUnused] at hl
  cases hpc : s.pc i with
  | idle => simp [hpc] at h
  | entry tid =>
      simp only [hpc, Option.some.injEq, Prod.mk.injEq] at h
      obtain ⟨rfl, -⟩ := h
      refine hs.goto_outside rfl rfl rfl i fun hi => ?_
      rw [locked_goto_self] at hi
      split at hi <;> simp at hi
  | initTest job =>
      simp only [hpc, Option.some.injEq, Prod.mk.injEq] at h
      obtain ⟨rfl, -⟩ := h
      refine hs.goto_outside rfl rfl rfl i fun hi => ?_
      rw [locked_goto_self] at hi
      cases job <;> split at hi <;> simp [Pc.afterInit] at hi
  | initLock job =>
      simp only [hpc, Option.some.injEq, Prod.mk.injEq] at h hl
      obtain ⟨rfl, -⟩ := h
      exact hs.goto_outside (t := s.setHeld false) hl.symm rfl rfl i (by simp [locked_goto_self])
  | initList job =>
      simp only [hpc, Option.some.injEq, Prod.mk.injEq] at h hl
      obtain ⟨rfl, -⟩ := h
      refine hs.goto_outside ?_ ?_ ?_ i (by simp [locked_goto_self])
      · rfl
      · exact hl.symm
      · rfl
  | initLimits job =>
      simp only [hpc, Option.some.injEq, Prod.mk.injEq] at h
      obtain ⟨rfl, -⟩ := h
      refine hs.goto_outside ?_ ?_ ?_ i (by simp [locked_goto_self]) <;> rfl
  | initFlag job =>
      simp only [hpc, Option.some.injEq, Prod.mk.injEq] at h
      obtain ⟨rfl, -⟩ := h
      refine hs.goto_outside ?_ ?_ ?_ i ?_
      · rfl
      · rfl
      · rfl
      · cases job <;> simp [locked_goto_self, Pc.afterInit]
  | acquire tid =>
      simp only [hpc] at h
      split at h
      · cases h
      · rename_i hfree
        cases h
        exact exclusion_goto_inside (s := s.setHeld true) (fun j _ => hs.unlocked (by simpa using hfree) j) rfl
          fun _ hne => nomatch hne
  | lookup tid =>
      have hi : s.Locked i := by simp [Locked, hpc]
      simp only [hpc, Option.some.injEq, Prod.mk.injEq] at h
      obtain ⟨rfl, -⟩ := h
      refine exclusion_goto_inside (fun j hj => hs.others hi hj) (hs.held i hi) fun tid' htid => ?_
      split at htid
      · cases htid
      · cases htid
        rename_i hnone
        exact Option.not_isSome_iff_eq_none.mp hnone
  | insert tid =>
      have hi : s.Locked i := by simp [Locked, hpc]
      simp only [hpc] at h
      cases kmalloc with
      | true =>
          cases h
          refine exclusion_goto_inside (fun j hj => ?_) ?_ fun _ hne => nomatch hne
          · exact hs.others hi hj
          · exact hs.held i hi
      | false =>
          cases h
          exact exclusion_goto_inside (fun j hj => hs.others hi hj) (hs.held i hi) fun _ hne => nomatch hne
  | release =>
      have hi : s.Locked i := by simp [Locked, hpc]
      simp only [hpc, Option.some.injEq, Prod.mk.injEq] at h
      obtain ⟨rfl, -⟩ := h
      refine exclusion_of_unlocked fun j hj => ?_
      by_cases hji : j = i
      · subst hji
        simp [locked_goto_self] at hj
      · exact hs.others hi hji ((locked_goto_ne hji _).mp hj)

theorem exclusion_step (hs : s.Exclusion) (hl : s.InitsUnused l) (h : s.step l = some (s', o)) : s'.Exclusion := by
  cases l with
  | begin i tid =>
      simp only [step] at h
      split at h
      · cases h
        exact hs.goto_outside rfl rfl rfl i (by simp [locked_goto_self])
      · cases h
  | moduleInit i procCreate =>
      simp only [step] at h
      split at h
      · cases h
        cases procCreate with
        | true => exact hs.goto_outside rfl rfl rfl i (by simp [locked_goto_self])
        | false => exact hs
      · cases h
  | next i kmalloc => exact exclusion_next hs hl h
  | exit =>
      simp only [step] at h
      split at h
      · cases h
      · rename_i hfree
        cases h
        exact exclusion_of_unlocked fun i => hs.unlocked (by simpa using hfree) i

/-- **Lock.** When nobody initialises a lock that is held or a list that is not empty, no thread has two entries
and no entry is lost. -/
theorem keepsEntries_of_initsUnused (pastEnd : PastEnd) (ls : List Label)
    (hls : Along step InitsUnused (init pastEnd) ls) : Throughout step KeepsEntries (init pastEnd) ls := by
  refine throughout_of_along (fun os s => s.Exclusion ∧ s.tids ⊆ inserted os ∧ s.KeepsEntries os) ?_
    (fun _ _ h => h.2.2) ?_ hls
  · rintro os s l s' o ⟨hex, hsub, hkeep⟩ hl h
    exact ⟨exclusion_step hex hl h, tids_subset_step h hsub, (keepsEntries_step_iff h hsub hkeep).mpr (hex.orderly hl)⟩
  · exact ⟨exclusion_of_unlocked fun _ h => h, List.nil_subset _, List.nodup_nil, fun _ h => nomatch h⟩

end State

end OsHw.Net.Init
