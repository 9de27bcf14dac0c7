import Mathlib.Algebra.Ring.Int.Defs
import OsHw.Table

/-! The fairness manager of `net/core/socket_fairness.c`: a list of per-thread counters behind
`get_thread_socket_stats`, and the checks and updates that go through the pointer it returns. A lookup that
creates nothing and finds nothing returns the cursor of `list_for_each_entry` where the loop left it: not
NULL, but the list head taken for an entry, so that the counters of the entry are the manager's own limits.
The first half of the file is the code, the second what each function does to the counters of one thread
and what it leaves alone. -/

namespace OsHw.Net

abbrev Tid := Int32

/-- `struct thread_socket_stats` without its list node. -/
structure ThreadSocketStats where
  tid : Tid
  activeSockets : Int32
  totalBytesSent : Int32
  totalBytesReceived : Int32
  pendingRequests : Int32
  throttledCount : Int32
  lastThrottled : UInt64
  deriving DecidableEq, Repr

/-- The entry that `get_thread_socket_stats` adds. -/
def ThreadSocketStats.new (tid : Tid) : ThreadSocketStats := ⟨tid, 0, 0, 0, 0, 0, 0⟩

namespace ThreadSocketStats

def addActive (d : Int32) (st : ThreadSocketStats) : ThreadSocketStats :=
  { st with activeSockets := st.activeSockets + d }

@[simp] theorem addActive_tid (d : Int32) (st : ThreadSocketStats) : (st.addActive d).tid = st.tid := rfl

@[simp] theorem addActive_pendingRequests (d : Int32) (st : ThreadSocketStats) :
    (st.addActive d).pendingRequests = st.pendingRequests := rfl

/-- `atomic_add` on both totals; it takes the low 32 bits of the amounts. -/
def addTraffic (sent received : Nat) (st : ThreadSocketStats) : ThreadSocketStats :=
  { st with
    totalBytesSent := st.totalBytesSent + Int32.ofNat sent
    totalBytesReceived := st.totalBytesReceived + Int32.ofNat received }

def addThrottled (st : ThreadSocketStats) : ThreadSocketStats :=
  { st with throttledCount := st.throttledCount + 1 }

def throttledAt (jiffies : UInt64) (st : ThreadSocketStats) : ThreadSocketStats :=
  { st.addThrottled with lastThrottled := jiffies }

end ThreadSocketStats

/-- The memory behind `socket_fairness_mgr` that the last fields of a `thread_socket_stats` laid over the
list head reach. -/
structure PastEnd where
  pendingRequests : Int32
  throttledCount : Int32
  lastThrottled : UInt64
  deriving DecidableEq, Repr

/-- `struct socket_fairness_manager` with `is_initialized` and the memory behind it. -/
structure SocketFairnessManager where
  threads : List ThreadSocketStats
  maxSocketsPerThread : UInt32
  maxPendingPerThread : UInt32
  throttleThreshold : UInt32
  fairnessEnabled : Bool
  isInitialized : Bool
  pastEnd : PastEnd
  deriving DecidableEq, Repr

/-- What `get_thread_socket_stats` returns: NULL, the first entry with the id, or the loop cursor at the
list head. -/
inductive StatsPtr where
  | null
  | entry (tid : Tid)
  | listHead
  deriving DecidableEq, Repr

namespace SocketFairnessManager

/-- The entry of a thread. -/
def entry (m : SocketFairnessManager) (tid : Tid) : Option ThreadSocketStats :=
  Table.find ThreadSocketStats.tid tid m.threads

/-- The manager before anything has run: static memory is zero. -/
def zeroed (pastEnd : PastEnd) : SocketFairnessManager :=
  ⟨[], 0, 0, 0, false, false, pastEnd⟩

def socketFairnessInit (m : SocketFairnessManager) : SocketFairnessManager :=
  if m.isInitialized then m
  else
    { m with
      threads := []
      maxSocketsPerThread := 10
      maxPendingPerThread := 5
      throttleThreshold := 1000
      fairnessEnabled := true
      isInitialized := true }

/-- `get_thread_socket_stats`, with the outcome of its `kmalloc`. -/
def getThreadSocketStats (m : SocketFairnessManager) (tid : Tid) (create kmalloc : Bool) :
    SocketFairnessManager × StatsPtr :=
  let m := m.socketFairnessInit
  match m.entry tid with
  | some _ => (m, .entry tid)
  | none =>
      if create then
        if kmalloc then ({ m with threads := .new tid :: m.threads }, .entry tid)
        else (m, .null)
      else (m, .listHead)

/-- The counters behind a pointer. `container_of` puts `tid` of the list head's cursor at the first word
behind the list head, `max_sockets_per_thread`, and the other fields at the words that follow. -/
def deref (m : SocketFairnessManager) : StatsPtr → ThreadSocketStats
  | .null => .new 0
  | .entry tid => (m.entry tid).getD (.new tid)
  | .listHead =>
      { tid := m.maxSocketsPerThread.toInt32
        activeSockets := m.maxPendingPerThread.toInt32
        totalBytesSent := m.throttleThreshold.toInt32
        totalBytesReceived := if m.fairnessEnabled then 1 else 0
        pendingRequests := m.pastEnd.pendingRequests
        throttledCount := m.pastEnd.throttledCount
        lastThrottled := m.pastEnd.lastThrottled }

/-- Write through a pointer. -/
def write (m : SocketFairnessManager) (stats : StatsPtr) (f : ThreadSocketStats → ThreadSocketStats) :
    SocketFairnessManager :=
  match stats with
  | .null => m
  | .entry tid => { m with threads := Table.modify ThreadSocketStats.tid tid f m.threads }
  | .listHead =>
      let st := f (m.deref .listHead)
      { m with
        maxSocketsPerThread := st.tid.toUInt32
        maxPendingPerThread := st.activeSockets.toUInt32
        throttleThreshold := st.totalBytesSent.toUInt32
        fairnessEnabled := st.totalBytesReceived ≠ 0
        pastEnd := ⟨st.pendingRequests, st.throttledCount, st.lastThrottled⟩ }

-- The limits are `unsigned int`, so C compares the counters with them as unsigned values.
def checkSocketAllocationAllowed (m : SocketFairnessManager) (tid : Tid) (kmalloc : Bool) (jiffies : UInt64) :
    SocketFairnessManager × Bool :=
  if !m.fairnessEnabled then (m, true)
  else
    let (m, stats) := m.getThreadSocketStats tid true kmalloc
    if stats = .null then (m, true)
    else if m.maxSocketsPerThread ≤ (m.deref stats).activeSockets.toUInt32 ∨
        m.maxPendingPerThread ≤ (m.deref stats).pendingRequests.toUInt32 then
      (m.write stats (.throttledAt jiffies), false)
    else (m, true)

def shouldThrottleTransmission (m : SocketFairnessManager) (tid : Tid) : SocketFairnessManager × Bool :=
  if !m.fairnessEnabled then (m, false)
  else
    let (m, stats) := m.getThreadSocketStats tid false false
    if stats = .null then (m, false)
    else if m.maxSocketsPerThread < (m.deref stats).activeSockets.toUInt32 then
      (m.write stats .addThrottled, true)
    else (m, false)

def updateSocketTraffic (m : SocketFairnessManager) (tid : Tid) (sent received : Nat) (kmalloc : Bool) :
    SocketFairnessManager :=
  let (m, stats) := m.getThreadSocketStats tid true kmalloc
  if stats = .null then m
  else m.write stats (.addTraffic sent received)

def registerSocketForThread (m : SocketFairnessManager) (tid : Tid) (kmalloc : Bool) : SocketFairnessManager :=
  let (m, stats) := m.getThreadSocketStats tid true kmalloc
  if stats = .null then m
  else m.write stats (.addActive 1)

def unregisterSocketForThread (m : SocketFairnessManager) (tid : Tid) : SocketFairnessManager :=
  let (m, stats) := m.getThreadSocketStats tid false false
  if stats = .null then m
  else if 0 < (m.deref stats).activeSockets then
    m.write stats (.addActive (-1))
  else m

/-- The manager is initialised and no thread has two entries. -/
structure WF (m : SocketFairnessManager) : Prop where
  initialized : m.isInitialized = true
  distinct : (m.threads.map ThreadSocketStats.tid).Nodup

/-- `active_sockets` of a thread, zero when it has no entry. -/
def activeOf (m : SocketFairnessManager) (tid : Tid) : Int32 :=
  ((m.entry tid).map ThreadSocketStats.activeSockets).getD 0

/-- The sum of `active_sockets` over all entries. -/
def totalActive (m : SocketFairnessManager) : Int :=
  (m.threads.map fun st => st.activeSockets.toInt).sum

theorem socketFairnessInit_wf (pastEnd : PastEnd) : (zeroed pastEnd).socketFairnessInit.WF :=
  ⟨rfl, List.nodup_nil⟩

/-- A call made for one thread reaches the counters of no other: only the thread's own entry and the
limit behind the list head's cursor may differ afterwards. -/
structure Touches (t : Tid) (m m' : SocketFairnessManager) : Prop where
  wf : m'.WF
  others : ∀ x, x ≠ t → m'.entry x = m.entry x
  total : m'.totalActive + (m.activeOf t).toInt = m.totalActive + (m'.activeOf t).toInt
  maxSockets : m'.maxSocketsPerThread = m.maxSocketsPerThread
  threshold : m'.throttleThreshold = m.throttleThreshold
  enabled : m'.fairnessEnabled = m.fairnessEnabled

variable {m m' m'' : SocketFairnessManager} {t x : Tid} {kmalloc : Bool}
  {f : ThreadSocketStats → ThreadSocketStats}

theorem entry_eq_none : m.entry t = none ↔ t ∉ m.threads.map ThreadSocketStats.tid := Table.find_eq_none

theorem activeOf_eq {o : Option ThreadSocketStats} (h : m.entry t = o) :
    m.activeOf t = (o.map ThreadSocketStats.activeSockets).getD 0 := by rw [activeOf, h]

theorem toInt_activeOf : (m.activeOf t).toInt = ((m.entry t).map fun st => st.activeSockets.toInt).getD 0 := by
  rw [activeOf]
  cases m.entry t <;> rfl

theorem Touches.refl (hm : m.WF) : Touches t m m := ⟨hm, fun _ _ => rfl, rfl, rfl, rfl, rfl⟩

theorem Touches.trans (h : Touches t m m') (h' : Touches t m' m'') : Touches t m m'' where
  wf := h'.wf
  others x hx := (h'.others x hx).trans (h.others x hx)
  total := by
    have h₁ := h.total
    have h₂ := h'.total
    omega
  maxSockets := h'.maxSockets.trans h.maxSockets
  threshold := h'.threshold.trans h.threshold
  enabled := h'.enabled.trans h.enabled

theorem entry_write_entry (hf : ∀ st, (f st).tid = st.tid) : (m.write (.entry t) f).entry t = (m.entry t).map f :=
  Table.find_modify_self hf m.threads

theorem Touches.write_entry (hm : m.WF) (hf : ∀ st, (f st).tid = st.tid) :
    Touches t m (m.write (.entry t) f) where
  wf := by
    refine ⟨hm.initialized, ?_⟩
    rw [write, Table.map_key_modify hf]
    exact hm.distinct
  others x hx := Table.find_modify_ne hf hx m.threads
  total := by
    rw [toInt_activeOf, toInt_activeOf, entry_write_entry hf, Option.map_map]
    exact Table.sum_modify _ m.threads
  maxSockets := rfl
  threshold := rfl
  enabled := rfl

theorem entry_insert (t : Tid) : { m with threads := .new t :: m.threads }.entry t = some (.new t) := by
  rw [entry, Table.find_cons]
  exact if_pos rfl

theorem Touches.insert (hm : m.WF) (h : m.entry t = none) : Touches t m { m with threads := .new t :: m.threads } where
  wf := ⟨hm.initialized, List.nodup_cons.mpr ⟨entry_eq_none.mp h, hm.distinct⟩⟩
  others x hx := by rw [entry, Table.find_cons, if_neg fun he => hx he.symm, entry]
  total := by
    rw [toInt_activeOf, toInt_activeOf, h, entry_insert]
    simp [totalActive, ThreadSocketStats.new]
  maxSockets := rfl
  threshold := rfl
  enabled := rfl

/-- A call made for one thread replaces its entry and changes no limit. -/
structure Updates (t : Tid) (m m' : SocketFairnessManager) (o : Option ThreadSocketStats) : Prop
    extends Touches t m m' where
  entry : m'.entry t = o
  maxPending : m'.maxPendingPerThread = m.maxPendingPerThread

theorem Updates.refl (hm : m.WF) : Updates t m m (m.entry t) := ⟨.refl hm, rfl, rfl⟩

theorem Updates.write_entry {o : Option ThreadSocketStats} (h : Updates t m m' o)
    (hf : ∀ st, (f st).tid = st.tid) : Updates t m (m'.write (.entry t) f) (o.map f) :=
  ⟨h.toTouches.trans (.write_entry h.wf hf), by rw [entry_write_entry hf, h.entry], h.maxPending⟩

/-- What a lookup with `create` finds or adds. -/
def ensured (m : SocketFairnessManager) (t : Tid) (kmalloc : Bool) : Option ThreadSocketStats :=
  (m.entry t).or (if kmalloc then some (.new t) else none)

theorem ensured_eq_none : m.ensured t kmalloc = none ↔ m.entry t = none ∧ kmalloc = false := by
  rw [ensured]
  cases m.entry t <;> cases kmalloc <;> simp

/-- A lookup with `create` returns the thread's entry, found or added, or NULL when there is none. -/
theorem getThreadSocketStats_create (hm : m.WF) (t : Tid) (kmalloc : Bool) :
    ∃ m', m.getThreadSocketStats t true kmalloc = (m', if (m.ensured t kmalloc).isSome then .entry t else .null) ∧
      Updates t m m' (m.ensured t kmalloc) := by
  rw [getThreadSocketStats, socketFairnessInit, if_pos hm.initialized]
  cases h : m.entry t with
  | some st => exact ⟨m, by simp [ensured, h], .refl hm, by simp [ensured, h], rfl⟩
  | none =>
      cases kmalloc with
      | true => exact ⟨_, by simp [ensured, h], .insert hm h, by simp [ensured, h, entry_insert], rfl⟩
      | false => exact ⟨m, by simp [ensured, h], .refl hm, by simp [ensured, h], rfl⟩

/-- A lookup without `create` changes nothing and returns the thread's entry or the list head. -/
theorem getThreadSocketStats_noCreate (hm : m.isInitialized = true) (t : Tid) (kmalloc : Bool) :
    m.getThreadSocketStats t false kmalloc = (m, if (m.entry t).isSome then .entry t else .listHead) := by
  rw [getThreadSocketStats, socketFairnessInit, if_pos hm]
  cases m.entry t <;> rfl

/-- A write through what a lookup with `create` returns. -/
theorem write_created (hm : m.WF) (hf : ∀ st, (f st).tid = st.tid) (t : Tid) (kmalloc : Bool) :
    ∃ m' p, m.getThreadSocketStats t true kmalloc = (m', p) ∧
      Updates t m (if p = .null then m' else m'.write p f) ((m.ensured t kmalloc).map f) := by
  obtain ⟨m', hget, hm'⟩ := getThreadSocketStats_create hm t kmalloc
  refine ⟨m', _, hget, ?_⟩
  cases he : m.ensured t kmalloc with
  | none => simpa [he] using hm'
  | some st => simpa [he] using hm'.write_entry hf

theorem registerSocketForThread_updates (hm : m.WF) (t : Tid) (kmalloc : Bool) :
    Updates t m (m.registerSocketForThread t kmalloc)
      ((m.ensured t kmalloc).map (.addActive 1)) := by
  obtain ⟨m', p, hget, h⟩ := write_created hm (ThreadSocketStats.addActive_tid 1) t kmalloc
  rw [registerSocketForThread, hget]
  exact h

/-- A registration is lost exactly when the thread has no entry and none can be allocated. -/
theorem entry_registerSocketForThread_eq_none (hm : m.WF) :
    (m.registerSocketForThread t kmalloc).entry t = none ↔ m.entry t = none ∧ kmalloc = false := by
  rw [(registerSocketForThread_updates hm t kmalloc).entry, Option.map_eq_none_iff, ensured_eq_none]

theorem activeOf_registerSocketForThread (hm : m.WF) :
    (m.registerSocketForThread t kmalloc).activeOf t =
      if m.entry t = none ∧ kmalloc = false then m.activeOf t else m.activeOf t + 1 := by
  rw [activeOf_eq (registerSocketForThread_updates hm t kmalloc).entry, activeOf, ensured]
  cases m.entry t <;> cases kmalloc <;> rfl

theorem activeOf_register_twice (hm : m.WF) (k₁ k₂ : Bool) :
    ((m.registerSocketForThread t k₁).registerSocketForThread t k₂).activeOf t =
      if m.entry t = none ∧ k₁ = false then if k₂ = false then m.activeOf t else m.activeOf t + 1
      else m.activeOf t + 1 + 1 := by
  have hm₁ := (registerSocketForThread_updates hm t k₁).wf
  simp only [activeOf_registerSocketForThread hm₁, activeOf_registerSocketForThread hm,
    entry_registerSocketForThread_eq_none hm]
  by_cases hlost : m.entry t = none ∧ k₁ = false
  · simp only [hlost, and_self, true_and, if_true]
  · simp only [hlost, false_and, if_false]

theorem updateSocketTraffic_updates (hm : m.WF) (t : Tid) (sent received : Nat) (kmalloc : Bool) :
    Updates t m (m.updateSocketTraffic t sent received kmalloc)
      ((m.ensured t kmalloc).map (.addTraffic sent received)) := by
  obtain ⟨m', p, hget, h⟩ := write_created hm (f := .addTraffic sent received) (fun _ => rfl) t kmalloc
  rw [updateSocketTraffic, hget]
  exact h

/-- A thread at its limit of sockets or of pending requests. -/
def AtLimit (m : SocketFairnessManager) (st : ThreadSocketStats) : Prop :=
  m.maxSocketsPerThread ≤ st.activeSockets.toUInt32 ∨ m.maxPendingPerThread ≤ st.pendingRequests.toUInt32

instance (st : ThreadSocketStats) : Decidable (m.AtLimit st) :=
  inferInstanceAs (Decidable (_ ∨ _))

/-- The receive check refuses exactly when the thread's entry, found or added, is at a limit, and then counts
the refusal there. -/
theorem checkSocketAllocationAllowed_updates (hm : m.WF) (hen : m.fairnessEnabled = true) (t : Tid)
    (kmalloc : Bool) (jiffies : UInt64) :
    ∃ m', m.checkSocketAllocationAllowed t kmalloc jiffies = (m', decide (∀ st ∈ m.ensured t kmalloc, ¬m.AtLimit st)) ∧
      Updates t m m' ((m.ensured t kmalloc).map fun st => if m.AtLimit st then st.throttledAt jiffies else st) := by
  obtain ⟨m', hget, hm'⟩ := getThreadSocketStats_create hm t kmalloc
  have hlimit : ∀ st, m'.AtLimit st ↔ m.AtLimit st := fun st => by
    rw [AtLimit, hm'.maxSockets, hm'.maxPending, AtLimit]
  rw [checkSocketAllocationAllowed, hen, hget]
  cases he : m.ensured t kmalloc with
  | none =>
      rw [he] at hm'
      exact ⟨m', by simp, hm'⟩
  | some st =>
      rw [he] at hm'
      have hderef : m'.deref (.entry t) = st := by rw [deref, hm'.entry, Option.getD_some]
      by_cases hst : m.AtLimit st
      · have hup := hm'.write_entry (f := .throttledAt jiffies) fun _ => rfl
        refine ⟨_, ?_, by simpa [hst] using hup⟩
        have := (hlimit st).mpr hst
        rw [AtLimit] at this
        simp [hderef, this, hst]
      · refine ⟨m', ?_, by simpa [hst] using hm'⟩
        have := mt (hlimit st).mp hst
        rw [AtLimit] at this
        simp [hderef, this, hst]

/-- The send check throttles a thread with an entry exactly when it is over the limit of sockets, and counts
that in the entry. -/
theorem shouldThrottleTransmission_some (hm : m.WF) (hen : m.fairnessEnabled = true) {st : ThreadSocketStats}
    (h : m.entry t = some st) :
    ∃ m', m.shouldThrottleTransmission t = (m', decide (m.maxSocketsPerThread < st.activeSockets.toUInt32)) ∧
      Updates t m m'
        (some (if m.maxSocketsPerThread < st.activeSockets.toUInt32 then st.addThrottled else st)) := by
  have hderef : m.deref (.entry t) = st := by rw [deref, h, Option.getD_some]
  have hrefl : Updates t m m (some st) := h ▸ .refl hm
  rw [shouldThrottleTransmission, hen, getThreadSocketStats_noCreate hm.initialized, h]
  by_cases hst : m.maxSocketsPerThread < st.activeSockets.toUInt32
  · have hup := hrefl.write_entry (f := .addThrottled) fun _ => rfl
    exact ⟨m.write (.entry t) .addThrottled, by simp [hderef, hst], by simpa [hst] using hup⟩
  · exact ⟨m, by simp [hderef, hst], by simpa [hst] using hrefl⟩

/-- For a thread without an entry the send check compares the limit of pending requests with the limit of
sockets. -/
theorem shouldThrottleTransmission_none (hm : m.WF) (hen : m.fairnessEnabled = true) (h : m.entry t = none)
    (hlim : m.maxPendingPerThread ≤ m.maxSocketsPerThread) : m.shouldThrottleTransmission t = (m, false) := by
  rw [shouldThrottleTransmission, hen, getThreadSocketStats_noCreate hm.initialized, h]
  simp [deref, UInt32.not_lt.mpr hlim]

theorem unregisterSocketForThread_some (hm : m.WF) {st : ThreadSocketStats} (h : m.entry t = some st) :
    Updates t m (m.unregisterSocketForThread t)
      (some (if 0 < st.activeSockets then st.addActive (-1) else st)) := by
  have hderef : m.deref (.entry t) = st := by rw [deref, h, Option.getD_some]
  have hrefl : Updates t m m (some st) := h ▸ .refl hm
  rw [unregisterSocketForThread, getThreadSocketStats_noCreate hm.initialized, h]
  by_cases hst : 0 < st.activeSockets
  · have hup := hrefl.write_entry (ThreadSocketStats.addActive_tid (-1))
    simpa [hderef, hst] using hup
  · simpa [hderef, hst] using hrefl

/-- A release by a thread without an entry takes one from the limit of pending requests. -/
theorem unregisterSocketForThread_none (hm : m.isInitialized = true) (h : m.entry t = none) :
    m.unregisterSocketForThread t = { m with
      maxPendingPerThread := if 0 < m.maxPendingPerThread.toInt32 then m.maxPendingPerThread - 1
        else m.maxPendingPerThread } := by
  rw [unregisterSocketForThread, getThreadSocketStats_noCreate hm, h]
  by_cases hst : 0 < m.maxPendingPerThread.toInt32
  · have hone : (1 : Int32).toUInt32 = 1 := rfl
    simp [deref, write, hst, ThreadSocketStats.addActive, UInt32.sub_eq_add_neg, hone]
  · simp [deref, hst]

theorem unregisterSocketForThread_touches (hm : m.WF) (t : Tid) : Touches t m (m.unregisterSocketForThread t) := by
  cases h : m.entry t with
  | some st => exact (unregisterSocketForThread_some hm h).toTouches
  | none =>
      rw [unregisterSocketForThread_none hm.initialized h]
      exact ⟨⟨hm.initialized, hm.distinct⟩, fun _ _ => rfl, rfl, rfl, rfl, rfl⟩

theorem entry_unregisterSocketForThread (hm : m.WF) (t : Tid) :
    (m.unregisterSocketForThread t).entry t =
      (m.entry t).map fun st => if 0 < st.activeSockets then st.addActive (-1) else st := by
  cases h : m.entry t with
  | some st => exact (unregisterSocketForThread_some hm h).entry
  | none =>
      rw [unregisterSocketForThread_none hm.initialized h]
      exact h

/-- A call made for one thread leaves `active_sockets` of every thread and every limit alone. -/
structure Quiet (t : Tid) (m m' : SocketFairnessManager) : Prop extends Touches t m m' where
  active : m'.activeOf t = m.activeOf t
  maxPending : m'.maxPendingPerThread = m.maxPendingPerThread

theorem Quiet.refl (hm : m.WF) : Quiet t m m := ⟨.refl hm, rfl, rfl⟩

theorem Quiet.trans (h : Quiet t m m') (h' : Quiet t m' m'') : Quiet t m m'' :=
  ⟨h.toTouches.trans h'.toTouches, h'.active.trans h.active, h'.maxPending.trans h.maxPending⟩

/-- An update of other counters than `active_sockets` is quiet, also when it adds the entry. -/
theorem Updates.quiet (h : Updates t m m' ((m.ensured t kmalloc).map f))
    (hf : ∀ st, (f st).activeSockets = st.activeSockets) : Quiet t m m' := by
  refine ⟨h.toTouches, ?_, h.maxPending⟩
  rw [activeOf_eq h.entry, activeOf_eq rfl, ensured]
  cases m.entry t with
  | some st => exact hf st
  | none =>
      cases kmalloc with
      | true => exact hf (.new t)
      | false => rfl

theorem updateSocketTraffic_quiet (hm : m.WF) (t : Tid) (sent received : Nat) (kmalloc : Bool) :
    Quiet t m (m.updateSocketTraffic t sent received kmalloc) :=
  (updateSocketTraffic_updates hm t sent received kmalloc).quiet fun _ => rfl

theorem checkSocketAllocationAllowed_quiet (hm : m.WF) (t : Tid) (kmalloc : Bool) (jiffies : UInt64) :
    Quiet t m (m.checkSocketAllocationAllowed t kmalloc jiffies).1 := by
  cases hen : m.fairnessEnabled with
  | false =>
      rw [checkSocketAllocationAllowed, hen]
      exact .refl hm
  | true =>
      obtain ⟨m', heq, hup⟩ := checkSocketAllocationAllowed_updates hm hen t kmalloc jiffies
      rw [heq]
      refine hup.quiet fun st => ?_
      by_cases hst : m.AtLimit st
      · rw [if_pos hst]
        rfl
      · rw [if_neg hst]

theorem activeOf_unregisterSocketForThread (hm : m.WF) (t : Tid) :
    (m.unregisterSocketForThread t).activeOf t =
      if 0 < m.activeOf t then m.activeOf t + -1 else m.activeOf t := by
  rw [activeOf_eq (entry_unregisterSocketForThread hm t), activeOf]
  cases m.entry t with
  | none => rfl
  | some st =>
      by_cases h : 0 < st.activeSockets
      · simp [h, ThreadSocketStats.addActive]
      · simp [h]

theorem write_listHead_addThrottled (hen : m.fairnessEnabled = true) :
    m.write .listHead .addThrottled =
      { m with pastEnd := { m.pastEnd with throttledCount := m.pastEnd.throttledCount + 1 } } := by
  simp [write, deref, ThreadSocketStats.addThrottled, hen]

theorem shouldThrottleTransmission_quiet (hm : m.WF) (t : Tid) : Quiet t m (m.shouldThrottleTransmission t).1 := by
  cases hen : m.fairnessEnabled with
  | false =>
      rw [shouldThrottleTransmission, hen]
      exact .refl hm
  | true =>
      cases h : m.entry t with
      | some st =>
          obtain ⟨m', heq, hup⟩ := shouldThrottleTransmission_some hm hen h
          rw [heq]
          refine ⟨hup.toTouches, ?_, hup.maxPending⟩
          rw [activeOf_eq hup.entry, activeOf_eq h]
          by_cases hst : m.maxSocketsPerThread < st.activeSockets.toUInt32
          · rw [if_pos hst]
            rfl
          · rw [if_neg hst]
      | none =>
          rw [shouldThrottleTransmission, hen, getThreadSocketStats_noCreate hm.initialized, h]
          by_cases hlim : m.maxSocketsPerThread < m.maxPendingPerThread
          · -- the count goes to the memory behind the manager
            have hover : m.maxSocketsPerThread < (m.deref .listHead).activeSockets.toUInt32 := hlim
            simp only [Bool.not_true, Bool.false_eq_true, if_false, Option.isSome_none, reduceCtorEq, if_pos hover,
              write_listHead_addThrottled hen]
            exact ⟨⟨⟨hm.initialized, hm.distinct⟩, fun _ _ => rfl, rfl, rfl, rfl, rfl⟩, rfl, rfl⟩
          · simpa [deref, hlim] using Quiet.refl hm

end SocketFairnessManager

end OsHw.Net
