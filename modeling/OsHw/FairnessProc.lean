import OsHw.SocketTotals

/-! What `/proc/socket_fairness` shows over a run. The totals are kept in 32 bits and printed as signed numbers,
while the amounts are `size_t` and an entry lives as long as the kernel does. A step of a run is one call of the
fairness manager, by any thread and with any amounts. -/

namespace OsHw.Net

/-- What `socket_fairness_proc_show` prints for one thread, every line but the last with `%d`. -/
structure ProcBlock where
  threadPid : Int
  activeSockets : Int
  pendingRequests : Int
  totalBytesSent : Int
  totalBytesReceived : Int
  throttledCount : Int
  lastThrottled : Nat
  deriving DecidableEq, Repr

/-- The block of an entry. -/
def ThreadSocketStats.shown (st : ThreadSocketStats) : ProcBlock where
  threadPid := st.tid.toInt
  activeSockets := st.activeSockets.toInt
  pendingRequests := st.pendingRequests.toInt
  totalBytesSent := st.totalBytesSent.toInt
  totalBytesReceived := st.totalBytesReceived.toInt
  throttledCount := st.throttledCount.toInt
  lastThrottled := st.lastThrottled.toNat

/-- A call of the manager, with what it meets. -/
inductive Call where
  | check (t : Tid) (kmalloc : Bool) (jiffies : UInt64)
  | throttle (t : Tid)
  | traffic (t : Tid) (sent received : Nat) (kmalloc : Bool)
  | register (t : Tid) (kmalloc : Bool)
  | unregister (t : Tid)
  deriving DecidableEq, Repr

/-- The thread that the call is made for. -/
def Call.tid : Call → Tid
  | .check t .. | .throttle t | .traffic t .. | .register t _ | .unregister t => t

/-- A total of 32 bits takes an amount without running over. -/
theorem toInt_add_ofNat_iff {a : Int32} (h : 0 ≤ a.toInt) (n : Nat) :
    0 ≤ (a + Int32.ofNat n).toInt ∧ a.toInt ≤ (a + Int32.ofNat n).toInt ↔
      a.toInt + (n % 4294967296 : Nat) < 2147483648 := by
  have hhi := a.toInt_lt
  rw [Int32.toInt_add, Int32.toInt_ofNat', Int32.size, Int.add_bmod_bmod]
  simp only [Int.bmod]
  omega

namespace SocketFairnessManager

variable {m m' : SocketFairnessManager} {t : Tid} {c : Call} {sent received : Nat}

def socketFairnessProcShow (m : SocketFairnessManager) : List ProcBlock :=
  m.threads.map ThreadSocketStats.shown

/-- The manager after a call. -/
def call (m : SocketFairnessManager) : Call → SocketFairnessManager
  | .check t kmalloc jiffies => (m.checkSocketAllocationAllowed t kmalloc jiffies).1
  | .throttle t => (m.shouldThrottleTransmission t).1
  | .traffic t sent received kmalloc => m.updateSocketTraffic t sent received kmalloc
  | .register t kmalloc => m.registerSocketForThread t kmalloc
  | .unregister t => m.unregisterSocketForThread t

/-- Every call is possible in every state. -/
def step (m : SocketFairnessManager) (c : Call) : Option (SocketFairnessManager × Unit) := some (m.call c, ())

/-- No total shown afterwards is negative, and every thread shown before is shown with no smaller totals. -/
structure Grows (m m' : SocketFairnessManager) : Prop where
  nonneg : ∀ b ∈ m'.socketFairnessProcShow, 0 ≤ b.totalBytesSent ∧ 0 ≤ b.totalBytesReceived
  le : ∀ b ∈ m.socketFairnessProcShow, ∃ b' ∈ m'.socketFairnessProcShow, b'.threadPid = b.threadPid ∧
    b.totalBytesSent ≤ b'.totalBytesSent ∧ b.totalBytesReceived ≤ b'.totalBytesReceived

/-- The amounts that a call adds, taken modulo 2^32, keep both totals of the thread below 2^31. -/
def Fits (m : SocketFairnessManager) : Call → Prop
  | .traffic t sent received kmalloc => ¬(m.entry t = none ∧ kmalloc = false) →
      (m.sentOf t).toInt + (sent % 4294967296 : Nat) < 2147483648 ∧
        (m.receivedOf t).toInt + (received % 4294967296 : Nat) < 2147483648
  | _ => True

/-- No thread has a negative total. -/
structure Nonneg (m : SocketFairnessManager) : Prop where
  wf : m.WF
  sent : ∀ t, 0 ≤ (m.sentOf t).toInt
  received : ∀ t, 0 ≤ (m.receivedOf t).toInt

theorem mem_show_iff (hm : m.WF) {b : ProcBlock} :
    b ∈ m.socketFairnessProcShow ↔ ∃ t st, m.entry t = some st ∧ st.shown = b := by
  rw [socketFairnessProcShow, List.mem_map]
  constructor
  · rintro ⟨st, hst, rfl⟩
    exact ⟨st.tid, st, Table.find_of_mem hm.distinct hst, rfl⟩
  · rintro ⟨t, st, hst, rfl⟩
    exact ⟨st, (Table.of_find hst).1, rfl⟩

theorem sentOf_eq {st : ThreadSocketStats} (h : m.entry t = some st) : m.sentOf t = st.totalBytesSent := by
  rw [sentOf, h]
  rfl

theorem receivedOf_eq {st : ThreadSocketStats} (h : m.entry t = some st) :
    m.receivedOf t = st.totalBytesReceived := by
  rw [receivedOf, h]
  rfl

/-- What the file shows is what the counters of the threads are, zero for a thread that is not in it yet. -/
theorem grows_iff (hm : m.WF) (hm' : m'.WF) (hkept : ∀ t, m'.entry t = none → m.entry t = none) :
    Grows m m' ↔ ∀ t, (0 ≤ (m'.sentOf t).toInt ∧ (m.sentOf t).toInt ≤ (m'.sentOf t).toInt) ∧
      (0 ≤ (m'.receivedOf t).toInt ∧ (m.receivedOf t).toInt ≤ (m'.receivedOf t).toInt) := by
  constructor
  · intro h t
    cases hent' : m'.entry t with
    | none =>
        have hent := hkept t hent'
        simp [sentOf, receivedOf, hent, hent']
    | some st' =>
        have hnonneg := h.nonneg _ ((mem_show_iff hm').mpr ⟨t, st', hent', rfl⟩)
        rw [sentOf_eq hent', receivedOf_eq hent']
        cases hent : m.entry t with
        | none =>
            have hsent : m.sentOf t = 0 := by simp [sentOf, hent]
            have hreceived : m.receivedOf t = 0 := by simp [receivedOf, hent]
            rw [hsent, hreceived]
            exact ⟨⟨hnonneg.1, hnonneg.1⟩, hnonneg.2, hnonneg.2⟩
        | some st =>
            obtain ⟨b', hb', hpid, hle⟩ := h.le _ ((mem_show_iff hm).mpr ⟨t, st, hent, rfl⟩)
            obtain ⟨t₁, st₁, hst₁, rfl⟩ := (mem_show_iff hm').mp hb'
            have htid : t₁ = t := by
              rw [← (Table.of_find hst₁).2, ← (Table.of_find hent).2]
              exact Int32.toInt_inj.mp hpid
            subst htid
            cases hst₁.symm.trans hent'
            rw [sentOf_eq hent, receivedOf_eq hent]
            exact ⟨⟨hnonneg.1, hle.1⟩, hnonneg.2, hle.2⟩
  · intro h
    constructor
    · intro b hb
      obtain ⟨t, st, hst, rfl⟩ := (mem_show_iff hm').mp hb
      have ht := h t
      rw [sentOf_eq hst, receivedOf_eq hst] at ht
      exact ⟨ht.1.1, ht.2.1⟩
    · intro b hb
      obtain ⟨t, st, hst, rfl⟩ := (mem_show_iff hm).mp hb
      obtain ⟨st', hst'⟩ : ∃ st', m'.entry t = some st' := by
        rw [← Option.ne_none_iff_exists']
        intro hnone
        rw [hkept t hnone] at hst
        cases hst
      have ht := h t
      rw [sentOf_eq hst, sentOf_eq hst', receivedOf_eq hst, receivedOf_eq hst'] at ht
      have hpid : st'.tid = st.tid := (Table.of_find hst').2.trans (Table.of_find hst).2.symm
      exact ⟨st'.shown, (mem_show_iff hm').mpr ⟨t, st', hst', rfl⟩, congrArg Int32.toInt hpid, ht.1.2, ht.2.2⟩

/-- A call whose additions to the totals of one thread are known. -/
theorem grows_carries_iff (h : Touches t m m') (hcarries : Carries t m m' sent received) (hm : m.Nonneg) :
    Grows m m' ↔ (m.sentOf t).toInt + (sent % 4294967296 : Nat) < 2147483648 ∧
      (m.receivedOf t).toInt + (received % 4294967296 : Nat) < 2147483648 := by
  have hkept : ∀ x, m'.entry x = none → m.entry x = none := by
    intro x hx
    by_cases hxt : x = t
    · subst hxt
      exact hcarries.kept hx
    · rwa [h.others x hxt] at hx
  rw [grows_iff hm.wf h.wf hkept, ← toInt_add_ofNat_iff (hm.sent t), ← toInt_add_ofNat_iff (hm.received t),
    ← hcarries.sent, ← hcarries.received]
  constructor
  · exact fun hall => hall t
  · intro ht x
    by_cases hx : x = t
    · subst hx
      exact ht
    · have hentry := h.others x hx
      have hsent : m'.sentOf x = m.sentOf x := by rw [sentOf, hentry, sentOf]
      have hreceived : m'.receivedOf x = m.receivedOf x := by rw [receivedOf, hentry, receivedOf]
      rw [hsent, hreceived]
      exact ⟨⟨hm.sent x, Int.le_refl _⟩, hm.received x, Int.le_refl _⟩

theorem Grows.nonneg_of (h : Grows m m') (hm' : m'.WF) : m'.Nonneg := by
  have hblock : ∀ t, 0 ≤ (m'.sentOf t).toInt ∧ 0 ≤ (m'.receivedOf t).toInt := by
    intro t
    cases hent : m'.entry t with
    | none => simp [sentOf, receivedOf, hent]
    | some st =>
        rw [sentOf_eq hent, receivedOf_eq hent]
        exact h.nonneg _ ((mem_show_iff hm').mpr ⟨t, st, hent, rfl⟩)
  exact ⟨hm', fun t => (hblock t).1, fun t => (hblock t).2⟩

theorem call_touches (hm : m.WF) (c : Call) : Touches c.tid m (m.call c) := by
  cases c with
  | check t kmalloc jiffies => exact (checkSocketAllocationAllowed_quiet hm t kmalloc jiffies).toTouches
  | throttle t => exact (shouldThrottleTransmission_quiet hm t).toTouches
  | traffic t sent received kmalloc => exact (updateSocketTraffic_updates hm t sent received kmalloc).toTouches
  | register t kmalloc => exact (registerSocketForThread_updates hm t kmalloc).toTouches
  | unregister t => exact unregisterSocketForThread_touches hm t

/-- A call that adds nothing grows in any case. -/
theorem Carries.grows (hcarries : Carries t m m' 0 0) (h : Touches t m m') (hm : m.Nonneg) : Grows m m' := by
  have hsent := (m.sentOf t).toInt_lt
  have hreceived := (m.receivedOf t).toInt_lt
  rw [grows_carries_iff h hcarries hm]
  omega

theorem grows_call_iff (hm : m.Nonneg) (c : Call) : Grows m (m.call c) ↔ m.Fits c := by
  have htouch := call_touches hm.wf c
  cases c with
  | check t kmalloc jiffies =>
      exact iff_of_true ((checkSocketAllocationAllowed_carries hm.wf t kmalloc jiffies).grows htouch hm) trivial
  | throttle t => exact iff_of_true ((shouldThrottleTransmission_carries hm.wf t).grows htouch hm) trivial
  | register t kmalloc =>
      exact iff_of_true ((registerSocketForThread_carries hm.wf t kmalloc).grows htouch hm) trivial
  | unregister t => exact iff_of_true ((unregisterSocketForThread_carries hm.wf t).grows htouch hm) trivial
  | traffic t sent received kmalloc =>
      have hcarries := updateSocketTraffic_carries hm.wf t sent received kmalloc
      by_cases hlost : m.entry t = none ∧ kmalloc = false
      · rw [if_pos hlost, if_pos hlost] at hcarries
        exact iff_of_true (hcarries.grows htouch hm) fun hnot => absurd hlost hnot
      · rw [if_neg hlost, if_neg hlost] at hcarries
        exact (grows_carries_iff htouch hcarries hm).trans ⟨fun h _ => h, fun h => h hlost⟩

/-- **Shown totals.** In any run of calls with any amounts, no step shows a negative total or a smaller one than
before exactly when no step takes a total to 2^31. -/
theorem shown_grows_iff (pastEnd : PastEnd) (cs : List Call) :
    Along step (fun m c => Grows m (m.call c)) (zeroed pastEnd).socketFairnessInit cs ↔
      Along step Fits (zeroed pastEnd).socketFairnessInit cs := by
  refine along_iff_along Nonneg ?_ (fun m c m' o hm _ => grows_call_iff hm c)
    ⟨socketFairnessInit_wf pastEnd, fun _ => Int.le_refl 0, fun _ => Int.le_refl 0⟩ cs
  intro m c m' o hm hfits hstep
  cases hstep
  exact ((grows_call_iff hm c).mpr hfits).nonneg_of (call_touches hm.wf c).wf

/-- Five bytes, and then as many as take the total of 32 bits from five to four. -/
def wrapped : List Call := [.traffic 1 5 0 true, .traffic 1 4294967295 0 true]

theorem wrapped_decreases :
    ((run step started wrapped).map fun r => r.1.socketFairnessProcShow.map ProcBlock.totalBytesSent) = some [4] ∧
    ((run step started [.traffic 1 2147483648 0 true]).map
      fun r => r.1.socketFairnessProcShow.map ProcBlock.totalBytesSent) = some [-2147483648] ∧
    ¬Along step (fun m c => Grows m (m.call c)) started wrapped ∧
    ¬Along step (fun m c => Grows m (m.call c)) started [.traffic 1 2147483648 0 true] := by
  refine ⟨by decide, by decide, fun h => ?_, fun h => ?_⟩
  · have hgrows := ((h _ _ rfl).2 _ _ rfl).1
    obtain ⟨b, hb, -, hle, -⟩ := hgrows.le ⟨1, 0, 0, 5, 0, 0, 0⟩ (by decide)
    have hfour : b = ⟨1, 0, 0, 4, 0, 0, 0⟩ := List.mem_singleton.mp hb
    rw [hfour] at hle
    exact absurd hle (by decide)
  · have hgrows := (h _ _ rfl).1
    exact absurd (hgrows.nonneg ⟨1, 0, 0, -2147483648, 0, 0, 0⟩ (by decide)) (by decide)

end SocketFairnessManager

end OsHw.Net
