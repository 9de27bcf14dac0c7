import Mathlib.Data.Set.Insert
import OsHw.SocketSystem

/-! What one thread's sockets mean for another thread's decisions. A run is compared with the one from which
all calls of a thread are removed. Every call keeps to the counters of its own thread, except a release by a
thread without an entry: the cursor of the failed lookup makes it take one from the limit of pending
requests that all threads are checked against. As long as no such release brings that limit to zero, the
decisions of the other threads are the same in both runs. -/

namespace OsHw.Net

/-- The sockets that a call may open or close. -/
def Label.changes : Label → List SockId
  | .socket _ id .. | .accept _ _ id .. | .close _ id => [id]
  | .socketpair _ id₁ id₂ .. => [id₁, id₂]
  | .send .. | .recv .. => []

/-- The sockets that a call is about. -/
def Label.touches : Label → List SockId
  | .socket _ id .. | .close _ id | .send _ id _ | .recv _ id _ => [id]
  | .socketpair _ id₁ id₂ .. => [id₁, id₂]
  | .accept _ listener id .. => [listener, id]

/-- The listening socket and the new socket of an `accept`. -/
def Label.accepts : Label → Option (SockId × SockId)
  | .accept _ listener id .. => some (listener, id)
  | _ => none

/-- The calls of one thread open and close sockets of a set that another thread never touches. A socket that is
accepted on one of the set belongs to it. -/
structure Label.Apart (T : Set SockId) (t u : Tid) (l : Label) : Prop where
  changes : l.tid = u → ∀ id ∈ l.changes, id ∈ T
  accepts : ∀ listener id, l.accepts = some (listener, id) → listener ∈ T → id ∈ T
  touches : l.tid = t → ∀ id ∈ l.touches, id ∉ T

/-- The decision that a call of the thread took. -/
def Event.decisionOf (t : Tid) (e : Event) : Option Decision := if e.tid = t then e.decision else none

namespace SocketFairnessManager

variable {m₁ m₂ m₁' m₂' : SocketFairnessManager} {t x : Tid}

/-- The limits as `socket_fairness_init` sets them, but for units taken from the limit of pending requests. -/
structure Limits (m : SocketFairnessManager) : Prop where
  enabled : m.fairnessEnabled = true
  maxSockets : m.maxSocketsPerThread = 10
  pending_pos : 0 < m.maxPendingPerThread.toNat
  pending_le : m.maxPendingPerThread.toNat ≤ 5

/-- Two managers have the same entry for a thread, and it has no pending requests. -/
structure SameEntry (t : Tid) (m₁ m₂ : SocketFairnessManager) : Prop where
  wf₁ : m₁.WF
  wf₂ : m₂.WF
  entry : m₁.entry t = m₂.entry t
  pending : ∀ st, m₁.entry t = some st → st.pendingRequests = 0

theorem SameEntry.symm (h : SameEntry t m₁ m₂) : SameEntry t m₂ m₁ :=
  ⟨h.wf₂, h.wf₁, h.entry.symm, fun st hst => h.pending st (h.entry.trans hst)⟩

/-- A call of another thread on one side. -/
theorem SameEntry.touches (h : SameEntry t m₁ m₂) (hx : t ≠ x) (h₁ : Touches x m₁ m₁') : SameEntry t m₁' m₂ := by
  have hent := h₁.others t hx
  exact ⟨h₁.wf, h.wf₂, hent.trans h.entry, fun st hst => h.pending st (hent.symm.trans hst)⟩

theorem SameEntry.ensured (h : SameEntry t m₁ m₂) (kmalloc : Bool) : m₁.ensured t kmalloc = m₂.ensured t kmalloc := by
  rw [SocketFairnessManager.ensured, h.entry, SocketFairnessManager.ensured]

theorem SameEntry.ensured_pending (h : SameEntry t m₁ m₂) {kmalloc : Bool} {st : ThreadSocketStats}
    (hst : m₁.ensured t kmalloc = some st) : st.pendingRequests = 0 := by
  rw [SocketFairnessManager.ensured] at hst
  cases hent : m₁.entry t with
  | some st' =>
      rw [hent, Option.some_or] at hst
      cases hst
      exact h.pending _ hent
  | none =>
      rw [hent, Option.none_or] at hst
      cases kmalloc <;> cases hst
      rfl

/-- The same update of the entry, found or added, on both sides. -/
theorem SameEntry.updates (h : SameEntry t m₁ m₂) {kmalloc : Bool} {f : ThreadSocketStats → ThreadSocketStats}
    (h₁ : Updates t m₁ m₁' ((m₁.ensured t kmalloc).map f)) (h₂ : Updates t m₂ m₂' ((m₂.ensured t kmalloc).map f))
    (hf : ∀ st, (f st).pendingRequests = st.pendingRequests) : SameEntry t m₁' m₂' := by
  refine ⟨h₁.wf, h₂.wf, ?_, fun st hst => ?_⟩
  · rw [h₁.entry, h₂.entry, h.ensured]
  · rw [h₁.entry] at hst
    obtain ⟨st', hst', rfl⟩ := Option.map_eq_some_iff.mp hst
    rw [hf]
    exact h.ensured_pending hst'

theorem SameEntry.register (h : SameEntry t m₁ m₂) (kmalloc : Bool) :
    SameEntry t (m₁.registerSocketForThread t kmalloc) (m₂.registerSocketForThread t kmalloc) :=
  h.updates (registerSocketForThread_updates h.wf₁ t kmalloc) (registerSocketForThread_updates h.wf₂ t kmalloc)
    fun _ => rfl

theorem SameEntry.traffic (h : SameEntry t m₁ m₂) (sent received : Nat) (kmalloc : Bool) :
    SameEntry t (m₁.updateSocketTraffic t sent received kmalloc) (m₂.updateSocketTraffic t sent received kmalloc) :=
  h.updates (updateSocketTraffic_updates h.wf₁ t sent received kmalloc)
    (updateSocketTraffic_updates h.wf₂ t sent received kmalloc) fun _ => rfl

theorem SameEntry.unregister (h : SameEntry t m₁ m₂) :
    SameEntry t (m₁.unregisterSocketForThread t) (m₂.unregisterSocketForThread t) := by
  refine ⟨(unregisterSocketForThread_touches h.wf₁ t).wf, (unregisterSocketForThread_touches h.wf₂ t).wf, ?_,
    fun st hst => ?_⟩
  · rw [entry_unregisterSocketForThread h.wf₁, entry_unregisterSocketForThread h.wf₂, h.entry]
  · rw [entry_unregisterSocketForThread h.wf₁] at hst
    obtain ⟨st', hst', rfl⟩ := Option.map_eq_some_iff.mp hst
    have hp := h.pending st' hst'
    split
    · rw [ThreadSocketStats.addActive_pendingRequests, hp]
    · exact hp

/-- Within the limits, only the number of sockets decides whether a thread without pending requests is at a
limit. -/
theorem Limits.atLimit_iff {m : SocketFairnessManager} (hm : m.Limits) {st : ThreadSocketStats}
    (hst : st.pendingRequests = 0) : m.AtLimit st ↔ 10 ≤ st.activeSockets.toUInt32 := by
  have hpos : ¬m.maxPendingPerThread ≤ (0 : Int32).toUInt32 := by
    have hzero : (0 : Int32).toUInt32.toNat = 0 := rfl
    rw [UInt32.le_iff_toNat_le, hzero, Nat.not_le]
    exact hm.pending_pos
  rw [AtLimit, hm.maxSockets, hst]
  exact or_iff_left hpos

/-- The receive check takes the same decision on both sides. -/
theorem SameEntry.check (h : SameEntry t m₁ m₂) (hm₁ : m₁.Limits) (hm₂ : m₂.Limits) (kmalloc : Bool)
    (jiffies : UInt64) :
    SameEntry t (m₁.checkSocketAllocationAllowed t kmalloc jiffies).1
        (m₂.checkSocketAllocationAllowed t kmalloc jiffies).1 ∧
      (m₁.checkSocketAllocationAllowed t kmalloc jiffies).2 =
        (m₂.checkSocketAllocationAllowed t kmalloc jiffies).2 := by
  obtain ⟨m₁', heq₁, hup₁⟩ := checkSocketAllocationAllowed_updates h.wf₁ hm₁.enabled t kmalloc jiffies
  obtain ⟨m₂', heq₂, hup₂⟩ := checkSocketAllocationAllowed_updates h.wf₂ hm₂.enabled t kmalloc jiffies
  have hlimit : ∀ st, m₁.ensured t kmalloc = some st → (m₂.AtLimit st ↔ m₁.AtLimit st) := fun st hst =>
    (hm₂.atLimit_iff (h.ensured_pending hst)).trans (hm₁.atLimit_iff (h.ensured_pending hst)).symm
  rw [heq₁, heq₂]
  rw [← h.ensured] at hup₂ ⊢
  cases hens : m₁.ensured t kmalloc with
  | none =>
      rw [hens] at hup₁ hup₂
      exact ⟨⟨hup₁.wf, hup₂.wf, hup₁.entry.trans hup₂.entry.symm, fun st hst => by simp [hup₁.entry] at hst⟩, by simp⟩
  | some st =>
      rw [hens] at hup₁ hup₂
      have hpend := h.ensured_pending hens
      simp only [Option.map_some, hlimit st hens] at hup₁ hup₂
      refine ⟨⟨hup₁.wf, hup₂.wf, hup₁.entry.trans hup₂.entry.symm, fun st' hst' => ?_⟩, ?_⟩
      · rw [hup₁.entry, Option.some.injEq] at hst'
        subst hst'
        split <;> exact hpend
      · simp [hlimit st hens]

/-- The send check takes the same decision on both sides. -/
theorem SameEntry.throttle (h : SameEntry t m₁ m₂) (hm₁ : m₁.Limits) (hm₂ : m₂.Limits) :
    SameEntry t (m₁.shouldThrottleTransmission t).1 (m₂.shouldThrottleTransmission t).1 ∧
      (m₁.shouldThrottleTransmission t).2 = (m₂.shouldThrottleTransmission t).2 := by
  have hlim {m : SocketFairnessManager} (hm : m.Limits) : m.maxPendingPerThread ≤ m.maxSocketsPerThread := by
    have hten : (10 : UInt32).toNat = 10 := rfl
    rw [UInt32.le_iff_toNat_le, hm.maxSockets, hten]
    have := hm.pending_le
    omega
  cases hent : m₁.entry t with
  | none =>
      rw [shouldThrottleTransmission_none h.wf₁ hm₁.enabled hent (hlim hm₁),
        shouldThrottleTransmission_none h.wf₂ hm₂.enabled (h.entry ▸ hent) (hlim hm₂)]
      exact ⟨h, rfl⟩
  | some st =>
      obtain ⟨m₁', heq₁, hup₁⟩ := shouldThrottleTransmission_some h.wf₁ hm₁.enabled hent
      obtain ⟨m₂', heq₂, hup₂⟩ := shouldThrottleTransmission_some h.wf₂ hm₂.enabled (h.entry ▸ hent)
      rw [heq₁, heq₂, hm₁.maxSockets, hm₂.maxSockets]
      rw [hm₁.maxSockets] at hup₁
      rw [hm₂.maxSockets] at hup₂
      refine ⟨⟨hup₁.wf, hup₂.wf, hup₁.entry.trans hup₂.entry.symm, fun st' hst' => ?_⟩, rfl⟩
      rw [hup₁.entry, Option.some.injEq] at hst'
      subst hst'
      have hpend := h.pending st hent
      split <;> exact hpend

theorem SameEntry.sendmsg (h : SameEntry t m₁ m₂) (hm₁ : m₁.Limits) (hm₂ : m₂.Limits) (env : SendEnv) :
    SameEntry t (m₁.sockSendmsg t env).1 (m₂.sockSendmsg t env).1 ∧
      (m₁.sockSendmsg t env).2.1 = (m₂.sockSendmsg t env).2.1 := by
  obtain ⟨hsame, hdec⟩ := h.throttle hm₁ hm₂
  unfold sockSendmsg
  cases env.securitySocketSendmsg with
  | some err => exact ⟨hsame, hdec⟩
  | none =>
      cases env.sendmsg with
      | error err => exact ⟨hsame, hdec⟩
      | ok ret =>
          by_cases hb : 0 < env.bytes
          · simp only [if_pos hb]
            exact ⟨hsame.traffic _ _ _, hdec⟩
          · simp only [if_neg hb]
            exact ⟨hsame, hdec⟩

theorem SameEntry.recvmsg (h : SameEntry t m₁ m₂) (hm₁ : m₁.Limits) (hm₂ : m₂.Limits) (env : RecvEnv) :
    SameEntry t (m₁.sockRecvmsg t env).1 (m₂.sockRecvmsg t env).1 ∧
      (m₁.sockRecvmsg t env).2.1 = (m₂.sockRecvmsg t env).2.1 := by
  obtain ⟨hsame, hdec⟩ := h.check hm₁ hm₂ env.checkKmalloc env.jiffies
  unfold sockRecvmsg
  simp only [← hdec]
  cases (m₁.checkSocketAllocationAllowed t env.checkKmalloc env.jiffies).2 with
  | false => exact ⟨hsame, rfl⟩
  | true =>
      cases env.securitySocketRecvmsg with
      | some err => exact ⟨hsame, rfl⟩
      | none =>
          cases env.recvmsg with
          | error err => exact ⟨hsame, rfl⟩
          | ok ret =>
              by_cases hr : 0 < ret
              · simp only [if_pos hr]
                exact ⟨hsame.traffic _ _ _, rfl⟩
              · simp only [if_neg hr]
                exact ⟨hsame, rfl⟩

/-- The limit of pending requests after a release. -/
theorem maxPending_unregister {m : SocketFairnessManager} (hwf : m.WF) (t : Tid)
    (hle : m.maxPendingPerThread.toNat ≤ 5) :
    (m.unregisterSocketForThread t).maxPendingPerThread.toNat =
      if m.entry t = none then m.maxPendingPerThread.toNat - 1 else m.maxPendingPerThread.toNat := by
  cases h : m.entry t with
  | some st => rw [(unregisterSocketForThread_some hwf h).maxPending, if_neg (by simp)]
  | none =>
      rw [unregisterSocketForThread_none hwf.initialized h, if_pos rfl]
      have hint : m.maxPendingPerThread.toInt32.toInt = m.maxPendingPerThread.toNat := by
        have hlt : 2 * m.maxPendingPerThread.toBitVec.toNat < 2 ^ 32 := by
          show 2 * m.maxPendingPerThread.toNat < 2 ^ 32
          omega
        exact BitVec.toInt_eq_toNat_of_lt hlt
      by_cases hpos : 0 < m.maxPendingPerThread.toNat
      · have hsign : 0 < m.maxPendingPerThread.toInt32 := by
          rw [Int32.lt_iff_toInt_lt, hint]
          exact Int.natCast_pos.mpr hpos
        simp only [if_pos hsign]
        exact UInt32.toNat_sub_of_le _ _ (UInt32.le_iff_toNat_le.mpr hpos)
      · have hsign : ¬0 < m.maxPendingPerThread.toInt32 := by
          rw [Int32.lt_iff_toInt_lt, hint]
          exact fun h => hpos (Int.natCast_pos.mp h)
        simp only [if_neg hsign]
        omega

/-- A call that may release one socket takes a unit from the limit when it does and finds no entry. -/
theorem maxPending_release {m : SocketFairnessManager} (hwf : m.WF) (t : Tid)
    (hle : m.maxPendingPerThread.toNat ≤ 5) (c : Prop) [Decidable c] :
    (c ∧ m.entry t = none → (if c then m.unregisterSocketForThread t else m).maxPendingPerThread.toNat =
        m.maxPendingPerThread.toNat - 1) ∧
      (¬(c ∧ m.entry t = none) → (if c then m.unregisterSocketForThread t else m).maxPendingPerThread.toNat =
        m.maxPendingPerThread.toNat) := by
  by_cases hc : c
  · rw [if_pos hc, maxPending_unregister hwf t hle]
    exact ⟨fun hnone => if_pos hnone.2, fun hsome => if_neg fun hnone => hsome ⟨hc, hnone⟩⟩
  · rw [if_neg hc]
    exact ⟨fun hnone => absurd hnone.1 hc, fun _ => rfl⟩

end SocketFairnessManager

namespace State

open SocketFairnessManager

variable {n n' n₁ n₂ n₁' n₂' : State} {l : Label} {e e₁ e₂ : Event} {t u : Tid} {T : Set SockId}

/-- A thread without an entry releases a socket that has a file: it closes one, its `accept` fails late, or its
`socketpair`, neither of whose registrations found an entry, fails at the second file. -/
def ReleasesUntracked (n : State) : Label → Prop
  | .socketpair t _ _ family type protocol env =>
      env.RegistersFirst family type protocol ∧ env.RegistersSecond family type protocol ∧
        env.LosesSecondFile family type protocol ∧
        (n.mgr.entry t = none ∧ env.create1.statsKmalloc = false) ∧ env.create2.statsKmalloc = false
  | .accept t listener _ flags env => ((n.find listener).isSome ∧ env.FailsWithFile flags) ∧ n.mgr.entry t = none
  | .close t id => (n.find id).isSome ∧ n.mgr.entry t = none
  | _ => False

/-- No release by a thread without an entry takes the last unit of the limit of pending requests. -/
def KeepsLimit (n : State) (l : Label) : Prop :=
  n.ReleasesUntracked l → n.mgr.maxPendingPerThread.toNat ≠ 1

/-- A call changes the limit of pending requests exactly when it releases a socket without an entry. -/
theorem maxPending_step (h : n.step l = some (n', e)) (hle : n.mgr.maxPendingPerThread.toNat ≤ 5) :
    (n.ReleasesUntracked l → n'.mgr.maxPendingPerThread.toNat = n.mgr.maxPendingPerThread.toNat - 1) ∧
      (¬n.ReleasesUntracked l → n'.mgr.maxPendingPerThread.toNat = n.mgr.maxPendingPerThread.toNat) := by
  cases l with
  | socket t id family type protocol env =>
      refine ⟨False.elim, fun _ => ?_⟩
      rw [(step_socket h).2.2.1]
      split
      · rw [(registerSocketForThread_updates n.ready t _).maxPending]
      · rfl
  | socketpair t id₁ id₂ family type protocol env =>
      have h₁ := registerSocketForThread_updates n.ready t env.create1.statsKmalloc
      have h₂ := registerSocketForThread_updates h₁.wf t env.create2.statsKmalloc
      have hpending := h₂.maxPending.trans h₁.maxPending
      rw [(step_socketpair h).2.2.1]
      simp only [ReleasesUntracked]
      split
      · split
        · split
          · simp only [maxPending_unregister h₂.wf t (hpending ▸ hle), hpending,
              entry_registerSocketForThread_eq_none h₁.wf, entry_registerSocketForThread_eq_none n.ready]
            simp only [*, true_and]
            exact ⟨fun hnone => if_pos hnone, fun hsome => if_neg hsome⟩
          · rw [hpending]
            simp [*]
        · rw [h₁.maxPending]
          simp [*]
      · simp [*]
  | accept t listener id flags env =>
      rw [(step_accept h).2.2.1]
      exact maxPending_release n.ready t hle _
  | close t id =>
      rw [mgr_step_close h]
      exact maxPending_release n.ready t hle _
  | send t id env => exact ⟨False.elim, fun _ => congrArg UInt32.toNat (step_send_quiet h).maxPending⟩
  | recv t id env => exact ⟨False.elim, fun _ => congrArg UInt32.toNat (step_recv_quiet h).maxPending⟩

theorem limits_step (h : n.step l = some (n', e)) (hl : n.KeepsLimit l) (hn : n.mgr.Limits) : n'.mgr.Limits := by
  have htouch := step_touches h
  have hpos := hn.pending_pos
  have hle := hn.pending_le
  obtain ⟨hrel, hkeep⟩ := maxPending_step h hle
  have hpending : 0 < n'.mgr.maxPendingPerThread.toNat ∧ n'.mgr.maxPendingPerThread.toNat ≤ 5 := by
    by_cases hu : n.ReleasesUntracked l
    · have hne := hl hu
      rw [hrel hu]
      omega
    · rw [hkeep hu]
      exact ⟨hpos, hle⟩
  exact ⟨htouch.enabled.trans hn.enabled, htouch.maxSockets.trans hn.maxSockets, hpending.1, hpending.2⟩

/-- The states of the two runs, as far as a thread can tell: its entry, the sockets outside the set, and limits
that have not run out. -/
structure Agrees (T : Set SockId) (t : Tid) (n₁ n₂ : State) : Prop where
  same : SameEntry t n₁.mgr n₂.mgr
  socks : ∀ id, id ∉ T → n₁.find id = n₂.find id
  limits₁ : n₁.mgr.Limits
  limits₂ : n₂.mgr.Limits

theorem find_step_of_not_changes (h : n.step l = some (n', e)) {x : SockId} (hx : x ∉ l.changes) :
    n'.find x = n.find x := by
  cases l with
  | socket t id family type protocol env =>
      simp only [Label.changes, List.mem_singleton] at hx
      rw [find_step_socket h, if_neg fun hs => hx hs.2.symm]
  | socketpair t id₁ id₂ family type protocol env =>
      simp only [Label.changes, List.mem_cons, List.not_mem_nil, or_false, not_or] at hx
      rw [find_step_socketpair h, if_neg fun hs => hx.2 hs.2.symm, if_neg fun hs => hx.1 hs.2.symm]
  | accept t listener id flags env =>
      simp only [Label.changes, List.mem_singleton] at hx
      rw [find_step_accept h, if_neg fun hs => hx hs.2.symm]
  | close t id =>
      simp only [Label.changes, List.mem_singleton] at hx
      rw [find_step_close h, if_neg (Ne.symm hx)]
  | send t id env => exact find_of_socks (step_send h).1 x
  | recv t id env => exact find_of_socks (step_recv h).1 x

/-- The same call in both runs leaves the sockets outside the set alike. -/
theorem Agrees.find_step (ha : Agrees T t n₁ n₂) (hl : l.Apart T t u) (h₁ : n₁.step l = some (n₁', e₁))
    (h₂ : n₂.step l = some (n₂', e₂)) {x : SockId} (hx : x ∉ T) : n₁'.find x = n₂'.find x := by
  have hsocks := ha.socks x hx
  cases l with
  | socket v id family type protocol env => rw [find_step_socket h₁, find_step_socket h₂, hsocks]
  | socketpair v id₁ id₂ family type protocol env => rw [find_step_socketpair h₁, find_step_socketpair h₂, hsocks]
  | accept v listener id flags env =>
      rw [find_step_accept h₁, find_step_accept h₂, hsocks]
      by_cases hlisten : listener ∈ T
      · have hid : id ≠ x := fun he => hx (he ▸ hl.accepts listener id rfl hlisten)
        rw [if_neg fun h => hid h.2, if_neg fun h => hid h.2]
      · rw [ha.socks listener hlisten]
  | close v id => rw [find_step_close h₁, find_step_close h₂, hsocks]
  | send v id env => rw [find_of_socks (step_send h₁).1, find_of_socks (step_send h₂).1, hsocks]
  | recv v id env => rw [find_of_socks (step_recv h₁).1, find_of_socks (step_recv h₂).1, hsocks]

/-- The thread's own call has the same effect on its entry and takes the same decision in both runs. -/
theorem Agrees.own_step (ha : Agrees T t n₁ n₂) (hl : l.Apart T t u) (ht : l.tid = t)
    (h₁ : n₁.step l = some (n₁', e₁)) (h₂ : n₂.step l = some (n₂', e₂)) :
    SameEntry t n₁'.mgr n₂'.mgr ∧ e₁.decision = e₂.decision := by
  have hsocks : ∀ id ∈ l.touches, n₁.find id = n₂.find id := fun id hid => ha.socks id (hl.touches ht id hid)
  subst ht
  cases l with
  | socket t id family type protocol env =>
      obtain ⟨-, hd₁, hm₁, -⟩ := step_socket h₁
      obtain ⟨-, hd₂, hm₂, -⟩ := step_socket h₂
      refine ⟨?_, hd₁.trans hd₂.symm⟩
      rw [hm₁, hm₂]
      split
      · exact ha.same.register _
      · exact ha.same
  | socketpair t id₁ id₂ family type protocol env =>
      obtain ⟨-, hd₁, hm₁, -⟩ := step_socketpair h₁
      obtain ⟨-, hd₂, hm₂, -⟩ := step_socketpair h₂
      refine ⟨?_, hd₁.trans hd₂.symm⟩
      rw [hm₁, hm₂]
      split
      · split
        · split
          · exact ((ha.same.register _).register _).unregister
          · exact (ha.same.register _).register _
        · exact ha.same.register _
      · exact ha.same
  | accept t listener id flags env =>
      obtain ⟨-, hd₁, hm₁, -⟩ := step_accept h₁
      obtain ⟨-, hd₂, hm₂, -⟩ := step_accept h₂
      refine ⟨?_, hd₁.trans hd₂.symm⟩
      rw [hm₁, hm₂, hsocks listener (by simp [Label.touches])]
      split
      · exact ha.same.unregister
      · exact ha.same
  | close t id =>
      refine ⟨?_, (step_close h₁).1.trans (step_close h₂).1.symm⟩
      rw [mgr_step_close h₁, mgr_step_close h₂, hsocks id (by simp [Label.touches])]
      split
      · exact ha.same.unregister
      · exact ha.same
  | send t id env =>
      obtain ⟨-, hm₁, hd₁⟩ := step_send h₁
      obtain ⟨-, hm₂, hd₂⟩ := step_send h₂
      obtain ⟨hsame, hdec⟩ := ha.same.sendmsg ha.limits₁ ha.limits₂ env
      rw [hm₁, hm₂, hd₁, hd₂, hsocks id (by simp [Label.touches])]
      split
      · exact ⟨hsame, congrArg _ (congrArg _ hdec)⟩
      · exact ⟨ha.same, rfl⟩
  | recv t id env =>
      obtain ⟨-, hm₁, hd₁⟩ := step_recv h₁
      obtain ⟨-, hm₂, hd₂⟩ := step_recv h₂
      obtain ⟨hsame, hdec⟩ := ha.same.recvmsg ha.limits₁ ha.limits₂ env
      rw [hm₁, hm₂, hd₁, hd₂, hsocks id (by simp [Label.touches])]
      split
      · exact ⟨hsame, congrArg _ (congrArg _ hdec)⟩
      · exact ⟨ha.same, rfl⟩

/-- A call that stays in both runs keeps them in agreement. -/
theorem Agrees.step_kept (ha : Agrees T t n₁ n₂) (hl : l.Apart T t u) (hok₁ : n₁.KeepsLimit l)
    (hok₂ : n₂.KeepsLimit l) (h₁ : n₁.step l = some (n₁', e₁)) (h₂ : n₂.step l = some (n₂', e₂)) :
    Agrees T t n₁' n₂' ∧ e₁.decisionOf t = e₂.decisionOf t := by
  have hsocks : ∀ id, id ∉ T → n₁'.find id = n₂'.find id := fun id hid => ha.find_step hl h₁ h₂ hid
  have hlimits₁ := limits_step h₁ hok₁ ha.limits₁
  have hlimits₂ := limits_step h₂ hok₂ ha.limits₂
  by_cases ht : l.tid = t
  · obtain ⟨hsame, hdec⟩ := ha.own_step hl ht h₁ h₂
    refine ⟨⟨hsame, hsocks, hlimits₁, hlimits₂⟩, ?_⟩
    rw [Event.decisionOf, Event.decisionOf, step_tid h₁, step_tid h₂, hdec]
  · have hsame := (ha.same.touches (Ne.symm ht) (step_touches h₁)).symm.touches (Ne.symm ht) (step_touches h₂)
    refine ⟨⟨hsame.symm, hsocks, hlimits₁, hlimits₂⟩, ?_⟩
    rw [Event.decisionOf, Event.decisionOf, step_tid h₁, step_tid h₂, if_neg ht, if_neg ht]

/-- A call that is removed from the second run leaves them in agreement. -/
theorem Agrees.step_dropped (ha : Agrees T t n₁ n₂) (htu : t ≠ u) (hl : l.Apart T t u) (hu : l.tid = u)
    (hok₁ : n₁.KeepsLimit l) (h₁ : n₁.step l = some (n₁', e₁)) :
    Agrees T t n₁' n₂ ∧ e₁.decisionOf t = none := by
  have hne : t ≠ l.tid := fun he => htu (he.trans hu)
  refine ⟨⟨ha.same.touches hne (step_touches h₁), fun id hid => ?_, limits_step h₁ hok₁ ha.limits₁, ha.limits₂⟩, ?_⟩
  · rw [find_step_of_not_changes h₁ fun hid' => hid (hl.changes hu id hid'), ha.socks id hid]
  · rw [Event.decisionOf, step_tid h₁, if_neg (Ne.symm hne)]

theorem init_limits (pastEnd : PastEnd) : (init pastEnd).mgr.Limits :=
  ⟨rfl, rfl, Nat.zero_lt_succ 4, Nat.le_refl 5⟩

theorem init_agrees (pastEnd : PastEnd) : Agrees T t (init pastEnd) (init pastEnd) where
  same := ⟨(init pastEnd).ready, (init pastEnd).ready, rfl, fun st hst => by cases hst⟩
  socks _ _ := rfl
  limits₁ := init_limits pastEnd
  limits₂ := init_limits pastEnd

/-- **Independence of decisions.** Remove all calls of a thread, on sockets that another thread never touches,
from a run. If in neither run a release without an entry takes the last unit of the limit of pending requests,
every receive and send of the other thread is decided as before. -/
theorem decisions_independent (pastEnd : PastEnd) (htu : t ≠ u) (T : Set SockId) (ls : List Label)
    (hls : ∀ l ∈ ls, l.Apart T t u) {es es' : List Event} (hrun : run step (init pastEnd) ls = some (n, es))
    (hrun' : run step (init pastEnd) (ls.filter fun l => l.tid ≠ u) = some (n', es'))
    (hok : Along step KeepsLimit (init pastEnd) ls)
    (hok' : Along step KeepsLimit (init pastEnd) (ls.filter fun l => l.tid ≠ u)) :
    es.filterMap (Event.decisionOf t) = es'.filterMap (Event.decisionOf t) := by
  refine run_filter_agree (Agrees T t) (Label.Apart T t u) KeepsLimit ?_ ?_ (init_agrees pastEnd) hls hok hok'
    hrun hrun'
  · intro n₁ n₂ l n₁' e₁ n₂' e₂ ha hl hok₁ hok₂ _ h₁ h₂
    exact ha.step_kept hl hok₁ hok₂ h₁ h₂
  · intro n₁ n₂ l n₁' e₁ ha hl hok₁ hk h₁
    exact ha.step_dropped htu hl (by simpa using hk) hok₁ h₁

/-- Two threads at work on a socket each. -/
def separateSockets : List Label :=
  [.socket 1 10 2 1 0 {}, .socket 2 20 2 1 0 {}, .recv 1 10 { recvmsg := .ok 5 }, .close 2 20,
    .send 1 10 { bytes := 5, sendmsg := .ok 5 }]

theorem decisions_separateSockets :
    ∃ n es n' es', run step (init ⟨0, 0, 0⟩) separateSockets = some (n, es) ∧
      run step (init ⟨0, 0, 0⟩) (separateSockets.filter fun l => l.tid ≠ 2) = some (n', es') ∧
      es.filterMap (Event.decisionOf 1) = es'.filterMap (Event.decisionOf 1) := by
  refine ⟨_, _, _, _, rfl, rfl,
    decisions_independent ⟨0, 0, 0⟩ (by decide) {20} separateSockets (u := 2) ?_ rfl rfl ?_ ?_⟩
  · intro l hl
    simp only [separateSockets, List.mem_cons, List.not_mem_nil, or_false] at hl
    rcases hl with rfl | rfl | rfl | rfl | rfl <;>
      exact ⟨by simp [Label.tid, Label.changes], by simp [Label.accepts], by simp [Label.tid, Label.touches]⟩
  · refine .cons rfl (fun h => h.elim) (.cons rfl (fun h => h.elim) (.cons rfl (fun h => h.elim)
      (.cons rfl (fun h => ?_) (.cons rfl (fun h => h.elim) trivial))))
    exact absurd h.2 (by decide)
  · exact .cons rfl (fun h => h.elim) (.cons rfl (fun h => h.elim) (.cons rfl (fun h => h.elim) trivial))

/-- A thread that never creates a socket accepts five connections on a listening socket of a third thread and
closes them. -/
def drainedLimit : List Label :=
  [.socket 3 50 2 1 0 {}, .socket 1 10 2 1 0 {}, .accept 2 50 60 0 {}, .accept 2 50 61 0 {}, .accept 2 50 62 0 {},
    .accept 2 50 63 0 {}, .accept 2 50 64 0 {}, .close 2 60, .close 2 61, .close 2 62, .close 2 63, .close 2 64,
    .recv 1 10 { recvmsg := .ok 5 }]

/-- The next receive of the first thread then fails with `EAGAIN`, which it would not do otherwise. -/
theorem drainedLimit_refuses :
    (∀ l ∈ drainedLimit, l.Apart {60, 61, 62, 63, 64} 1 2) ∧
      (run step (init ⟨0, 0, 0⟩) drainedLimit).map (fun r => r.2.filterMap (Event.decisionOf 1)) =
        some [.allowed false] ∧
      (run step (init ⟨0, 0, 0⟩) (drainedLimit.filter fun l => l.tid ≠ 2)).map
        (fun r => r.2.filterMap (Event.decisionOf 1)) = some [.allowed true] := by
  refine ⟨fun l hl => ?_, by decide, by decide⟩
  simp only [drainedLimit, List.mem_cons, List.not_mem_nil, or_false] at hl
  rcases hl with rfl | rfl | rfl | rfl | rfl | rfl | rfl | rfl | rfl | rfl | rfl | rfl | rfl <;>
    exact ⟨by simp [Label.tid, Label.changes], by simp [Label.accepts], by simp [Label.tid, Label.touches]⟩

end State

end OsHw.Net
