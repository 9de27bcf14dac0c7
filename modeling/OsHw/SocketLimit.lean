import OsHw.SocketThreads

/-! The limit of sockets on the two paths. The receive path refuses a thread at the limit, the send path throttles a
thread above it, and both compare the signed counter as an unsigned number. The two decisions are compared with
each other and with what the counter says, in every state of a run, and the calls are characterised after which
they come apart. -/

namespace OsHw.Net

/-- The two comparisons of a counter with the limit agree, and mean that it exceeds the limit, exactly when it is
neither negative nor at the limit. -/
theorem compare_agree_iff {limit : UInt32} (hlimit : limit.toNat < 2147483648) (a : Int32) :
    ((limit ≤ a.toUInt32 ↔ limit < a.toUInt32) ∧ (limit < a.toUInt32 ↔ (limit.toNat : Int) < a.toInt)) ↔
      0 ≤ a.toInt ∧ a.toInt ≠ limit.toNat := by
  have hlo := a.le_toInt
  have hhi := a.toInt_lt
  have hword : a.toUInt32.toNat < 4294967296 := a.toUInt32.toNat_lt
  have hsigned : a.toInt = if 2 * a.toUInt32.toNat < 4294967296 then (a.toUInt32.toNat : Int)
      else a.toUInt32.toNat - (4294967296 : Nat) := BitVec.toInt_eq_toNat_cond a.toBitVec
  rw [UInt32.le_iff_toNat_le, UInt32.lt_iff_toNat_lt]
  split at hsigned
  · omega
  · omega

namespace SocketFairnessManager

variable {m : SocketFairnessManager} {t : Tid}

/-- `pending_requests` of a thread, zero when it has no entry. -/
def pendingOf (m : SocketFairnessManager) (tid : Tid) : Int32 :=
  ((m.entry tid).map ThreadSocketStats.pendingRequests).getD 0

/-- The send path and the receive path apply the same limit: a thread with fewer pending requests than it may have
is refused a receive exactly when its sends are throttled, and both exactly when its active sockets exceed the
limit. -/
def SameLimit (m : SocketFairnessManager) : Prop :=
  ∀ t, (m.pendingOf t).toUInt32 < m.maxPendingPerThread → ∀ (send : SendEnv) (recv : RecvEnv),
    ((m.sockRecvmsg t recv).2 = (false, .error eagain) ↔ (m.sockSendmsg t send).2.1 = true) ∧
    ((m.sockSendmsg t send).2.1 = true ↔ (m.maxSocketsPerThread.toNat : Int) < (m.activeOf t).toInt)

theorem sockSendmsg_decision (m : SocketFairnessManager) (t : Tid) (env : SendEnv) :
    (m.sockSendmsg t env).2.1 = (m.shouldThrottleTransmission t).2 := by
  unfold sockSendmsg
  cases env.securitySocketSendmsg <;> cases env.sendmsg <;> rfl

/-- A receive is refused exactly when the check says so. -/
theorem sockRecvmsg_refused_iff (m : SocketFairnessManager) (t : Tid) (env : RecvEnv) :
    (m.sockRecvmsg t env).2 = (false, .error eagain) ↔
      (m.checkSocketAllocationAllowed t env.checkKmalloc env.jiffies).2 = false := by
  unfold sockRecvmsg
  cases hallow : (m.checkSocketAllocationAllowed t env.checkKmalloc env.jiffies).2 with
  | false => simp [hallow]
  | true => cases env.securitySocketRecvmsg <;> cases env.recvmsg <;> simp [hallow]

/-- The two decisions about a thread below the limit of pending requests. -/
theorem decisions_agree_iff (hm : m.WF) (hb : m.Bounded) (hpend : m.maxPendingPerThread.toNat ≠ 0) (t : Tid) :
    (∀ (send : SendEnv) (recv : RecvEnv),
      ((m.sockRecvmsg t recv).2 = (false, .error eagain) ↔ (m.sockSendmsg t send).2.1 = true) ∧
      ((m.sockSendmsg t send).2.1 = true ↔ (m.maxSocketsPerThread.toNat : Int) < (m.activeOf t).toInt)) ↔
      0 ≤ (m.activeOf t).toInt ∧ (m.activeOf t).toInt ≠ m.maxSocketsPerThread.toNat := by
  have hlimit : m.maxSocketsPerThread.toNat < 2147483648 := by
    rw [hb.maxSockets]
    decide
  have hcheck : ∀ k j, (m.checkSocketAllocationAllowed t k j).2 = false ↔ ∃ st ∈ m.ensured t k, m.AtLimit st := by
    intro k j
    obtain ⟨m', heq, -⟩ := checkSocketAllocationAllowed_updates hm hb.enabled t k j
    rw [heq, decide_eq_false_iff_not]
    simp only [not_forall, not_not, exists_prop]
  have hat : ∀ k st, m.ensured t k = some st → (m.AtLimit st ↔ m.maxSocketsPerThread ≤ st.activeSockets.toUInt32) := by
    intro k st hst
    rw [AtLimit, hb.noPending.ensured hst, UInt32.le_iff_toNat_le, UInt32.le_iff_toNat_le]
    show _ ∨ m.maxPendingPerThread.toNat ≤ 0 ↔ _
    omega
  simp only [sockSendmsg_decision, sockRecvmsg_refused_iff, hcheck]
  cases hent : m.entry t with
  | some st =>
      obtain ⟨m', heq, -⟩ := shouldThrottleTransmission_some hm hb.enabled hent
      have hfound : ∀ k, m.ensured t k = some st := fun k => by rw [ensured, hent, Option.some_or]
      have hactive : m.activeOf t = st.activeSockets := activeOf_eq hent
      rw [hactive, ← compare_agree_iff hlimit, heq]
      simp only [hfound, Option.mem_some_iff, exists_eq_left', hat true st (hfound true), decide_eq_true_eq]
      exact ⟨fun h => h ⟨none, 0, .ok 0, true⟩ ⟨true, 0, none, .ok 0, true⟩, fun h _ _ => h⟩
  | none =>
      have hlim : m.maxPendingPerThread ≤ m.maxSocketsPerThread := by
        rw [hb.maxSockets, UInt32.le_iff_toNat_le]
        exact Nat.le_trans hb.pending_le (by decide)
      have hactive : m.activeOf t = 0 := activeOf_eq hent
      have hfree : ∀ k, ¬∃ st ∈ m.ensured t k, m.AtLimit st := by
        rintro k ⟨st, hst, hover⟩
        rw [hat k st hst, hb.maxSockets] at hover
        rw [ensured, hent, Option.none_or] at hst
        cases k <;> cases hst
        have hten : ¬(10 : UInt32) ≤ (0 : Int32).toUInt32 := by decide
        exact hten hover
      rw [shouldThrottleTransmission_none hm hb.enabled hent hlim, hactive, hb.maxSockets]
      exact iff_of_true (fun _ recv => ⟨iff_of_false (hfree _) Bool.false_ne_true,
        iff_of_false Bool.false_ne_true (by decide)⟩) (by decide)

theorem sameLimit_iff (hm : m.WF) (hb : m.Bounded) :
    m.SameLimit ↔ (m.maxPendingPerThread.toNat ≠ 0 →
      ∀ t, 0 ≤ (m.activeOf t).toInt ∧ (m.activeOf t).toInt ≠ m.maxSocketsPerThread.toNat) := by
  have hzero : ∀ t, m.pendingOf t = 0 := by
    intro t
    rw [pendingOf]
    cases hent : m.entry t with
    | none => rfl
    | some st => exact hb.noPending t st hent
  have hbelow : ∀ t, (m.pendingOf t).toUInt32 < m.maxPendingPerThread ↔ m.maxPendingPerThread.toNat ≠ 0 := by
    intro t
    rw [hzero, UInt32.lt_iff_toNat_lt]
    exact Nat.pos_iff_ne_zero
  simp only [SameLimit, hbelow]
  constructor
  · exact fun h hpend t => (decisions_agree_iff hm hb hpend t).mp (h t hpend)
  · exact fun h t hpend => (decisions_agree_iff hm hb hpend t).mpr (h hpend t)

end SocketFairnessManager

namespace State

open SocketFairnessManager

variable {n n' : State} {l : Label} {e : Event}

/-- A counter after a release. -/
def released (a : Int32) : Int32 := if 0 < a then a + -1 else a

/-- The caller's `active_sockets` after a call. -/
def activeAfter (n : State) : Label → Int32
  | .socket t _ family type protocol env =>
      if env.Registers family type protocol ∧ ¬(n.mgr.entry t = none ∧ env.create.statsKmalloc = false) then
        n.mgr.activeOf t + 1
      else n.mgr.activeOf t
  | .socketpair t _ _ family type protocol env =>
      let first := if n.mgr.entry t = none ∧ env.create1.statsKmalloc = false then n.mgr.activeOf t
        else n.mgr.activeOf t + 1
      let second := if n.mgr.entry t = none ∧ env.create1.statsKmalloc = false ∧ env.create2.statsKmalloc = false then
        first else first + 1
      if env.RegistersFirst family type protocol then
        if env.RegistersSecond family type protocol then
          if env.LosesSecondFile family type protocol then released second else second
        else first
      else n.mgr.activeOf t
  | .accept t listener _ flags env =>
      if (n.find listener).isSome ∧ env.FailsWithFile flags then released (n.mgr.activeOf t) else n.mgr.activeOf t
  | .close t id => if (n.find id).isSome then released (n.mgr.activeOf t) else n.mgr.activeOf t
  | .send t _ _ => n.mgr.activeOf t
  | .recv t _ _ => n.mgr.activeOf t

/-- The call leaves the caller's counter neither negative nor at the limit of sockets, unless the limit of pending
requests is used up. -/
def AvoidsLimit (n : State) (l : Label) : Prop :=
  n.mgr.maxPendingPerThread.toNat ≠ 0 → n.KeepsLimit l →
    0 ≤ (n.activeAfter l).toInt ∧ (n.activeAfter l).toInt ≠ n.mgr.maxSocketsPerThread.toNat

theorem activeOf_release (hm : n.mgr.WF) (t : Tid) (c : Prop) [Decidable c] :
    (if c then n.mgr.unregisterSocketForThread t else n.mgr).activeOf t =
      if c then released (n.mgr.activeOf t) else n.mgr.activeOf t := by
  by_cases hc : c
  · rw [if_pos hc, if_pos hc, activeOf_unregisterSocketForThread hm, released]
  · rw [if_neg hc, if_neg hc]

theorem activeOf_step (h : n.step l = some (n', e)) : n'.mgr.activeOf l.tid = n.activeAfter l := by
  cases l with
  | socket t id family type protocol env =>
      rw [(step_socket h).2.2.1, activeAfter, Label.tid]
      by_cases hreg : env.Registers family type protocol
      · rw [if_pos hreg, activeOf_registerSocketForThread n.ready]
        simp only [hreg, true_and, ite_not]
      · simp only [hreg, if_false, false_and]
  | socketpair t id₁ id₂ family type protocol env =>
      have hwf₁ := (registerSocketForThread_updates n.ready t env.create1.statsKmalloc).wf
      have hwf₂ := (registerSocketForThread_updates hwf₁ t env.create2.statsKmalloc).wf
      have htwice : ((n.mgr.registerSocketForThread t env.create1.statsKmalloc).registerSocketForThread t
          env.create2.statsKmalloc).activeOf t =
          if n.mgr.entry t = none ∧ env.create1.statsKmalloc = false ∧ env.create2.statsKmalloc = false then
            if n.mgr.entry t = none ∧ env.create1.statsKmalloc = false then n.mgr.activeOf t else n.mgr.activeOf t + 1
          else
            (if n.mgr.entry t = none ∧ env.create1.statsKmalloc = false then n.mgr.activeOf t
              else n.mgr.activeOf t + 1) + 1 := by
        rw [activeOf_register_twice n.ready]
        by_cases hlost : n.mgr.entry t = none ∧ env.create1.statsKmalloc = false
        · simp only [hlost, and_self, true_and, if_true]
        · have hlost' : ¬(n.mgr.entry t = none ∧ env.create1.statsKmalloc = false ∧
              env.create2.statsKmalloc = false) := fun hall => hlost ⟨hall.1, hall.2.1⟩
          simp only [if_neg hlost, if_neg hlost']
      rw [(step_socketpair h).2.2.1, activeAfter, Label.tid]
      split
      · split
        · split
          · rw [activeOf_unregisterSocketForThread hwf₂, htwice, released]
          · exact htwice
        · exact activeOf_registerSocketForThread n.ready
      · rfl
  | accept t listener id flags env =>
      rw [(step_accept h).2.2.1]
      exact activeOf_release n.ready t _
  | close t id =>
      rw [mgr_step_close h]
      exact activeOf_release n.ready t _
  | send t id env => exact (step_send_quiet h).active
  | recv t id env => exact (step_recv_quiet h).active

/-- Whether a call keeps the two paths together shows at the counter of its caller. -/
theorem sameLimit_step_iff (h : n.step l = some (n', e)) (hb : n.mgr.Bounded) (hn : n.mgr.SameLimit) :
    n'.mgr.SameLimit ↔ n.AvoidsLimit l := by
  have hb' := bounded_step h hb
  have htouch := step_touches h
  obtain ⟨hrel, hkeep⟩ := maxPending_step h hb.pending_le
  have hleft : n'.mgr.maxPendingPerThread.toNat ≠ 0 ↔
      n.mgr.maxPendingPerThread.toNat ≠ 0 ∧ n.KeepsLimit l := by
    rw [KeepsLimit]
    by_cases hu : n.ReleasesUntracked l
    · have hle := hb.pending_le
      rw [hrel hu]
      simp only [hu, forall_const]
      omega
    · rw [hkeep hu]
      simp [hu]
  rw [sameLimit_iff n.ready hb] at hn
  rw [sameLimit_iff n'.ready hb', hleft, and_imp, AvoidsLimit, ← activeOf_step h, htouch.maxSockets]
  constructor
  · exact fun hall hpend hlast => hall hpend hlast l.tid
  · intro hself hpend hlast t
    by_cases ht : t = l.tid
    · subst ht
      exact hself hpend hlast
    · rw [activeOf, htouch.others t ht, ← activeOf]
      exact hn hpend t

/-- **One limit.** In any run the send path and the receive path apply the same limit to every thread in every state
exactly when every call avoids the limit. -/
theorem sameLimit_iff_avoidsLimit (pastEnd : PastEnd) (ls : List Label) :
    Throughout step (fun _ n => n.mgr.SameLimit) (init pastEnd) ls ↔ Along step AvoidsLimit (init pastEnd) ls := by
  have hinit : (init pastEnd).mgr.SameLimit := by
    refine (sameLimit_iff (init pastEnd).ready (bounded_init pastEnd)).mpr fun _ t => ?_
    show 0 ≤ (0 : Int32).toInt ∧ (0 : Int32).toInt ≠ (10 : UInt32).toNat
    decide
  refine throughout_iff_along (fun _ n => n.mgr.Bounded) (fun _ _ => True) ?_ ?_ ls
    (Along.of_forall _ ls fun _ _ _ => trivial) (bounded_init pastEnd) hinit
  · intro _ n l n' e _ hb _ h
    exact bounded_step h hb
  · intro _ n l n' e _ hb hn h
    exact sameLimit_step_iff h hb hn

/-- A thread opens ten sockets, which is the limit. -/
def tenSockets : List Label := (List.range 10).map fun id => .socket 1 id 2 1 0 {}

theorem tenSockets_differ :
    (∃ n es, run step (init ⟨0, 0, 0⟩) tenSockets = some (n, es) ∧ n.mgr.activeOf 1 = 10 ∧
      (n.mgr.sockRecvmsg 1 { recvmsg := .ok 4 }).2 = (false, .error eagain) ∧
      (n.mgr.sockSendmsg 1 { bytes := 4, sendmsg := .ok 4 }).2.1 = false) ∧
    ¬Throughout step (fun _ n => n.mgr.SameLimit) (init ⟨0, 0, 0⟩) tenSockets := by
  have hend : ∃ n es, run step (init ⟨0, 0, 0⟩) tenSockets = some (n, es) ∧ n.mgr.activeOf 1 = 10 ∧
      (n.mgr.sockRecvmsg 1 { recvmsg := .ok 4 }).2 = (false, .error eagain) ∧
      (n.mgr.sockSendmsg 1 { bytes := 4, sendmsg := .ok 4 }).2.1 = false ∧
      (n.mgr.pendingOf 1).toUInt32 < n.mgr.maxPendingPerThread := ⟨_, _, rfl, rfl, rfl, rfl, by decide⟩
  obtain ⟨n, es, hrun, hactive, hrefused, hfree, hbelow⟩ := hend
  refine ⟨⟨n, es, hrun, hactive, hrefused, hfree⟩, fun h => ?_⟩
  have hsame := h tenSockets (List.prefix_refl _) n es hrun 1 hbelow { bytes := 4, sendmsg := .ok 4 }
    { recvmsg := .ok 4 }
  rw [hsame.1.mp hrefused] at hfree
  cases hfree

end State

end OsHw.Net
