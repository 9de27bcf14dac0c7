import Mathlib.Algebra.GroupWithZero.Nat
import OsHw.FairnessLookup
import OsHw.SocketSystem

/-! What the byte totals count. A receive adds what the protocol returned. A send adds the bytes the message had
before the protocol ran, and a transfer for which no entry can be allocated adds nothing. The totals of a run
are compared with what its calls returned, and with the exact condition on a call for the two to agree. -/

namespace OsHw.Net

/-- The bytes that a call returned, none for an error. -/
def returned : Except Errno Nat → Nat
  | .ok n => n
  | .error _ => 0

/-- What `__sock_sendmsg` returns: nothing the fairness hooks do changes it. -/
def SendEnv.result (env : SendEnv) : Except Errno Nat :=
  match env.securitySocketSendmsg with
  | some err => .error err
  | none => env.sendmsg

/-- What `sock_recvmsg` returns when it is allowed. -/
def RecvEnv.result (env : RecvEnv) : Except Errno Nat :=
  match env.securitySocketRecvmsg with
  | some err => .error err
  | none => env.recvmsg

/-- The bytes that the thread's `__sock_sendmsg` returned in this call. -/
def Event.sentBy (t : Tid) (e : Event) : Nat :=
  match e.decision with
  | some (.throttled _) => if e.tid = t then returned e.result else 0
  | _ => 0

/-- The bytes that the thread's `sock_recvmsg` returned in this call. -/
def Event.receivedBy (t : Tid) (e : Event) : Nat :=
  match e.decision with
  | some (.allowed _) => if e.tid = t then returned e.result else 0
  | _ => 0

theorem sentBy_ne {t : Tid} {e : Event} (h : e.tid ≠ t) : e.sentBy t = 0 := by
  unfold Event.sentBy
  split
  · exact if_neg h
  · rfl

theorem receivedBy_ne {t : Tid} {e : Event} (h : e.tid ≠ t) : e.receivedBy t = 0 := by
  unfold Event.receivedBy
  split
  · exact if_neg h
  · rfl

/-- `atomic_add` tells two amounts apart by their low 32 bits. -/
theorem ofNat_eq_iff_mod {a b : Nat} : Int32.ofNat a = Int32.ofNat b ↔ a % 4294967296 = b % 4294967296 := by
  rw [← Int32.toBitVec_inj, Int32.toBitVec_ofNat', Int32.toBitVec_ofNat', ← BitVec.toNat_inj, BitVec.toNat_ofNat,
    BitVec.toNat_ofNat]

namespace SocketFairnessManager

variable {m m' m'' : SocketFairnessManager} {t : Tid} {kmalloc : Bool} {f : ThreadSocketStats → ThreadSocketStats}
  {sent received : Nat}

/-- `total_bytes_sent` of a thread, zero when it has no entry. -/
def sentOf (m : SocketFairnessManager) (tid : Tid) : Int32 :=
  ((m.entry tid).map ThreadSocketStats.totalBytesSent).getD 0

/-- `total_bytes_received` of a thread, zero when it has no entry. -/
def receivedOf (m : SocketFairnessManager) (tid : Tid) : Int32 :=
  ((m.entry tid).map ThreadSocketStats.totalBytesReceived).getD 0

/-- A call made for one thread adds to its totals and takes no entry away. -/
structure Carries (t : Tid) (m m' : SocketFairnessManager) (sent received : Nat) : Prop where
  kept : m'.entry t = none → m.entry t = none
  sent : m'.sentOf t = m.sentOf t + Int32.ofNat sent
  received : m'.receivedOf t = m.receivedOf t + Int32.ofNat received

theorem Carries.refl (t : Tid) (m : SocketFairnessManager) : Carries t m m 0 0 :=
  ⟨id, (Int32.add_zero _).symm, (Int32.add_zero _).symm⟩

theorem Carries.trans {s₁ s₂ r₁ r₂ : Nat} (h : Carries t m m' s₁ r₁) (h' : Carries t m' m'' s₂ r₂) :
    Carries t m m'' (s₁ + s₂) (r₁ + r₂) := by
  refine ⟨fun hnone => h.kept (h'.kept hnone), ?_, ?_⟩
  · rw [h'.sent, h.sent, Int32.ofNat_add, Int32.add_assoc]
  · rw [h'.received, h.received, Int32.ofNat_add, Int32.add_assoc]

/-- An update of the thread's entry that leaves the totals alone. -/
theorem Carries.of_entry (h : m'.entry t = (m.entry t).map f) (hs : ∀ st, (f st).totalBytesSent = st.totalBytesSent)
    (hr : ∀ st, (f st).totalBytesReceived = st.totalBytesReceived) : Carries t m m' 0 0 := by
  constructor
  · rw [h, Option.map_eq_none_iff]
    exact id
  · rw [sentOf, sentOf, h, Option.map_map]
    exact (congrArg (fun g => ((m.entry t).map g).getD 0) (funext hs)).trans (Int32.add_zero _).symm
  · rw [receivedOf, receivedOf, h, Option.map_map]
    exact (congrArg (fun g => ((m.entry t).map g).getD 0) (funext hr)).trans (Int32.add_zero _).symm

/-- An update through a lookup that may add the entry is lost when it does not. -/
theorem Updates.carries (h : Updates t m m' ((m.ensured t kmalloc).map f))
    (hs : ∀ st, (f st).totalBytesSent = st.totalBytesSent + Int32.ofNat sent)
    (hr : ∀ st, (f st).totalBytesReceived = st.totalBytesReceived + Int32.ofNat received) :
    Carries t m m' (if m.entry t = none ∧ kmalloc = false then 0 else sent)
      (if m.entry t = none ∧ kmalloc = false then 0 else received) := by
  have hentry := h.entry
  rw [ensured] at hentry
  cases hent : m.entry t with
  | some st =>
      rw [hent] at hentry
      constructor
      · simp [hentry]
      · simp [sentOf, hent, hentry, hs]
      · simp [receivedOf, hent, hentry, hr]
  | none =>
      rw [hent] at hentry
      cases kmalloc with
      | true =>
          constructor
          · simp [hent]
          · simp [sentOf, hent, hentry, hs, ThreadSocketStats.new]
          · simp [receivedOf, hent, hentry, hr, ThreadSocketStats.new]
      | false =>
          constructor
          · simp [hent]
          · simp [sentOf, hent, hentry]
          · simp [receivedOf, hent, hentry]

/-- An update through such a lookup that leaves the totals alone. -/
theorem Updates.carries_nothing (h : Updates t m m' ((m.ensured t kmalloc).map f))
    (hs : ∀ st, (f st).totalBytesSent = st.totalBytesSent)
    (hr : ∀ st, (f st).totalBytesReceived = st.totalBytesReceived) : Carries t m m' 0 0 := by
  have hcarries : Carries t m m' (if _ then 0 else 0) (if _ then 0 else 0) :=
    h.carries (fun st => (hs st).trans (Int32.add_zero _).symm) fun st => (hr st).trans (Int32.add_zero _).symm
  rwa [ite_self] at hcarries

theorem registerSocketForThread_carries (hm : m.WF) (t : Tid) (kmalloc : Bool) :
    Carries t m (m.registerSocketForThread t kmalloc) 0 0 :=
  (registerSocketForThread_updates hm t kmalloc).carries_nothing (fun _ => rfl) fun _ => rfl

theorem unregisterSocketForThread_carries (hm : m.WF) (t : Tid) : Carries t m (m.unregisterSocketForThread t) 0 0 := by
  apply Carries.of_entry (entry_unregisterSocketForThread hm t)
  · intro st
    rw [apply_ite ThreadSocketStats.totalBytesSent, ThreadSocketStats.addActive, ite_self]
  · intro st
    rw [apply_ite ThreadSocketStats.totalBytesReceived, ThreadSocketStats.addActive, ite_self]

theorem shouldThrottleTransmission_carries (hm : m.WF) (t : Tid) :
    Carries t m (m.shouldThrottleTransmission t).1 0 0 := by
  apply Carries.of_entry (entry_shouldThrottleTransmission hm t)
  · intro st
    rw [apply_ite ThreadSocketStats.totalBytesSent, ThreadSocketStats.addThrottled, ite_self]
  · intro st
    rw [apply_ite ThreadSocketStats.totalBytesReceived, ThreadSocketStats.addThrottled, ite_self]

theorem checkSocketAllocationAllowed_carries (hm : m.WF) (t : Tid) (kmalloc : Bool) (jiffies : UInt64) :
    Carries t m (m.checkSocketAllocationAllowed t kmalloc jiffies).1 0 0 := by
  cases hen : m.fairnessEnabled with
  | false =>
      rw [checkSocketAllocationAllowed, hen]
      exact .refl t m
  | true =>
      obtain ⟨m', heq, hup⟩ := checkSocketAllocationAllowed_updates hm hen t kmalloc jiffies
      rw [heq]
      apply hup.carries_nothing
      · intro st
        rw [apply_ite ThreadSocketStats.totalBytesSent, ThreadSocketStats.throttledAt, ThreadSocketStats.addThrottled,
          ite_self]
      · intro st
        rw [apply_ite ThreadSocketStats.totalBytesReceived, ThreadSocketStats.throttledAt,
          ThreadSocketStats.addThrottled, ite_self]

theorem updateSocketTraffic_carries (hm : m.WF) (t : Tid) (sent received : Nat) (kmalloc : Bool) :
    Carries t m (m.updateSocketTraffic t sent received kmalloc)
      (if m.entry t = none ∧ kmalloc = false then 0 else sent)
      (if m.entry t = none ∧ kmalloc = false then 0 else received) :=
  (updateSocketTraffic_updates hm t sent received kmalloc).carries (fun _ => rfl) fun _ => rfl

/-- A send that does not fail adds the bytes of the message, unless the thread gets no entry. -/
theorem sockSendmsg_carries (hm : m.WF) (t : Tid) (env : SendEnv) :
    (m.sockSendmsg t env).2.2 = env.result ∧
      Carries t m (m.sockSendmsg t env).1
        (if m.entry t = none ∧ env.statsKmalloc = false then 0 else if env.result.isOk then env.bytes else 0) 0 := by
  have hcheck := shouldThrottleTransmission_carries hm t
  have hwf := (shouldThrottleTransmission_quiet hm t).wf
  have hnone : (m.shouldThrottleTransmission t).1.entry t = none ↔ m.entry t = none := by
    rw [entry_shouldThrottleTransmission hm, Option.map_eq_none_iff]
  have htraffic := hcheck.trans (updateSocketTraffic_carries hwf t env.bytes 0 env.statsKmalloc)
  simp only [ite_self, Nat.zero_add, hnone] at htraffic
  unfold sockSendmsg SendEnv.result
  cases env.securitySocketSendmsg with
  | some err => exact ⟨rfl, by simpa using hcheck⟩
  | none =>
      cases env.sendmsg with
      | error err => exact ⟨rfl, by simpa using hcheck⟩
      | ok ret =>
          refine ⟨rfl, ?_⟩
          by_cases hb : 0 < env.bytes
          · simpa only [hb, if_true, isOk_ok] using htraffic
          · have hzero : env.bytes = 0 := Nat.eq_zero_of_not_pos hb
            simpa [hzero] using hcheck

/-- A receive adds what it returns, unless neither allocation gives the thread an entry; and then it is allowed. -/
theorem sockRecvmsg_carries (hm : m.WF) (hen : m.fairnessEnabled = true) (t : Tid) (env : RecvEnv) :
    (m.entry t = none ∧ env.checkKmalloc = false → (m.sockRecvmsg t env).2.2 = env.result) ∧
      Carries t m (m.sockRecvmsg t env).1 0
        (if m.entry t = none ∧ env.checkKmalloc = false ∧ env.statsKmalloc = false then 0
          else returned (m.sockRecvmsg t env).2.2) := by
  obtain ⟨m', heq, hup⟩ := checkSocketAllocationAllowed_updates hm hen t env.checkKmalloc env.jiffies
  have hcheck := checkSocketAllocationAllowed_carries hm t env.checkKmalloc env.jiffies
  rw [heq] at hcheck
  have hnone : m'.entry t = none ↔ m.entry t = none ∧ env.checkKmalloc = false := by
    rw [hup.entry, Option.map_eq_none_iff, ensured_eq_none]
  have htraffic (ret : Nat) := hcheck.trans (updateSocketTraffic_carries hup.wf t 0 ret env.statsKmalloc)
  simp only [ite_self, Nat.zero_add, hnone, and_assoc] at htraffic
  unfold sockRecvmsg RecvEnv.result
  rw [heq]
  by_cases hallow : ∀ st ∈ m.ensured t env.checkKmalloc, ¬m.AtLimit st
  · rw [decide_eq_true hallow]
    cases env.securitySocketRecvmsg with
    | some err => exact ⟨fun _ => rfl, by simpa [returned] using hcheck⟩
    | none =>
        cases env.recvmsg with
        | error err => exact ⟨fun _ => rfl, by simpa [returned] using hcheck⟩
        | ok ret =>
            refine ⟨fun _ => rfl, ?_⟩
            by_cases hr : 0 < ret
            · simpa [returned, hr] using htraffic ret
            · have hzero : ret = 0 := Nat.eq_zero_of_not_pos hr
              simpa [returned, hzero] using hcheck
  · rw [decide_eq_false hallow]
    refine ⟨fun hmissing => absurd (fun st hst => ?_) hallow, by simpa [returned] using hcheck⟩
    rw [ensured_eq_none.mpr hmissing] at hst
    cases hst

end SocketFairnessManager

namespace State

open SocketFairnessManager

variable {n n' : State} {l : Label} {e : Event} {es : List Event} {t : Tid} {id : SockId}

/-- The totals of every thread are what its calls returned, modulo 2^32. -/
structure Tallied (n : State) (es : List Event) : Prop where
  sent : ∀ t, n.mgr.sentOf t = Int32.ofNat (es.map (Event.sentBy t)).sum
  received : ∀ t, n.mgr.receivedOf t = Int32.ofNat (es.map (Event.receivedBy t)).sum

/-- What a call adds to the totals is what it returns: for a send, the bytes of the message (none, when no entry
is found or allocated) against what the protocol took; for a receive, nothing is to be counted when no entry is
found or allocated. -/
def Accounts (n : State) : Label → Prop
  | .send t id env => (n.find id).isSome → ∀ ret, env.result = .ok ret →
      (if n.mgr.entry t = none ∧ env.statsKmalloc = false then 0 else env.bytes) % 4294967296 = ret % 4294967296
  | .recv t id env => (n.find id).isSome → ∀ ret, env.result = .ok ret →
      n.mgr.entry t = none ∧ env.checkKmalloc = false ∧ env.statsKmalloc = false → ret % 4294967296 = 0
  | _ => True

theorem step_carries_nothing (h : n.step l = some (n', e)) (hl : l.transfers = false) :
    Carries l.tid n.mgr n'.mgr 0 0 :=
  step_relates (R := fun m m' => Carries l.tid m m' 0 0) h hl (Carries.refl l.tid) (fun _ _ _ => Carries.trans)
    (fun _ kmalloc hm => registerSocketForThread_carries hm l.tid kmalloc)
    fun _ hm => unregisterSocketForThread_carries hm l.tid

theorem step_no_decision (h : n.step l = some (n', e)) (hl : l.transfers = false) : e.decision = none := by
  cases l with
  | socket t id family type protocol env => exact (step_socket h).2.1
  | socketpair t id₁ id₂ family type protocol env => exact (step_socketpair h).2.1
  | accept t listener id flags env => exact (step_accept h).2.1
  | close t id => exact (step_close h).1
  | send t id env => cases hl
  | recv t id env => cases hl

/-- What the caller's totals gain in a call, and when that is what the call returned. -/
theorem step_carries (h : n.step l = some (n', e)) (hen : n.mgr.fairnessEnabled = true) :
    ∃ sent received, Carries l.tid n.mgr n'.mgr sent received ∧
      (Int32.ofNat sent = Int32.ofNat (e.sentBy l.tid) ∧ Int32.ofNat received = Int32.ofNat (e.receivedBy l.tid) ↔
        n.Accounts l) := by
  cases hl : l.transfers with
  | false =>
      refine ⟨0, 0, step_carries_nothing h hl, ?_⟩
      have hdecision := step_no_decision h hl
      have haccounts : n.Accounts l := by
        cases l with
        | send t id env => cases hl
        | recv t id env => cases hl
        | _ => trivial
      simp [Event.sentBy, Event.receivedBy, hdecision, haccounts]
  | true =>
      have htid := step_tid h
      cases l with
      | send t id env =>
          have hresult := result_step_send h
          obtain ⟨-, hmgr, hdecision⟩ := step_send h
          obtain ⟨hret, hcarries⟩ := sockSendmsg_carries n.ready t env
          by_cases hfind : (n.find id).isSome
          · rw [if_pos hfind] at hresult hmgr hdecision
            rw [hmgr]
            refine ⟨_, _, hcarries, ?_⟩
            simp only [Event.sentBy, Event.receivedBy, hdecision, htid, Label.tid, if_true, hresult, hret, Accounts,
              hfind, forall_const, and_true]
            cases env.result with
            | error err => simp [returned]
            | ok ret =>
                rw [ofNat_eq_iff_mod]
                simp [returned]
          · rw [if_neg hfind] at hmgr hdecision
            rw [hmgr]
            refine ⟨0, 0, .refl t n.mgr, ?_⟩
            simp [Event.sentBy, Event.receivedBy, hdecision, Accounts, hfind]
      | recv t id env =>
          have hresult := result_step_recv h
          obtain ⟨-, hmgr, hdecision⟩ := step_recv h
          obtain ⟨hret, hcarries⟩ := sockRecvmsg_carries n.ready hen t env
          by_cases hfind : (n.find id).isSome
          · rw [if_pos hfind] at hresult hmgr hdecision
            rw [hmgr]
            refine ⟨_, _, hcarries, ?_⟩
            simp only [Event.sentBy, Event.receivedBy, hdecision, htid, Label.tid, if_true, hresult, Accounts,
              hfind, forall_const, true_and]
            by_cases hlost : n.mgr.entry t = none ∧ env.checkKmalloc = false ∧ env.statsKmalloc = false
            · rw [if_pos hlost, hret ⟨hlost.1, hlost.2.1⟩, ofNat_eq_iff_mod]
              cases env.result with
              | error err => simp [returned]
              | ok ret => simp [returned, hlost, eq_comm]
            · simp [hlost]
          · rw [if_neg hfind] at hmgr hdecision
            rw [hmgr]
            refine ⟨0, 0, .refl t n.mgr, ?_⟩
            simp [Event.sentBy, Event.receivedBy, hdecision, Accounts, hfind]
      | _ => cases hl

theorem others_totals (h : n.step l = some (n', e)) {x : Tid} (hx : x ≠ l.tid) :
    n'.mgr.sentOf x = n.mgr.sentOf x ∧ n'.mgr.receivedOf x = n.mgr.receivedOf x := by
  have hentry := (step_touches h).others x hx
  exact ⟨by rw [sentOf, hentry, sentOf], by rw [receivedOf, hentry, receivedOf]⟩

theorem tallied_step_iff (h : n.step l = some (n', e)) (hen : n.mgr.fairnessEnabled = true) (hn : n.Tallied es) :
    n'.Tallied (es ++ [e]) ↔ n.Accounts l := by
  obtain ⟨sent, received, hcarries, hiff⟩ := step_carries h hen
  have htid := step_tid h
  rw [← hiff]
  constructor
  · intro hn'
    have hs := hn'.sent l.tid
    have hr := hn'.received l.tid
    simp only [List.map_append, List.map_cons, List.map_nil, List.sum_append, List.sum_singleton, Int32.ofNat_add]
      at hs hr
    rw [hcarries.sent, hn.sent, Int32.add_right_inj] at hs
    rw [hcarries.received, hn.received, Int32.add_right_inj] at hr
    exact ⟨hs, hr⟩
  · rintro ⟨hs, hr⟩
    have hboth : ∀ x, n'.mgr.sentOf x = n.mgr.sentOf x + Int32.ofNat (e.sentBy x) ∧
        n'.mgr.receivedOf x = n.mgr.receivedOf x + Int32.ofNat (e.receivedBy x) := by
      intro x
      by_cases hx : x = l.tid
      · subst hx
        exact ⟨hs ▸ hcarries.sent, hr ▸ hcarries.received⟩
      · obtain ⟨hsent, hreceived⟩ := others_totals h hx
        have hne : e.tid ≠ x := fun heq => hx (heq.symm.trans htid)
        rw [sentBy_ne hne, receivedBy_ne hne, hsent, hreceived]
        exact ⟨(Int32.add_zero _).symm, (Int32.add_zero _).symm⟩
    constructor
    · intro x
      rw [(hboth x).1, hn.sent x]
      simp [List.sum_append]
    · intro x
      rw [(hboth x).2, hn.received x]
      simp [List.sum_append]

theorem tallied_init (pastEnd : PastEnd) : (init pastEnd).Tallied [] := ⟨fun _ => rfl, fun _ => rfl⟩

/-- **Totals.** In any run the byte totals of each thread are the sums of what its sends and receives returned,
modulo 2^32, in every state exactly when every call accounts for what it returns. -/
theorem tallied_iff_accounts (pastEnd : PastEnd) (ls : List Label) :
    Throughout step (fun es n => n.Tallied es) (init pastEnd) ls ↔ Along step Accounts (init pastEnd) ls := by
  refine throughout_iff_along (fun _ n => n.mgr.fairnessEnabled = true) (fun _ _ => True) ?_ ?_ ls
    (Along.of_forall _ ls fun _ _ _ => trivial) rfl (tallied_init pastEnd)
  · intro _ n l n' e _ hen _ h
    exact (step_touches h).enabled.trans hen
  · intro es n l n' e _ hen hn h
    exact tallied_step_iff h hen hn

/-- A thread sends a message of ten bytes, of which the protocol takes four. -/
def shortSend : List Label := [.socket 1 7 2 1 0 {}, .send 1 7 { bytes := 10, sendmsg := .ok 4 }]

theorem shortSend_not_tallied :
    (∃ n es, run step (init ⟨0, 0, 0⟩) shortSend = some (n, es) ∧ n.mgr.sentOf 1 = 10 ∧
      (es.map (Event.sentBy 1)).sum = 4) ∧
    ¬Throughout step (fun es n => n.Tallied es) (init ⟨0, 0, 0⟩) shortSend := by
  have hend : ∃ n es, run step (init ⟨0, 0, 0⟩) shortSend = some (n, es) ∧ n.mgr.sentOf 1 = 10 ∧
      (es.map (Event.sentBy 1)).sum = 4 := ⟨_, _, rfl, rfl, rfl⟩
  refine ⟨hend, fun h => ?_⟩
  obtain ⟨n, es, hrun, hsent, hsum⟩ := hend
  have htally := (h shortSend List.prefix_rfl n es hrun).sent 1
  rw [hsent, hsum] at htally
  exact absurd htally (by decide)

end State

end OsHw.Net
