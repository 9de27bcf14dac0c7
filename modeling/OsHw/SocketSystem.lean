import OsHw.Run
import OsHw.Sockets

/-! The system of threads and sockets. A state has the fairness manager and the sockets that have a file,
each with the thread that opened it and the path it came from. One label is one system call with what it
meets; a call on a socket that is not open fails with `EBADF`. The manager of a state is initialised:
`socket_fairness_module_init` runs before any thread does. -/

namespace OsHw.Net

abbrev SockId := Nat

/-- An open socket. -/
structure Sock where
  id : SockId
  /-- The socket went through `__sock_create`, not through `do_accept`. -/
  created : Bool
  owner : Tid
  deriving DecidableEq, Repr

structure State where
  mgr : SocketFairnessManager
  socks : List Sock
  ready : mgr.WF
  distinct : (socks.map Sock.id).Nodup

inductive Label where
  | socket (t : Tid) (id : SockId) (family type protocol : Int32) (env : SocketEnv)
  | socketpair (t : Tid) (id₁ id₂ : SockId) (family type protocol : Int32) (env : PairEnv)
  | accept (t : Tid) (listener id : SockId) (flags : Int32) (env : AcceptEnv)
  /-- The last descriptor of a socket is closed. -/
  | close (t : Tid) (id : SockId)
  | send (t : Tid) (id : SockId) (env : SendEnv)
  | recv (t : Tid) (id : SockId) (env : RecvEnv)

/-- The thread that makes the call. -/
def Label.tid : Label → Tid
  | .socket t .. | .socketpair t .. | .accept t .. | .close t _ | .send t .. | .recv t .. => t

/-- The calls that move data. -/
def Label.transfers : Label → Bool
  | .send .. | .recv .. => true
  | _ => false

inductive Decision where
  | allowed (b : Bool)
  | throttled (b : Bool)
  deriving DecidableEq, Repr

/-- What a call shows: the decision it took and what it returns. -/
structure Event where
  tid : Tid
  decision : Option Decision
  result : Except Errno Nat

namespace SocketFairnessManager

/-- A send leaves what the throttling check leaves, or counts the bytes on top of it. -/
theorem sockSendmsg_mgr (m : SocketFairnessManager) (t : Tid) (env : SendEnv) :
    (m.sockSendmsg t env).1 = (m.shouldThrottleTransmission t).1 ∨
      (m.sockSendmsg t env).1 =
        (m.shouldThrottleTransmission t).1.updateSocketTraffic t env.bytes 0 env.statsKmalloc := by
  unfold sockSendmsg
  cases env.securitySocketSendmsg with
  | some err => exact .inl rfl
  | none =>
      cases env.sendmsg with
      | error err => exact .inl rfl
      | ok ret =>
          by_cases hb : 0 < env.bytes
          · exact .inr (if_pos hb)
          · exact .inl (if_neg hb)

/-- A receive leaves what the allocation check leaves, or counts the bytes on top of it. -/
theorem sockRecvmsg_mgr (m : SocketFairnessManager) (t : Tid) (env : RecvEnv) :
    (m.sockRecvmsg t env).1 = (m.checkSocketAllocationAllowed t env.checkKmalloc env.jiffies).1 ∨
      ∃ ret, (m.sockRecvmsg t env).1 = (m.checkSocketAllocationAllowed t env.checkKmalloc
        env.jiffies).1.updateSocketTraffic t 0 ret env.statsKmalloc := by
  unfold sockRecvmsg
  cases hallow : (m.checkSocketAllocationAllowed t env.checkKmalloc env.jiffies).2 with
  | false =>
      simp only [hallow, Bool.not_false, if_true]
      exact .inl trivial
  | true =>
      simp only [hallow, Bool.not_true, Bool.false_eq_true, if_false]
      cases env.securitySocketRecvmsg with
      | some err => exact .inl rfl
      | none =>
          cases env.recvmsg with
          | error err => exact .inl rfl
          | ok ret =>
              by_cases hr : 0 < ret
              · exact .inr ⟨ret, if_pos hr⟩
              · exact .inl (if_neg hr)

variable {m : SocketFairnessManager} (hm : m.WF) (t : Tid)
include hm

theorem sysSocket_touches (env : SocketEnv) (family type protocol : Int32) :
    Touches t m (m.sysSocket t env family type protocol).1 := by
  obtain ⟨r, heq, -⟩ := sysSocket_eq m t env family type protocol
  rw [heq]
  split
  · exact (registerSocketForThread_updates hm t _).toTouches
  · exact .refl hm

theorem sysSocketpair_touches (env : PairEnv) (family type protocol : Int32) :
    Touches t m (m.sysSocketpair t env family type protocol).1 := by
  obtain ⟨r, heq, -⟩ := sysSocketpair_eq m t env family type protocol
  have h₁ := (registerSocketForThread_updates hm t env.create1.statsKmalloc).toTouches
  have h₂ := h₁.trans (registerSocketForThread_updates h₁.wf t env.create2.statsKmalloc).toTouches
  rw [heq]
  split
  · split
    · split
      · exact h₂.trans (unregisterSocketForThread_touches h₂.wf t)
      · exact h₂
    · exact h₁
  · exact .refl hm

theorem sysAccept4_touches (env : AcceptEnv) (flags : Int32) : Touches t m (m.sysAccept4 t env flags).1 := by
  obtain ⟨r, heq, -⟩ := sysAccept4_eq m t env flags
  rw [heq]
  split
  · exact unregisterSocketForThread_touches hm t
  · exact .refl hm

theorem sockRelease_touches (file : Bool) : Touches t m (m.sockRelease t file) := by
  cases file with
  | false => exact .refl hm
  | true => exact unregisterSocketForThread_touches hm t

theorem sockSendmsg_quiet (env : SendEnv) : Quiet t m (m.sockSendmsg t env).1 := by
  have hcheck := shouldThrottleTransmission_quiet hm t
  rcases sockSendmsg_mgr m t env with h | h
  · rw [h]
    exact hcheck
  · rw [h]
    exact hcheck.trans (updateSocketTraffic_quiet hcheck.wf t _ _ _)

theorem sockRecvmsg_quiet (env : RecvEnv) : Quiet t m (m.sockRecvmsg t env).1 := by
  have hcheck := checkSocketAllocationAllowed_quiet hm t env.checkKmalloc env.jiffies
  rcases sockRecvmsg_mgr m t env with h | ⟨ret, h⟩
  · rw [h]
    exact hcheck
  · rw [h]
    exact hcheck.trans (updateSocketTraffic_quiet hcheck.wf t _ _ _)

end SocketFairnessManager

namespace State

open SocketFairnessManager

def find (n : State) (id : SockId) : Option Sock := Table.find Sock.id id n.socks

def setMgr (n : State) (m : SocketFairnessManager) (hm : m.WF) : State := { n with mgr := m, ready := hm }

def insert (n : State) (s : Sock) (h : n.find s.id = none) : State :=
  { n with socks := s :: n.socks, distinct := List.nodup_cons.mpr ⟨Table.find_eq_none.mp h, n.distinct⟩ }

/-- A call that may open a socket. -/
def insertIf (n : State) (ok : Bool) (s : Sock) (h : n.find s.id = none) : State :=
  if ok then n.insert s h else n

def erase (n : State) (id : SockId) : State :=
  { n with socks := Table.erase Sock.id id n.socks, distinct := Table.nodup_erase n.distinct }

/-- The system before the first call. -/
def init (pastEnd : PastEnd) : State :=
  ⟨(zeroed pastEnd).socketFairnessInit, [], socketFairnessInit_wf pastEnd, List.nodup_nil⟩

theorem find_insert (n : State) (s : Sock) (h : n.find s.id = none) (id : SockId) :
    (n.insert s h).find id = if s.id = id then some s else n.find id := Table.find_cons s n.socks

@[simp] theorem insertIf_mgr (n : State) (ok : Bool) (s : Sock) (h : n.find s.id = none) :
    (n.insertIf ok s h).mgr = n.mgr := by cases ok <;> rfl

theorem insertIf_socks (n : State) (ok : Bool) (s : Sock) (h : n.find s.id = none) :
    (n.insertIf ok s h).socks = if ok then s :: n.socks else n.socks := by cases ok <;> rfl

theorem find_insertIf_ne {n : State} {ok : Bool} {s : Sock} {h : n.find s.id = none} {id : SockId} (hne : s.id ≠ id)
    (hid : n.find id = none) : (n.insertIf ok s h).find id = none := by
  cases ok with
  | true => exact (find_insert n s h id).trans ((if_neg hne).trans hid)
  | false => exact hid

/-- One system call. It is enabled when the names of the sockets it may open are free. -/
def step (n : State) : Label → Option (State × Event)
  | .socket t id family type protocol env =>
      if h : n.find id = none then
        let r := n.mgr.sysSocket t env family type protocol
        let n' := n.setMgr r.1 (sysSocket_touches n.ready t env family type protocol).wf
        some (n'.insertIf r.2.isOk ⟨id, true, t⟩ h, ⟨t, none, r.2⟩)
      else none
  | .socketpair t id₁ id₂ family type protocol env =>
      if h : n.find id₁ = none ∧ n.find id₂ = none ∧ id₁ ≠ id₂ then
        let r := n.mgr.sysSocketpair t env family type protocol
        let n' := n.setMgr r.1 (sysSocketpair_touches n.ready t env family type protocol).wf
        some ((n'.insertIf r.2.isOk ⟨id₁, true, t⟩ h.1).insertIf r.2.isOk ⟨id₂, true, t⟩ (find_insertIf_ne h.2.2 h.2.1),
          ⟨t, none, r.2⟩)
      else none
  | .accept t listener id flags env =>
      if h : n.find id = none then
        if (n.find listener).isSome then
          let r := n.mgr.sysAccept4 t env flags
          let n' := n.setMgr r.1 (sysAccept4_touches n.ready t env flags).wf
          some (n'.insertIf r.2.isOk ⟨id, false, t⟩ h, ⟨t, none, r.2⟩)
        else some (n, ⟨t, none, .error ebadf⟩)
      else none
  | .close t id =>
      if (n.find id).isSome then
        some ((n.setMgr (n.mgr.sockRelease t true) (sockRelease_touches n.ready t true).wf).erase id, ⟨t, none, .ok 0⟩)
      else some (n, ⟨t, none, .error ebadf⟩)
  | .send t id env =>
      if (n.find id).isSome then
        let r := n.mgr.sockSendmsg t env
        some (n.setMgr r.1 (sockSendmsg_quiet n.ready t env).wf, ⟨t, some (.throttled r.2.1), r.2.2⟩)
      else some (n, ⟨t, none, .error ebadf⟩)
  | .recv t id env =>
      if (n.find id).isSome then
        let r := n.mgr.sockRecvmsg t env
        some (n.setMgr r.1 (sockRecvmsg_quiet n.ready t env).wf, ⟨t, some (.allowed r.2.1), r.2.2⟩)
      else some (n, ⟨t, none, .error ebadf⟩)

section Inversion

variable {n n' : State} {e : Event} {t : Tid} {id id₁ id₂ listener : SockId} {family type protocol flags : Int32}

theorem step_socket {env : SocketEnv} (h : n.step (.socket t id family type protocol env) = some (n', e)) :
    n.find id = none ∧ e.decision = none ∧
      n'.mgr = (if env.Registers family type protocol then
        n.mgr.registerSocketForThread t env.create.statsKmalloc else n.mgr) ∧
      n'.socks = (if e.result.isOk then ⟨id, true, t⟩ :: n.socks else n.socks) ∧
      (e.result.isOk = true ↔ env.Succeeds family type protocol) := by
  simp only [step] at h
  split at h
  · rename_i hfind
    cases h
    obtain ⟨r, heq, hok⟩ := sysSocket_eq n.mgr t env family type protocol
    refine ⟨hfind, rfl, (insertIf_mgr _ _ _ _).trans (congrArg Prod.fst heq), insertIf_socks _ _ _ _, ?_⟩
    rw [heq]
    exact hok
  · cases h

theorem step_socketpair {env : PairEnv}
    (h : n.step (.socketpair t id₁ id₂ family type protocol env) = some (n', e)) :
    (n.find id₁ = none ∧ n.find id₂ = none ∧ id₁ ≠ id₂) ∧ e.decision = none ∧
      n'.mgr = (if env.RegistersFirst family type protocol then
          if env.RegistersSecond family type protocol then
            if env.LosesSecondFile family type protocol then
              ((n.mgr.registerSocketForThread t env.create1.statsKmalloc).registerSocketForThread t
                env.create2.statsKmalloc).unregisterSocketForThread t
            else
              (n.mgr.registerSocketForThread t env.create1.statsKmalloc).registerSocketForThread t
                env.create2.statsKmalloc
          else n.mgr.registerSocketForThread t env.create1.statsKmalloc
        else n.mgr) ∧
      n'.socks = (if e.result.isOk then ⟨id₂, true, t⟩ :: ⟨id₁, true, t⟩ :: n.socks else n.socks) ∧
      (e.result.isOk = true ↔ env.Succeeds family type protocol) := by
  simp only [step] at h
  split at h
  · rename_i hfind
    cases h
    obtain ⟨r, heq, hok⟩ := sysSocketpair_eq n.mgr t env family type protocol
    refine ⟨hfind, rfl, ?_, ?_, ?_⟩
    · exact (insertIf_mgr _ _ _ _).trans ((insertIf_mgr _ _ _ _).trans (congrArg Prod.fst heq))
    · refine (insertIf_socks _ _ _ _).trans ?_
      cases (n.mgr.sysSocketpair t env family type protocol).2.isOk <;> rfl
    · rw [heq]
      exact hok
  · cases h

theorem step_accept {env : AcceptEnv} (h : n.step (.accept t listener id flags env) = some (n', e)) :
    n.find id = none ∧ e.decision = none ∧
      n'.mgr = (if (n.find listener).isSome ∧ env.FailsWithFile flags then n.mgr.unregisterSocketForThread t
        else n.mgr) ∧
      n'.socks = (if e.result.isOk then ⟨id, false, t⟩ :: n.socks else n.socks) ∧
      (e.result.isOk = true ↔ (n.find listener).isSome ∧ env.Succeeds flags) := by
  simp only [step] at h
  split at h
  · rename_i hfind
    split at h
    · rename_i hlisten
      cases h
      obtain ⟨r, heq, hok⟩ := sysAccept4_eq n.mgr t env flags
      refine ⟨hfind, rfl, (insertIf_mgr _ _ _ _).trans ?_, insertIf_socks _ _ _ _, ?_⟩
      · simp only [hlisten, true_and]
        exact congrArg Prod.fst heq
      · simp only [hlisten, true_and]
        rw [heq]
        exact hok
    · rename_i hlisten
      cases h
      exact ⟨hfind, rfl, by simp [hlisten], rfl, by simp [hlisten]⟩
  · cases h

theorem step_close (h : n.step (.close t id) = some (n', e)) :
    e.decision = none ∧ ((∃ s, n.find id = some s ∧ n'.mgr = n.mgr.unregisterSocketForThread t ∧
      n'.socks = Table.erase Sock.id id n.socks ∧ e.result.isOk = true) ∨
      (n.find id = none ∧ n' = n ∧ e.result.isOk = false)) := by
  simp only [step] at h
  cases hfind : n.find id with
  | some s =>
      rw [hfind] at h
      cases h
      exact ⟨rfl, .inl ⟨s, rfl, rfl, rfl, rfl⟩⟩
  | none =>
      rw [hfind] at h
      cases h
      exact ⟨rfl, .inr ⟨rfl, rfl, rfl⟩⟩

theorem mgr_step_close (h : n.step (.close t id) = some (n', e)) :
    n'.mgr = if (n.find id).isSome then n.mgr.unregisterSocketForThread t else n.mgr := by
  obtain ⟨-, ⟨s, hfind, hmgr, -⟩ | ⟨hfind, rfl, -⟩⟩ := step_close h
  · rw [hmgr, hfind]
    rfl
  · rw [hfind]
    rfl

theorem step_send {env : SendEnv} (h : n.step (.send t id env) = some (n', e)) :
    n'.socks = n.socks ∧ n'.mgr = (if (n.find id).isSome then (n.mgr.sockSendmsg t env).1 else n.mgr) ∧
      e.decision = if (n.find id).isSome then some (.throttled (n.mgr.sockSendmsg t env).2.1) else none := by
  simp only [step] at h
  split at h
  · rename_i hfind
    cases h
    rw [if_pos hfind, if_pos hfind]
    exact ⟨rfl, rfl, rfl⟩
  · rename_i hfind
    cases h
    rw [if_neg hfind, if_neg hfind]
    exact ⟨rfl, rfl, rfl⟩

theorem step_recv {env : RecvEnv} (h : n.step (.recv t id env) = some (n', e)) :
    n'.socks = n.socks ∧ n'.mgr = (if (n.find id).isSome then (n.mgr.sockRecvmsg t env).1 else n.mgr) ∧
      e.decision = if (n.find id).isSome then some (.allowed (n.mgr.sockRecvmsg t env).2.1) else none := by
  simp only [step] at h
  split at h
  · rename_i hfind
    cases h
    rw [if_pos hfind, if_pos hfind]
    exact ⟨rfl, rfl, rfl⟩
  · rename_i hfind
    cases h
    rw [if_neg hfind, if_neg hfind]
    exact ⟨rfl, rfl, rfl⟩

theorem result_step_send {env : SendEnv} (h : n.step (.send t id env) = some (n', e)) :
    e.result = if (n.find id).isSome then (n.mgr.sockSendmsg t env).2.2 else .error ebadf := by
  simp only [step] at h
  split at h
  · rename_i hfind
    cases h
    rw [if_pos hfind]
  · rename_i hfind
    cases h
    rw [if_neg hfind]

theorem result_step_recv {env : RecvEnv} (h : n.step (.recv t id env) = some (n', e)) :
    e.result = if (n.find id).isSome then (n.mgr.sockRecvmsg t env).2.2 else .error ebadf := by
  simp only [step] at h
  split at h
  · rename_i hfind
    cases h
    rw [if_pos hfind]
  · rename_i hfind
    cases h
    rw [if_neg hfind]

theorem find_of_socks (h : n'.socks = n.socks) (x : SockId) : n'.find x = n.find x := by
  rw [find, h, find]

theorem find_of_cons {s : Sock} (h : n'.socks = s :: n.socks) (x : SockId) :
    n'.find x = if s.id = x then some s else n.find x := by
  rw [find, h, Table.find_cons, find]

theorem find_step_socket {env : SocketEnv} (h : n.step (.socket t id family type protocol env) = some (n', e))
    (x : SockId) :
    n'.find x = if env.Succeeds family type protocol ∧ id = x then some ⟨id, true, t⟩ else n.find x := by
  obtain ⟨-, -, -, hsocks, hok⟩ := step_socket h
  by_cases hs : env.Succeeds family type protocol
  · rw [if_pos (hok.mpr hs)] at hsocks
    rw [find_of_cons hsocks]
    simp only [hs, true_and]
  · rw [if_neg (mt hok.mp hs)] at hsocks
    rw [find_of_socks hsocks, if_neg fun hx => hs hx.1]

theorem find_step_socketpair {env : PairEnv}
    (h : n.step (.socketpair t id₁ id₂ family type protocol env) = some (n', e)) (x : SockId) :
    n'.find x = if env.Succeeds family type protocol ∧ id₂ = x then some ⟨id₂, true, t⟩
      else if env.Succeeds family type protocol ∧ id₁ = x then some ⟨id₁, true, t⟩ else n.find x := by
  obtain ⟨-, -, -, hsocks, hok⟩ := step_socketpair h
  by_cases hs : env.Succeeds family type protocol
  · rw [if_pos (hok.mpr hs)] at hsocks
    rw [find, hsocks, Table.find_cons, Table.find_cons, ← find]
    simp only [hs, true_and]
  · rw [if_neg (mt hok.mp hs)] at hsocks
    rw [find_of_socks hsocks, if_neg fun hx => hs hx.1, if_neg fun hx => hs hx.1]

theorem find_step_accept {env : AcceptEnv} (h : n.step (.accept t listener id flags env) = some (n', e))
    (x : SockId) :
    n'.find x = if ((n.find listener).isSome ∧ env.Succeeds flags) ∧ id = x then some ⟨id, false, t⟩
      else n.find x := by
  obtain ⟨-, -, -, hsocks, hok⟩ := step_accept h
  by_cases hs : (n.find listener).isSome ∧ env.Succeeds flags
  · rw [if_pos (hok.mpr hs)] at hsocks
    rw [find_of_cons hsocks]
    simp only [hs, true_and, and_self]
  · rw [if_neg (mt hok.mp hs)] at hsocks
    rw [find_of_socks hsocks, if_neg fun hx => hs hx.1]

theorem find_step_close (h : n.step (.close t id) = some (n', e)) (x : SockId) :
    n'.find x = if id = x then none else n.find x := by
  obtain ⟨-, ⟨s, hfind, -, hsocks, -⟩ | ⟨hfind, rfl, -⟩⟩ := step_close h
  · rw [find, hsocks]
    by_cases hx : id = x
    · rw [if_pos hx, ← hx, Table.find_erase_self n.distinct]
    · rw [if_neg hx, Table.find_erase_ne (Ne.symm hx), find]
  · by_cases hx : id = x
    · rw [if_pos hx, ← hx, hfind]
    · rw [if_neg hx]

theorem step_send_quiet {env : SendEnv} (h : n.step (.send t id env) = some (n', e)) : Quiet t n.mgr n'.mgr := by
  rw [(step_send h).2.1]
  split
  · exact sockSendmsg_quiet n.ready t env
  · exact .refl n.ready

theorem step_recv_quiet {env : RecvEnv} (h : n.step (.recv t id env) = some (n', e)) : Quiet t n.mgr n'.mgr := by
  rw [(step_recv h).2.1]
  split
  · exact sockRecvmsg_quiet n.ready t env
  · exact .refl n.ready

theorem step_tid {l : Label} (h : n.step l = some (n', e)) : e.tid = l.tid := by
  cases l <;> simp only [step] at h <;> split at h <;> (try split at h) <;> cases h <;> rfl

/-- A call that moves no data changes the manager by registrations and releases of its caller. -/
theorem step_relates {l : Label} {R : SocketFairnessManager → SocketFairnessManager → Prop}
    (h : n.step l = some (n', e)) (hl : l.transfers = false) (hrefl : ∀ m, R m m)
    (htrans : ∀ m₁ m₂ m₃, R m₁ m₂ → R m₂ m₃ → R m₁ m₃)
    (hregister : ∀ m kmalloc, m.WF → R m (m.registerSocketForThread l.tid kmalloc))
    (hunregister : ∀ m, m.WF → R m (m.unregisterSocketForThread l.tid)) : R n.mgr n'.mgr := by
  cases l with
  | socket t id family type protocol env =>
      rw [(step_socket h).2.2.1]
      split
      · exact hregister _ _ n.ready
      · exact hrefl _
  | socketpair t id₁ id₂ family type protocol env =>
      have hwf₁ := (registerSocketForThread_updates n.ready t env.create1.statsKmalloc).wf
      have hwf₂ := (registerSocketForThread_updates hwf₁ t env.create2.statsKmalloc).wf
      have hfirst := hregister _ env.create1.statsKmalloc n.ready
      have hsecond := htrans _ _ _ hfirst (hregister _ env.create2.statsKmalloc hwf₁)
      rw [(step_socketpair h).2.2.1]
      split
      · split
        · split
          · exact htrans _ _ _ hsecond (hunregister _ hwf₂)
          · exact hsecond
        · exact hfirst
      · exact hrefl _
  | accept t listener id flags env =>
      rw [(step_accept h).2.2.1]
      split
      · exact hunregister _ n.ready
      · exact hrefl _
  | close t id =>
      rw [mgr_step_close h]
      split
      · exact hunregister _ n.ready
      · exact hrefl _
  | send t id env => cases hl
  | recv t id env => cases hl

/-- A call changes the counters of no thread but the one that makes it. -/
theorem step_touches {l : Label} (h : n.step l = some (n', e)) : Touches l.tid n.mgr n'.mgr := by
  cases l with
  | socket t id family type protocol env =>
      obtain ⟨r, heq, -⟩ := sysSocket_eq n.mgr t env family type protocol
      have htouch := sysSocket_touches n.ready t env family type protocol
      rw [heq] at htouch
      rw [(step_socket h).2.2.1]
      exact htouch
  | socketpair t id₁ id₂ family type protocol env =>
      obtain ⟨r, heq, -⟩ := sysSocketpair_eq n.mgr t env family type protocol
      have htouch := sysSocketpair_touches n.ready t env family type protocol
      rw [heq] at htouch
      rw [(step_socketpair h).2.2.1]
      exact htouch
  | accept t listener id flags env =>
      rw [(step_accept h).2.2.1]
      split
      · exact unregisterSocketForThread_touches n.ready t
      · exact .refl n.ready
  | close t id =>
      rw [mgr_step_close h]
      split
      · exact unregisterSocketForThread_touches n.ready t
      · exact .refl n.ready
  | send t id env => exact (step_send_quiet h).toTouches
  | recv t id env => exact (step_recv_quiet h).toTouches

end Inversion

end State

end OsHw.Net
