import OsHw.FairnessLookup
import OsHw.SocketErrors
import OsHw.SocketInterference

/-! Threads that come and go over the sockets. An entry of the manager is found by a number, and a number is
given to a new thread once the old one is gone; nothing removes the entry in between. What a new thread finds
under its number is compared with the exact condition under which it is nothing. -/

namespace OsHw.Net

/-- A live thread, and whether it has created or accepted a socket since it was created. -/
structure Thread where
  tid : Tid
  opened : Bool
  deriving DecidableEq, Repr

/-- The thread has opened a socket. -/
def Thread.open (th : Thread) : Thread := { th with opened := true }

theorem Thread.open_tid (th : Thread) : th.open.tid = th.tid := rfl

/-- The sockets and the live threads. -/
structure Threads where
  net : State
  live : List Thread
  distinct : (live.map Thread.tid).Nodup

inductive ThreadLabel where
  /-- A thread is created under a number that no live thread has. -/
  | spawn (t : Tid)
  | exit (t : Tid)
  | call (l : Label)

/-- The calls that open sockets when they succeed. -/
def Label.opens : Label → Bool
  | .socket .. | .socketpair .. | .accept .. => true
  | _ => false

namespace SocketFairnessManager

variable {m m' : SocketFairnessManager} {t : Tid} {kmalloc : Bool}

/-- No entry has pending requests. -/
def NoPending (m : SocketFairnessManager) : Prop :=
  ∀ x st, m.entry x = some st → st.pendingRequests = 0

/-- What a call made for one thread leaves in its entry decides, the others are not reached. -/
theorem NoPending.of_touches (hm : m.NoPending) (h : Touches t m m')
    (hself : ∀ st, m'.entry t = some st → st.pendingRequests = 0) : m'.NoPending := by
  intro x st hst
  by_cases hx : x = t
  · subst hx
    exact hself st hst
  · rw [h.others x hx] at hst
    exact hm x st hst

theorem NoPending.ensured (hm : m.NoPending) {st : ThreadSocketStats} (hst : m.ensured t kmalloc = some st) :
    st.pendingRequests = 0 := by
  rw [SocketFairnessManager.ensured, Option.or_eq_some_iff] at hst
  rcases hst with hst | ⟨-, hst⟩
  · exact hm t st hst
  · cases kmalloc <;> cases hst
    rfl

theorem NoPending.updates (hm : m.NoPending) {f : ThreadSocketStats → ThreadSocketStats}
    (h : Updates t m m' ((m.ensured t kmalloc).map f)) (hf : ∀ st, (f st).pendingRequests = st.pendingRequests) :
    m'.NoPending := by
  refine hm.of_touches h.toTouches fun st hst => ?_
  rw [h.entry] at hst
  obtain ⟨st', hst', rfl⟩ := Option.map_eq_some_iff.mp hst
  rw [hf]
  exact hm.ensured hst'

theorem NoPending.register (hm : m.NoPending) (hwf : m.WF) (t : Tid) (kmalloc : Bool) :
    (m.registerSocketForThread t kmalloc).NoPending :=
  hm.updates (registerSocketForThread_updates hwf t kmalloc) fun _ => rfl

theorem NoPending.traffic (hm : m.NoPending) (hwf : m.WF) (t : Tid) (sent received : Nat) (kmalloc : Bool) :
    (m.updateSocketTraffic t sent received kmalloc).NoPending :=
  hm.updates (updateSocketTraffic_updates hwf t sent received kmalloc) fun _ => rfl

theorem NoPending.unregister (hm : m.NoPending) (hwf : m.WF) (t : Tid) :
    (m.unregisterSocketForThread t).NoPending := by
  refine hm.of_touches (unregisterSocketForThread_touches hwf t) fun st hst => ?_
  rw [entry_unregisterSocketForThread hwf] at hst
  obtain ⟨st', hst', rfl⟩ := Option.map_eq_some_iff.mp hst
  have hp := hm t st' hst'
  split
  · rw [ThreadSocketStats.addActive_pendingRequests, hp]
  · exact hp

theorem NoPending.check (hm : m.NoPending) (hwf : m.WF) (t : Tid) (kmalloc : Bool) (jiffies : UInt64) :
    (m.checkSocketAllocationAllowed t kmalloc jiffies).1.NoPending := by
  cases hen : m.fairnessEnabled with
  | false =>
      rw [checkSocketAllocationAllowed, hen]
      exact hm
  | true =>
      obtain ⟨m', heq, hup⟩ := checkSocketAllocationAllowed_updates hwf hen t kmalloc jiffies
      rw [heq]
      refine hm.updates hup fun st => ?_
      split <;> rfl

theorem NoPending.throttle (hm : m.NoPending) (hwf : m.WF) (t : Tid) :
    (m.shouldThrottleTransmission t).1.NoPending := by
  refine hm.of_touches (shouldThrottleTransmission_quiet hwf t).toTouches fun st hst => ?_
  rw [entry_shouldThrottleTransmission hwf] at hst
  obtain ⟨st', hst', rfl⟩ := Option.map_eq_some_iff.mp hst
  have hp := hm t st' hst'
  split <;> exact hp

theorem NoPending.sendmsg (hm : m.NoPending) (hwf : m.WF) (t : Tid) (env : SendEnv) :
    (m.sockSendmsg t env).1.NoPending := by
  have hcheck := hm.throttle hwf t
  have hwf' := (shouldThrottleTransmission_quiet hwf t).wf
  rcases sockSendmsg_mgr m t env with h | h
  · rw [h]
    exact hcheck
  · rw [h]
    exact hcheck.traffic hwf' t _ _ _

theorem NoPending.recvmsg (hm : m.NoPending) (hwf : m.WF) (t : Tid) (env : RecvEnv) :
    (m.sockRecvmsg t env).1.NoPending := by
  have hcheck := hm.check hwf t env.checkKmalloc env.jiffies
  have hwf' := (checkSocketAllocationAllowed_quiet hwf t env.checkKmalloc env.jiffies).wf
  rcases sockRecvmsg_mgr m t env with h | ⟨ret, h⟩
  · rw [h]
    exact hcheck
  · rw [h]
    exact hcheck.traffic hwf' t _ _ _

/-- The limits as `socket_fairness_init` sets them, but for units taken from the limit of pending requests, of
which all may be gone, and no entry has pending requests. -/
structure Bounded (m : SocketFairnessManager) : Prop where
  enabled : m.fairnessEnabled = true
  maxSockets : m.maxSocketsPerThread = 10
  pending_le : m.maxPendingPerThread.toNat ≤ 5
  noPending : m.NoPending

/-- What the manager has under a number is nothing: a lookup finds no entry or one without active sockets, and
neither a receive is refused nor a send throttled. -/
structure Clean (m : SocketFairnessManager) (t : Tid) : Prop where
  lookup : ∀ create kmalloc, (m.getThreadSocketStats t create kmalloc).2 = .entry t →
    ((m.getThreadSocketStats t create kmalloc).1.deref (.entry t)).activeSockets = 0
  receive : ∀ kmalloc jiffies, (m.checkSocketAllocationAllowed t kmalloc jiffies).2 = true
  send : (m.shouldThrottleTransmission t).2 = false

theorem lookup_clean_iff (hm : m.WF) (t : Tid) :
    (∀ create kmalloc, (m.getThreadSocketStats t create kmalloc).2 = .entry t →
      ((m.getThreadSocketStats t create kmalloc).1.deref (.entry t)).activeSockets = 0) ↔ m.activeOf t = 0 := by
  rw [activeOf]
  constructor
  · intro h
    have hfound := h false false
    rw [getThreadSocketStats_noCreate hm.initialized] at hfound
    cases hent : m.entry t with
    | none => rfl
    | some st => simpa [hent, deref] using hfound
  · intro h create kmalloc hptr
    cases create with
    | false =>
        rw [getThreadSocketStats_noCreate hm.initialized] at hptr ⊢
        cases hent : m.entry t with
        | none => simp [hent] at hptr
        | some st => simpa [hent, deref] using h
    | true =>
        obtain ⟨m', heq, hup⟩ := getThreadSocketStats_create hm t kmalloc
        rw [heq, deref, hup.entry, ensured]
        cases hent : m.entry t with
        | none => cases kmalloc <;> rfl
        | some st => simpa [hent] using h

/-- The receive check of a thread without active sockets refuses exactly when the limit of pending requests is
used up. -/
theorem receive_clean_iff (hm : m.WF) (hb : m.Bounded) (hzero : m.activeOf t = 0) :
    (∀ kmalloc jiffies, (m.checkSocketAllocationAllowed t kmalloc jiffies).2 = true) ↔
      m.maxPendingPerThread.toNat ≠ 0 := by
  have hlimit : ∀ k st, m.ensured t k = some st → (m.AtLimit st ↔ m.maxPendingPerThread.toNat = 0) := by
    intro k st hst
    have hactive : st.activeSockets = 0 := by
      rw [activeOf] at hzero
      rw [ensured, Option.or_eq_some_iff] at hst
      rcases hst with hst | ⟨-, hst⟩
      · rwa [hst] at hzero
      · cases k <;> cases hst
        rfl
    rw [AtLimit, hb.maxSockets, hactive, hb.noPending.ensured hst, UInt32.le_iff_toNat_le, UInt32.le_iff_toNat_le]
    show 10 ≤ 0 ∨ m.maxPendingPerThread.toNat ≤ 0 ↔ m.maxPendingPerThread.toNat = 0
    omega
  have hcheck : ∀ k j, (m.checkSocketAllocationAllowed t k j).2 = true ↔ ∀ st ∈ m.ensured t k, ¬m.AtLimit st := by
    intro k j
    obtain ⟨m', heq, -⟩ := checkSocketAllocationAllowed_updates hm hb.enabled t k j
    rw [heq, decide_eq_true_iff]
  simp only [hcheck]
  constructor
  · intro h hpend
    obtain ⟨st, hst⟩ : ∃ st, m.ensured t true = some st := by
      rw [ensured]
      cases m.entry t <;> simp
    exact h true 0 st hst ((hlimit true st hst).mpr hpend)
  · intro hpend k j st hst hat
    exact hpend ((hlimit k st hst).mp hat)

theorem send_clean (hm : m.WF) (hb : m.Bounded) (hzero : m.activeOf t = 0) :
    (m.shouldThrottleTransmission t).2 = false := by
  cases hent : m.entry t with
  | none =>
      have hlim : m.maxPendingPerThread ≤ m.maxSocketsPerThread := by
        rw [hb.maxSockets, UInt32.le_iff_toNat_le]
        exact Nat.le_trans hb.pending_le (by decide)
      rw [shouldThrottleTransmission_none hm hb.enabled hent hlim]
  | some st =>
      obtain ⟨m', heq, -⟩ := shouldThrottleTransmission_some hm hb.enabled hent
      rw [activeOf_eq hent] at hzero
      have hactive : st.activeSockets = 0 := hzero
      rw [heq, hactive, hb.maxSockets]
      rfl

theorem clean_iff (hm : m.WF) (hb : m.Bounded) (t : Tid) :
    m.Clean t ↔ m.activeOf t = 0 ∧ m.maxPendingPerThread.toNat ≠ 0 := by
  constructor
  · intro h
    have hzero := (lookup_clean_iff hm t).mp h.lookup
    exact ⟨hzero, (receive_clean_iff hm hb hzero).mp h.receive⟩
  · rintro ⟨hzero, hpend⟩
    exact ⟨(lookup_clean_iff hm t).mpr hzero, (receive_clean_iff hm hb hzero).mpr hpend, send_clean hm hb hzero⟩

end SocketFairnessManager

namespace State

open SocketFairnessManager

variable {n n' : State} {l : Label} {e : Event}

/-- The call opens a socket. -/
def Opens (n : State) : Label → Prop
  | .socket _ _ family type protocol env => env.Succeeds family type protocol
  | .socketpair _ _ _ family type protocol env => env.Succeeds family type protocol
  | .accept _ listener _ flags env => (n.find listener).isSome ∧ env.Succeeds flags
  | _ => False

theorem opens_iff (h : n.step l = some (n', e)) : (l.opens && e.result.isOk) = true ↔ n.Opens l := by
  cases l with
  | socket t id family type protocol env => exact (step_socket h).2.2.2.2
  | socketpair t id₁ id₂ family type protocol env => exact (step_socketpair h).2.2.2.2
  | accept t listener id flags env => exact (step_accept h).2.2.2.2
  | close t id => simp [Label.opens, Opens]
  | send t id env => simp [Label.opens, Opens]
  | recv t id env => simp [Label.opens, Opens]

theorem ReleasesUntracked.not_opens (hl : n.ReleasesUntracked l) : ¬n.Opens l := by
  cases l with
  | socketpair t id₁ id₂ family type protocol env => exact fun h => h.not_losesSecondFile hl.2.2.1
  | accept t listener id flags env => exact fun h => h.2.not_failsWithFile hl.1.2
  | socket t id family type protocol env => exact hl.elim
  | close t id => exact False.elim
  | send t id env => exact False.elim
  | recv t id env => exact False.elim

/-- Whether the caller's counter is still zero after a call. -/
theorem active_zero_iff (h : n.step l = some (n', e)) (hzero : n.mgr.activeOf l.tid = 0) :
    n'.mgr.activeOf l.tid = 0 ↔ n.Harmless l := by
  rw [← hzero]
  cases l with
  | socket t id family type protocol env => exact active_socket_iff h
  | socketpair t id₁ id₂ family type protocol env => exact active_socketpair_iff h
  | accept t listener id flags env => exact active_accept_iff h
  | close t id =>
      refine ⟨fun _ => trivial, fun _ => ?_⟩
      have hpos : ¬0 < n.mgr.activeOf t := fun hpos => absurd (hzero ▸ hpos) (by decide)
      rw [mgr_step_close h]
      split
      · exact (activeOf_unregisterSocketForThread n.ready t).trans (if_neg hpos)
      · rfl
  | send t id env => exact ⟨fun _ => trivial, fun _ => (step_send_quiet h).active⟩
  | recv t id env => exact ⟨fun _ => trivial, fun _ => (step_recv_quiet h).active⟩

theorem noPending_step (h : n.step l = some (n', e)) (hn : n.mgr.NoPending) : n'.mgr.NoPending := by
  cases l with
  | send t id env =>
      rw [(step_send h).2.1]
      split
      · exact hn.sendmsg n.ready t env
      · exact hn
  | recv t id env =>
      rw [(step_recv h).2.1]
      split
      · exact hn.recvmsg n.ready t env
      · exact hn
  | _ =>
      exact step_relates (R := fun m m' => m.NoPending → m'.NoPending) h rfl (fun _ => id)
        (fun _ _ _ h₁ h₂ hm => h₂ (h₁ hm)) (fun _ kmalloc hwf hm => hm.register hwf _ kmalloc)
        (fun _ hwf hm => hm.unregister hwf _) hn

theorem bounded_step (h : n.step l = some (n', e)) (hn : n.mgr.Bounded) : n'.mgr.Bounded := by
  have htouch := step_touches h
  have hle := hn.pending_le
  obtain ⟨hrel, hkeep⟩ := maxPending_step h hle
  refine ⟨htouch.enabled.trans hn.enabled, htouch.maxSockets.trans hn.maxSockets, ?_, noPending_step h hn.noPending⟩
  by_cases hu : n.ReleasesUntracked l
  · rw [hrel hu]
    omega
  · rw [hkeep hu]
    exact hle

theorem bounded_init (pastEnd : PastEnd) : (init pastEnd).mgr.Bounded :=
  ⟨rfl, rfl, Nat.le_refl 5, fun _ _ h => nomatch h⟩

end State

namespace Threads

open SocketFairnessManager

variable {s s' : Threads} {t : Tid} {l : ThreadLabel} {e : Option Event}

def find (s : Threads) (t : Tid) : Option Thread := Table.find Thread.tid t s.live

/-- The thread is live and has not created or accepted a socket yet. -/
def Fresh (s : Threads) (t : Tid) : Prop := s.find t = some ⟨t, false⟩

/-- The live threads after a call. -/
def afterCall (live : List Thread) (l : Label) (e : Event) : List Thread :=
  if l.opens && e.result.isOk then Table.modify Thread.tid l.tid Thread.open live else live

theorem map_tid_afterCall (live : List Thread) (l : Label) (e : Event) :
    (afterCall live l e).map Thread.tid = live.map Thread.tid := by
  rw [afterCall]
  split
  · exact Table.map_key_modify Thread.open_tid live
  · rfl

/-- One step of the system. A thread that exits leaves the sockets it opened to the threads that share its
descriptors; what the last of them closes on its way out are calls of its own before it exits. -/
def step (s : Threads) : ThreadLabel → Option (Threads × Option Event)
  | .spawn t =>
      if h : s.find t = none then
        some ({ s with
          live := ⟨t, false⟩ :: s.live
          distinct := List.nodup_cons.mpr ⟨Table.find_eq_none.mp h, s.distinct⟩ }, none)
      else none
  | .exit t =>
      if (s.find t).isSome then
        some ({ s with live := Table.erase Thread.tid t s.live, distinct := Table.nodup_erase s.distinct }, none)
      else none
  | .call l =>
      if (s.find l.tid).isSome then
        match s.net.step l with
        | none => none
        | some (n, e) =>
            some (⟨n, afterCall s.live l e, (map_tid_afterCall s.live l e).symm ▸ s.distinct⟩, some e)
      else none

/-- No thread has been created. -/
def init (pastEnd : PastEnd) : Threads := ⟨.init pastEnd, [], List.nodup_nil⟩

theorem step_spawn (h : s.step (.spawn t) = some (s', e)) :
    s.find t = none ∧ s'.net = s.net ∧ ∀ x, s'.Fresh x ↔ x = t ∨ s.Fresh x := by
  simp only [step] at h
  split at h
  · rename_i hfree
    cases h
    refine ⟨hfree, rfl, fun x => ?_⟩
    rw [Fresh, find, Table.find_cons]
    by_cases hx : t = x
    · simp [hx]
    · rw [if_neg hx, ← find, ← Fresh, or_iff_right fun h => hx h.symm]
  · cases h

theorem step_exit (h : s.step (.exit t) = some (s', e)) :
    s'.net = s.net ∧ ∀ x, s'.Fresh x → s.Fresh x := by
  simp only [step] at h
  split at h
  · cases h
    refine ⟨rfl, fun x hx => ?_⟩
    rw [Fresh, find] at hx
    by_cases hxt : x = t
    · rw [hxt, Table.find_erase_self s.distinct] at hx
      cases hx
    · rwa [Table.find_erase_ne hxt, ← find] at hx
  · cases h

theorem fresh_afterCall {n : State} {l : Label} {ev : Event} (hopens : (l.opens && ev.result.isOk) = true ↔ n.Opens l)
    (live : List Thread) (x : Tid) :
    Table.find Thread.tid x (afterCall live l ev) = some ⟨x, false⟩ ↔
      Table.find Thread.tid x live = some ⟨x, false⟩ ∧ ¬(x = l.tid ∧ n.Opens l) := by
  rw [afterCall, ← hopens]
  split
  · rename_i hok
    by_cases hx : x = l.tid
    · rw [hx, Table.find_modify_self Thread.open_tid]
      cases Table.find Thread.tid l.tid live <;> simp [hok, Thread.open]
    · rw [Table.find_modify_ne Thread.open_tid hx]
      simp [hx]
  · rename_i hok
    simp [hok]

theorem step_call {l : Label} (h : s.step (.call l) = some (s', e)) :
    ∃ ev, e = some ev ∧ s.net.step l = some (s'.net, ev) ∧
      ∀ x, s'.Fresh x ↔ s.Fresh x ∧ ¬(x = l.tid ∧ s.net.Opens l) := by
  simp only [step] at h
  split at h
  · split at h
    · cases h
    · rename_i n ev hstep
      cases h
      exact ⟨ev, rfl, hstep, fresh_afterCall (State.opens_iff hstep) s.live⟩
  · cases h

/-- Nothing is recorded for a live thread that has not created or accepted a socket. -/
def NewClean (s : Threads) : Prop := ∀ t, s.Fresh t → s.net.mgr.Clean t

/-- The condition on one step. A thread gets a number under which no active sockets were left, at a time when the
limit of pending requests is not used up. A call of a thread that has opened no socket is harmless unless it
opens one, and no thread without an entry releases a socket at the last unit of the limit while there is such a
thread. -/
def LeavesClean (s : Threads) : ThreadLabel → Prop
  | .spawn t => s.net.mgr.activeOf t = 0 ∧ s.net.mgr.maxPendingPerThread.toNat ≠ 0
  | .exit _ => True
  | .call l =>
      (s.Fresh l.tid → ¬s.net.Opens l → s.net.Harmless l) ∧
        (s.net.ReleasesUntracked l → s.net.mgr.maxPendingPerThread.toNat = 1 → ∀ t, ¬s.Fresh t)

theorem newClean_iff (hs : s.net.mgr.Bounded) :
    s.NewClean ↔ ∀ t, s.Fresh t → s.net.mgr.activeOf t = 0 ∧ s.net.mgr.maxPendingPerThread.toNat ≠ 0 :=
  forall_congr' fun t => imp_congr_right fun _ => clean_iff s.net.ready hs t

theorem bounded_step (h : s.step l = some (s', e)) (hs : s.net.mgr.Bounded) : s'.net.mgr.Bounded := by
  cases l with
  | spawn t =>
      rw [(step_spawn h).2.1]
      exact hs
  | exit t =>
      rw [(step_exit h).1]
      exact hs
  | call l =>
      obtain ⟨ev, -, hstep, -⟩ := step_call h
      exact State.bounded_step hstep hs

theorem newClean_spawn_iff (h : s.step (.spawn t) = some (s', e)) (hs : s.net.mgr.Bounded) (hclean : s.NewClean) :
    s'.NewClean ↔ s.LeavesClean (.spawn t) := by
  rw [newClean_iff (bounded_step h hs), LeavesClean]
  rw [newClean_iff hs] at hclean
  obtain ⟨-, hnet, hfresh⟩ := step_spawn h
  rw [hnet]
  refine ⟨fun hall => hall t ((hfresh t).mpr (.inl rfl)), fun ht x hx => ?_⟩
  rcases (hfresh x).mp hx with rfl | hx
  · exact ht
  · exact hclean x hx

theorem newClean_call_iff {l : Label} (h : s.step (.call l) = some (s', e)) (hs : s.net.mgr.Bounded)
    (hclean : s.NewClean) : s'.NewClean ↔ s.LeavesClean (.call l) := by
  rw [newClean_iff (bounded_step h hs), LeavesClean]
  rw [newClean_iff hs] at hclean
  obtain ⟨ev, -, hstep, hfresh⟩ := step_call h
  obtain ⟨hrel, hkeep⟩ := State.maxPending_step hstep hs.pending_le
  constructor
  · intro hall
    refine ⟨fun hl hnot => ?_, fun hu hone t ht => ?_⟩
    · have hl' := (hfresh l.tid).mpr ⟨hl, fun hopen => hnot hopen.2⟩
      exact (State.active_zero_iff hstep (hclean l.tid hl).1).mp (hall l.tid hl').1
    · have ht' := (hfresh t).mpr ⟨ht, fun hopen => hu.not_opens hopen.2⟩
      apply (hall t ht').2
      rw [hrel hu, hone]
  · rintro ⟨hharmless, hlast⟩ t ht
    obtain ⟨ht, hnot⟩ := (hfresh t).mp ht
    obtain ⟨hzero, hpend⟩ := hclean t ht
    constructor
    · by_cases hl : t = l.tid
      · subst hl
        exact (State.active_zero_iff hstep hzero).mpr (hharmless ht fun hopen => hnot ⟨rfl, hopen⟩)
      · rw [activeOf, (State.step_touches hstep).others t hl]
        exact hzero
    · by_cases hu : s.net.ReleasesUntracked l
      · have hne : s.net.mgr.maxPendingPerThread.toNat ≠ 1 := fun hone => hlast hu hone t ht
        rw [hrel hu]
        omega
      · rw [hkeep hu]
        exact hpend

/-- **New threads.** Nothing is recorded for a new thread throughout a run exactly when every step of it leaves
nothing behind: counters outlive the thread that owes them, and the next thread with its number inherits
them. -/
theorem newClean_throughout_iff (pastEnd : PastEnd) (ls : List ThreadLabel) :
    Throughout step (fun _ s => s.NewClean) (init pastEnd) ls ↔ Along step LeavesClean (init pastEnd) ls := by
  refine throughout_iff_along (fun _ s => s.net.mgr.Bounded) (fun _ _ => True) ?_ ?_ ls
    (Along.of_forall _ _ fun _ _ _ => trivial) (State.bounded_init pastEnd) fun t ht => nomatch ht
  · intro _ s l s' e _ hs _ h
    exact bounded_step h hs
  · intro _ s l s' e _ hs hclean h
    cases l with
    | spawn t => exact newClean_spawn_iff h hs hclean
    | call l => exact newClean_call_iff h hs hclean
    | exit t =>
        obtain ⟨hnet, hfresh⟩ := step_exit h
        refine ⟨fun _ => trivial, fun _ x hx => ?_⟩
        rw [hnet]
        exact hclean x (hfresh x hx)

/-- Thread 1 opens ten sockets and exits, the sockets stay open through a shared descriptor table, and its number
is given to a new thread. -/
def reuse : List ThreadLabel :=
  .spawn 1 :: (List.range 10).map (fun id => .call (.socket 1 id 2 1 0 {})) ++ [.exit 1, .spawn 1]

theorem reuse_not_clean :
    ¬Throughout step (fun _ s => s.NewClean) (init ⟨0, 0, 0⟩) reuse ∧
      ∃ s es, run step (init ⟨0, 0, 0⟩) reuse = some (s, es) ∧ s.Fresh 1 ∧ s.net.mgr.activeOf 1 = 10 ∧
        (s.net.mgr.checkSocketAllocationAllowed 1 true 0).2 = false := by
  have hend : ∃ s es, run step (init ⟨0, 0, 0⟩) reuse = some (s, es) ∧ s.Fresh 1 ∧ s.net.mgr.activeOf 1 = 10 ∧
      (s.net.mgr.checkSocketAllocationAllowed 1 true 0).2 = false := ⟨_, _, rfl, rfl, rfl, rfl⟩
  refine ⟨fun h => ?_, hend⟩
  obtain ⟨s, es, hrun, hfresh, -, hrefused⟩ := hend
  have hclean := h reuse (List.prefix_refl _) s es hrun 1 hfresh
  rw [hclean.receive] at hrefused
  cases hrefused

end Threads

end OsHw.Net
