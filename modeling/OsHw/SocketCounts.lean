import OsHw.SocketErrors

/-! The books over whole runs. A unit of `active_sockets` is taken from the thread that creates a socket and
given back to the thread that closes it. Two balances are at stake: the sum of all counters against the
sockets that `__sock_create` opened, whoever closes them, and each thread's own counter against the sockets
it opened, when it closes them itself. Both are compared with the exact condition a call has to meet. -/

namespace OsHw.Net

/-- `atomic_inc` counts exactly below `INT_MAX`. -/
theorem toInt_add_one_iff (a : Int32) : (a + 1).toInt = a.toInt + 1 ↔ a.toInt + 1 < 2 ^ 31 := by
  have hlo := a.le_toInt
  have hhi := a.toInt_lt
  have hone : (1 : Int32).toInt = 1 := rfl
  rw [Int32.toInt_add, hone]
  simp only [Int.bmod]
  omega

theorem toInt_add_two_iff (a : Int32) : (a + 1 + 1).toInt = a.toInt + 2 ↔ a.toInt + 2 < 2 ^ 31 := by
  have hlo := a.le_toInt
  have hhi := a.toInt_lt
  have htwo : (1 + 1 : Int32).toInt = 2 := rfl
  rw [Int32.add_assoc, Int32.toInt_add, htwo]
  simp only [Int.bmod]
  omega

theorem toInt_add_neg_one {a : Int32} (h : 0 < a) : (a + -1).toInt = a.toInt - 1 := by
  have hhi := a.toInt_lt
  have hpos : 0 < a.toInt := Int32.lt_iff_toInt_lt.mp h
  have hneg : (-1 : Int32).toInt = -1 := by decide
  rw [Int32.toInt_add, hneg]
  simp only [Int.bmod]
  omega

namespace State

open SocketFairnessManager

variable {n n' : State} {l : Label} {e : Event} {t x : Tid}

/-- The sockets that came from `__sock_create` and are open. -/
def createdOpen (n : State) : Nat := n.socks.countP Sock.created

/-- The counters add up to the open sockets that `__sock_create` made. -/
def Conserved (n : State) : Prop := n.mgr.totalActive = n.createdOpen

/-- A call takes one unit for each socket it creates and gives one back for each such socket it closes. A
creation must find or add the caller's entry and stay below `INT_MAX`, a call that fails must be harmless,
and a release must meet a positive counter of the closer exactly when the socket was created. -/
def Conserves (n : State) : Label → Prop
  | .socket t id family type protocol env =>
      if env.Succeeds family type protocol then
        ¬(n.mgr.entry t = none ∧ env.create.statsKmalloc = false) ∧ (n.mgr.activeOf t).toInt + 1 < 2 ^ 31
      else n.Harmless (.socket t id family type protocol env)
  | .socketpair t id₁ id₂ family type protocol env =>
      if env.Succeeds family type protocol then
        ¬(n.mgr.entry t = none ∧ env.create1.statsKmalloc = false) ∧ (n.mgr.activeOf t).toInt + 2 < 2 ^ 31
      else n.Harmless (.socketpair t id₁ id₂ family type protocol env)
  | .accept t listener id flags env => n.Harmless (.accept t listener id flags env)
  | .close t id => ∀ s, n.find id = some s → (s.created = true ↔ 0 < n.mgr.activeOf t)
  | .send .. | .recv .. => True

/-- The sum moves with the counter of the thread that makes the call. -/
theorem conserved_step_iff (h : n.step l = some (n', e)) (hn : n.Conserved) :
    n'.Conserved ↔
      (n'.mgr.activeOf l.tid).toInt + n.createdOpen = (n.mgr.activeOf l.tid).toInt + n'.createdOpen := by
  have htotal := (step_touches h).total
  rw [Conserved] at hn ⊢
  omega

theorem conserved_socket_iff {id : SockId} {family type protocol : Int32} {env : SocketEnv}
    (h : n.step (.socket t id family type protocol env) = some (n', e)) (hn : n.Conserved) :
    n'.Conserved ↔ n.Conserves (.socket t id family type protocol env) := by
  obtain ⟨-, -, hmgr, hsocks, hok⟩ := step_socket h
  rw [conserved_step_iff h hn, Label.tid, Conserves]
  by_cases hs : env.Succeeds family type protocol
  · have hcount : n'.createdOpen = n.createdOpen + 1 := by
      rw [createdOpen, hsocks, if_pos (hok.mpr hs), List.countP_cons_of_pos rfl, createdOpen]
    rw [if_pos hs, hcount, hmgr, if_pos hs.1, activeOf_registerSocketForThread n.ready, ← toInt_add_one_iff]
    by_cases hlost : n.mgr.entry t = none ∧ env.create.statsKmalloc = false
    · simp only [hlost, and_self, if_true, not_true_eq_false, false_and, iff_false]
      omega
    · simp only [hlost, if_false, not_false_eq_true, true_and]
      omega
  · have hcount : n'.createdOpen = n.createdOpen := by
      rw [createdOpen, hsocks, if_neg (mt hok.mp hs), createdOpen]
    rw [if_neg hs, hcount, ← active_socket_iff h, ← Int32.toInt_inj]
    omega

theorem conserved_socketpair_iff {id₁ id₂ : SockId} {family type protocol : Int32} {env : PairEnv}
    (h : n.step (.socketpair t id₁ id₂ family type protocol env) = some (n', e)) (hn : n.Conserved) :
    n'.Conserved ↔ n.Conserves (.socketpair t id₁ id₂ family type protocol env) := by
  obtain ⟨-, -, hmgr, hsocks, hok⟩ := step_socketpair h
  rw [conserved_step_iff h hn, Label.tid, Conserves]
  by_cases hs : env.Succeeds family type protocol
  · have hcount : n'.createdOpen = n.createdOpen + 2 := by
      rw [createdOpen, hsocks, if_pos (hok.mpr hs), List.countP_cons_of_pos rfl, List.countP_cons_of_pos rfl,
        createdOpen]
    rw [if_pos hs, hcount, hmgr, if_pos hs.1, if_pos hs.2.1, if_neg hs.not_losesSecondFile,
      activeOf_register_twice n.ready, ← toInt_add_two_iff]
    by_cases hlost : n.mgr.entry t = none ∧ env.create1.statsKmalloc = false
    · have hzero : n.mgr.activeOf t = 0 := activeOf_eq hlost.1
      have hone : (0 + 1 : Int32).toInt = 1 := rfl
      simp only [hlost, and_self, if_true, not_true_eq_false, false_and, iff_false, hzero]
      split
      · omega
      · rw [hone, Int32.toInt_zero]
        omega
    · simp only [hlost, if_false, not_false_eq_true, true_and]
      omega
  · have hcount : n'.createdOpen = n.createdOpen := by
      rw [createdOpen, hsocks, if_neg (mt hok.mp hs), createdOpen]
    rw [if_neg hs, hcount, ← active_socketpair_iff h, ← Int32.toInt_inj]
    omega

theorem conserved_accept_iff {listener id : SockId} {flags : Int32} {env : AcceptEnv}
    (h : n.step (.accept t listener id flags env) = some (n', e)) (hn : n.Conserved) :
    n'.Conserved ↔ n.Conserves (.accept t listener id flags env) := by
  have hcount : n'.createdOpen = n.createdOpen := by
    rw [createdOpen, (step_accept h).2.2.2.1]
    cases e.result.isOk <;> simp [createdOpen]
  rw [conserved_step_iff h hn, Label.tid, Conserves, hcount, ← active_accept_iff h, ← Int32.toInt_inj]
  omega

theorem conserved_close_iff {id : SockId} (h : n.step (.close t id) = some (n', e)) (hn : n.Conserved) :
    n'.Conserved ↔ n.Conserves (.close t id) := by
  rw [conserved_step_iff h hn, Label.tid, Conserves]
  obtain ⟨-, ⟨s, hfind, hmgr, hsocks, -⟩ | ⟨hfind, rfl, -⟩⟩ := step_close h
  · have hcount : n.createdOpen = n'.createdOpen + if s.created then 1 else 0 := by
      rw [createdOpen, Table.countP_erase _ hfind, createdOpen, hsocks]
    rw [hmgr, activeOf_unregisterSocketForThread n.ready]
    simp only [hfind, Option.some.injEq, forall_eq']
    by_cases hpos : 0 < n.mgr.activeOf t
    · rw [if_pos hpos, toInt_add_neg_one hpos]
      cases hc : s.created <;> simp [hc] at hcount <;> simp [hpos] <;> omega
    · rw [if_neg hpos]
      cases hc : s.created <;> simp [hc] at hcount <;> simp [hpos] <;> omega
  · simp [hfind]

/-- A call keeps the sum right exactly when it conserves. -/
theorem conserved_iff (h : n.step l = some (n', e)) (hn : n.Conserved) : n'.Conserved ↔ n.Conserves l := by
  cases l with
  | socket t id family type protocol env => exact conserved_socket_iff h hn
  | socketpair t id₁ id₂ family type protocol env => exact conserved_socketpair_iff h hn
  | accept t listener id flags env => exact conserved_accept_iff h hn
  | close t id => exact conserved_close_iff h hn
  | send t id env =>
      rw [conserved_step_iff h hn, Label.tid, (step_send_quiet h).active, createdOpen, createdOpen, (step_send h).1]
      exact ⟨fun _ => trivial, fun _ => rfl⟩
  | recv t id env =>
      rw [conserved_step_iff h hn, Label.tid, (step_recv_quiet h).active, createdOpen, createdOpen, (step_recv h).1]
      exact ⟨fun _ => trivial, fun _ => rfl⟩

theorem init_conserved (pastEnd : PastEnd) : (init pastEnd).Conserved := rfl

/-- **Conservation.** In any run, with any assignment of closers to sockets, the sum of `active_sockets` equals
the number of open sockets that `__sock_create` made in every state exactly when every call conserves. -/
theorem conserved_iff_conserves (pastEnd : PastEnd) (ls : List Label) :
    Throughout step (fun _ n => n.Conserved) (init pastEnd) ls ↔ Along step Conserves (init pastEnd) ls := by
  refine throughout_iff_along (fun _ _ => True) (fun _ _ => True) (fun _ _ _ _ _ _ _ _ _ => trivial) ?_ ls
    (Along.of_forall _ ls fun _ _ _ => trivial) trivial (init_conserved pastEnd)
  intro _ n l n' e _ _ hn h
  exact conserved_iff h hn

/-- A thread creates a socket and another one, which has no entry, closes it. -/
def closedByOther : List Label := [.socket 1 7 2 1 0 {}, .close 2 7]

theorem closedByOther_not_conserved : ¬Throughout step (fun _ n => n.Conserved) (init ⟨0, 0, 0⟩) closedByOther := by
  intro h
  have hend := h closedByOther List.prefix_rfl _ _ rfl
  exact absurd hend (by unfold Conserved; decide)

/-- The sockets that a thread created or accepted and that are open. -/
def owned (n : State) (t : Tid) : Nat := n.socks.countP fun s => s.owner = t

/-- Every tracked thread's counter is the number of its open sockets. -/
def Counted (n : State) : Prop :=
  ∀ t st, n.mgr.entry t = some st → st.activeSockets.toInt = n.owned t

/-- A call that opens sockets or closes one that the caller opened. -/
def OpensOrClosesOwn (n : State) : Label → Prop
  | .close t id => ∀ s, n.find id = some s → s.owner = t
  | .send .. | .recv .. => False
  | _ => True

/-- Such a call, and it succeeds. -/
def OwnCall (n : State) (l : Label) : Prop :=
  (∀ n' e, n.step l = some (n', e) → e.result.isOk = true) ∧ n.OpensOrClosesOwn l

/-- A creation counts below `INT_MAX`, and adds an entry only for a thread that has no sockets yet (for a pair
also not just at its second socket); an `accept` is made by a thread without an entry. -/
def Balances (n : State) : Label → Prop
  | .socket t _ _ _ _ env =>
      (n.mgr.entry t ≠ none → n.owned t + 1 < 2 ^ 31) ∧
        (n.mgr.entry t = none → env.create.statsKmalloc = true → n.owned t = 0)
  | .socketpair t _ _ _ _ _ env =>
      (n.mgr.entry t ≠ none → n.owned t + 2 < 2 ^ 31) ∧
        (n.mgr.entry t = none → (env.create1.statsKmalloc = true → n.owned t = 0) ∧
          (env.create1.statsKmalloc = false → env.create2.statsKmalloc = false))
  | .accept t _ _ _ _ => n.mgr.entry t = none
  | _ => True

theorem owned_of_socks {ss : List Sock} {s : Sock} (h : n'.socks = s :: ss) (x : Tid) :
    n'.owned x = (ss.countP fun s => s.owner = x) + if s.owner = x then 1 else 0 := by
  rw [owned, h, List.countP_cons]
  simp

/-- Only the caller's own count and counter can get out of step. -/
theorem counted_step_iff (h : n.step l = some (n', e)) (hn : n.Counted)
    (howned : ∀ x, x ≠ l.tid → n'.owned x = n.owned x) :
    n'.Counted ↔ ∀ st, n'.mgr.entry l.tid = some st → st.activeSockets.toInt = n'.owned l.tid := by
  refine ⟨fun hn' st hst => hn' l.tid st hst, fun hself x st hst => ?_⟩
  by_cases hx : x = l.tid
  · subst hx
    exact hself st hst
  · rw [(step_touches h).others x hx] at hst
    rw [howned x hx]
    exact hn x st hst

/-- A call that opens sockets is compared by how many. -/
theorem counted_open_iff (h : n.step l = some (n', e)) (hn : n.Counted) (d : Nat)
    (howned : ∀ x, n'.owned x = n.owned x + if l.tid = x then d else 0) :
    n'.Counted ↔ ∀ st, n'.mgr.entry l.tid = some st → st.activeSockets.toInt = n.owned l.tid + d := by
  rw [counted_step_iff h hn fun x hx => by rw [howned, if_neg (Ne.symm hx), Nat.add_zero], howned, if_pos rfl,
    Int.natCast_add]

theorem counted_socket_iff {id : SockId} {family type protocol : Int32} {env : SocketEnv}
    (h : n.step (.socket t id family type protocol env) = some (n', e)) (hn : n.Counted)
    (hok : e.result.isOk = true) : n'.Counted ↔ n.Balances (.socket t id family type protocol env) := by
  obtain ⟨-, -, hmgr, hsocks, hs⟩ := step_socket h
  rw [if_pos hok] at hsocks
  rw [if_pos (hs.mp hok).1] at hmgr
  rw [counted_open_iff h hn 1 (owned_of_socks hsocks), Label.tid, hmgr,
    (registerSocketForThread_updates n.ready t _).entry, ensured, Balances]
  cases hent : n.mgr.entry t with
  | some st =>
      have hst := hn t st hent
      have hadd := toInt_add_one_iff st.activeSockets
      simp only [Option.some_or, Option.map_some, ThreadSocketStats.addActive, Option.some.injEq, forall_eq', ne_eq,
        reduceCtorEq, not_false_eq_true, forall_const, false_implies, and_true]
      omega
  | none =>
      cases env.create.statsKmalloc with
      | true => simp [ThreadSocketStats.addActive, ThreadSocketStats.new]
      | false => simp

theorem counted_socketpair_iff {id₁ id₂ : SockId} {family type protocol : Int32} {env : PairEnv}
    (h : n.step (.socketpair t id₁ id₂ family type protocol env) = some (n', e)) (hn : n.Counted)
    (hok : e.result.isOk = true) : n'.Counted ↔ n.Balances (.socketpair t id₁ id₂ family type protocol env) := by
  obtain ⟨-, -, hmgr, hsocks, hs⟩ := step_socketpair h
  have hsucc := hs.mp hok
  rw [if_pos hok] at hsocks
  rw [if_pos hsucc.1, if_pos hsucc.2.1, if_neg hsucc.not_losesSecondFile] at hmgr
  have howned : ∀ x, n'.owned x = n.owned x + if t = x then 2 else 0 := fun x => by
    rw [owned_of_socks hsocks, List.countP_cons, owned]
    by_cases hx : t = x <;> simp [hx]
  have h₁ := registerSocketForThread_updates n.ready t env.create1.statsKmalloc
  rw [counted_open_iff h hn 2 howned, Label.tid, hmgr, (registerSocketForThread_updates h₁.wf t _).entry, ensured,
    h₁.entry, ensured, Balances]
  cases hent : n.mgr.entry t with
  | some st =>
      have hst := hn t st hent
      have hadd := toInt_add_two_iff st.activeSockets
      simp only [Option.some_or, Option.map_some, ThreadSocketStats.addActive, Option.some.injEq, forall_eq', ne_eq,
        reduceCtorEq, not_false_eq_true, forall_const, false_implies, and_true]
      omega
  | none =>
      cases env.create1.statsKmalloc with
      | true => simp [ThreadSocketStats.addActive, ThreadSocketStats.new]
      | false =>
          cases env.create2.statsKmalloc with
          | true =>
              simp [ThreadSocketStats.addActive, ThreadSocketStats.new]
              omega
          | false => simp

theorem counted_accept_iff {listener id : SockId} {flags : Int32} {env : AcceptEnv}
    (h : n.step (.accept t listener id flags env) = some (n', e)) (hn : n.Counted)
    (hok : e.result.isOk = true) : n'.Counted ↔ n.Balances (.accept t listener id flags env) := by
  obtain ⟨-, -, hmgr, hsocks, hs⟩ := step_accept h
  rw [if_pos hok] at hsocks
  rw [if_neg fun hl => (hs.mp hok).2.not_failsWithFile hl.2] at hmgr
  rw [counted_open_iff h hn 1 (owned_of_socks hsocks), Label.tid, hmgr, Balances]
  cases hent : n.mgr.entry t with
  | some st =>
      have hst := hn t st hent
      simp
      omega
  | none => simp

/-- A thread that closes a socket of its own has a positive counter. -/
theorem counted_close {id : SockId} (h : n.step (.close t id) = some (n', e)) (hn : n.Counted)
    (hown : ∀ s, n.find id = some s → s.owner = t) : n'.Counted := by
  obtain ⟨-, ⟨s, hfind, hmgr, hsocks, -⟩ | ⟨-, rfl, -⟩⟩ := step_close h
  · have howned : ∀ x, n.owned x = n'.owned x + if t = x then 1 else 0 := fun x => by
      rw [owned, Table.countP_erase _ hfind, owned, hsocks, hown s hfind]
      simp
    have hother : ∀ x, x ≠ t → n'.owned x = n.owned x := fun x hx => by
      rw [howned, if_neg (Ne.symm hx), Nat.add_zero]
    refine (counted_step_iff h hn hother).mpr fun st' hst' => ?_
    have ht := howned t
    rw [if_pos rfl] at ht
    rw [Label.tid, hmgr, entry_unregisterSocketForThread n.ready] at hst'
    obtain ⟨st, hst, rfl⟩ := Option.map_eq_some_iff.mp hst'
    have hcount := hn t st hst
    have hpos : 0 < st.activeSockets := by
      rw [Int32.lt_iff_toInt_lt, Int32.toInt_zero]
      omega
    rw [if_pos hpos, ThreadSocketStats.addActive, toInt_add_neg_one hpos, Label.tid]
    omega
  · exact hn

theorem counted_iff (h : n.step l = some (n', e)) (hl : n.OwnCall l) (hn : n.Counted) :
    n'.Counted ↔ n.Balances l := by
  have hok := hl.1 n' e h
  cases l with
  | socket t id family type protocol env => exact counted_socket_iff h hn hok
  | socketpair t id₁ id₂ family type protocol env => exact counted_socketpair_iff h hn hok
  | accept t listener id flags env => exact counted_accept_iff h hn hok
  | close t id => exact ⟨fun _ => trivial, fun _ => counted_close h hn hl.2⟩
  | send t id env => exact hl.2.elim
  | recv t id env => exact hl.2.elim

/-- **Own counters.** In any run of successful calls in which every socket is closed by the thread that opened
it, `active_sockets` of each tracked thread is the number of its open sockets in every state exactly when every
call balances. -/
theorem counted_iff_balances (pastEnd : PastEnd) (ls : List Label) (hls : Along step OwnCall (init pastEnd) ls) :
    Throughout step (fun _ n => n.Counted) (init pastEnd) ls ↔ Along step Balances (init pastEnd) ls := by
  refine throughout_iff_along (fun _ _ => True) OwnCall (fun _ _ _ _ _ _ _ _ _ => trivial) ?_ ls hls trivial ?_
  · intro _ n l n' e hl _ hn h
    exact counted_iff h hl hn
  · intro t st hst
    cases hst

theorem ownCall_of_step (h : n.step l = some (n', e)) (hok : e.result.isOk = true)
    (hl : n.OpensOrClosesOwn l) : n.OwnCall l := by
  refine ⟨fun n₁ e₁ h₁ => ?_, hl⟩
  rw [h] at h₁
  cases h₁
  exact hok

/-- A thread creates a socket and a pair and closes one of them. -/
def ownSockets : List Label := [.socket 1 7 2 1 0 {}, .socketpair 1 8 9 1 1 0 {}, .close 1 8]

theorem counted_ownSockets : Throughout step (fun _ n => n.Counted) (init ⟨0, 0, 0⟩) ownSockets := by
  refine (counted_iff_balances ⟨0, 0, 0⟩ ownSockets ?_).mpr ?_
  · refine .cons rfl (ownCall_of_step rfl rfl trivial) (.cons rfl (ownCall_of_step rfl rfl trivial)
      (.cons rfl (ownCall_of_step rfl rfl ?_) trivial))
    intro s hs
    cases hs
    rfl
  · refine .cons rfl ⟨fun h => absurd rfl h, fun _ _ => rfl⟩ (.cons rfl ⟨fun _ => by decide, fun h => ?_⟩
      (.cons rfl trivial trivial))
    cases h

/-- A thread accepts a connection on a socket it created. -/
def acceptsOwn : List Label := [.socket 1 7 2 1 0 {}, .accept 1 7 8 0 {}]

theorem acceptsOwn_not_counted : Along step OwnCall (init ⟨0, 0, 0⟩) acceptsOwn ∧
    ¬Throughout step (fun _ n => n.Counted) (init ⟨0, 0, 0⟩) acceptsOwn := by
  refine ⟨.cons rfl (ownCall_of_step rfl rfl trivial) (.cons rfl (ownCall_of_step rfl rfl trivial) trivial),
    fun h => ?_⟩
  have hend := h acceptsOwn List.prefix_rfl _ _ rfl 1 _ rfl
  exact absurd hend (by decide)

end State

end OsHw.Net
