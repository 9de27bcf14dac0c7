import OsHw.SocketSystem

/-! What a failing `socket`, `socketpair` or `accept` leaves behind. The registration stands in the middle
of `__sock_create`, and the clean-up of a socket without a file does not take it back; `accept` registers
nothing and gives a unit back when it fails with a file attached. A failing call is without effect on
`active_sockets` exactly when no such exit meets a counter. -/

namespace OsHw.Net

namespace State

open SocketFairnessManager

variable {n n' : State} {l : Label} {e : Event} {t x : Tid}

/-- A call that fails does so before it registers a socket, or what it registers is lost for want of an entry
(or is given back, when only the second registration of a `socketpair` adds one), or an `accept` that fails
with its file attached is made by a thread with no active sockets. -/
def Harmless (n : State) : Label → Prop
  | .socket t _ family type protocol env =>
      env.Registers family type protocol → n.mgr.entry t = none ∧ env.create.statsKmalloc = false
  | .socketpair t _ _ family type protocol env =>
      env.RegistersFirst family type protocol →
        (n.mgr.entry t = none ∧ env.create1.statsKmalloc = false) ∧
        (env.RegistersSecond family type protocol →
          env.create2.statsKmalloc = false ∨ env.LosesSecondFile family type protocol)
  | .accept t listener _ flags env =>
      (n.find listener).isSome ∧ env.FailsWithFile flags → ¬0 < n.mgr.activeOf t
  | _ => True

/-- Whether a call leaves every counter alone shows at the thread that makes it. -/
theorem active_unchanged_iff (h : n.step l = some (n', e)) :
    (∀ x, n'.mgr.activeOf x = n.mgr.activeOf x) ↔ n'.mgr.activeOf l.tid = n.mgr.activeOf l.tid := by
  refine ⟨fun hall => hall l.tid, fun hself x => ?_⟩
  by_cases hx : x = l.tid
  · rw [hx, hself]
  · rw [activeOf, (step_touches h).others x hx, activeOf]

theorem active_socket_iff {id : SockId} {family type protocol : Int32} {env : SocketEnv}
    (h : n.step (.socket t id family type protocol env) = some (n', e)) :
    n'.mgr.activeOf t = n.mgr.activeOf t ↔ n.Harmless (.socket t id family type protocol env) := by
  rw [(step_socket h).2.2.1, Harmless]
  by_cases hreg : env.Registers family type protocol
  · rw [if_pos hreg, activeOf_registerSocketForThread n.ready]
    by_cases hlost : n.mgr.entry t = none ∧ env.create.statsKmalloc = false
    · simp [hlost]
    · simp [hreg, hlost]
  · simp [hreg]

/-- Two registrations: only a thread without an entry can come out of them as it went in. -/
theorem active_twice_iff {m : SocketFairnessManager} (hm : m.WF) (k₁ k₂ : Bool) :
    ((m.registerSocketForThread t k₁).registerSocketForThread t k₂).activeOf t = m.activeOf t ↔
      (m.entry t = none ∧ k₁ = false) ∧ k₂ = false := by
  rw [activeOf_register_twice hm]
  by_cases hlost : m.entry t = none ∧ k₁ = false
  · cases k₂ <;> simp [hlost]
  · simp [hlost, Int32.add_assoc]

/-- Two registrations and a release: the release gives back what only the second one took. -/
theorem active_twice_release_iff {m : SocketFairnessManager} (hm : m.WF) (k₁ k₂ : Bool) :
    (((m.registerSocketForThread t k₁).registerSocketForThread t k₂).unregisterSocketForThread t).activeOf t =
      m.activeOf t ↔ m.entry t = none ∧ k₁ = false := by
  have h₁ := registerSocketForThread_updates hm t k₁
  have h₂ := registerSocketForThread_updates h₁.wf t k₂
  rw [activeOf_unregisterSocketForThread h₂.wf, activeOf_register_twice hm]
  by_cases hlost : m.entry t = none ∧ k₁ = false
  · have hzero : m.activeOf t = 0 := activeOf_eq hlost.1
    cases k₂ with
    | false => simp [hlost, hzero]
    | true => simp [hlost, hzero]
  · simp only [hlost, if_false, iff_false]
    split
    · simp [Int32.add_assoc]
    · simp [Int32.add_assoc]

theorem active_socketpair_iff {id₁ id₂ : SockId} {family type protocol : Int32} {env : PairEnv}
    (h : n.step (.socketpair t id₁ id₂ family type protocol env) = some (n', e)) :
    n'.mgr.activeOf t = n.mgr.activeOf t ↔ n.Harmless (.socketpair t id₁ id₂ family type protocol env) := by
  rw [(step_socketpair h).2.2.1, Harmless]
  by_cases hfirst : env.RegistersFirst family type protocol
  · by_cases hsecond : env.RegistersSecond family type protocol
    · by_cases hloses : env.LosesSecondFile family type protocol
      · rw [if_pos hfirst, if_pos hsecond, if_pos hloses, active_twice_release_iff n.ready]
        simp [hfirst, hloses]
      · rw [if_pos hfirst, if_pos hsecond, if_neg hloses, active_twice_iff n.ready]
        simp [hfirst, hsecond, hloses]
    · rw [if_pos hfirst, if_neg hsecond, activeOf_registerSocketForThread n.ready]
      by_cases hlost : n.mgr.entry t = none ∧ env.create1.statsKmalloc = false
      · simp [hlost, hsecond]
      · simp [hfirst, hlost]
  · simp [hfirst]

theorem active_accept_iff {listener id : SockId} {flags : Int32} {env : AcceptEnv}
    (h : n.step (.accept t listener id flags env) = some (n', e)) :
    n'.mgr.activeOf t = n.mgr.activeOf t ↔ n.Harmless (.accept t listener id flags env) := by
  rw [(step_accept h).2.2.1, Harmless]
  by_cases hlate : (n.find listener).isSome ∧ env.FailsWithFile flags
  · rw [if_pos hlate, activeOf_unregisterSocketForThread n.ready]
    by_cases hpos : 0 < n.mgr.activeOf t
    · simp [hlate, hpos]
    · simp [hpos]
  · simp [hlate]

/-- **Failing calls.** A call that fails leaves `active_sockets` of every thread as it was exactly when it is
harmless. -/
theorem failed_call_active_iff (h : n.step l = some (n', e)) (hfail : e.result.isOk = false) :
    (∀ x, n'.mgr.activeOf x = n.mgr.activeOf x) ↔ n.Harmless l := by
  rw [active_unchanged_iff h]
  cases l with
  | socket t id family type protocol env => exact active_socket_iff h
  | socketpair t id₁ id₂ family type protocol env => exact active_socketpair_iff h
  | accept t listener id flags env => exact active_accept_iff h
  | close t id =>
      obtain ⟨-, ⟨s, -, -, -, hok⟩ | ⟨-, rfl, -⟩⟩ := step_close h
      · rw [hok] at hfail
        cases hfail
      · exact ⟨fun _ => trivial, fun _ => rfl⟩
  | send t id env => exact ⟨fun _ => trivial, fun _ => (step_send_quiet h).active⟩
  | recv t id env => exact ⟨fun _ => trivial, fun _ => (step_recv_quiet h).active⟩

/-- `socket` for a family whose protocol refuses the socket, made by a thread whose entry cannot be
allocated. -/
def refusedUntracked : Label :=
  .socket 1 7 2 1 0 { create := { statsKmalloc := false, create := fun _ _ => some eafnosupport } }

theorem failed_call_refusedUntracked :
    ∃ n' e, (init ⟨0, 0, 0⟩).step refusedUntracked = some (n', e) ∧ e.result = .error eafnosupport ∧
      ∀ x, n'.mgr.activeOf x = (init ⟨0, 0, 0⟩).mgr.activeOf x :=
  have hharmless : (init ⟨0, 0, 0⟩).Harmless refusedUntracked := fun _ => ⟨rfl, rfl⟩
  ⟨_, _, rfl, rfl, (failed_call_active_iff (l := refusedUntracked) rfl rfl).mpr hharmless⟩

/-- `socket` for a family that no module provides. -/
def unknownFamily : Label := .socket 1 7 5 1 0 { create := { netFamilies := fun _ => false } }

theorem unknownFamily_counts :
    ∃ n' e, (init ⟨0, 0, 0⟩).step unknownFamily = some (n', e) ∧ e.result = .error eafnosupport ∧
      ¬∀ x, n'.mgr.activeOf x = (init ⟨0, 0, 0⟩).mgr.activeOf x :=
  ⟨_, _, rfl, rfl, fun h => absurd (h 1) (by decide)⟩

end State

end OsHw.Net
