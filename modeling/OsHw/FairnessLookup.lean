import OsHw.Fairness

/-! What `get_thread_socket_stats` promises its callers, for any list of entries. A lookup that adds nothing and finds
nothing does not return NULL, so the tests for NULL behind it never hold, and a release for a thread without an
entry is taken from a limit of the manager. -/

namespace OsHw.Net

namespace SocketFairnessManager

variable {m : SocketFairnessManager} {t : Tid} {create kmalloc : Bool}

/-- A lookup returns the entry of the thread and changes nothing when there is one. When there is none it returns NULL,
or adds an entry with zero counters and returns that. -/
structure LooksUp (m : SocketFairnessManager) (t : Tid) (create kmalloc : Bool) : Prop where
  found : ∀ st, m.entry t = some st →
    m.getThreadSocketStats t create kmalloc = (m, .entry t) ∧ m.deref (.entry t) = st
  missed : m.entry t = none → create = false → m.getThreadSocketStats t create kmalloc = (m, .null)
  failed : m.entry t = none → create = true → kmalloc = false → m.getThreadSocketStats t create kmalloc = (m, .null)
  added : m.entry t = none → create = true → kmalloc = true →
    m.getThreadSocketStats t create kmalloc = ({ m with threads := ⟨t, 0, 0, 0, 0, 0, 0⟩ :: m.threads }, .entry t)

/-- Every entry and every field of the manager is as it was. -/
structure Keeps (m m' : SocketFairnessManager) : Prop where
  threads : m'.threads = m.threads
  maxSockets : m'.maxSocketsPerThread = m.maxSocketsPerThread
  maxPending : m'.maxPendingPerThread = m.maxPendingPerThread
  threshold : m'.throttleThreshold = m.throttleThreshold
  enabled : m'.fairnessEnabled = m.fairnessEnabled

theorem Keeps.refl (m : SocketFairnessManager) : Keeps m m := ⟨rfl, rfl, rfl, rfl, rfl⟩

theorem getThreadSocketStats_of_some (hm : m.isInitialized = true) {st : ThreadSocketStats} (h : m.entry t = some st) :
    m.getThreadSocketStats t true kmalloc = (m, .entry t) := by
  rw [getThreadSocketStats, socketFairnessInit, if_pos hm, h]

theorem getThreadSocketStats_of_none (hm : m.isInitialized = true) (h : m.entry t = none) :
    m.getThreadSocketStats t true kmalloc =
      if kmalloc then ({ m with threads := .new t :: m.threads }, .entry t) else (m, .null) := by
  rw [getThreadSocketStats, socketFairnessInit, if_pos hm, h]
  rfl

/-- The only lookup that goes wrong is one without `create` that finds nothing. -/
theorem looksUp_iff (hm : m.isInitialized = true) :
    LooksUp m t create kmalloc ↔ create = true ∨ (m.entry t).isSome = true := by
  have hderef : ∀ st, m.entry t = some st → m.deref (.entry t) = st := by
    intro st hst
    rw [deref, hst, Option.getD_some]
  constructor
  · intro h
    by_contra hnone
    rw [not_or, Bool.not_eq_true, Bool.not_eq_true, Option.isSome_eq_false_iff, Option.isNone_iff_eq_none] at hnone
    have hnull := h.missed hnone.2 hnone.1
    rw [hnone.1, getThreadSocketStats_noCreate hm, hnone.2] at hnull
    cases hnull
  · intro h
    cases create with
    | true =>
        constructor
        · exact fun st hst => ⟨getThreadSocketStats_of_some hm hst, hderef st hst⟩
        · exact fun _ hcreate => absurd hcreate (by decide)
        · exact fun hnone _ hfail => by rw [getThreadSocketStats_of_none hm hnone, hfail]; rfl
        · exact fun hnone _ halloc => by rw [getThreadSocketStats_of_none hm hnone, halloc]; rfl
    | false =>
        have hsome := h.resolve_left (by decide)
        have hne : m.entry t ≠ none := Option.isSome_iff_ne_none.mp hsome
        constructor
        · exact fun st hst => ⟨by rw [getThreadSocketStats_noCreate hm, if_pos hsome], hderef st hst⟩
        · exact fun hnone => absurd hnone hne
        · exact fun hnone => absurd hnone hne
        · exact fun hnone => absurd hnone hne

/-- A release for a thread without an entry leaves everything alone exactly when there is nothing to take from the
limit of pending requests. -/
theorem unregisterSocketForThread_keeps_iff (hm : m.isInitialized = true) (h : m.entry t = none) :
    Keeps m (m.unregisterSocketForThread t) ↔ ¬0 < m.maxPendingPerThread.toInt32 := by
  rw [unregisterSocketForThread_none hm h]
  by_cases hpos : 0 < m.maxPendingPerThread.toInt32
  · have hne : m.maxPendingPerThread - 1 ≠ m.maxPendingPerThread := by
      intro heq
      have hone : (1 : UInt32) = 0 := by grind
      exact absurd hone (by decide)
    simp only [hpos, if_true, not_true_eq_false, iff_false]
    exact fun hkeeps => hne hkeeps.maxPending
  · simp only [hpos, if_false, not_false_eq_true, iff_true]
    exact ⟨rfl, rfl, rfl, rfl, rfl⟩

/-- A send check for a thread without an entry writes behind the manager at most. -/
theorem shouldThrottleTransmission_keeps (hm : m.isInitialized = true) (h : m.entry t = none) :
    Keeps m (m.shouldThrottleTransmission t).1 := by
  cases hen : m.fairnessEnabled with
  | false =>
      rw [shouldThrottleTransmission, hen]
      exact .refl m
  | true =>
      rw [shouldThrottleTransmission, hen, getThreadSocketStats_noCreate hm, h]
      by_cases hlim : m.maxSocketsPerThread < (m.deref .listHead).activeSockets.toUInt32
      · simp only [Bool.not_true, Bool.false_eq_true, if_false, Option.isSome_none, reduceCtorEq, if_pos hlim,
          write_listHead_addThrottled hen]
        exact ⟨rfl, rfl, rfl, rfl, rfl⟩
      · simp only [Bool.not_true, Bool.false_eq_true, if_false, Option.isSome_none, reduceCtorEq, if_neg hlim]
        exact .refl m

/-- A send check counts what it throttles in the entry of the thread, and adds none. -/
theorem entry_shouldThrottleTransmission (hm : m.WF) (t : Tid) :
    (m.shouldThrottleTransmission t).1.entry t = (m.entry t).map fun st =>
      if m.fairnessEnabled = true ∧ m.maxSocketsPerThread < st.activeSockets.toUInt32 then st.addThrottled else st := by
  cases h : m.entry t with
  | none =>
      rw [entry, (shouldThrottleTransmission_keeps hm.initialized h).threads, ← entry, h]
      rfl
  | some st =>
      cases hen : m.fairnessEnabled with
      | false =>
          rw [shouldThrottleTransmission, hen]
          simp [h]
      | true =>
          obtain ⟨m', heq, hup⟩ := shouldThrottleTransmission_some hm hen h
          rw [heq, hup.entry]
          simp

/-- **Lookups.** For any list of entries: a lookup does what its callers expect exactly when it may add an entry or
finds one, and of the calls for a thread without an entry a send check changes nothing, a release nothing exactly
when the limit of pending requests is not positive. -/
theorem lookup_frame_iff (m : SocketFairnessManager) (hm : m.isInitialized = true) (t : Tid) :
    (∀ create kmalloc, LooksUp m t create kmalloc ↔ create = true ∨ (m.entry t).isSome = true) ∧
    (m.entry t = none →
      Keeps m (m.shouldThrottleTransmission t).1 ∧
      (Keeps m (m.unregisterSocketForThread t) ↔ ¬0 < m.maxPendingPerThread.toInt32)) :=
  ⟨fun _ _ => looksUp_iff hm, fun h =>
    ⟨shouldThrottleTransmission_keeps hm h, unregisterSocketForThread_keeps_iff hm h⟩⟩

/-- The manager as it starts, with the list still empty. -/
def started : SocketFairnessManager := (zeroed ⟨0, 0, 0⟩).socketFairnessInit

theorem started_lookup : LooksUp started 7 true true ∧ Keeps started (started.shouldThrottleTransmission 7).1 :=
  ⟨((lookup_frame_iff started rfl 7).1 true true).mpr (.inl rfl), ((lookup_frame_iff started rfl 7).2 rfl).1⟩

/-- The lookup returns the list head, and the release takes the limit of pending requests from 5 to 4. -/
theorem started_release :
    (started.getThreadSocketStats 7 false false).2 = .listHead ∧ ¬LooksUp started 7 false false ∧
      started.maxPendingPerThread = 5 ∧ (started.unregisterSocketForThread 7).maxPendingPerThread = 4 ∧
      ¬Keeps started (started.unregisterSocketForThread 7) := by
  refine ⟨by decide, fun h => ?_, by decide, by decide, fun h => ?_⟩
  · exact absurd (h.missed (by decide) rfl) (by decide)
  · exact absurd h.maxPending (by decide)

end SocketFairnessManager

end OsHw.Net
