import OsHw.KvAccounting

/-! Ownership across `execve`. `copy_process` copies the chain heads of the creator into a new thread and
`kv_store_init` leaves them there, so every thread carries a copy of heads that are not its own. The copy is
harmless until `de_thread` promotes the thread: then it is the store of the process. As long as promoted
threads have empty heads, all pairs reachable from the heads of a leader are allocated and were allocated by
its own process. -/

namespace OsHw.Kv.Kernel

variable {s s' : Kernel} {x t : TaskPtr} {tx tx' : Task} {e : Event} {a : Addr} {es : List Event}

/-- Pairs that are held or linked were allocated by the process of the task that holds or has them. -/
structure Owned (es : List Event) (s : Kernel) : Prop where
  held : ∀ x tx a, s.task x = some tx → tx.pc.newKv = some a → .kmalloc tx.tgid a ∈ es
  linked : ∀ x tx i a, s.task x = some tx → tx.groupLeader = x → a ∈ s.entries (x, i) → .kmalloc tx.tgid a ∈ es

theorem Owned.init (leader : TaskPtr) (pid : Pid) : (Kernel.init leader pid).Owned [] where
  held x tx a hx ha := by
    simp only [Kernel.init, Option.ite_none_right_eq_some, Option.some.injEq] at hx
    rw [← hx.2] at ha
    cases ha
  linked x tx i a _ _ ha := by cases ha

/-- A task that is not under construction has the id of its group after a step that it had before. -/
theorem Inv.tgid_step (hs : s.Inv) {l : Label} (h : s.step l = some (s', e)) (hx : s.task x = some tx)
    (hemb : ∀ b, tx.pc ≠ .embryo b) (hx' : s'.task x = some tx') : tx'.tgid = tx.tgid := by
  obtain ⟨tx₁, hx₁, hk⟩ := hs.step_task h hx hemb
  rw [hx'] at hx₁
  cases hx₁
  exact hk.tgid

theorem not_embryo_of_newKv (ha : tx.pc.newKv = some a) (b : Bool) : tx.pc ≠ .embryo b := by
  intro hb
  rw [hb] at ha
  cases ha

/-- A clean step keeps the origin of every pair. -/
theorem Owned.step (ho : s.Owned es) (hs : s.TraceInv es) {l : Label} (hclean : s.ExecClean l)
    (h : s.step l = some (s', e)) : s'.Owned (es ++ [e]) := by
  -- a pair held before belongs to the process that holds it after the step
  have hheld : ∀ x tx' a, s'.task x = some tx' → s.Holds x a → .kmalloc tx'.tgid a ∈ es ++ [e] := by
    rintro x tx' a hx' ⟨tx, hx, ha⟩
    rw [hs.inv.tgid_step h hx (not_embryo_of_newKv ha) hx']
    exact List.mem_append_left _ (ho.held x tx a hx ha)
  have hlinked : ∀ x tx' i a, s'.task x = some tx' → s.IsLeader x → a ∈ s.entries (x, i) →
      .kmalloc tx'.tgid a ∈ es ++ [e] := by
    intro x tx' i a hx' hlead ha
    obtain ⟨tx, hx, hself, hemb⟩ := hs.leader_of_linked (b := (x, i)) ⟨hlead, ha⟩
    rw [hs.inv.tgid_step h hx hemb hx']
    exact List.mem_append_left _ (ho.linked x tx i a hx hself ha)
  constructor
  · intro x tx' a hx' ha
    have hx : s'.Holds x a := ⟨tx', hx', ha⟩
    cases hs.inv.step_memory h with
    | quiet _ _ _ _ hholds => exact hheld x tx' a hx' ((hholds x a).mp hx)
    | drain _ _ _ _ _ _ _ _ hholds => exact hheld x tx' a hx' ((hholds x a).mp hx)
    | link _ _ _ _ _ _ _ _ _ _ _ _ _ _ hholds => exact hheld x tx' a hx' ((hholds x a).mp hx).2
    | free _ _ _ _ _ _ _ hholds => exact hheld x tx' a hx' ((hholds x a).mp hx).2
    | alloc t ty a₀ _ ht hpc hevent _ _ _ _ hholds =>
        rcases (hholds x a).mp hx with ⟨rfl, rfl⟩ | hx
        · rw [hs.inv.tgid_step h ht (by simp [hpc]) hx', hevent]
          exact List.mem_append_right _ List.mem_cons_self
        · exact hheld x tx' a hx' hx
  · intro x tx' i a hx' hself ha
    by_cases hlead : s.IsLeader x
    · cases hs.inv.step_memory h with
      | quiet _ _ _ hentries _ => exact hlinked x tx' i a hx' hlead (by rwa [hentries (x, i) hlead] at ha)
      | alloc _ _ _ _ _ _ _ _ _ _ hentries _ =>
          exact hlinked x tx' i a hx' hlead (by rwa [hentries (x, i) hlead] at ha)
      | free _ _ _ _ _ _ hentries _ => exact hlinked x tx' i a hx' hlead (by rwa [hentries (x, i) hlead] at ha)
      | drain b _ _ _ _ _ hnil hentries _ =>
          by_cases hb : (x, i) = b
          · rw [hb, hnil] at ha
            cases ha
          · exact hlinked x tx' i a hx' hlead (by rwa [hentries (x, i) hlead hb] at ha)
      | link t ty b k v a₀ _ ht hpc _ _ _ hcons hentries _ =>
          by_cases hb : (x, i) = b
          · subst hb
            rw [hcons] at ha
            rcases List.mem_cons.mp ha with rfl | ha
            · -- the pair its writer held goes to the leader of the writer
              obtain ⟨lx, hl, -, ⟨-, htgid⟩, hemb⟩ :=
                hs.inv.tasks.leader_not_embryo ht (by simp [hpc]) (by simp [hpc])
              rw [← (hs.inv.store.locking t ty (x, i) k v a ht hpc).1] at hl
              rw [hs.inv.tgid_step h hl hemb hx', htgid]
              exact List.mem_append_left _ (ho.held t ty a ht (by rw [hpc]; rfl))
            · exact hlinked x tx' i a hx' hlead ha
          · exact hlinked x tx' i a hx' hlead (by rwa [hentries (x, i) hlead hb] at ha)
    · obtain ⟨-, hfirst, -⟩ := hs.inv.step_newLeader hclean h ⟨tx', hx', hself⟩ hlead
      have hgood : s'.GoodBucket (x, i) [] :=
        ⟨Hlist.Mem.chain_nil_iff.mpr (hfirst i), by simp, by simp, by simp⟩
      rw [hgood.entries_eq] at ha
      cases ha

end OsHw.Kv.Kernel
