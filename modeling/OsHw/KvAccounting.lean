import OsHw.KvMemory
import Mathlib.Tactic.Push

/-! Every pair is accounted for. A pair that `write_kv` allocated is held by a call in progress, linked in
exactly one bucket, or freed exactly once, and never two of these. Whether anything is left when every
thread is gone depends on one thing only: a locked section of `write_kv` must not run on a bucket that the
teardown of the leader has already passed, for nobody empties that bucket again. -/

namespace OsHw.Kv

/-- The teardown loop of a leader at this place is past the bucket. -/
def Pc.Passed (i : BucketIdx) (pc : Pc) : Prop := pc = .dead ∨ ∃ j, pc = .exiting j ∧ i.val < j

namespace Kernel

variable {s s' : Kernel} {x t : TaskPtr} {tx lx : Task} {b : Bucket} {k v : Int32} {e : Event} {a : Addr}
  {es : List Event}

/-- `a` is in the bucket `b` of a thread group's store. -/
def Linked (s : Kernel) (a : Addr) (b : Bucket) : Prop := s.IsLeader b.1 ∧ a ∈ s.entries b

/-- Where an allocated pair is: held, linked, or freed, once and only there. -/
def Accounts (s : Kernel) (a : Addr) : Prop :=
  (s.frees a = 0 ∧ (∃! x, s.Holds x a) ∧ ∀ b, ¬s.Linked a b) ∨
    (s.frees a = 0 ∧ (∀ x, ¬s.Holds x a) ∧ ∃! b, s.Linked a b) ∨
    (s.frees a = 1 ∧ (∀ x, ¬s.Holds x a) ∧ ∀ b, ¬s.Linked a b)

/-- No pair is lost and none is freed twice. -/
structure Accounted (s : Kernel) : Prop where
  freed : ∀ a, s.frees a ≤ 1
  placed : ∀ a ∈ s.allocs, s.frees a = 0 → (∃ x, s.Holds x a) ∨ ∃ b, s.Linked a b

/-- Leaders that run stay leaders as long as nobody calls `execve`. -/
theorem Inv.isLeader_step (hs : s.Inv) {l : Label} (hl : l.isExec = false) (h : s.step l = some (s', e))
    (hx : s.task x = some lx) (hlead : lx.groupLeader = x) (hemb : ∀ b, lx.pc ≠ .embryo b) : s'.IsLeader x := by
  obtain ⟨lx', hx', hk⟩ := hs.step_task h hx hemb
  refine ⟨lx', hx', ?_⟩
  rcases hk.leader with hl' | ⟨hexec, -⟩ | ⟨hexec, -⟩
  · exact hl'.trans hlead
  · rw [hl] at hexec
    cases hexec
  · rw [hl] at hexec
    cases hexec

/-- The leader of a store that is not empty is not under construction. -/
theorem TraceInv.leader_of_linked (hs : s.TraceInv es) (ha : s.Linked a b) :
    ∃ lx, s.task b.1 = some lx ∧ lx.groupLeader = b.1 ∧ ∀ c, lx.pc ≠ .embryo c := by
  obtain ⟨hlead, hmem⟩ := ha
  have hlookup := hs.inv.store.lookup_of_mem_entries (i := b.2) hlead hmem
  rw [hs.refines b.1 hlead] at hlookup
  obtain ⟨lx, hx, hemb, -⟩ := hs.wrote _ _ _ (wrote_mem_of_lastWrite (lastWrite_of_absStore hlookup))
  obtain ⟨lx', hx', hself⟩ := hlead
  rw [hx] at hx'
  cases hx'
  exact ⟨lx, hx, hself, hemb⟩

theorem StoreInv.allocated_of_linked (hs : s.StoreInv) (ha : s.Linked a b) : s.Allocated a := by
  obtain ⟨l, hl⟩ := hs.good b.1 ha.1 b.2
  have hmem := ha.2
  rw [hl.entries_eq] at hmem
  exact hl.allocated a hmem

theorem StoreInv.linked_unique (hs : s.StoreInv) {b' : Bucket} (ha : s.Linked a b) (ha' : s.Linked a b') :
    b = b' := by
  obtain ⟨l, hl⟩ := hs.good b.1 ha.1 b.2
  obtain ⟨l', hl'⟩ := hs.good b'.1 ha'.1 b'.2
  have hmem := ha.2
  have hmem' := ha'.2
  rw [hl.entries_eq] at hmem
  rw [hl'.entries_eq] at hmem'
  exact hl.chain.head_eq hl'.chain hmem hmem'

/-- A step loses no pair and frees none twice. -/
theorem Accounted.step (ha : s.Accounted) (hs : s.TraceInv es) {l : Label} (hl : l.isExec = false)
    (h : s.step l = some (s', e)) : s'.Accounted := by
  have hstays : ∀ a b, s.Linked a b → s'.IsLeader b.1 := by
    intro a b hb
    obtain ⟨lx, hx, hlead, hemb⟩ := hs.leader_of_linked hb
    exact hs.inv.isLeader_step hl h hx hlead hemb
  -- a linked pair whose bucket does not change stays linked
  have hframe : ∀ a b, s.Linked a b → s'.entries b = s.entries b → s'.Linked a b := by
    intro a b hb hentries
    exact ⟨hstays a b hb, by rw [hentries]; exact hb.2⟩
  cases hs.inv.step_memory h with
  | quiet _ hallocs hfrees hentries hholds =>
      refine ⟨by rw [hfrees]; exact ha.freed, fun a hmem hfree => ?_⟩
      rw [hallocs] at hmem
      rw [hfrees] at hfree
      rcases ha.placed a hmem hfree with ⟨x, hx⟩ | ⟨b, hb⟩
      · exact .inl ⟨x, (hholds x a).mpr hx⟩
      · exact .inr ⟨b, hframe a b hb (hentries b hb.1)⟩
  | alloc t ty a₀ _ _ _ _ _ hallocs hfrees hentries hholds =>
      refine ⟨by rw [hfrees]; exact ha.freed, fun a hmem hfree => ?_⟩
      rw [hallocs] at hmem
      rw [hfrees] at hfree
      rcases List.mem_cons.mp hmem with rfl | hmem
      · exact .inl ⟨t, (hholds t a).mpr (.inl ⟨rfl, rfl⟩)⟩
      · rcases ha.placed a hmem hfree with ⟨x, hx⟩ | ⟨b, hb⟩
        · exact .inl ⟨x, (hholds x a).mpr (.inr hx)⟩
        · exact .inr ⟨b, hframe a b hb (hentries b hb.1)⟩
  | link t tx b₀ k v a₀ hlabel ht hpc hlead hallocs hfrees hself hentries hholds =>
      refine ⟨by rw [hfrees]; exact ha.freed, fun a hmem hfree => ?_⟩
      rw [hallocs] at hmem
      rw [hfrees] at hfree
      have hlead' : s'.IsLeader b₀.1 := by
        rw [(hs.inv.store.locking t tx b₀ k v a₀ ht hpc).1]
        obtain ⟨lx, hx, hself, -, hemb⟩ := hs.inv.tasks.leader_not_embryo ht (by simp [hpc]) (by simp [hpc])
        exact hs.inv.isLeader_step hl h hx hself hemb
      rcases ha.placed a hmem hfree with ⟨x, hx⟩ | ⟨b, hb⟩
      · by_cases hxt : x = t
        · subst hxt
          rw [holds_iff ht, hpc] at hx
          cases hx
          exact .inr ⟨b₀, hlead', by rw [hself]; exact List.mem_cons_self⟩
        · exact .inl ⟨x, (hholds x a).mpr ⟨hxt, hx⟩⟩
      · by_cases hbb : b = b₀
        · subst hbb
          exact .inr ⟨b, hlead', by rw [hself]; exact List.mem_cons_of_mem _ hb.2⟩
        · exact .inr ⟨b, hframe a b hb (hentries b hb.1 hbb)⟩
  | free t a₀ _ hheld hallocs hfrees hentries hholds =>
      have hzero := (hs.inv.store.held t a₀ hheld).1.2
      refine ⟨fun a => ?_, fun a hmem hfree => ?_⟩
      · rw [hfrees a]
        split
        · rename_i heq
          rw [heq, hzero]
        · exact ha.freed a
      · rw [hfrees a] at hfree
        split at hfree
        · omega
        · rename_i hne
          rw [hallocs] at hmem
          rcases ha.placed a hmem hfree with ⟨x, hx⟩ | ⟨b, hb⟩
          · refine .inl ⟨x, (hholds x a).mpr ⟨?_, hx⟩⟩
            rintro rfl
            obtain ⟨tx, htx, hnew⟩ := hheld
            rw [holds_iff htx, hnew] at hx
            exact hne (Option.some.inj hx).symm
          · exact .inr ⟨b, hframe a b hb (hentries b hb.1)⟩
  | drain b₀ _ hlead _ hallocs hfrees hself hentries hholds =>
      refine ⟨fun a => ?_, fun a hmem hfree => ?_⟩
      · rw [hfrees a]
        split
        · rename_i hin
          rw [(hs.inv.store.allocated_of_linked ⟨hlead, hin⟩).2]
        · exact ha.freed a
      · rw [hfrees a] at hfree
        split at hfree
        · omega
        · rename_i hout
          rw [hallocs] at hmem
          rcases ha.placed a hmem hfree with ⟨x, hx⟩ | ⟨b, hb⟩
          · exact .inl ⟨x, (hholds x a).mpr hx⟩
          · have hbb : b ≠ b₀ := by
              rintro rfl
              exact hout hb.2
            exact .inr ⟨b, hframe a b hb (hentries b hb.1 hbb)⟩

/-! ### What is left at the end -/

/-- A locked section of `write_kv` runs on a bucket that the teardown of the leader has not passed. -/
def WriteBeforeTeardown (s : Kernel) : Label → Prop
  | .writeLock t k v => ∀ tx b a, s.task t = some tx → tx.pc = .writeLocking b k v a →
      ∀ lx, s.task b.1 = some lx → ¬lx.pc.Passed b.2
  | _ => True

/-- Buckets that a teardown has passed are empty. -/
def TornEmpty (s : Kernel) : Prop :=
  ∀ x lx i, s.task x = some lx → lx.groupLeader = x → lx.pc.Passed i → s.entries (x, i) = []

/-- Some bucket that a teardown has passed holds a pair. -/
def Leaked (s : Kernel) : Prop :=
  ∃ x lx i, s.task x = some lx ∧ lx.groupLeader = x ∧ lx.pc.Passed i ∧ s.entries (x, i) ≠ []

/-- A teardown passes a bucket in the iteration for that bucket. -/
theorem Inv.passed_of_step (hs : s.Inv) {l : Label} (hl : l.isExec = false) (h : s.step l = some (s', e))
    (hx' : s'.task x = some lx) (hlead : lx.groupLeader = x) {i : BucketIdx} (hpass : lx.pc.Passed i) :
    (∃ tx, s.task x = some tx ∧ tx.groupLeader = x ∧ tx.pc.Passed i) ∨
      (l = .exitBucket x ∧ ∃ tx, s.task x = some tx ∧ tx.pc = .exiting i) := by
  cases hs.step_origin hl h hx' with
  | stays tx hx => exact .inl ⟨_, hx, hlead, hpass⟩
  | moves tx pc hx hm =>
      cases hm with
      | exitThread _ hpc hid =>
          exact absurd ((hs.tasks.ids x tx hx (by simp [hpc]) (by simp [hpc])).mpr hlead) hid
      | exitLeader _ _ _ => simp [Pc.Passed] at hpass
      | exitBucket j hl' hpc hj =>
          simp only [Pc.Passed, reduceCtorEq, Pc.exiting.injEq, exists_eq_left', false_or] at hpass
          by_cases hij : i.val < j.val
          · exact .inl ⟨tx, hx, hlead, .inr ⟨j, hpc, hij⟩⟩
          · obtain rfl : i = j := Fin.ext (by omega)
            exact .inr ⟨hl', tx, hx, hpc⟩
      | exitDone j hl' hpc hj =>
          by_cases hij : i.val < j.val
          · exact .inl ⟨tx, hx, hlead, .inr ⟨j, hpc, hij⟩⟩
          · obtain rfl : i = j := Fin.ext (by omega)
            exact .inr ⟨hl', tx, hx, hpc⟩
      | writeAlloc | writeFound | writeLinked | writeFree | dupTask | forkInit | forkFail | forkDone | wakeUp =>
          simp [Pc.Passed] at hpass
  | dup t ty c _ _ _ _ => simp [Pc.Passed] at hpass
  | child t ty px pid c _ _ _ _ _ => simp [Pc.Passed, childTask_pc] at hpass

/-- A bucket that was passed stays passed. -/
theorem Inv.passed_step (hs : s.Inv) {l : Label} (hl : l.isExec = false) (h : s.step l = some (s', e))
    (hx : s.task x = some tx) (hlead : tx.groupLeader = x) {i : BucketIdx} (hpass : tx.pc.Passed i) :
    ∃ lx, s'.task x = some lx ∧ lx.groupLeader = x ∧ lx.pc.Passed i := by
  have hemb : ∀ b, tx.pc ≠ .embryo b := by
    intro b hb
    simp [Pc.Passed, hb] at hpass
  obtain ⟨lx, hx', hself⟩ := hs.isLeader_step hl h hx hlead hemb
  refine ⟨lx, hx', hself, ?_⟩
  cases hs.step_origin hl h hx' with
  | stays _ hx₁ =>
      rw [hx] at hx₁
      cases hx₁
      exact hpass
  | moves _ pc hx₁ hm =>
      rw [hx] at hx₁
      cases hx₁
      cases hm with
      | exitBucket j _ hpc _ =>
          simp only [Pc.Passed, hpc, reduceCtorEq, Pc.exiting.injEq, exists_eq_left', false_or] at hpass
          exact .inr ⟨_, rfl, by omega⟩
      | exitDone j _ _ _ => exact .inl rfl
      | forkFail p err callee _ hpc => rcases hpc with ⟨c, hpc⟩ | hpc <;> simp [Pc.Passed, hpc] at hpass
      | writeAlloc _ _ _ _ _ hpc | writeFound _ _ _ _ _ hpc | writeLinked _ _ _ _ _ hpc | writeFree _ _ hpc
        | dupTask _ _ _ hpc | forkInit _ _ _ _ hpc | forkDone _ _ hpc | wakeUp _ _ hpc | exitThread _ hpc
        | exitLeader _ hpc => simp [Pc.Passed, hpc] at hpass
  | dup t ty c _ _ _ hx₁ =>
      rw [hx] at hx₁
      cases hx₁
  | child t ty px pid c _ _ _ hx₁ hppc =>
      rw [hx] at hx₁
      cases hx₁
      exact absurd hppc (hemb false)

/-- Steps that write before teardown leave passed buckets empty. -/
theorem TornEmpty.step (ht : s.TornEmpty) (hs : s.Inv) {l : Label} (hl : l.isExec = false)
    (hok : s.WriteBeforeTeardown l) (h : s.step l = some (s', e)) : s'.TornEmpty := by
  intro x lx i hx' hlead hpass
  by_cases hleader : s.IsLeader x
  · rcases hs.passed_of_step hl h hx' hlead hpass with ⟨tx, hx, hself, hpass₀⟩ | ⟨rfl, tx, hx, hpc⟩
    · have hnil := ht x tx i hx hself hpass₀
      cases hs.step_memory h with
      | quiet _ _ _ hentries _ => rw [hentries (x, i) hleader, hnil]
      | alloc _ _ _ _ _ _ _ _ _ _ hentries _ => rw [hentries (x, i) hleader, hnil]
      | free _ _ _ _ _ _ hentries _ => rw [hentries (x, i) hleader, hnil]
      | link t ty b k v a hlabel hty hpc _ _ _ _ hentries _ =>
          subst hlabel
          have hne : (x, i) ≠ b := by
            rintro rfl
            exact hok ty (x, i) a hty hpc tx hx hpass₀
          rw [hentries (x, i) hleader hne, hnil]
      | drain b _ _ _ _ _ hself hentries _ =>
          by_cases hb : (x, i) = b
          · rw [hb, hself]
          · rw [hentries (x, i) hleader hb, hnil]
    · -- this is the iteration that passes the bucket
      cases hs.step_memory h with
      | quiet hlabel => exact absurd rfl (hlabel x)
      | alloc _ _ _ hlabel => exact absurd rfl (hlabel x)
      | free _ _ hlabel => exact absurd rfl (hlabel x)
      | link _ _ _ _ _ _ hlabel => cases hlabel
      | drain b hlabel _ hpc' _ _ hself _ _ =>
          obtain ⟨tx', hx₁, hpc₁⟩ := hpc'
          obtain ⟨y, j⟩ := b
          cases hlabel
          rw [hx] at hx₁
          cases hx₁
          rw [hpc] at hpc₁
          cases Fin.ext (Pc.exiting.inj hpc₁)
          exact hself
  · obtain ⟨-, hfirst, -⟩ := hs.step_newLeader (execClean_of_isExec hl) h ⟨lx, hx', hlead⟩ hleader
    have hgood : s'.GoodBucket (x, i) [] :=
      ⟨Hlist.Mem.chain_nil_iff.mpr (hfirst i), by simp, by simp, by simp⟩
    exact hgood.entries_eq

/-- What was left in a passed bucket stays there. -/
theorem Leaked.step (ht : s.Leaked) (hs : s.Inv) {l : Label} (hl : l.isExec = false)
    (h : s.step l = some (s', e)) : s'.Leaked := by
  obtain ⟨x, lx, i, hx, hlead, hpass, hne⟩ := ht
  obtain ⟨ly, hy, hself, hpass'⟩ := hs.passed_step hl h hx hlead hpass
  refine ⟨x, ly, i, hy, hself, hpass', ?_⟩
  have hleader : s.IsLeader x := ⟨lx, hx, hlead⟩
  cases hs.step_memory h with
  | quiet _ _ _ hentries _ => rwa [hentries (x, i) hleader]
  | alloc _ _ _ _ _ _ _ _ _ _ hentries _ => rwa [hentries (x, i) hleader]
  | free _ _ _ _ _ _ hentries _ => rwa [hentries (x, i) hleader]
  | link t ty b k v a _ _ _ _ _ _ hself' hentries _ =>
      by_cases hb : (x, i) = b
      · rw [hb, hself']
        simp
      · rwa [hentries (x, i) hleader hb]
  | drain b _ _ hpc _ _ _ hentries _ =>
      have hb : (x, i) ≠ b := by
        rintro rfl
        obtain ⟨tx, htx, hpc⟩ := hpc
        rw [hx] at htx
        cases htx
        simp [Pc.Passed, hpc] at hpass
      rwa [hentries (x, i) hleader hb]

theorem Accounted.init (leader : TaskPtr) (pid : Pid) : (Kernel.init leader pid).Accounted where
  freed _ := Nat.zero_le _
  placed _ h := by cases h

theorem TornEmpty.init (leader : TaskPtr) (pid : Pid) : (Kernel.init leader pid).TornEmpty := by
  intro x lx i hx _ hpass
  simp only [Kernel.init, Option.ite_none_right_eq_some, Option.some.injEq] at hx
  rw [← hx.2] at hpass
  simp [Pc.Passed] at hpass

theorem Leaked.allocated (ht : s.Leaked) (hs : s.StoreInv) : ∃ a ∈ s.allocs, s.frees a = 0 := by
  obtain ⟨x, lx, i, hx, hlead, -, hne⟩ := ht
  obtain ⟨a, ha⟩ := List.exists_mem_of_ne_nil _ hne
  obtain ⟨hmem, hfree⟩ := hs.allocated_of_linked (b := (x, i)) ⟨⟨lx, hx, hlead⟩, ha⟩
  exact ⟨a, hmem, hfree⟩

theorem Accounted.run {leader : TaskPtr} {pid : Pid} {ls : List Label} (hls : ∀ l ∈ ls, l.isExec = false)
    (hrun : OsHw.run Kernel.step (Kernel.init leader pid) ls = some (s, es)) : s.Accounted :=
  (run_invariant (fun es s => TraceInv es s ∧ s.Accounted) (fun _ l => l.isExec = false)
    (fun _ _ _ _ _ hs hl h => ⟨hs.1.step (execClean_of_isExec hl) h, hs.2.step hs.1 hl h⟩)
    ⟨TraceInv.init leader pid, Accounted.init leader pid⟩ (Along.of_forall _ _ fun l hl _ => hls l hl) hrun).2

end Kernel

end OsHw.Kv
