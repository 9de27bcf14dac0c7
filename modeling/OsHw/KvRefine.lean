import OsHw.KvTasks
import Mathlib.Data.List.Induction

/-! The store as a finite map. Abstractly every thread group has one map from keys to values; a locked
section of `write_kv` sets one key of the caller's group, an iteration of the teardown loop forgets the
keys of one bucket, and nothing else changes any map. The kernel refines this machine: what the chains of
a leader hold under a key is what the map of its group has, after every run. -/

namespace OsHw.Kv

/-- One map per thread group, named by its leader. -/
abbrev Stores := TaskPtr → Int32 → Option Int32

/-- What an event does to the maps. -/
def Event.apply : Event → Stores → Stores
  | .wrote leader k v, m => fun x k' => if x = leader ∧ k' = k then some v else m x k'
  | .torn leader i, m => fun x k' => if x = leader ∧ bucketIdx k' = some i then none else m x k'
  | _, m => m

/-- The maps after a trace, all of them empty at the start. -/
def absStore (es : List Event) : Stores := es.foldl (fun m e => e.apply m) fun _ _ => none

/-- The value of the last write to a key in the store of a group. -/
def lastWrite (leader : TaskPtr) (k : Int32) (es : List Event) : Option Int32 :=
  es.foldl (fun last e => match e with
    | .wrote x k' v => if x = leader ∧ k' = k then some v else last
    | _ => last) none

section Traces

variable {es : List Event} {e : Event} {leader : TaskPtr} {k : Int32}

@[simp] theorem absStore_nil : absStore [] leader k = none := rfl

theorem absStore_concat : absStore (es ++ [e]) = e.apply (absStore es) := by
  simp only [absStore, List.foldl_append, List.foldl_cons, List.foldl_nil]

theorem lastWrite_concat : lastWrite leader k (es ++ [e]) = match e with
    | .wrote x k' v => if x = leader ∧ k' = k then some v else lastWrite leader k es
    | _ => lastWrite leader k es := by
  simp only [lastWrite, List.foldl_append, List.foldl_cons, List.foldl_nil]

theorem lastWrite_of_absStore {v : Int32} (h : absStore es leader k = some v) :
    lastWrite leader k es = some v := by
  induction es using List.reverseRecOn with
  | nil => cases h
  | append_singleton es e ih =>
      rw [absStore_concat] at h
      rw [lastWrite_concat]
      cases e with
      | wrote x k' v' =>
          simp only [Event.apply] at h
          by_cases hx : x = leader ∧ k' = k
          · rw [if_pos ⟨hx.1.symm, hx.2.symm⟩] at h
            simpa [hx] using h
          · rw [if_neg fun hn => hx ⟨hn.1.symm, hn.2.symm⟩] at h
            simpa [hx] using ih h
      | torn x i =>
          simp only [Event.apply] at h
          split at h
          · cases h
          · exact ih h
      | silent | ret | kmalloc | read => exact ih h

/-- As long as nothing of a group is torn down, its map holds the last writes. -/
theorem absStore_eq_lastWrite (h : ∀ i, .torn leader i ∉ es) :
    absStore es leader k = lastWrite leader k es := by
  induction es using List.reverseRecOn with
  | nil => rfl
  | append_singleton es e ih =>
      have hes : ∀ i, .torn leader i ∉ es := fun i hi => h i (List.mem_append_left _ hi)
      rw [absStore_concat, lastWrite_concat, ← ih hes]
      cases e with
      | wrote x k' v' => simp only [Event.apply, eq_comm]
      | torn x i =>
          have hx : leader ≠ x := by
            rintro rfl
            exact h i (List.mem_append_right _ List.mem_cons_self)
          simp [Event.apply, hx]
      | silent | ret | kmalloc | read => rfl

theorem wrote_mem_of_lastWrite {v : Int32} (h : lastWrite leader k es = some v) : .wrote leader k v ∈ es := by
  induction es using List.reverseRecOn with
  | nil => cases h
  | append_singleton es e ih =>
      rw [lastWrite_concat] at h
      rw [List.mem_append, List.mem_singleton]
      cases e with
      | wrote x k' v' =>
          by_cases hx : x = leader ∧ k' = k
          · obtain ⟨rfl, rfl⟩ := hx
            simp only [and_self, if_true, Option.some.injEq] at h
            exact .inr (by rw [h])
          · simp only [if_neg hx] at h
            exact .inl (ih h)
      | torn | silent | ret | kmalloc | read => exact .inl (ih h)

theorem absStore_eq_none (h : ∀ k v, .wrote leader k v ∉ es) : absStore es leader k = none := by
  cases hv : absStore es leader k with
  | none => rfl
  | some v => exact absurd (wrote_mem_of_lastWrite (lastWrite_of_absStore hv)) (h k v)

end Traces

namespace Kernel

variable {s s' : Kernel} {x t : TaskPtr} {tx : Task} {b : Bucket} {k v : Int32} {e : Event}

/-! ### What the operations do to the values found -/

/-- Two states whose buckets of a leader have the same nodes with the same contents agree on its map. -/
theorem lookup_congr (h : ∀ i, ∃ l, s.GoodBucket (x, i) l ∧ s'.GoodBucket (x, i) l ∧
    ∀ a ∈ l, s'.pair a = s.pair a) : s'.lookup x k = s.lookup x k := by
  refine lookup_frame (fun i => ?_) (fun i a ha => ?_)
  · obtain ⟨l, hl, hl', hpair⟩ := h i
    exact hl.findKey_frame hl' (fun a ha => by rw [hpair a ha]) k
  · obtain ⟨l, hl, hl', hpair⟩ := h i
    rw [hpair a (hl.findKey_eq_some_iff.mp ha).1]

theorem entries_setFirst {first : Bucket → Option Addr} (h : first b = s.mem.first b) :
    (s.setFirst first).entries b = s.entries b := by
  have hnext : (s.setFirst first).mem.next = s.mem.next := rfl
  show Hlist.Mem.walk _ _ (first b) = Hlist.Mem.walk _ _ (s.mem.first b)
  rw [h]
  exact Hlist.Mem.walk_congr hnext _ _

/-- Changing the heads of other tasks does not change the map of a leader. -/
theorem lookup_setFirst {first : Bucket → Option Addr} (h : ∀ i, first (x, i) = s.mem.first (x, i)) :
    (s.setFirst first).lookup x k = s.lookup x k := by
  refine lookup_frame (fun i => ?_) (fun _ _ _ => rfl)
  rw [findKey, findKey, entries_setFirst (h i)]
  rfl

theorem StoreInv.lookup_of_mem_entries (hs : s.StoreInv) (hx : s.IsLeader x) {i : BucketIdx} {a : Addr}
    (ha : a ∈ s.entries (x, i)) : s.lookup x (s.pair a).key = some (s.pair a).value := by
  obtain ⟨l, hl⟩ := hs.good x hx i
  rw [hl.entries_eq] at ha
  rw [lookup_eq (b := (x, i)) (hl.bucket a ha), hl.findKey_eq_some_iff.mpr ⟨ha, rfl⟩]
  rfl

theorem StoreInv.lookup_kmalloc {a : Addr} (hs : s.StoreInv) (hx : s.IsLeader x) :
    (s.kmalloc a).lookup x k = s.lookup x k := by
  refine lookup_congr fun i => ?_
  obtain ⟨l, hl⟩ := hs.good x hx i
  exact ⟨l, hl, ⟨hl.chain, fun c hc => ⟨List.mem_cons_of_mem _ (hl.allocated c hc).1, (hl.allocated c hc).2⟩,
    hl.bucket, hl.keys⟩, fun _ _ => rfl⟩

/-- Update in place sets the value of one key of one group. -/
theorem StoreInv.lookup_setValue {found : Addr} (hs : s.StoreInv) (hb : s.IsLeader b.1)
    (hk : bucketIdx k = some b.2) (hfind : s.findKey b k = some found) (hx : s.IsLeader x) (k' : Int32) :
    (s.setValue found v).lookup x k' = if x = b.1 ∧ k' = k then some v else s.lookup x k' := by
  obtain ⟨l, hl⟩ := hs.good b.1 hb b.2
  obtain ⟨hmem, hkey⟩ := hl.findKey_eq_some_iff.mp hfind
  -- the keys are as before, so the search finds the same node in every bucket
  have hfind' : ∀ i k', (s.setValue found v).findKey (x, i) k' = s.findKey (x, i) k' := by
    intro i k'
    obtain ⟨l', hl'⟩ := hs.good x hx i
    exact hl'.findKey_frame (hl'.setValue found) (fun c _ => setValue_key found c) k'
  by_cases hxk : x = b.1 ∧ k' = k
  · obtain ⟨rfl, rfl⟩ := hxk
    rw [if_pos ⟨rfl, rfl⟩, lookup_eq hk, hfind' b.2, hfind]
    simp [Kernel.setValue]
  · rw [if_neg hxk]
    refine lookup_frame (fun i => hfind' i k') (fun i c hc => ?_)
    have hcf : c ≠ found := by
      rintro rfl
      obtain ⟨l', hl'⟩ := hs.good x hx i
      obtain ⟨hmem', hkey'⟩ := hl'.findKey_eq_some_iff.mp hc
      have hbx : b = (x, i) := hl.chain.head_eq hl'.chain hmem hmem'
      exact hxk ⟨by rw [hbx], by rw [← hkey', hkey]⟩
    simp only [Kernel.setValue, Function.update_of_ne hcf]

/-- Linking a new pair sets the value of one key of one group. -/
theorem StoreInv.lookup_linkPair {a : Addr} (hs : s.StoreInv) (hb : s.IsLeader b.1)
    (hk : bucketIdx k = some b.2) (hfind : s.findKey b k = none) (halloc : s.Allocated a)
    (hpprev : s.mem.pprev a = none) (hx : s.IsLeader x) (k' : Int32) :
    (s.linkPair b a k v).lookup x k' = if x = b.1 ∧ k' = k then some v else s.lookup x k' := by
  obtain ⟨l, hl⟩ := hs.good b.1 hb b.2
  have hlink := hl.linkPair (v := v) hk hfind halloc hpprev
  have hself : (s.linkPair b a k v).pair a = ⟨k, v⟩ := by simp [Kernel.linkPair]
  have hold : ∀ l' i, s.GoodBucket (x, i) l' → ∀ c ∈ l', (s.linkPair b a k v).pair c = s.pair c := by
    intro l' i hl' c hc
    have hca : c ≠ a := fun he => Hlist.Mem.Linked.pprev_ne_none hl'.chain hc (he ▸ hpprev)
    exact linkPair_pair_of_ne hca
  by_cases hxk : x = b.1 ∧ k' = k
  · obtain ⟨rfl, rfl⟩ := hxk
    rw [if_pos ⟨rfl, rfl⟩, lookup_eq hk,
      (hlink.findKey_eq_some_iff (a := a)).mpr ⟨List.mem_cons_self, by rw [hself]⟩, Option.map_some, hself]
  · rw [if_neg hxk]
    refine lookup_frame (fun i => ?_) (fun i c hc => ?_)
    · by_cases hbi : (x, i) = b
      · subst hbi
        -- the new node is first in the bucket but has another key
        have hkk : k ≠ k' := fun he => hxk ⟨rfl, he.symm⟩
        ext c
        rw [hlink.findKey_eq_some_iff, hl.findKey_eq_some_iff, List.mem_cons]
        constructor
        · rintro ⟨rfl | hc, hck⟩
          · rw [hself] at hck
            exact absurd hck hkk
          · rw [hold l i hl c hc] at hck
            exact ⟨hc, hck⟩
        · rintro ⟨hc, hck⟩
          exact ⟨.inr hc, by rw [hold l i hl c hc, hck]⟩
      · obtain ⟨l', hl'⟩ := hs.good x hx i
        exact hl'.findKey_frame (hl'.linkPair_of_ne hl hbi hpprev) (fun c hc => by rw [hold l' i hl' c hc]) k'
    · obtain ⟨l', hl'⟩ := hs.good x hx i
      rw [hold l' i hl' c (hl'.findKey_eq_some_iff.mp hc).1]

/-- Emptying a bucket forgets its keys and no others. -/
theorem StoreInv.lookup_drain (hs : s.StoreInv) (hb : s.IsLeader b.1) (hx : s.IsLeader x) :
    (s.drainBucket b).lookup x k =
      if x = b.1 ∧ bucketIdx k = some b.2 then none else s.lookup x k := by
  obtain ⟨l, hl⟩ := hs.good b.1 hb b.2
  have h := hl.drained
  by_cases hxk : x = b.1 ∧ bucketIdx k = some b.2
  · obtain ⟨rfl, hk⟩ := hxk
    rw [if_pos ⟨rfl, hk⟩, lookup_eq hk, h.goodBucket_self.findKey_eq_none_iff.mpr (by simp)]
    rfl
  · rw [if_neg hxk, lookup, lookup]
    cases hk : bucketIdx k with
    | none => rfl
    | some i =>
        have hbi : (x, i) ≠ b := by
          rintro rfl
          exact hxk ⟨rfl, hk⟩
        obtain ⟨l', hl'⟩ := hs.good x hx i
        rw [Option.bind_some, Option.bind_some, h.pair,
          hl'.findKey_frame (h.goodBucket_of_ne hl hl' hbi) fun c _ => by rw [h.pair]]

/-- **Simulation.** A step does to the map of every group that exists what its event says. -/
theorem Inv.step_lookup (hs : s.Inv) {l : Label} (h : s.step l = some (s', e)) (hx : s.IsLeader x) (k : Int32) :
    s'.lookup x k = e.apply s.lookup x k := by
  cases l with
  | writeAlloc t k₀ v newKv =>
      obtain ⟨tx, b, -, -, -, ⟨-, rfl, rfl⟩ | ⟨a, -, -, rfl, rfl⟩⟩ := writeAlloc_cases h
      · rfl
      · exact hs.store.lookup_kmalloc hx
  | writeLock t k₀ v =>
      obtain ⟨tx, b, a, ht, hpc, rfl, hcase⟩ := writeLock_cases h
      obtain ⟨hb, hk⟩ := hs.store.locking t tx b k₀ v a ht hpc
      have hlead : s.IsLeader b.1 := hb ▸ hs.tasks.isLeader ht (by simp [hpc])
      obtain ⟨halloc, hpprev⟩ := hs.store.held t a ⟨tx, ht, by rw [hpc]; rfl⟩
      rcases hcase with ⟨found, hfind, rfl⟩ | ⟨hfind, rfl⟩
      · exact hs.store.lookup_setValue hlead hk hfind hx k
      · exact hs.store.lookup_linkPair hlead hk hfind halloc hpprev hx k
  | writeFree t =>
      obtain ⟨tx, a, -, -, rfl, rfl⟩ := writeFree_cases h
      rfl
  | readKv t k₀ =>
      obtain ⟨tx, b, -, -, -, rfl, rfl⟩ := readStep_cases h
      rfl
  | dupTask t p c =>
      obtain ⟨tx, -, -, hp, rfl, rfl⟩ := dupTask_cases h
      have hxp : x ≠ p := hx.ne_of_none hp
      show (s.dupHeads t p).lookup x k = s.lookup x k
      exact lookup_setFirst fun i => if_neg hxp
  | forkInit t pid =>
      obtain ⟨tx, p, c, px, -, -, hp, hppc, -, rfl, rfl⟩ := forkInit_cases h
      have hxp : x ≠ p := fun he => hs.not_isLeader_embryo hp hppc (he ▸ hx)
      show ((s.setTask p (childTask tx p pid c)).kvStoreInit p (childTask tx p pid c)).lookup x k = s.lookup x k
      rw [kvStoreInit_setTask]
      show (s.kvStoreInit p (childTask tx p pid c)).lookup x k = s.lookup x k
      unfold kvStoreInit
      split
      · rfl
      · exact lookup_setFirst fun i => if_neg hxp
  | forkFail t err callee =>
      obtain ⟨tx, -, rfl, ⟨-, -, rfl⟩ | ⟨p, px, -, rfl, -⟩⟩ := forkFail_cases h <;> rfl
  | forkDone t =>
      obtain ⟨tx, p, px, -, -, -, -, rfl, rfl⟩ := forkDone_cases h
      rfl
  | doExit t =>
      obtain ⟨tx, -, -, rfl, rfl⟩ := doExit_cases h
      rfl
  | exitBucket t =>
      obtain ⟨tx, i, ht, hpc, rfl, rfl⟩ := exitBucket_cases h
      exact hs.store.lookup_drain (b := (t, i)) ⟨tx, ht, hs.tasks.exiting t tx i ht hpc⟩ hx
  | execve t =>
      obtain ⟨tx, -, -, rfl, rfl⟩ := execve_cases h
      rfl
  | deThread t =>
      obtain ⟨tx, -, -, -, rfl, ⟨-, rfl⟩ | ⟨-, leader, -, rfl⟩⟩ := deThread_cases h <;> rfl
  | execFail t =>
      obtain ⟨tx, -, -, rfl, rfl⟩ := execFail_cases h
      rfl

/-! ### The refinement over whole runs -/

/-- The kernel after a trace: its stores are the maps of the trace, only tasks that are or were leaders
have been written to, and only leaders that are gone have lost anything. -/
structure TraceInv (es : List Event) (s : Kernel) : Prop where
  inv : s.Inv
  refines : ∀ x, s.IsLeader x → ∀ k, s.lookup x k = absStore es x k
  wrote : ∀ x k v, .wrote x k v ∈ es →
    ∃ tx, s.task x = some tx ∧ (∀ b, tx.pc ≠ .embryo b) ∧ (tx.groupLeader = x ∨ tx.pc = .dead)
  torn : ∀ x i, .torn x i ∈ es → ∃ tx, s.task x = some tx ∧ tx.pc.Gone

theorem lookup_eq_none_of_first (h : ∀ i, s.mem.first (x, i) = none) : s.lookup x k = none := by
  unfold lookup
  cases bucketIdx k with
  | none => rfl
  | some i =>
      have hchain : s.GoodBucket (x, i) [] := ⟨Hlist.Mem.chain_nil_iff.mpr (h i), by simp, by simp, by simp⟩
      rw [Option.bind_some, hchain.findKey_eq_none_iff.mpr (by simp)]
      rfl

/-- A write goes to a leader, and only the loop of `kv_store_exit` tears anything down. -/
theorem Inv.step_event (hs : s.Inv) {l : Label} (h : s.step l = some (s', e)) :
    (∀ x k v, e = .wrote x k v → ∃ tx, s.task x = some tx ∧ (∀ b, tx.pc ≠ .embryo b) ∧ tx.groupLeader = x) ∧
      ∀ x i, e = .torn x i → l = .exitBucket x ∧ ∃ tx, s.task x = some tx ∧ tx.pc = .exiting i := by
  cases l with
  | writeLock t k v =>
      obtain ⟨tx, b, a, ht, hpc, rfl, -⟩ := writeLock_cases h
      refine ⟨fun x k' v' he => ?_, fun x i he => (by cases he)⟩
      cases he
      obtain ⟨lx, hl, hlead, -, hemb⟩ := hs.tasks.leader_not_embryo ht (by simp [hpc]) (by simp [hpc])
      rw [(hs.store.locking t tx b k v a ht hpc).1]
      exact ⟨lx, hl, hemb, hlead⟩
  | exitBucket t =>
      obtain ⟨tx, i, ht, hpc, rfl, -⟩ := exitBucket_cases h
      refine ⟨fun x k v he => (by cases he), fun x j he => ?_⟩
      cases he
      exact ⟨rfl, tx, ht, hpc⟩
  | writeAlloc t k v newKv =>
      obtain ⟨tx, b, -, -, -, ⟨-, -, rfl⟩ | ⟨a, -, -, rfl, -⟩⟩ := writeAlloc_cases h <;> simp
  | writeFree t =>
      obtain ⟨tx, a, -, -, rfl, -⟩ := writeFree_cases h
      simp
  | readKv t k =>
      obtain ⟨tx, b, -, -, -, -, rfl⟩ := readStep_cases h
      simp
  | dupTask t p c =>
      obtain ⟨tx, -, -, -, rfl, -⟩ := dupTask_cases h
      simp
  | forkInit t pid =>
      obtain ⟨tx, p, c, px, -, -, -, -, -, rfl, -⟩ := forkInit_cases h
      simp
  | forkFail t err callee =>
      obtain ⟨tx, -, rfl, -⟩ := forkFail_cases h
      simp
  | forkDone t =>
      obtain ⟨tx, p, px, -, -, -, -, rfl, -⟩ := forkDone_cases h
      simp
  | doExit t =>
      obtain ⟨tx, -, -, rfl, -⟩ := doExit_cases h
      simp
  | execve t =>
      obtain ⟨tx, -, -, rfl, -⟩ := execve_cases h
      simp
  | deThread t =>
      obtain ⟨tx, -, -, -, rfl, -⟩ := deThread_cases h
      simp
  | execFail t =>
      obtain ⟨tx, -, -, rfl, -⟩ := execFail_cases h
      simp

theorem TraceInv.init (leader : TaskPtr) (pid : Pid) : (Kernel.init leader pid).TraceInv [] where
  inv := Inv.init leader pid
  refines x _ k := by
    rw [absStore_nil]
    exact lookup_eq_none_of_first fun _ => rfl
  wrote _ _ _ h := by cases h
  torn _ _ h := by cases h

theorem TraceInv.step {es : List Event} (hs : s.TraceInv es) {l : Label} (hclean : s.ExecClean l)
    (h : s.step l = some (s', e)) : s'.TraceInv (es ++ [e]) := by
  obtain ⟨hwrote, htorn⟩ := hs.inv.step_event h
  -- what a task that is neither under construction nor a plain thread keeps
  have hkeep : ∀ x tx, s.task x = some tx → (∀ b, tx.pc ≠ .embryo b) → (tx.groupLeader = x ∨ tx.pc = .dead) →
      ∃ tx', s'.task x = some tx' ∧ (∀ b, tx'.pc ≠ .embryo b) ∧ (tx'.groupLeader = x ∨ tx'.pc = .dead) := by
    intro x tx hx hemb hlead
    obtain ⟨tx', hx', hk⟩ := hs.inv.step_task h hx hemb
    refine ⟨tx', hx', hk.embryo, ?_⟩
    rcases hlead with hlead | hdead
    · rcases hk.leader with hl | ⟨-, -, hl⟩ | ⟨-, hl⟩
      · exact .inl (hl.trans hlead)
      · exact .inl hl
      · exact .inr (hk.dead hl)
    · exact .inr (hk.dead hdead)
  refine ⟨hs.inv.step hclean h, fun x hx' k => ?_, fun x k v hmem => ?_, fun x i hmem => ?_⟩
  · by_cases hx : s.IsLeader x
    · rw [hs.inv.step_lookup h hx k, absStore_concat]
      have hfun : s.lookup x = absStore es x := funext (hs.refines x hx)
      cases e <;> simp only [Event.apply, hfun]
    · obtain ⟨rfl, hfirst, htask⟩ := hs.inv.step_newLeader hclean h hx' hx
      rw [lookup_eq_none_of_first hfirst, absStore_concat]
      refine (absStore_eq_none fun k v hmem => ?_).symm
      obtain ⟨tx, htx, hemb, hlead⟩ := hs.wrote x k v hmem
      rcases htask tx htx with ⟨b, hb⟩ | hb
      · exact hemb b hb
      · rcases hlead with hlead | hdead
        · exact hx ⟨tx, htx, hlead⟩
        · rw [hb] at hdead
          cases hdead
  · rcases List.mem_append.mp hmem with hmem | hmem
    · obtain ⟨tx, htx, hemb, hlead⟩ := hs.wrote x k v hmem
      exact hkeep x tx htx hemb hlead
    · obtain ⟨tx, htx, hemb, hlead⟩ := hwrote x k v (List.mem_singleton.mp hmem).symm
      exact hkeep x tx htx hemb (.inl hlead)
  · obtain ⟨tx, htx, hemb, hgone⟩ : ∃ tx, s.task x = some tx ∧ (∀ b, tx.pc ≠ .embryo b) ∧ tx.pc.Gone := by
      rcases List.mem_append.mp hmem with hmem | hmem
      · obtain ⟨tx, htx, hgone⟩ := hs.torn x i hmem
        refine ⟨tx, htx, fun b hb => ?_, hgone⟩
        rcases hgone with hd | ⟨j, hj⟩
        · rw [hb] at hd
          cases hd
        · rw [hb] at hj
          cases hj
      · obtain ⟨-, tx, htx, hpc⟩ := htorn x i (List.mem_singleton.mp hmem).symm
        exact ⟨tx, htx, by simp [hpc], .inr ⟨i, hpc⟩⟩
    obtain ⟨tx', hx', hk⟩ := hs.inv.step_task h htx hemb
    exact ⟨tx', hx', hk.gone hgone⟩

/-- **Refinement.** After every run whose promotions are clean the stores are the maps of its trace. -/
theorem TraceInv.run {leader : TaskPtr} {pid : Pid} {ls : List Label} {es : List Event}
    (hclean : Along Kernel.step ExecClean (Kernel.init leader pid) ls)
    (h : OsHw.run Kernel.step (Kernel.init leader pid) ls = some (s, es)) : s.TraceInv es :=
  run_invariant TraceInv ExecClean (fun _ _ _ _ _ hs hclean hstep => TraceInv.step hs hclean hstep)
    (TraceInv.init leader pid) hclean h

theorem execClean_of_isExec {l : Label} (hl : l.isExec = false) : s.ExecClean l := by
  cases l with
  | deThread t => cases hl
  | _ => trivial

/-- Runs without `execve` promote nobody. -/
theorem along_execClean {ls : List Label} (hls : ∀ l ∈ ls, l.isExec = false) :
    Along Kernel.step ExecClean s ls :=
  Along.of_forall s ls fun l hl _ => execClean_of_isExec (hls l hl)

end Kernel

end OsHw.Kv
