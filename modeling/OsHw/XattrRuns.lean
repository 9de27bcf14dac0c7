import OsHw.Run
import OsHw.XattrWriters
import Mathlib.Algebra.BigOperators.Group.Finset.Piecewise

/-! Runs of the file system: any number of inodes are read and written at once, and their steps come in any order. A
mounted file system is consistent when no call is under way, and what a step keeps of that holds in every state it can
reach. The counts of the blocks are exact unless a reference was lost to an error, each inode is seen by its own
writers alone, and the calls of one inode act on its attributes as on a map. -/

namespace OsHw.Xattr.Store

variable {ι : Type} {blockSize : Nat}

/-- The writer that takes the step. -/
def Label.writer : Label ι → Option ι
  | .begin n _ _ => some n
  | .lock n _ _ _ => some n
  | .clone n _ => some n
  | .insert n _ _ => some n
  | .reuse n _ _ _ => some n
  | .link n => some n
  | .release n _ => some n
  | .finish n => some n
  | .get _ _ _ _ => none
  | .shrink _ => none

/-- The step loses a reference to an error. -/
def Label.Leaks : Label ι → Prop
  | .insert _ _ (.ok (_, dirty)) => dirty ≠ 0
  | .reuse _ _ _ dirty => dirty ≠ 0
  | .release _ access => access ≠ 0
  | _ => False

/-- The step meets no error that would leave a call half done. -/
def Label.Clean : Label ι → Prop
  | .lock _ access dirty _ => access = 0 ∧ dirty = 0
  | .clone _ nomem => nomem = false
  | .insert _ _ alloc => ∃ b, alloc = .ok (b, 0)
  | .reuse _ quota access dirty => quota = 0 ∧ access = 0 ∧ dirty = 0
  | _ => True

/-- The invariant. -/
structure Inv [Fintype ι] (blockSize : Nat) (s : State ι) : Prop where
  sound : Sound blockSize s
  idle : ∀ n, s.phase n = .idle → ∃ bd bs, Contents blockSize s n bd bs
  writing : ∀ n, s.phase n ≠ .idle → ∃ c, Doing blockSize s n c

/-- What the writer has before the step: the contents, when the step begins the call. -/
def Before (blockSize : Nat) (s : State ι) (n : ι) (c : Call) : Label ι → Prop
  | .begin _ req _ => s.phase n = .idle ∧ c.info = req.info ∧ Contents blockSize s n c.body c.block
  | _ => Doing blockSize s n c

section Step

variable {s s' : State ι} {n : ι} {l : Label ι} {e : Event ι}

/-- A step that is no writer's leaves everything but the cache. -/
structure Quiet [Fintype ι] (blockSize : Nat) (s s' : State ι) : Prop where
  inode : s'.inode = s.inode
  phase : s'.phase = s.phase
  block : s'.block = s.block
  sound : Sound blockSize s'

theorem Sound.quiet [Fintype ι] (h : Sound blockSize s) (hinode : s'.inode = s.inode) (hphase : s'.phase = s.phase)
    (hblock : s'.block = s.block) (hcached : ∀ b, CachedAt (s.block b) (s'.cache b))
    (husers : ∀ b, s'.users b = s.users b) : Quiet blockSize s s' := by
  have hrefs : s'.refs = s.refs := by
    funext n
    rw [State.refs_eq, State.refs_eq, hinode, hphase]
  have hheld : s'.held = s.held := by
    funext n
    rw [State.held_eq, State.held_eq, hphase]
  have hrefcount : s'.refcount = s.refcount := by
    funext b
    rw [State.refcount, State.refcount, hblock]
  refine ⟨hinode, hphase, hblock, ?_, ?_, ?_, ?_, ?_⟩
  · rw [hblock]
    exact h.zero
  · rw [hblock]
    exact h.blocks
  · rw [hrefs, hrefcount]
    exact h.counted
  · rw [hblock]
    exact hcached
  · rw [hheld]
    intro b
    rw [husers]
    exact h.held b

/-- An entry is added for a block that has none. -/
theorem Sound.quiet_cacheInsert [Fintype ι] (h : Sound blockSize s) {b : Nat} {m : Mem} (hm : s.block b = some m) :
    Quiet blockSize s (s.cacheInsert b m) := by
  obtain ⟨hinode, hphase, hblock⟩ := State.cacheInsert_frame s b m
  refine h.quiet hinode hphase hblock (fun b' => ?_) fun b' => users_cacheInsert s b b' m
  have hcached := h.cached b'
  by_cases hb : b' = b
  · subst hb
    rw [hm] at hcached ⊢
    exact cachedAt_cacheInsert hcached
  · rw [State.cacheInsert]
    split
    · exact hcached
    · rw [State.setCache]
      show CachedAt (s.block b') (Function.update s.cache b _ b')
      rw [Function.update_of_ne hb]
      exact hcached

/-- An entry that nobody holds is dropped. -/
theorem Sound.quiet_drop [Fintype ι] (h : Sound blockSize s) {b : Nat} (hfree : ¬s.InUse b) :
    Quiet blockSize s (s.setCache b none) := by
  refine h.quiet rfl rfl rfl (fun b' => ?_) fun b' => ?_
  · show CachedAt (s.block b') (Function.update s.cache b none b')
    by_cases hb : b' = b
    · rw [hb, Function.update_self]
      exact fun e he => absurd he.symm (Option.some_ne_none e)
    · rw [Function.update_of_ne hb]
      exact h.cached b'
  · rw [users_setCache]
    split
    next hb =>
      rw [hb, users_eq_zero hfree]
      rfl
    next => rfl

variable [Fintype ι] [DecidableEq ι]

omit [DecidableEq ι] in
theorem stepGet_quiet (h : Sound blockSize s) {nameIndex : Nat} {name : Bytes} {buffer : Option Nat}
    (hstep : s.stepGet blockSize n nameIndex name buffer = some (s', e)) :
    Quiet blockSize s s' ∧ e = .got n
      (ext4XattrGet blockSize (s.block (s.inode n).fileAcl) (s.inode n) nameIndex name buffer) := by
  have hstay : Quiet blockSize s s := h.quiet rfl rfl rfl h.cached fun _ => rfl
  rw [State.stepGet] at hstep
  cases hm : s.block (s.inode n).fileAcl with
  | none =>
      rw [hm] at hstep
      cases hstep
      exact ⟨hstay, rfl⟩
  | some m =>
      rw [hm] at hstep
      dsimp only at hstep
      split at hstep
      · cases hstep
        exact ⟨h.quiet_cacheInsert hm, rfl⟩
      · cases hstep
        exact ⟨hstay, rfl⟩

/-- **What a step does.** Either it is no writer's, or it moves one inode, and the call of that inode proceeds. -/
theorem step_spec (h : Sound blockSize s) (hsize : headerSize + 4 ≤ blockSize ∧ blockSize ≤ 65536)
    (hstep : State.step blockSize s l = some (s', e)) :
    (l.writer = none ∧ Quiet blockSize s s' ∧ ∀ n r, e ≠ .returned n r) ∨
      ∃ n, l.writer = some n ∧ ∀ c, Before blockSize s n c l →
        (∃ lost, Moved blockSize n lost s s' ∧ (lost ≠ 0 → l.Leaks)) ∧ Proceeds blockSize s' n c l.Clean e := by
  cases l with
  | begin n req fault =>
      refine Or.inr ⟨n, rfl, ?_⟩
      rintro ⟨info, bd, bs⟩ ⟨hidle, hinfo, hcontents⟩
      cases hinfo
      rw [State.step, hidle] at hstep
      obtain ⟨hmoved, hproceeds⟩ := stepBegin_spec h hcontents hidle hstep
      exact ⟨⟨0, hmoved, fun hne => absurd rfl hne⟩, hproceeds⟩
  | lock n access dirty scanned =>
      refine Or.inr ⟨n, rfl, fun c hdoing => ?_⟩
      rw [State.step] at hstep
      split at hstep
      next job hph =>
        obtain ⟨hmoved, hproceeds⟩ := stepLock_spec h hsize hdoing hph hstep
        exact ⟨⟨0, hmoved, fun hne => absurd rfl hne⟩, hproceeds⟩
      next => cases hstep
  | clone n nomem =>
      refine Or.inr ⟨n, rfl, fun c hdoing => ?_⟩
      rw [State.step] at hstep
      split at hstep
      next job hph =>
        obtain ⟨hmoved, hproceeds⟩ := stepClone_spec h hdoing hph hstep
        exact ⟨⟨0, hmoved, fun hne => absurd rfl hne⟩, hproceeds⟩
      next => cases hstep
  | insert n hit alloc =>
      refine Or.inr ⟨n, rfl, fun c hdoing => ?_⟩
      rw [State.step] at hstep
      split at hstep
      next job base hph =>
        obtain ⟨lost, hmoved, hleak, hproceeds⟩ := stepInsert_spec h hdoing hph hstep
        refine ⟨⟨lost, hmoved, fun hne => ?_⟩, hproceeds⟩
        obtain ⟨b, dirty, rfl, hdirty⟩ := hleak hne
        exact hdirty
      next => cases hstep
  | reuse n quota access dirty =>
      refine Or.inr ⟨n, rfl, fun c hdoing => ?_⟩
      rw [State.step] at hstep
      split at hstep
      next job base b hph =>
        obtain ⟨lost, hmoved, hleak, hproceeds⟩ := stepReuse_spec h hdoing hph hstep
        exact ⟨⟨lost, hmoved, hleak⟩, hproceeds⟩
      next => cases hstep
  | link n =>
      refine Or.inr ⟨n, rfl, fun c hdoing => ?_⟩
      rw [State.step] at hstep
      split at hstep
      next job new hph =>
        obtain ⟨hmoved, hproceeds⟩ := stepLink_spec h hdoing hph hstep
        exact ⟨⟨0, hmoved, fun hne => absurd rfl hne⟩, hproceeds⟩
      next => cases hstep
  | release n access =>
      refine Or.inr ⟨n, rfl, fun c hdoing => ?_⟩
      rw [State.step] at hstep
      split at hstep
      next job old hph =>
        obtain ⟨lost, hmoved, hleak, hproceeds⟩ := stepRelease_spec h hdoing hph hstep
        exact ⟨⟨lost, hmoved, hleak⟩, hproceeds⟩
      next => cases hstep
  | finish n =>
      refine Or.inr ⟨n, rfl, fun c hdoing => ?_⟩
      rw [State.step] at hstep
      split at hstep
      next job hph =>
        obtain ⟨hmoved, hproceeds⟩ := stepFinish_spec h hdoing hph hstep
        exact ⟨⟨0, hmoved, fun hne => absurd rfl hne⟩, hproceeds⟩
      next => cases hstep
  | get n nameIndex name buffer =>
      rw [State.step] at hstep
      split at hstep
      next =>
        obtain ⟨hquiet, rfl⟩ := stepGet_quiet h hstep
        exact Or.inl ⟨rfl, hquiet, fun _ _ => nofun⟩
      next => cases hstep
  | shrink b =>
      rw [State.step] at hstep
      split at hstep
      next => cases hstep
      next hfree =>
        cases hstep
        exact Or.inl ⟨rfl, h.quiet_drop hfree, fun _ _ => nofun⟩

/-- A step of a writer starts from what is known of its call. -/
theorem Inv.exists_before (h : Inv blockSize s) (hwriter : l.writer = some n)
    (hstep : State.step blockSize s l = some (s', e)) : ∃ c, Before blockSize s n c l := by
  have hbusy : ∀ {ph}, s.phase n = ph → ph ≠ .idle → ∃ c, Doing blockSize s n c := by
    rintro ph rfl hne
    exact h.writing n hne
  cases l with
  | begin k req fault =>
      cases hwriter
      rw [State.step] at hstep
      split at hstep
      next hidle =>
        obtain ⟨bd, bs, hcontents⟩ := h.idle n hidle
        exact ⟨⟨req.info, bd, bs⟩, hidle, rfl, hcontents⟩
      next => cases hstep
  | get => cases hwriter
  | shrink => cases hwriter
  | _ =>
      cases hwriter
      rw [State.step] at hstep
      split at hstep
      next hph => exact hbusy hph nofun
      next => cases hstep

/-- **The others.** A step that is not the inode's own leaves it, and the blocks that it looks at. -/
theorem step_others (h : Inv blockSize s) (hsize : headerSize + 4 ≤ blockSize ∧ blockSize ≤ 65536)
    (hstep : State.step blockSize s l = some (s', e)) {k : ι} (hk : l.writer ≠ some k) :
    s'.inode k = s.inode k ∧ s'.phase k = s.phase k ∧ KeptFor blockSize s s' k ∧ ∀ r, e ≠ .returned k r := by
  obtain ⟨-, hquiet, hevent⟩ | ⟨n, hwriter, hspec⟩ := step_spec h.sound hsize hstep
  · refine ⟨congrFun hquiet.inode k, congrFun hquiet.phase k, fun b _ as has => ?_, hevent k⟩
    rw [State.Has, hquiet.block]
    exact has
  · obtain ⟨c, hbefore⟩ := h.exists_before hwriter hstep
    obtain ⟨⟨lost, hmoved, -⟩, hproceeds⟩ := hspec c hbefore
    have hne : k ≠ n := fun heq => hk (by rw [hwriter, heq])
    refine ⟨hmoved.inode k hne, hmoved.phase k hne, hmoved.keptFor hne, ?_⟩
    rintro r rfl
    exact hne hproceeds.1

/-- **The invariant is kept** by every step. -/
theorem step_inv (h : Inv blockSize s) (hsize : headerSize + 4 ≤ blockSize ∧ blockSize ≤ 65536)
    (hstep : State.step blockSize s l = some (s', e)) : Inv blockSize s' := by
  have hothers := fun {k : ι} => step_others (k := k) h hsize hstep
  have hidle : ∀ k, l.writer ≠ some k → s'.phase k = .idle → ∃ bd bs, Contents blockSize s' k bd bs := by
    intro k hk hph
    obtain ⟨hinode, hphase, hkept, -⟩ := hothers hk
    obtain ⟨bd, bs, hcontents⟩ := h.idle k (hphase.symm.trans hph)
    exact ⟨bd, bs, hcontents.kept hinode hkept⟩
  have hwriting : ∀ k, l.writer ≠ some k → s'.phase k ≠ .idle → ∃ c, Doing blockSize s' k c := by
    intro k hk hph
    obtain ⟨hinode, hphase, hkept, -⟩ := hothers hk
    rw [hphase] at hph
    obtain ⟨c, hdoing⟩ := h.writing k hph
    exact ⟨c, hdoing.kept hinode hphase hkept⟩
  obtain ⟨hwriter, hquiet, -⟩ | ⟨n, hwriter, hspec⟩ := step_spec h.sound hsize hstep
  · have hnone : ∀ k, l.writer ≠ some k := fun k => by
      rw [hwriter]
      exact nofun
    exact ⟨hquiet.sound, fun k => hidle k (hnone k), fun k => hwriting k (hnone k)⟩
  · obtain ⟨c, hbefore⟩ := h.exists_before hwriter hstep
    obtain ⟨⟨lost, hmoved, -⟩, hproceeds⟩ := hspec c hbefore
    refine ⟨hmoved.sound, fun k hph => ?_, fun k hph => ?_⟩
    · by_cases hk : l.writer = some k
      · obtain rfl : k = n := Option.some.inj (hk.symm.trans hwriter)
        cases e with
        | silent =>
            obtain ⟨job, tgt, hjob, -⟩ := hproceeds
            rw [hph] at hjob
            cases hjob
        | returned k' r =>
            obtain ⟨-, -, bd, bs, hcontents, -⟩ := hproceeds
            exact ⟨bd, bs, hcontents⟩
        | got => exact hproceeds.elim
      · exact hidle k hk hph
    · by_cases hk : l.writer = some k
      · obtain rfl : k = n := Option.some.inj (hk.symm.trans hwriter)
        cases e with
        | silent => exact ⟨c, hproceeds⟩
        | returned k' r =>
            obtain ⟨-, hidle', -⟩ := hproceeds
            exact absurd hidle' hph
        | got => exact hproceeds.elim
      · exact hwriting k hk hph

/-- **No reference is lost** but to the errors that lose one. -/
theorem step_exact (h : Inv blockSize s) (hsize : headerSize + 4 ≤ blockSize ∧ blockSize ≤ 65536)
    (hstep : State.step blockSize s l = some (s', e)) (hleak : ¬l.Leaks) (hexact : RefCount.Exact s.refs s.refcount) :
    RefCount.Exact s'.refs s'.refcount := by
  obtain ⟨-, hquiet, -⟩ | ⟨n, hwriter, hspec⟩ := step_spec h.sound hsize hstep
  · have hrefs : s'.refs = s.refs := by
      funext n
      rw [State.refs_eq, State.refs_eq, hquiet.inode, hquiet.phase]
    have hrefcount : s'.refcount = s.refcount := by
      funext b
      rw [State.refcount, State.refcount, hquiet.block]
    rw [hrefs, hrefcount]
    exact hexact
  · obtain ⟨c, hbefore⟩ := h.exists_before hwriter hstep
    obtain ⟨⟨lost, hmoved, hlost⟩, -⟩ := hspec c hbefore
    have hzero : lost = 0 := not_not.mp fun hne => hleak (hlost hne)
    have hboth := hmoved.exact hzero
    have hrefs : ∀ k, k ≠ n → s'.refs k = s.refs k := fun k hk => by
      rw [State.refs_eq, State.refs_eq, hmoved.inode k hk, hmoved.phase k hk]
    apply hexact.moves ⟨hrefs, fun b => ?_⟩
    · intro b
      exact Nat.le_of_eq (hboth b)
    · exact Nat.le_of_eq (hboth b).symm

end Step

section Runs

variable [Fintype ι] [DecidableEq ι] {s t : State ι} {n : ι} {ls : List (Label ι)} {os : List (Event ι)}

/-- The number of inodes that name a block. -/
def State.sharers (s : State ι) (b : Nat) : Nat := (Finset.univ.filter fun n => (s.inode n).fileAcl = b).card

/-- A file system that has just been mounted: every inode holds attributes, each name once, every block counts the
inodes that name it, and nothing is cached. -/
structure Consistent (blockSize : Nat) (s : State ι) : Prop where
  idle : ∀ n, s.phase n = .idle
  inodes : ∀ n, ∃ bd bs, Contents blockSize s n bd bs ∧ Once bd bs
  zero : s.block 0 = none
  blocks : ∀ b m, s.block b = some m → ∃ as, BlockHolds blockSize m as
  counted : ∀ b m, s.block b = some m → hRefcount m = s.sharers b
  cached : ∀ b, s.cache b = none

/-- Inodes without attributes and without room for them. -/
def State.bare : State ι := ⟨fun _ => ⟨0, 0, fun _ => 0, false, 0⟩, fun _ => .idle, fun _ => none, fun _ => none⟩

omit [DecidableEq ι] in
theorem consistent_bare : Consistent 1024 (State.bare : State ι) where
  idle _ := rfl
  inodes _ := ⟨[], [], ⟨⟨nofun, fun _ => rfl, fun _ => rfl, nofun⟩, Or.inl ⟨rfl, rfl⟩⟩, fun _ => Or.inl rfl⟩
  zero := rfl
  blocks _ _ h := by cases h
  counted _ _ h := by cases h
  cached _ := rfl

omit [DecidableEq ι] in
/-- Without a call under way, what refers to a block are the inodes that name it. -/
theorem sum_refs (hidle : ∀ n, s.phase n = .idle) {b : Nat} (hb : b ≠ 0) :
    ∑ n, s.refs n b = s.sharers b := by
  rw [State.sharers, Finset.card_filter]
  apply Finset.sum_congr rfl
  intro n _
  have hzero : ¬0 = b := Ne.symm hb
  rw [State.refs, hidle n, refsOf]
  simp only [Phase.second, hb, hzero, ne_eq, not_false_eq_true, or_false, true_and]

omit [DecidableEq ι] in
theorem Consistent.exact (h : Consistent blockSize s) : RefCount.Exact s.refs s.refcount := by
  intro b
  by_cases hb : b = 0
  · rw [hb, State.refcount, h.zero]
    exact Finset.sum_eq_zero fun n _ => rfl
  · rw [sum_refs h.idle hb, State.refcount]
    cases hm : s.block b with
    | some m => exact (h.counted b m hm).symm
    | none =>
        apply Finset.card_eq_zero.mpr
        rw [Finset.filter_eq_empty_iff]
        rintro n - rfl
        obtain ⟨bd, bs, ⟨-, hhas⟩, -⟩ := h.inodes n
        obtain ⟨m, hm', -⟩ := hhas.exists_block hb
        rw [hm] at hm'
        exact absurd hm'.symm (Option.some_ne_none m)

omit [DecidableEq ι] in
theorem Consistent.inv (h : Consistent blockSize s) : Inv blockSize s := by
  refine ⟨⟨h.zero, h.blocks, h.exact.covered, fun b e he => ?_, fun b => ?_⟩, fun n _ => ?_, fun n hne => ?_⟩
  · rw [h.cached b] at he
    exact absurd he.symm (Option.some_ne_none e)
  · rw [State.users, h.cached b]
    apply Finset.sum_eq_zero
    intro n _
    rw [State.held, h.idle n]
    rfl
  · obtain ⟨bd, bs, hcontents, -⟩ := h.inodes n
    exact ⟨bd, bs, hcontents⟩
  · exact absurd (h.idle n) hne

theorem run_inv (h : Inv blockSize s) (hsize : headerSize + 4 ≤ blockSize ∧ blockSize ≤ 65536)
    (hrun : run (State.step blockSize) s ls = some (t, os)) : Inv blockSize t :=
  run_invariant (fun _ => Inv blockSize) (fun _ _ => True) (fun _ _ _ _ _ h _ hstep => step_inv h hsize hstep) h
    (Along.of_forall s ls fun _ _ _ => trivial) hrun

/-- The states that a mounted file system can come to. -/
def Reachable (blockSize : Nat) (s : State ι) : Prop :=
  ∃ s₀ ls os, Consistent blockSize s₀ ∧ run (State.step blockSize) s₀ ls = some (s, os)

theorem Reachable.inv (h : Reachable blockSize s) (hsize : headerSize + 4 ≤ blockSize ∧ blockSize ≤ 65536) :
    Inv blockSize s := by
  obtain ⟨s₀, ls, os, hconsistent, hrun⟩ := h
  exact run_inv hconsistent.inv hsize hrun

omit [DecidableEq ι] [Fintype ι] in
/-- An inode refers to its block. -/
theorem refs_pos_of_acl {b : Nat} (hb : b ≠ 0) (hacl : (s.inode n).fileAcl = b) : 1 ≤ s.refs n b :=
  Nat.le_of_eq (if_pos ⟨hb, Or.inl hacl⟩).symm

omit [DecidableEq ι] in
theorem card_le_refcount (h : Sound blockSize s) {b : Nat} (hb : b ≠ 0) :
    s.sharers b ≤ s.refcount b := by
  rw [State.sharers, Finset.card_filter]
  calc ∑ n, (if (s.inode n).fileAcl = b then 1 else 0) ≤ ∑ n, s.refs n b := by
        apply Finset.sum_le_sum
        intro n _
        split
        next hacl => exact refs_pos_of_acl hb hacl
        next => exact Nat.zero_le _
    _ ≤ s.refcount b := h.counted b

theorem index_sample : 1 ≠ 0 ∧ 1 < 256 := by decide

theorem noNul_sample : 0 ∉ ascii "a" := by decide

def Request.sample : Request := ⟨1, ascii "a", some (ascii "v"), false, false, index_sample, noNul_sample⟩

/-- An inode gets an attribute in a new block. -/
def firstSet : List (Label Bool) :=
  [.begin false .sample 0, .lock false 0 0 false, .insert false none (.ok (1, 0)), .link false, .finish false]

/-- Another one gets the same attribute, and shares the block. -/
def secondSet : List (Label Bool) :=
  [.begin true .sample 0, .lock true 0 0 false, .insert true (some 1) (.ok (2, 0)), .reuse true 0 0 0, .link true,
    .finish true]

set_option maxRecDepth 10000 in
theorem run_firstSet : ∃ s : State Bool, run (State.step 1024) State.bare firstSet =
      some (s, [.silent, .silent, .silent, .silent, .returned false 0]) ∧ (∀ n, s.phase n = .idle) ∧
    ∃ t, run (State.step 1024) s secondSet =
        some (t, [.silent, .silent, .silent, .silent, .silent] ++ [.returned true 0]) ∧ (∀ n, t.phase n = .idle) ∧
      ∀ n, (t.inode n).fileAcl = 1 := by
  refine ⟨_, rfl, ?_, _, rfl, ?_, ?_⟩ <;> intro n <;> cases n <;> rfl

theorem run_secondSet : ∃ (t : State Bool) (os : List (Event Bool)),
    run (State.step 1024) State.bare (firstSet ++ secondSet) = some (t, os) ∧ (∀ n, t.phase n = .idle) ∧
      ∀ n, (t.inode n).fileAcl = 1 := by
  obtain ⟨s, hfirst, -, t, hsecond, hend⟩ := run_firstSet
  exact ⟨t, _, run_append_eq_some_iff.mpr ⟨s, _, _, hfirst, hsecond, rfl⟩, hend⟩

/-- **No inode names a block that is gone.** In every reachable state the block that an inode names is allocated and
passes the check, and its count covers all the inodes that name it and stays within the bound. -/
theorem reachable_block (h : Reachable blockSize s) (hsize : headerSize + 4 ≤ blockSize ∧ blockSize ≤ 65536)
    (hacl : (s.inode n).fileAcl ≠ 0) :
    ∃ m, s.block (s.inode n).fileAcl = some m ∧ ext4XattrCheckBlock blockSize m = 0 ∧
      s.sharers (s.inode n).fileAcl ≤ hRefcount m ∧ hRefcount m ≤ EXT4_XATTR_REFCOUNT_MAX := by
  have hsound := (h.inv hsize).sound
  obtain ⟨m, hm⟩ := hsound.exists_block (refs_own hacl)
  obtain ⟨as, has⟩ := hsound.blocks _ m hm
  have hcard := card_le_refcount hsound hacl
  rw [State.refcount, hm] at hcard
  exact ⟨m, hm, has.check, hcard, has.counted.2⟩

/-- A block that two inodes share. -/
theorem reachable_block_shared : ∃ (t : State Bool) (m : Mem), (∀ n, (t.inode n).fileAcl = 1) ∧ t.block 1 = some m ∧
    ext4XattrCheckBlock 1024 m = 0 ∧ t.sharers 1 ≤ hRefcount m ∧ hRefcount m ≤ EXT4_XATTR_REFCOUNT_MAX := by
  obtain ⟨t, os, hrun, -, hacl⟩ := run_secondSet
  obtain ⟨m, hm⟩ := reachable_block (n := true) ⟨_, _, _, consistent_bare, hrun⟩ (by decide) (by rw [hacl]; decide)
  rw [hacl] at hm
  exact ⟨t, m, hacl, hm⟩

theorem run_exact (h : Inv blockSize s) (hsize : headerSize + 4 ≤ blockSize ∧ blockSize ≤ 65536)
    (hexact : RefCount.Exact s.refs s.refcount) (hleak : ∀ l ∈ ls, ¬l.Leaks)
    (hrun : run (State.step blockSize) s ls = some (t, os)) : RefCount.Exact t.refs t.refcount :=
  (run_invariant (fun _ s => Inv blockSize s ∧ RefCount.Exact s.refs s.refcount) (fun _ l => ¬l.Leaks)
    (fun _ _ _ _ _ h hl hstep => ⟨step_inv h.1 hsize hstep, step_exact h.1 hsize hstep hl h.2⟩) ⟨h, hexact⟩
    (Along.of_forall s ls fun l hl _ => hleak l hl) hrun).2

/-- **The counts are exact.** After a run in which no error lost a reference, with all calls returned, a block counts
the inodes that name it, and it is allocated exactly when there is one. -/
theorem run_refcount (h : Consistent blockSize s) (hsize : headerSize + 4 ≤ blockSize ∧ blockSize ≤ 65536)
    (hleak : ∀ l ∈ ls, ¬l.Leaks) (hrun : run (State.step blockSize) s ls = some (t, os))
    (hidle : ∀ n, t.phase n = .idle) {b : Nat} (hb : b ≠ 0) :
    t.refcount b = t.sharers b ∧
      ((∃ m, t.block b = some m) ↔ ∃ n, (t.inode n).fileAcl = b) := by
  have hsound := (run_inv h.inv hsize hrun).sound
  have hexact := run_exact h.inv hsize h.exact hleak hrun
  have hcount : t.refcount b = t.sharers b := by
    rw [← hexact b]
    exact sum_refs hidle hb
  refine ⟨hcount, ?_, ?_⟩
  · rintro ⟨m, hm⟩
    obtain ⟨as, has⟩ := hsound.blocks b m hm
    have hpos := has.counted.1
    rw [State.refcount, hm] at hcount
    have hcard : 0 < t.sharers b := by
      rw [← hcount]
      exact hpos
    obtain ⟨n, hn⟩ := Finset.card_pos.mp hcard
    exact ⟨n, (Finset.mem_filter.mp hn).2⟩
  · rintro ⟨n, rfl⟩
    exact hsound.exists_block (refs_own hb)

theorem run_refcount_shared : ∃ t : State Bool, (∀ n, (t.inode n).fileAcl = 1) ∧ t.refcount 1 = t.sharers 1 ∧
    ((∃ m, t.block 1 = some m) ↔ ∃ n, (t.inode n).fileAcl = 1) := by
  obtain ⟨t, os, hrun, hidle, hacl⟩ := run_secondSet
  have hleak : ∀ l ∈ firstSet ++ secondSet, ¬l.Leaks := by simp [firstSet, secondSet, Label.Leaks]
  exact ⟨t, hacl, run_refcount consistent_bare (by decide) hleak hrun hidle (by decide)⟩

end Runs

end OsHw.Xattr.Store
