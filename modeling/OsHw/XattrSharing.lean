import OsHw.RefCount
import OsHw.XattrContents

/-! Blocks that inodes share. An inode refers to its block, and while it is written for a moment to two of them. The
count in the header of a block covers these references, an entry of the cache counts those that hold it, and a block is
changed or freed only by the one that has its single reference, while its entry is not held. So what a writer does
leaves the attributes in the blocks of all the others. A step writes to one block and its entry, so all of this is
shown at one place. -/

namespace OsHw.Xattr.Store

/-- The second block that the writer refers to, 0 when there is none. -/
def Phase.second : Phase → Nat
  | .link _ new => new
  | .release _ old => old
  | _ => 0

/-- The references of an inode and its writer to a block. -/
def refsOf (fileAcl : Nat) (ph : Phase) (b : Nat) : Nat := if b ≠ 0 ∧ (fileAcl = b ∨ ph.second = b) then 1 else 0

/-- The entry that the writer holds. -/
def heldOf (ph : Phase) (b : Nat) : Nat :=
  match ph with
  | .found _ _ b' => if b' = b then 1 else 0
  | _ => 0

theorem refsOf_congr {fileAcl fileAcl' : Nat} {ph ph' : Phase}
    (h : ∀ b, b ≠ 0 → (fileAcl' = b ∨ ph'.second = b ↔ fileAcl = b ∨ ph.second = b)) :
    refsOf fileAcl' ph' = refsOf fileAcl ph := by
  funext b
  by_cases hb : b = 0
  · rw [refsOf, refsOf, if_neg fun hand => hand.1 hb, if_neg fun hand => hand.1 hb]
  · simp only [refsOf, h b hb]

/-- Away from the second block. -/
theorem refsOf_of_ne {fileAcl b : Nat} {ph : Phase} (h : ph.second ≠ b) :
    refsOf fileAcl ph b = refsOf fileAcl .idle b := by
  rw [refsOf, refsOf]
  by_cases hb : b = 0
  · rw [if_neg fun hand => hand.1 hb, if_neg fun hand => hand.1 hb]
  · have hidle : Phase.idle.second ≠ b := Ne.symm hb
    simp only [h, hidle]

theorem refsOf_second {fileAcl b : Nat} {ph : Phase} (hb : b ≠ 0) (h : ph.second = b) : refsOf fileAcl ph b = 1 :=
  if_pos ⟨hb, Or.inr h⟩

theorem refsOf_idle_of_ne {fileAcl b : Nat} (h : fileAcl ≠ b) : refsOf fileAcl .idle b = 0 := by
  apply if_neg
  rintro ⟨hb, hown | hzero⟩
  · exact h hown
  · exact hb hzero.symm

theorem refsOf_plain {fileAcl : Nat} {ph : Phase} (h : ph.second = 0) : refsOf fileAcl ph = refsOf fileAcl .idle := by
  apply refsOf_congr
  intro b _
  rw [h]
  rfl

namespace State

variable {ι : Type}

def refs (s : State ι) (n : ι) (b : Nat) : Nat := refsOf (s.inode n).fileAcl (s.phase n) b

def held (s : State ι) (n : ι) (b : Nat) : Nat := heldOf (s.phase n) b

/-- The count in the header of a block, 0 for a free one. -/
def refcount (s : State ι) (b : Nat) : Nat := (s.block b).elim 0 hRefcount

/-- The count of the entry of a block. -/
def users (s : State ι) (b : Nat) : Nat := (s.cache b).elim 0 CacheEntry.users

/-- The attributes of a block that an inode names. -/
def Has (blockSize : Nat) (s : State ι) (b : Nat) (as : List Attr) : Prop := AclHolds blockSize b (s.block b) as

theorem refs_eq (s : State ι) (n : ι) : s.refs n = refsOf (s.inode n).fileAcl (s.phase n) := rfl

theorem held_eq (s : State ι) (n : ι) : s.held n = heldOf (s.phase n) := rfl

/-- A step of a party that writes to one block and its entry. -/
structure Touches (n : ι) (b : Nat) (s s' : State ι) : Prop where
  inode : ∀ k, k ≠ n → s'.inode k = s.inode k
  phase : ∀ k, k ≠ n → s'.phase k = s.phase k
  block : ∀ b', b' ≠ b → s'.block b' = s.block b'
  cache : ∀ b', b' ≠ b → s'.cache b' = s.cache b'

theorem Touches.trans {n : ι} {b : Nat} {s s' s'' : State ι} (h : Touches n b s s') (h' : Touches n b s' s'') :
    Touches n b s s'' where
  inode k hk := (h'.inode k hk).trans (h.inode k hk)
  phase k hk := (h'.phase k hk).trans (h.phase k hk)
  block b' hb := (h'.block b' hb).trans (h.block b' hb)
  cache b' hb := (h'.cache b' hb).trans (h.cache b' hb)

theorem touches_setBlock (s : State ι) (n : ι) (b : Nat) (m : Option Mem) : Touches n b s (s.setBlock b m) :=
  ⟨fun _ _ => rfl, fun _ _ => rfl, fun _ hb => Function.update_of_ne hb _ _, fun _ _ => rfl⟩

theorem touches_setCache (s : State ι) (n : ι) (b : Nat) (e : Option CacheEntry) : Touches n b s (s.setCache b e) :=
  ⟨fun _ _ => rfl, fun _ _ => rfl, fun _ _ => rfl, fun _ hb => Function.update_of_ne hb _ _⟩

theorem touches_cacheHold (s : State ι) (n : ι) (b : Nat) : Touches n b s (s.cacheHold b) := touches_setCache s n b _

theorem touches_cachePut (s : State ι) (n : ι) (b : Nat) : Touches n b s (s.cachePut b) := touches_setCache s n b _

theorem touches_setReusable (s : State ι) (n : ι) (b : Nat) (reusable : Bool) :
    Touches n b s (s.setReusable b reusable) :=
  touches_setCache s n b _

theorem touches_cacheInsert (s : State ι) (n : ι) (b : Nat) (m : Mem) : Touches n b s (s.cacheInsert b m) := by
  rw [cacheInsert]
  split
  · exact ⟨fun _ _ => rfl, fun _ _ => rfl, fun _ _ => rfl, fun _ _ => rfl⟩
  · exact touches_setCache s n b _

theorem cacheInsert_frame (s : State ι) (b : Nat) (m : Mem) :
    (s.cacheInsert b m).inode = s.inode ∧ (s.cacheInsert b m).phase = s.phase ∧
      (s.cacheInsert b m).block = s.block := by
  rw [cacheInsert]
  split
  · exact ⟨rfl, rfl, rfl⟩
  · exact ⟨rfl, rfl, rfl⟩

variable [DecidableEq ι]

theorem touches_goto (s : State ι) (n : ι) (b : Nat) (ph : Phase) : Touches n b s (s.goto n ph) :=
  ⟨fun _ _ => rfl, fun _ hk => Function.update_of_ne hk _ _, fun _ _ => rfl, fun _ _ => rfl⟩

theorem touches_setInode (s : State ι) (n : ι) (b : Nat) (x : INode) : Touches n b s (s.setInode n x) :=
  ⟨fun _ hk => Function.update_of_ne hk _ _, fun _ _ => rfl, fun _ _ => rfl, fun _ _ => rfl⟩

theorem phase_goto (s : State ι) (n : ι) (ph : Phase) : (s.goto n ph).phase n = ph := Function.update_self ..

theorem refs_goto (s : State ι) (n : ι) (ph : Phase) : (s.goto n ph).refs n = refsOf (s.inode n).fileAcl ph := by
  funext b
  rw [refs, phase_goto]
  rfl

theorem held_goto (s : State ι) (n : ι) (ph : Phase) : (s.goto n ph).held n = heldOf ph := by
  funext b
  rw [held, phase_goto]

end State

/-- What an entry of the cache says about its block. -/
def CachedAt (block : Option Mem) (entry : Option CacheEntry) : Prop :=
  ∀ e, entry = some e → ∃ m, block = some m ∧ e.key = hHash m ∧
    e.reusable = decide (hRefcount m < EXT4_XATTR_REFCOUNT_MAX)

variable {ι : Type} [Fintype ι] {blockSize : Nat}

/-- What is true of the blocks, the cache and the references to them. -/
structure Sound (blockSize : Nat) (s : State ι) : Prop where
  zero : s.block 0 = none
  blocks : ∀ b m, s.block b = some m → ∃ as, BlockHolds blockSize m as
  counted : RefCount.Covered s.refs s.refcount
  cached : ∀ b, CachedAt (s.block b) (s.cache b)
  held : RefCount.Exact s.held s.users

/-- The block keeps its attributes. -/
def Kept (blockSize : Nat) (s s' : State ι) (b : Nat) : Prop :=
  ∀ as, s.Has blockSize b as → s'.Has blockSize b as

/-- What a step of a party comes to for the others, and the references that it loses. -/
structure Moved (blockSize : Nat) (n : ι) (lost : Nat) (s s' : State ι) : Prop where
  inode : ∀ k, k ≠ n → s'.inode k = s.inode k
  phase : ∀ k, k ≠ n → s'.phase k = s.phase k
  sound : Sound blockSize s'
  kept : ∀ k b, k ≠ n → s.refs k b ≠ 0 ∨ s.held k b ≠ 0 → Kept blockSize s s' b
  exact : lost = 0 → ∀ b, s'.refcount b + s.refs n b = s.refcount b + s'.refs n b

section Step

variable {s s' : State ι} {n : ι} {b lost : Nat}

theorem Sound.ne_zero (h : Sound blockSize s) {m : Mem} (hm : s.block b = some m) : b ≠ 0 := by
  rintro rfl
  rw [h.zero] at hm
  exact absurd hm.symm (Option.some_ne_none m)

/-- A block that is referred to is there. -/
theorem Sound.exists_block (h : Sound blockSize s) (hrefs : s.refs n b ≠ 0) : ∃ m, s.block b = some m := by
  have hle := h.counted.le n b
  cases hb : s.block b with
  | none =>
      have hzero : s.refcount b = 0 := by rw [State.refcount, hb]; rfl
      omega
  | some m => exact ⟨m, rfl⟩

theorem Sound.exists_has (h : Sound blockSize s) {fileAcl : Nat} (hrefs : fileAcl ≠ 0 → s.refs n fileAcl ≠ 0) :
    ∃ as, s.Has blockSize fileAcl as := by
  by_cases hzero : fileAcl = 0
  · exact ⟨[], Or.inl ⟨hzero, rfl⟩⟩
  · obtain ⟨m, hm⟩ := h.exists_block (hrefs hzero)
    obtain ⟨as, has⟩ := h.blocks fileAcl m hm
    exact ⟨as, Or.inr ⟨hzero, m, hm, has⟩⟩

/-- **One place.** A step that touches one block and its entry is judged there. -/
theorem Sound.moved (h : Sound blockSize s) (htouch : State.Touches n b s s') (hzero : b = 0 → s'.block b = none)
    (hblock : ∀ m, s'.block b = some m → ∃ as, BlockHolds blockSize m as) (hcached : CachedAt (s'.block b) (s'.cache b))
    (hrefs : ∀ b', b' ≠ b → s'.refs n b' = s.refs n b')
    (hcount : s.refcount b + s'.refs n b + lost = s'.refcount b + s.refs n b)
    (hheld : ∀ b', b' ≠ b → s'.held n b' = s.held n b') (husers : s.users b + s'.held n b = s'.users b + s.held n b)
    (hkept : (∃ k, k ≠ n ∧ (s.refs k b ≠ 0 ∨ s.held k b ≠ 0)) → Kept blockSize s s' b) :
    Moved blockSize n lost s s' := by
  have hrefcount : ∀ b', b' ≠ b → s'.refcount b' = s.refcount b' := fun b' hb => by
    rw [State.refcount, State.refcount, htouch.block b' hb]
  have husers' : ∀ b', b' ≠ b → s'.users b' = s.users b' := fun b' hb => by
    rw [State.users, State.users, htouch.cache b' hb]
  have hrefsOther : ∀ k, k ≠ n → s'.refs k = s.refs k := fun k hk => by
    funext b'
    rw [State.refs, State.refs, htouch.inode k hk, htouch.phase k hk]
  have hheldOther : ∀ k, k ≠ n → s'.held k = s.held k := fun k hk => by
    funext b'
    rw [State.held, State.held, htouch.phase k hk]
  refine ⟨htouch.inode, htouch.phase, ⟨?_, ?_, ?_, ?_, ?_⟩, ?_, ?_⟩
  · by_cases hb : b = 0
    · rw [← hb]
      exact hzero hb
    · rw [htouch.block 0 (Ne.symm hb)]
      exact h.zero
  · intro b' m hm
    by_cases hb : b' = b
    · rw [hb] at hm
      exact hblock m hm
    · rw [htouch.block b' hb] at hm
      exact h.blocks b' m hm
  · apply h.counted.moves ⟨hrefsOther, fun b' => ?_⟩
    by_cases hb : b' = b
    · rw [hb]
      omega
    · rw [hrefcount b' hb, hrefs b' hb]
  · intro b'
    by_cases hb : b' = b
    · rw [hb]
      exact hcached
    · rw [htouch.block b' hb, htouch.cache b' hb]
      exact h.cached b'
  · have hboth : ∀ b', s.users b' + s'.held n b' = s'.users b' + s.held n b' := by
      intro b'
      by_cases hb : b' = b
      · rw [hb]
        exact husers
      · rw [husers' b' hb, hheld b' hb]
    exact h.held.moves ⟨hheldOther, fun b' => Nat.le_of_eq (hboth b')⟩ fun b' => Nat.le_of_eq (hboth b').symm
  · intro k b' hk hrefer
    by_cases hb : b' = b
    · rw [hb] at hrefer ⊢
      exact hkept ⟨k, hk, hrefer⟩
    · intro as has
      rw [State.Has, htouch.block b' hb]
      exact has
  · intro hlost b'
    by_cases hb : b' = b
    · rw [hb]
      omega
    · rw [hrefcount b' hb, hrefs b' hb]

/-- A step that leaves the blocks and the cache. -/
theorem Sound.moved_private (h : Sound blockSize s) (hinode : ∀ k, k ≠ n → s'.inode k = s.inode k)
    (hphase : ∀ k, k ≠ n → s'.phase k = s.phase k) (hblock : s'.block = s.block) (hcache : s'.cache = s.cache)
    (hrefs : ∀ b, s'.refs n b = s.refs n b) (hheld : ∀ b, s'.held n b = s.held n b) : Moved blockSize n 0 s s' := by
  have hrefcount : s'.refcount = s.refcount := by
    funext b
    rw [State.refcount, State.refcount, hblock]
  have husers : s'.users = s.users := by
    funext b
    rw [State.users, State.users, hcache]
  apply h.moved (b := 0) ⟨hinode, hphase, fun b' _ => by rw [hblock], fun b' _ => by rw [hcache]⟩
  · intro _
    rw [hblock]
    exact h.zero
  · rw [hblock]
    exact h.blocks 0
  · rw [hblock, hcache]
    exact h.cached 0
  · exact fun b' _ => hrefs b'
  · rw [hrefcount, hrefs, Nat.add_zero]
  · exact fun b' _ => hheld b'
  · rw [husers, hheld]
  · intro _ as has
    rw [State.Has, hblock]
    exact has

/-- A step that changes no block, and one entry of the cache. -/
theorem Sound.moved_cache (h : Sound blockSize s) (htouch : State.Touches n b s s') (hblock : s'.block = s.block)
    (hcached : CachedAt (s.block b) (s'.cache b)) (hrefs : s'.refs n = s.refs n)
    (hheld : ∀ b', b' ≠ b → s'.held n b' = s.held n b') (husers : s.users b + s'.held n b = s'.users b + s.held n b) :
    Moved blockSize n 0 s s' := by
  apply h.moved htouch
  · intro hb
    rw [hblock, hb]
    exact h.zero
  · rw [hblock]
    exact h.blocks b
  · rw [hblock]
    exact hcached
  · intro b' _
    rw [hrefs]
  · rw [State.refcount, State.refcount, hblock, hrefs, Nat.add_zero]
  · exact hheld
  · exact husers
  · intro _ as has
    rw [State.Has, hblock]
    exact has

omit [Fintype ι] in
theorem users_setCache (s : State ι) (b b' : Nat) (e : Option CacheEntry) :
    (s.setCache b e).users b' = if b' = b then e.elim 0 CacheEntry.users else s.users b' := by
  simp only [State.users, State.setCache, Function.update_apply]
  split
  · rfl
  · rfl

omit [Fintype ι] in
theorem users_cacheInsert (s : State ι) (b b' : Nat) (m : Mem) : (s.cacheInsert b m).users b' = s.users b' := by
  rw [State.cacheInsert]
  split
  next => rfl
  next hnone =>
    rw [users_setCache]
    split
    next hb => rw [State.users, hb, hnone]; rfl
    next => rfl

omit [Fintype ι] in
theorem cachedAt_cacheInsert {m : Mem} (h : CachedAt (some m) (s.cache b)) :
    CachedAt (some m) ((s.cacheInsert b m).cache b) := by
  rw [State.cacheInsert]
  split
  next => exact h
  next =>
    intro e he
    have hentry : (s.setCache b (some ⟨hHash m, 0, decide (hRefcount m < EXT4_XATTR_REFCOUNT_MAX)⟩)).cache b = _ :=
      Function.update_self ..
    rw [hentry] at he
    cases he
    exact ⟨m, rfl, rfl, rfl⟩

theorem cachedAt_map {block : Option Mem} {entry : Option CacheEntry} {f : CacheEntry → CacheEntry}
    (h : CachedAt block entry) (hf : ∀ e, (f e).key = e.key ∧ (f e).reusable = e.reusable) :
    CachedAt block (entry.map f) := by
  intro e he
  obtain ⟨e', he', rfl⟩ := Option.map_eq_some_iff.mp he
  rw [(hf e').1, (hf e').2]
  exact h e' he'

omit [Fintype ι] in
theorem users_eq_zero (h : ¬s.InUse b) : s.users b = 0 := by
  rw [State.users]
  cases he : s.cache b with
  | none => rfl
  | some e => exact not_not.mp fun hne => h ⟨e, he, hne⟩

/-- **In place.** The block with a single reference and no holder is seen by nobody else. -/
theorem Sound.unseen (h : Sound blockSize s) (hown : s.refs n b ≠ 0) (hone : s.refcount b = 1) (hfree : ¬s.InUse b) :
    ¬∃ k, k ≠ n ∧ (s.refs k b ≠ 0 ∨ s.held k b ≠ 0) := by
  rintro ⟨k, hk, hrefs | hheld⟩
  · exact hrefs (h.counted.sole hone hown hk)
  · exact hheld (h.held.eq_zero (users_eq_zero hfree) k)

theorem Sound.moved_inPlace (h : Sound blockSize s) {m m' : Mem} {as : List Attr} (hm : s.block b = some m)
    (hown : s.refs n b ≠ 0) (hone : hRefcount m = 1) (hfree : ¬s.InUse b) (htouch : State.Touches n b s s')
    (hblock : s'.block b = some m') (hm' : BlockHolds blockSize m' as) (hcount : hRefcount m' = hRefcount m)
    (hcache : s'.cache b = none) (hrefs : s'.refs n = s.refs n) (hheld : s'.held n = s.held n) :
    Moved blockSize n 0 s s' := by
  have hrefcount : s.refcount b = 1 := by
    rw [State.refcount, hm]
    exact hone
  have hrefcount' : s'.refcount b = 1 := by
    rw [State.refcount, hblock]
    exact hcount.trans hone
  have husers' : s'.users b = 0 := by
    rw [State.users, hcache]
    rfl
  apply h.moved htouch
  · intro hb
    exact absurd hb (h.ne_zero hm)
  · intro m'' hm''
    rw [hblock] at hm''
    cases hm''
    exact ⟨as, hm'⟩
  · intro e he
    rw [hcache] at he
    exact absurd he.symm (Option.some_ne_none e)
  · intro b' _
    rw [hrefs]
  · rw [hrefcount, hrefcount', hrefs, Nat.add_zero]
  · intro b' _
    rw [hheld]
  · rw [husers', users_eq_zero hfree, hheld]
  · intro hseen
    exact absurd hseen (h.unseen hown hrefcount hfree)

end Step

/-! The steps of a writer. -/

section Moves

variable {s t : State ι} {n : ι} {b : Nat} {m m' : Mem} {job : Job} {base : Option Mem} {ph : Phase} {as : List Attr}
  [DecidableEq ι]

/-- A step to another phase that leaves the blocks and the cache. -/
theorem Sound.moved_goto (h : Sound blockSize s)
    (hrefs : refsOf (s.inode n).fileAcl ph = refsOf (s.inode n).fileAcl (s.phase n))
    (hheld : heldOf ph = heldOf (s.phase n)) : Moved blockSize n 0 s (s.goto n ph) := by
  have htouch := State.touches_goto s n 0 ph
  apply h.moved_private htouch.inode htouch.phase rfl rfl
  · intro b
    rw [State.refs_goto, hrefs]
    rfl
  · intro b
    rw [State.held_goto, hheld]
    rfl

/-- The phase has no second block, and the writer holds nothing in it. -/
def Phase.Plain (ph : Phase) : Prop := ph.second = 0 ∧ ∀ b, heldOf ph b = 0

theorem Phase.Plain.refs (h : ph.Plain) (fileAcl : Nat) : refsOf fileAcl ph = refsOf fileAcl .idle :=
  refsOf_plain h.1

theorem Sound.moved_plain (h : Sound blockSize s) (hplain : (s.phase n).Plain) (hnext : ph.Plain) :
    Moved blockSize n 0 s (s.goto n ph) := by
  apply h.moved_goto
  · rw [hplain.refs, hnext.refs]
  · funext b
    rw [hplain.2, hnext.2]

/-- The own block stays, and becomes the new one. -/
theorem refsOf_link_own (hplain : ph.Plain) (fileAcl : Nat) :
    refsOf fileAcl (.link job fileAcl) = refsOf fileAcl ph := by
  rw [hplain.refs]
  apply refsOf_congr
  intro b hb
  exact ⟨fun hor => Or.inl (or_self_iff.mp hor), fun hor => Or.inl (hor.resolve_right (Ne.symm hb))⟩

/-- The block of the inode is written in place, and its entry is gone. -/
theorem Sound.moved_write (h : Sound blockSize s) (hplain : (s.phase n).Plain) (hnext : ph.Plain)
    (hm : s.block (s.inode n).fileAcl = some m) (hone : hRefcount m = 1) (hfree : ¬s.InUse (s.inode n).fileAcl)
    (htouch : State.Touches n (s.inode n).fileAcl s t) (hinode : t.inode = s.inode)
    (hcache : t.cache (s.inode n).fileAcl = none) (hblock : t.block (s.inode n).fileAcl = some m')
    (hm' : BlockHolds blockSize m' as) (hcount : hRefcount m' = hRefcount m) :
    Moved blockSize n 0 s (t.goto n ph) := by
  have hne := h.ne_zero hm
  have hown : s.refs n (s.inode n).fileAcl ≠ 0 := by
    rw [State.refs, refsOf, if_pos ⟨hne, Or.inl rfl⟩]
    exact Nat.one_ne_zero
  apply h.moved_inPlace hm hown hone hfree (htouch.trans (State.touches_goto t n _ ph)) hblock hm' hcount hcache
  · rw [State.refs_goto, hinode, hnext.refs, State.refs_eq, hplain.refs]
  · funext b
    rw [State.held_goto, hnext.2, State.held_eq, hplain.2]

/-- An entry of the cache is held. -/
theorem Sound.moved_hold (h : Sound blockSize s) (hplain : (s.phase n).Plain) {entry : CacheEntry}
    (hentry : s.cache b = some entry) : Moved blockSize n 0 s ((s.cacheHold b).goto n (.found job base b)) := by
  have hcache : (s.cacheHold b).cache b = (s.cache b).map fun e => { e with users := e.users + 1 } :=
    Function.update_self ..
  have husers : (s.cacheHold b).users b = s.users b + 1 := by
    rw [State.users, State.users, hcache, hentry]
    rfl
  apply h.moved_cache ((State.touches_cacheHold s n b).trans (State.touches_goto _ n b _)) rfl
  · show CachedAt (s.block b) ((s.cacheHold b).cache b)
    rw [hcache]
    exact cachedAt_map (h.cached b) fun _ => ⟨rfl, rfl⟩
  · rw [State.refs_goto, State.refs_eq, hplain.refs]
    rfl
  · intro b' hb'
    rw [State.held_goto, State.held_eq, hplain.2]
    exact if_neg (Ne.symm hb')
  · have hheld : heldOf (.found job base b) b = 1 := if_pos rfl
    show s.users b + ((s.cacheHold b).goto n (.found job base b)).held n b = (s.cacheHold b).users b + s.held n b
    rw [State.held_goto, hheld, husers, State.held_eq, hplain.2]

omit [DecidableEq ι] [Fintype ι] in
/-- The entry that was held is put back. -/
theorem users_cachePut (hne : s.users b ≠ 0) : (s.cachePut b).users b + 1 = s.users b := by
  have hcache : (s.cachePut b).cache b = (s.cache b).map fun e => { e with users := e.users - 1 } :=
    Function.update_self ..
  rw [State.users, State.users, hcache]
  rw [State.users] at hne
  cases hentry : s.cache b with
  | none =>
      rw [hentry] at hne
      exact absurd rfl hne
  | some e =>
      rw [hentry] at hne
      exact Nat.succ_pred_eq_of_ne_zero hne

omit [DecidableEq ι] in
theorem Sound.users_ne_zero (h : Sound blockSize s) (hheld : s.held n b = 1) : s.users b ≠ 0 := by
  have hle := h.held.covered.le n b
  omega

omit [DecidableEq ι] [Fintype ι] in
theorem users_setReusable (s : State ι) (b : Nat) (reusable : Bool) :
    (s.setReusable b reusable).users b = s.users b := by
  have hcache : (s.setReusable b reusable).cache b = (s.cache b).map fun e => { e with reusable := reusable } :=
    Function.update_self ..
  rw [State.users, State.users, hcache]
  cases s.cache b with
  | none => rfl
  | some e => rfl

theorem Sound.moved_put (h : Sound blockSize s) (hph : s.phase n = .found job base b) (hnext : ph.Plain) :
    Moved blockSize n 0 s ((s.cachePut b).goto n ph) := by
  have hheld : s.held n b = 1 := by
    rw [State.held_eq, hph]
    exact if_pos rfl
  have husers := users_cachePut (h.users_ne_zero hheld)
  have hcache : (s.cachePut b).cache b = (s.cache b).map fun e => { e with users := e.users - 1 } :=
    Function.update_self ..
  apply h.moved_cache ((State.touches_cachePut s n b).trans (State.touches_goto _ n b _)) rfl
  · show CachedAt (s.block b) ((s.cachePut b).cache b)
    rw [hcache]
    exact cachedAt_map (h.cached b) fun _ => ⟨rfl, rfl⟩
  · rw [State.refs_goto, State.refs_eq, hph, hnext.refs]
    rfl
  · intro b' hb'
    rw [State.held_goto, hnext.2, State.held_eq, hph]
    exact (if_neg (Ne.symm hb')).symm
  · show s.users b + ((s.cachePut b).goto n ph).held n b = (s.cachePut b).users b + s.held n b
    rw [State.held_goto, hnext.2, hheld]
    omega

/-- The block of the inode gets an entry in the cache. -/
theorem Sound.moved_entry (h : Sound blockSize s) (hm : s.block b = some m)
    (hrefs : refsOf (s.inode n).fileAcl ph = refsOf (s.inode n).fileAcl (s.phase n))
    (hheld : heldOf ph = heldOf (s.phase n)) : Moved blockSize n 0 s ((s.cacheInsert b m).goto n ph) := by
  obtain ⟨hinode, -, hblock⟩ := State.cacheInsert_frame s b m
  have hcached := h.cached b
  rw [hm] at hcached
  apply h.moved_cache ((State.touches_cacheInsert s n b m).trans (State.touches_goto _ n b ph)) hblock
  · rw [hm]
    exact cachedAt_cacheInsert hcached
  · rw [State.refs_goto, hinode, hrefs, State.refs_eq]
  · intro b' _
    rw [State.held_goto, hheld, State.held_eq]
  · show s.users b + ((s.cacheInsert b m).goto n ph).held n b = (s.cacheInsert b m).users b + s.held n b
    rw [State.held_goto, hheld, users_cacheInsert, State.held_eq]

/-- A new block. A writer that does not come to refer to it loses it. -/
theorem Sound.moved_alloc (h : Sound blockSize s) (hplain : (s.phase n).Plain) (job : Job) {lost : Nat} (hb : b ≠ 0)
    (hfree : s.block b = none) (hm : BlockHolds blockSize m as) (hone : hRefcount m = 1)
    (hnext : ph = .link job b ∧ lost = 0 ∨ ph = .idle ∧ lost = 1) :
    Moved blockSize n lost s (((s.setBlock b (some m)).cacheInsert b m).goto n ph) := by
  obtain ⟨hinode, -, hblock⟩ := State.cacheInsert_frame (s.setBlock b (some m)) b m
  have hheld : ∀ b, heldOf ph b = 0 := by
    obtain ⟨rfl, -⟩ | ⟨rfl, -⟩ := hnext
    · exact fun _ => rfl
    · exact fun _ => rfl
  have hrefcount : s.refcount b = 0 := by
    rw [State.refcount, hfree]
    rfl
  have hzero : s.refs n b = 0 := by
    have hle := h.counted.le n b
    omega
  have hown : (s.inode n).fileAcl ≠ b := by
    rintro rfl
    rw [State.refs, refsOf, if_pos ⟨hb, Or.inl rfl⟩] at hzero
    exact absurd hzero Nat.one_ne_zero
  have hnone : s.cache b = none := by
    cases he : s.cache b with
    | none => rfl
    | some e =>
        obtain ⟨m', hm', -⟩ := h.cached b e he
        rw [hfree] at hm'
        exact absurd hm'.symm (Option.some_ne_none m')
  have hblock' : (((s.setBlock b (some m)).cacheInsert b m).goto n ph).block b = some m := by
    show ((s.setBlock b (some m)).cacheInsert b m).block b = some m
    rw [hblock]
    exact Function.update_self ..
  have hcached : CachedAt (some m) ((s.setBlock b (some m)).cache b) := by
    intro e he
    rw [show (s.setBlock b (some m)).cache b = s.cache b from rfl, hnone] at he
    exact absurd he.symm (Option.some_ne_none e)
  apply h.moved ((State.touches_setBlock s n b _).trans
    ((State.touches_cacheInsert _ n b m).trans (State.touches_goto _ n b ph)))
  · exact fun hzero => absurd hzero hb
  · intro m' hm'
    rw [hblock'] at hm'
    cases hm'
    exact ⟨as, hm⟩
  · rw [hblock']
    exact cachedAt_cacheInsert hcached
  · intro b' hb'
    rw [State.refs_goto, hinode, State.refs_eq, hplain.refs]
    obtain ⟨rfl, -⟩ | ⟨rfl, -⟩ := hnext
    · exact refsOf_of_ne (Ne.symm hb')
    · rfl
  · have hcount : (((s.setBlock b (some m)).cacheInsert b m).goto n ph).refcount b = 1 := by
      rw [State.refcount, hblock']
      exact hone
    rw [hcount, hrefcount, hzero, State.refs_goto, hinode]
    obtain ⟨rfl, rfl⟩ | ⟨rfl, rfl⟩ := hnext
    · rw [refsOf_second hb rfl]
    · have hsame : refsOf ((s.setBlock b (some m)).inode n).fileAcl .idle b = s.refs n b := by
        rw [State.refs_eq, hplain.refs]
        rfl
      rw [hsame, hzero]
  · intro b' _
    rw [State.held_goto, hheld, State.held_eq, hplain.2]
  · rw [State.held_goto, hheld, State.held_eq, hplain.2]
    exact congrArg (· + 0) (users_cacheInsert (s.setBlock b (some m)) b b m).symm
  · intro _ has hhas
    obtain ⟨hzero, -⟩ | ⟨-, m', hm', -⟩ := hhas
    · exact absurd hzero hb
    · rw [hfree] at hm'
      exact absurd hm'.symm (Option.some_ne_none m')

omit [DecidableEq ι] in
/-- A block is counted anew. -/
theorem Sound.moved_recount (h : Sound blockSize s) {lost ref : Nat} (hm : s.block b = some m) (hpos : 1 ≤ ref)
    (hle : ref ≤ EXT4_XATTR_REFCOUNT_MAX) (htouch : State.Touches n b s t)
    (hblock : t.block b = some (setRefcount m ref))
    (hentry : ∀ e, t.cache b = some e → e.key = hHash m ∧ e.reusable = decide (ref < EXT4_XATTR_REFCOUNT_MAX))
    (hrefs : ∀ b', b' ≠ b → t.refs n b' = s.refs n b') (hcount : hRefcount m + t.refs n b + lost = ref + s.refs n b)
    (hheld : ∀ b', b' ≠ b → t.held n b' = s.held n b') (husers : s.users b + t.held n b = t.users b + s.held n b) :
    Moved blockSize n lost s t := by
  have hb := h.ne_zero hm
  have hnew := hRefcount_setRefcount hle m
  have hkept : ∀ {as}, BlockHolds blockSize m as → BlockHolds blockSize (setRefcount m ref) as :=
    fun hholds => hholds.setRefcount hpos hle
  apply h.moved htouch
  · exact fun hzero => absurd hzero hb
  · intro m' hm'
    rw [hblock] at hm'
    cases hm'
    obtain ⟨as, has⟩ := h.blocks b m hm
    exact ⟨as, hkept has⟩
  · intro e he
    obtain ⟨hkey, hreusable⟩ := hentry e he
    refine ⟨_, hblock, ?_, ?_⟩
    · rw [hHash_setRefcount]
      exact hkey
    · rw [hnew]
      exact hreusable
  · exact hrefs
  · rw [State.refcount, State.refcount, hm, hblock]
    show hRefcount m + t.refs n b + lost = hRefcount (setRefcount m ref) + s.refs n b
    rw [hnew]
    exact hcount
  · exact hheld
  · exact husers
  · intro _ as hhas
    obtain ⟨hzero, -⟩ | ⟨-, m', hm', hholds⟩ := hhas
    · exact absurd hzero hb
    · rw [hm] at hm'
      cases hm'
      exact Or.inr ⟨hb, _, hblock, hkept hholds⟩

section Recount

variable {P : Prop} [Decidable P] {ref : Nat} {reusable : Bool}

/-- The block is counted anew, and the flag of its entry is changed when the bound is reached or left. -/
def State.recount (s : State ι) (b : Nat) (m : Mem) (ref : Nat) (P : Prop) [Decidable P] (reusable : Bool) : State ι :=
  if P then (s.setBlock b (some (setRefcount m ref))).setReusable b reusable
  else s.setBlock b (some (setRefcount m ref))

omit [DecidableEq ι] [Fintype ι] in
theorem recount_frame (s : State ι) (n : ι) (b : Nat) (m : Mem) (ref : Nat) (P : Prop) [Decidable P] (reusable : Bool) :
    State.Touches n b s (s.recount b m ref P reusable) ∧ (s.recount b m ref P reusable).inode = s.inode ∧
      (s.recount b m ref P reusable).block b = some (setRefcount m ref) ∧
      (s.recount b m ref P reusable).users b = s.users b := by
  have hwrite := State.touches_setBlock s n b (some (setRefcount m ref))
  rw [State.recount]
  split
  · refine ⟨hwrite.trans (State.touches_setReusable _ n b _), rfl, Function.update_self .., ?_⟩
    exact users_setReusable (s.setBlock b (some (setRefcount m ref))) b reusable
  · exact ⟨hwrite, rfl, Function.update_self .., rfl⟩

omit [DecidableEq ι] [Fintype ι] in
theorem recount_entry (h : CachedAt (some m) (s.cache b))
    (hfull : P → reusable = decide (ref < EXT4_XATTR_REFCOUNT_MAX))
    (hsame : ¬P → (hRefcount m < EXT4_XATTR_REFCOUNT_MAX ↔ ref < EXT4_XATTR_REFCOUNT_MAX)) {e : CacheEntry}
    (he : (s.recount b m ref P reusable).cache b = some e) :
    e.key = hHash m ∧ e.reusable = decide (ref < EXT4_XATTR_REFCOUNT_MAX) := by
  rw [State.recount] at he
  split at he
  next hP =>
    have hcache : ((s.setBlock b (some (setRefcount m ref))).setReusable b reusable).cache b =
      (s.cache b).map fun e => { e with reusable := reusable } := Function.update_self ..
    rw [hcache] at he
    obtain ⟨e', he', rfl⟩ := Option.map_eq_some_iff.mp he
    obtain ⟨m', hm', hkey, -⟩ := h e' he'
    cases hm'
    exact ⟨hkey, hfull hP⟩
  next hP =>
    obtain ⟨m', hm', hkey, hreusable⟩ := h e he
    cases hm'
    refine ⟨hkey, ?_⟩
    rw [hreusable]
    exact decide_eq_decide.mpr (hsame hP)

end Recount

/-- A reference is taken to the block whose entry is held. -/
theorem Sound.moved_reuse (h : Sound blockSize s) {lost : Nat} (hph : s.phase n = .found job base b)
    (hne : b ≠ (s.inode n).fileAcl) (hm : s.block b = some m) (hle : hRefcount m + 1 ≤ EXT4_XATTR_REFCOUNT_MAX)
    (hnext : ph = .link job b ∧ lost = 0 ∨ ph = .idle ∧ lost = 1) :
    Moved blockSize n lost s
      (((s.recount b m (hRefcount m + 1) (hRefcount m + 1 = EXT4_XATTR_REFCOUNT_MAX) false).cachePut b).goto n ph) := by
  have hb := h.ne_zero hm
  have hcached := h.cached b
  rw [hm] at hcached
  obtain ⟨htouch, hinode, hblock, husers⟩ := recount_frame s n b m (hRefcount m + 1)
    (hRefcount m + 1 = EXT4_XATTR_REFCOUNT_MAX) false
  have hentry : ∀ e, (s.recount b m (hRefcount m + 1) (hRefcount m + 1 = EXT4_XATTR_REFCOUNT_MAX) false).cache b =
      some e → e.key = hHash m ∧ e.reusable = decide (hRefcount m + 1 < EXT4_XATTR_REFCOUNT_MAX) := fun e =>
    recount_entry hcached (fun hfull => by rw [hfull]; rfl) fun hfull => iff_of_true (by omega) (by omega)
  generalize s.recount b m (hRefcount m + 1) (hRefcount m + 1 = EXT4_XATTR_REFCOUNT_MAX) false = t at *
  have hheld : s.held n b = 1 := by
    rw [State.held_eq, hph]
    exact if_pos rfl
  have hput : (t.cachePut b).users b + 1 = t.users b := users_cachePut (by rw [husers]; exact h.users_ne_zero hheld)
  have hnone : ∀ b, heldOf ph b = 0 := by
    obtain ⟨rfl, -⟩ | ⟨rfl, -⟩ := hnext
    · exact fun _ => rfl
    · exact fun _ => rfl
  apply h.moved_recount hm (Nat.le_add_left 1 _) hle
    (htouch.trans ((State.touches_cachePut t n b).trans (State.touches_goto _ n b ph))) hblock
  · intro e he
    have hcache : (t.cachePut b).cache b = (t.cache b).map fun e => { e with users := e.users - 1 } :=
      Function.update_self ..
    have he : (t.cachePut b).cache b = some e := he
    rw [hcache] at he
    obtain ⟨e', he', rfl⟩ := Option.map_eq_some_iff.mp he
    exact hentry e' he'
  · intro b' hb'
    have hput : ((t.cachePut b).inode n).fileAcl = (s.inode n).fileAcl := congrArg (fun f => (f n).fileAcl) hinode
    rw [State.refs_goto, hput, State.refs_eq, hph]
    obtain ⟨rfl, -⟩ | ⟨rfl, -⟩ := hnext
    · exact refsOf_of_ne (Ne.symm hb')
    · rfl
  · have hput : ((t.cachePut b).inode n).fileAcl = (s.inode n).fileAcl := congrArg (fun f => (f n).fileAcl) hinode
    have hzero : refsOf (s.inode n).fileAcl .idle b = 0 := refsOf_idle_of_ne (Ne.symm hne)
    have hbefore : s.refs n b = 0 := by
      rw [State.refs_eq, hph]
      exact hzero
    rw [State.refs_goto, hput, hbefore]
    obtain ⟨rfl, rfl⟩ | ⟨rfl, rfl⟩ := hnext
    · rw [refsOf_second hb rfl]
    · rw [hzero]
  · intro b' hb'
    rw [State.held_goto, hnone, State.held_eq, hph]
    exact (if_neg (Ne.symm hb')).symm
  · show s.users b + ((t.cachePut b).goto n ph).held n b = (t.cachePut b).users b + s.held n b
    rw [State.held_goto, hnone, hheld]
    omega

/-- A reference is given back. -/
theorem Sound.moved_drop (h : Sound blockSize s) (hph : s.phase n = .release job b) (hb : b ≠ 0)
    (hne : b ≠ (s.inode n).fileAcl) (hm : s.block b = some m) (hmany : hRefcount m ≠ 1) :
    Moved blockSize n 0 s
      ((s.recount b m (hRefcount m - 1) (hRefcount m - 1 = EXT4_XATTR_REFCOUNT_MAX - 1) true).goto n
        (.finish job)) := by
  have hmax : EXT4_XATTR_REFCOUNT_MAX = 1024 := rfl
  have hcached := h.cached b
  rw [hm] at hcached
  obtain ⟨as, has⟩ := h.blocks b m hm
  obtain ⟨hpos, hle⟩ := has.counted
  obtain ⟨htouch, hinode, hblock, husers⟩ := recount_frame s n b m (hRefcount m - 1)
    (hRefcount m - 1 = EXT4_XATTR_REFCOUNT_MAX - 1) true
  have hentry : ∀ e, (s.recount b m (hRefcount m - 1) (hRefcount m - 1 = EXT4_XATTR_REFCOUNT_MAX - 1) true).cache b =
      some e → e.key = hHash m ∧ e.reusable = decide (hRefcount m - 1 < EXT4_XATTR_REFCOUNT_MAX) := fun e =>
    recount_entry hcached (fun hfull => by rw [hfull]; rfl) fun hfull => iff_of_true (by omega) (by omega)
  generalize s.recount b m (hRefcount m - 1) (hRefcount m - 1 = EXT4_XATTR_REFCOUNT_MAX - 1) true = t at *
  have hown : (t.inode n).fileAcl = (s.inode n).fileAcl := congrArg (fun f => (f n).fileAcl) hinode
  apply h.moved_recount hm (by omega : 1 ≤ hRefcount m - 1) (by omega)
    (htouch.trans (State.touches_goto t n b _)) hblock
  · exact hentry
  · intro b' hb'
    rw [State.refs_goto, hown, State.refs_eq, hph]
    exact (refsOf_of_ne (Ne.symm hb')).symm
  · have hafter : refsOf (s.inode n).fileAcl (.finish job) b = 0 := refsOf_idle_of_ne (Ne.symm hne)
    have hbefore : s.refs n b = 1 := by
      rw [State.refs_eq, hph]
      exact refsOf_second hb rfl
    rw [State.refs_goto, hown, hafter, hbefore]
    omega
  · intro b' _
    rw [State.held_goto, State.held_eq, hph]
    rfl
  · rw [State.held_goto, State.held_eq, hph]
    exact congrArg (· + 0) husers.symm

/-- The last reference is given back. -/
theorem Sound.moved_free (h : Sound blockSize s) (hph : s.phase n = .release job b) (hb : b ≠ 0)
    (hne : b ≠ (s.inode n).fileAcl) (hm : s.block b = some m) (hone : hRefcount m = 1) (hfree : ¬s.InUse b) :
    Moved blockSize n 0 s (((s.setCache b none).setBlock b none).goto n (.finish job)) := by
  have hrefcount : s.refcount b = 1 := by
    rw [State.refcount, hm]
    exact hone
  have hblock : (((s.setCache b none).setBlock b none).goto n (.finish job)).block b = none := Function.update_self ..
  have hcache : (((s.setCache b none).setBlock b none).goto n (.finish job)).cache b = none := Function.update_self ..
  have hbefore : s.refs n b = 1 := by
    rw [State.refs_eq, hph]
    exact refsOf_second hb rfl
  have hafter : refsOf (s.inode n).fileAcl (.finish job) b = 0 := refsOf_idle_of_ne (Ne.symm hne)
  apply h.moved ((State.touches_setCache s n b none).trans
    ((State.touches_setBlock _ n b none).trans (State.touches_goto _ n b _)))
  · exact fun _ => hblock
  · intro m' hm'
    rw [hblock] at hm'
    exact absurd hm'.symm (Option.some_ne_none m')
  · intro e he
    rw [hcache] at he
    exact absurd he.symm (Option.some_ne_none e)
  · intro b' hb'
    rw [State.refs_goto, State.refs_eq, hph]
    exact (refsOf_of_ne (Ne.symm hb')).symm
  · rw [hrefcount, hbefore, State.refcount, hblock, State.refs_goto]
    show 1 + refsOf (s.inode n).fileAcl (.finish job) b + 0 = 0 + 1
    rw [hafter]
  · intro b' _
    rw [State.held_goto, State.held_eq, hph]
    rfl
  · rw [users_eq_zero hfree, State.users, hcache, State.held_goto, State.held_eq, hph]
    rfl
  · intro hseen
    exact absurd hseen (h.unseen (by rw [hbefore]; exact Nat.one_ne_zero) hrefcount hfree)

/-- A reference that cannot be given back is lost. -/
theorem Sound.moved_leak (h : Sound blockSize s) (hph : s.phase n = .release job b) (hb : b ≠ 0)
    (hne : b ≠ (s.inode n).fileAcl) : Moved blockSize n 1 s (s.goto n (.finish job)) := by
  have hbefore : s.refs n b = 1 := by
    rw [State.refs_eq, hph]
    exact refsOf_second hb rfl
  have hafter : refsOf (s.inode n).fileAcl (.finish job) b = 0 := refsOf_idle_of_ne (Ne.symm hne)
  apply h.moved (State.touches_goto s n b _)
  · intro hzero
    exact absurd hzero hb
  · exact h.blocks b
  · exact h.cached b
  · intro b' hb'
    rw [State.refs_goto, State.refs_eq, hph]
    exact (refsOf_of_ne (Ne.symm hb')).symm
  · rw [State.refs_goto, hafter, hbefore]
    rfl
  · intro b' _
    rw [State.held_goto, State.held_eq, hph]
    rfl
  · rw [State.held_goto, State.held_eq, hph]
    rfl
  · exact fun _ _ has => has

/-- The inode is pointed to the second block, and the first one is to be released. -/
theorem Sound.moved_link (h : Sound blockSize s) {x : INode} (hheld : ∀ b, heldOf (s.phase n) b = 0)
    (hnext : ∀ b, heldOf ph b = 0)
    (hrefs : ∀ b, b ≠ 0 → (x.fileAcl = b ∨ ph.second = b ↔ (s.inode n).fileAcl = b ∨ (s.phase n).second = b)) :
    Moved blockSize n 0 s ((s.setInode n x).goto n ph) := by
  have htouch := (State.touches_setInode s n 0 x).trans (State.touches_goto _ n 0 ph)
  have hx : (s.setInode n x).inode n = x := Function.update_self ..
  apply h.moved_private htouch.inode htouch.phase rfl rfl
  · intro b
    rw [State.refs_goto, hx, refsOf_congr hrefs]
    rfl
  · intro b
    rw [State.held_goto, hnext, State.held_eq, hheld]

end Moves

end OsHw.Xattr.Store
