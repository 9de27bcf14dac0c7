import OsHw.XattrHandle
import OsHw.XattrSharing

/-! The writers. For each phase of `ext4_xattr_block_set` it is said what the writer has done of its plan, from the body
and the block that the call has found. A step either goes on to such a phase or returns with what the call is to
return with, and no step takes a block from another inode. -/

namespace OsHw.Xattr.Store

/-- A call: what it changes, and the body and the block that it has found. -/
structure Call where
  info : Info
  body : List Attr
  block : List Attr

variable {ι : Type} {blockSize : Nat}

/-- The new content is there: in a buffer, or in the block of the inode. -/
def Prepared (blockSize : Nat) (s : State ι) (fileAcl : Nat) (c : Call) (job : Job) (tgt : List Attr) :
    Option Mem → Prop
  | none => job.search ≠ none ∧ s.Has blockSize fileAcl tgt
  | some m => s.Has blockSize fileAcl c.block ∧ BlockHolds blockSize m tgt ∧ hRefcount m = 1

/-- What the writer has done in a phase. -/
def DoneIn (blockSize : Nat) (s : State ι) (fileAcl : Nat) (c : Call) (tgt : List Attr) : Phase → Prop
  | .idle => False
  | .lock job => Feasible blockSize fileAcl c.block job ∧ s.Has blockSize fileAcl c.block
  | .clone job => Feasible blockSize fileAcl c.block job ∧ job.search ≠ none ∧ s.Has blockSize fileAcl c.block
  | .inserted job base => (job.search = none ↔ fileAcl = 0) ∧ Prepared blockSize s fileAcl c job tgt base
  | .found job base b => (job.search = none ↔ fileAcl = 0) ∧ Prepared blockSize s fileAcl c job tgt base ∧ b ≠ 0 ∧
      b ≠ fileAcl ∧ s.Has blockSize b tgt
  | .link job new => (job.search = none ↔ fileAcl = 0) ∧ s.Has blockSize new tgt
  | .release _ old => old ≠ 0 ∧ old ≠ fileAcl ∧ s.Has blockSize fileAcl tgt
  | .finish _ => s.Has blockSize fileAcl tgt

/-- The job of a phase. -/
def Phase.job : Phase → Option Job
  | .idle => none
  | .lock job => some job
  | .clone job => some job
  | .inserted job _ => some job
  | .found job _ _ => some job
  | .link job _ => some job
  | .release job _ => some job
  | .finish job => some job

/-- The call is under way. -/
def Doing (blockSize : Nat) (s : State ι) (n : ι) (c : Call) : Prop :=
  ∃ job tgt, (s.phase n).job = some job ∧ Underway c.info c.body c.block (s.inode n) job tgt ∧
    DoneIn blockSize s (s.inode n).fileAcl c tgt (s.phase n)

/-- What the inode holds. -/
def Contents (blockSize : Nat) (s : State ι) (n : ι) (bd bs : List Attr) : Prop :=
  InodeHolds (s.inode n) bd ∧ s.Has blockSize (s.inode n).fileAcl bs

/-- The call goes on, or it has returned. When nothing but the room was missing, a call that fails has changed
nothing. -/
def Proceeds (blockSize : Nat) (s : State ι) (n : ι) (c : Call) (clean : Prop) : Event ι → Prop
  | .silent => Doing blockSize s n c
  | .returned k r => k = n ∧ s.phase n = .idle ∧ ∃ bd bs, Contents blockSize s n bd bs ∧
      Returned c.info c.body c.block r bd bs ∧ (clean → r ≠ 0 → bd = c.body ∧ bs = c.block)
  | .got _ _ => False

section Others

variable {s s' : State ι} {n : ι} {c : Call} {b : Nat} {bd bs : List Attr}

/-- The blocks that an inode and its writer look at keep their attributes. -/
def KeptFor (blockSize : Nat) (s s' : State ι) (n : ι) : Prop :=
  ∀ b, s.refs n b ≠ 0 ∨ s.held n b ≠ 0 → Kept blockSize s s' b

theorem has_of_kept {as : List Attr} (h : b ≠ 0 → Kept blockSize s s' b) (has : s.Has blockSize b as) :
    s'.Has blockSize b as := by
  by_cases hb : b = 0
  · obtain ⟨-, rfl⟩ | ⟨hne, -⟩ := has
    · exact Or.inl ⟨hb, rfl⟩
    · exact absurd hb hne
  · exact h hb as has

theorem refs_own (hb : (s.inode n).fileAcl ≠ 0) : s.refs n (s.inode n).fileAcl ≠ 0 := by
  rw [State.refs, refsOf, if_pos ⟨hb, Or.inl rfl⟩]
  exact Nat.one_ne_zero

theorem refs_second (hb : b ≠ 0) (hsecond : (s.phase n).second = b) : s.refs n b ≠ 0 := by
  rw [State.refs, refsOf, if_pos ⟨hb, Or.inr hsecond⟩]
  exact Nat.one_ne_zero

theorem KeptFor.own (h : KeptFor blockSize s s' n) {as : List Attr} (has : s.Has blockSize (s.inode n).fileAcl as) :
    s'.Has blockSize (s.inode n).fileAcl as :=
  has_of_kept (fun hb => h _ (Or.inl (refs_own hb))) has

/-- **What the others do** changes nothing for a call under way. -/
theorem Doing.kept (h : Doing blockSize s n c) (hinode : s'.inode n = s.inode n) (hphase : s'.phase n = s.phase n)
    (hkept : KeptFor blockSize s s' n) : Doing blockSize s' n c := by
  obtain ⟨job, tgt, hjob, hunder, hdone⟩ := h
  refine ⟨job, tgt, hphase.symm ▸ hjob, hinode.symm ▸ hunder, ?_⟩
  rw [hinode, hphase]
  have hprepared : ∀ base, Prepared blockSize s (s.inode n).fileAcl c job tgt base →
      Prepared blockSize s' (s.inode n).fileAcl c job tgt base := by
    intro base hbase
    cases base with
    | none => exact ⟨hbase.1, hkept.own hbase.2⟩
    | some m => exact ⟨hkept.own hbase.1, hbase.2⟩
  cases hph : s.phase n with
  | idle =>
      rw [hph] at hdone
      exact hdone
  | lock j =>
      rw [hph] at hdone
      exact ⟨hdone.1, hkept.own hdone.2⟩
  | clone j =>
      rw [hph] at hdone
      exact ⟨hdone.1, hdone.2.1, hkept.own hdone.2.2⟩
  | inserted j base =>
      rw [hph] at hdone hjob
      cases hjob
      exact ⟨hdone.1, hprepared base hdone.2⟩
  | found j base b =>
      rw [hph] at hdone hjob
      cases hjob
      obtain ⟨hsearch, hbase, hb, hne, has⟩ := hdone
      have hheld : s.held n b ≠ 0 := by
        rw [State.held, hph, heldOf, if_pos rfl]
        exact Nat.one_ne_zero
      exact ⟨hsearch, hprepared base hbase, hb, hne, has_of_kept (fun _ => hkept b (Or.inr hheld)) has⟩
  | link j new =>
      rw [hph] at hdone
      have hsecond : (s.phase n).second = new := by rw [hph]; rfl
      exact ⟨hdone.1, has_of_kept (fun hb => hkept new (Or.inl (refs_second hb hsecond))) hdone.2⟩
  | release j old =>
      rw [hph] at hdone
      exact ⟨hdone.1, hdone.2.1, hkept.own hdone.2.2⟩
  | finish j =>
      rw [hph] at hdone
      exact hkept.own hdone

theorem Contents.kept (h : Contents blockSize s n bd bs) (hinode : s'.inode n = s.inode n)
    (hkept : KeptFor blockSize s s' n) : Contents blockSize s' n bd bs := by
  rw [Contents, hinode]
  exact ⟨h.1, hkept.own h.2⟩

theorem Moved.keptFor [Fintype ι] {k : ι} {lost : Nat} (h : Moved blockSize n lost s s') (hk : k ≠ n) :
    KeptFor blockSize s s' k := fun b hb => h.kept k b hk hb

end Others

section Steps

variable {s s' : State ι} {n : ι} {c : Call} {job : Job} {tgt cur : List Attr} {m : Mem} {e : Event ι}

/-- A call that fails on its way. -/
theorem proceeds_failed {clean : Prop} {r : Int} (hunder : Underway c.info c.body c.block (s.inode n) job tgt)
    (hown : s.Has blockSize (s.inode n).fileAcl cur) (hcur : cur = c.block ∨ cur = tgt) (hr : r ≠ 0)
    (hclean : clean → job.info.value ≠ none ∧ cur = c.block) (hph : s.phase n = .idle) :
    Proceeds blockSize s n c clean (.returned n r) := by
  obtain ⟨-, ⟨hbd, hbs⟩, now, after, hplan, hx, -⟩ := hunder
  refine ⟨rfl, hph, now, cur, ⟨hx, hown⟩, hplan.returned_failed hbd hbs hr hcur, fun h _ => ?_⟩
  obtain ⟨hv, heq⟩ := hclean h
  exact ⟨hplan.now_eq hv, heq⟩

theorem Underway.tgt_eq {i : Info} {bd bs : List Attr} {x : INode} (h : Underway i bd bs x job tgt) :
    tgt = job.info.setIn true bs := by
  obtain ⟨-, -, now, after, hplan, -⟩ := h
  exact hplan.tgt_eq

/-- The change of a block with the attributes: it is made, or there is no room for a value. -/
theorem setEntry_block {i : Info} {k : Key} {sr : Search} {bs : List Attr}
    (hfinds : Finds true headerSize blockSize bs k sr)
    (hkey : i.key = k) (hi : i.Named) (hremoves : i.value = none → Keyed.lookup Attr.key k bs ≠ none)
    (hm : BlockHolds blockSize m bs) :
    (∃ m', ext4XattrSetEntry i sr true 0 m = .ok m' ∧ BlockHolds blockSize m' (i.setIn true bs) ∧
        hRefcount m' = hRefcount m) ∨
      i.value ≠ none ∧ ext4XattrSetEntry i sr true 0 m = .error (-ENOSPC) := by
  have hsets := hfinds.sets i m hkey hm.holds hi hremoves
  by_cases hspace : headerSize + demand (i.setIn true bs) ≤ blockSize
  · obtain ⟨m', hok, hholds, hframe⟩ := hsets.fits hspace
    exact Or.inl ⟨m', hok, hm.frame hframe hholds⟩
  · exact Or.inr ⟨fun hv => hspace (hm.holds.fits_removal hv), hsets.full (Nat.not_le.mp hspace)⟩

theorem State.Has.exists_block {bs : List Attr} {b : Nat} (h : s.Has blockSize b bs) (hb : b ≠ 0) :
    ∃ m, s.block b = some m ∧ BlockHolds blockSize m bs := by
  obtain ⟨hzero, -⟩ | ⟨-, hm⟩ := h
  · exact absurd hzero hb
  · exact hm

variable [DecidableEq ι]

theorem has_goto {bs : List Attr} {b : Nat} (h : s.Has blockSize b bs) (ph : Phase) :
    (s.goto n ph).Has blockSize b bs := h

/-- The next phase of a call. -/
theorem proceeds_next {clean : Prop} {ph : Phase} (hjob : ph.job = some job)
    (hunder : Underway c.info c.body c.block (s.inode n) job tgt)
    (hdone : DoneIn blockSize s (s.inode n).fileAcl c tgt ph) :
    Proceeds blockSize (s.goto n ph) n c clean .silent := by
  refine ⟨job, tgt, ?_, hunder, ?_⟩
  · rw [State.phase_goto]
    exact hjob
  · rw [State.phase_goto]
    exact hdone

variable [Fintype ι]

/-- **The start** of `ext4_xattr_block_set`. -/
theorem stepLock_spec (h : Sound blockSize s) (hsize : headerSize + 4 ≤ blockSize ∧ blockSize ≤ 65536)
    (hdoing : Doing blockSize s n c) (hph : s.phase n = .lock job) {access dirty : Int} {scanned : Bool}
    (hstep : s.stepLock blockSize n job access dirty scanned = some (s', e)) :
    Moved blockSize n 0 s s' ∧ Proceeds blockSize s' n c (access = 0 ∧ dirty = 0) e := by
  obtain ⟨_, tgt, hjob, hunder, hdone⟩ := hdoing
  rw [hph] at hjob hdone
  cases hjob
  obtain ⟨⟨hnamed, hremoves, hsearch⟩, hown⟩ := hdone
  have htgt := hunder.tgt_eq
  have hplain : (s.phase n).Plain := by
    rw [hph]
    exact ⟨rfl, fun _ => rfl⟩
  rw [State.stepLock] at hstep
  split at hstep
  next haccess =>
    cases hstep
    refine ⟨h.moved_plain hplain ⟨rfl, fun _ => rfl⟩, ?_⟩
    exact proceeds_failed hunder hown (Or.inl rfl) haccess (fun hclean => absurd hclean.1 haccess)
      (State.phase_goto s n _)
  next haccess =>
    cases hsr : job.search with
    | none =>
        rw [hsr] at hstep hsearch
        have hnil : c.block = [] := by
          obtain ⟨-, hnil⟩ | ⟨hne, -⟩ := hown
          · exact hnil
          · exact absurd hsearch hne
        rw [hnil] at hremoves htgt
        obtain ⟨m', hok, hm', hcount⟩ | ⟨hv, hfull⟩ := setEntry_block (finds_newBlock hsize.1 hsize.2 job.info.key) rfl
          hnamed hremoves (blockHolds_newBlock hsize.1 hsize.2)
        · rw [hok] at hstep
          cases hstep
          refine ⟨h.moved_plain hplain ⟨rfl, fun _ => rfl⟩,
            proceeds_next rfl hunder ⟨iff_of_true hsr hsearch, hown, ?_, ?_⟩⟩
          · rw [htgt]
            exact hm'
          · rw [hcount]
            decide
        · rw [hfull] at hstep
          cases hstep
          exact ⟨h.moved_plain hplain ⟨rfl, fun _ => rfl⟩, proceeds_failed hunder hown (Or.inl rfl) (by decide)
            (fun _ => ⟨hv, rfl⟩)
            (State.phase_goto s n _)⟩
    | some sr =>
        rw [hsr] at hstep hsearch
        obtain ⟨hne, hfinds⟩ := hsearch
        obtain ⟨m, hm, hholds⟩ := hown.exists_block hne
        dsimp only at hstep
        rw [hm] at hstep
        dsimp only at hstep
        split at hstep
        next hplace =>
          obtain ⟨hone, hfree, -⟩ := hplace
          have hdelete := State.touches_setCache s n (s.inode n).fileAcl none
          have hnone : (s.setCache (s.inode n).fileAcl none).cache (s.inode n).fileAcl = none := Function.update_self ..
          obtain ⟨m', hok, hm', hcount⟩ | ⟨hv, hfull⟩ := setEntry_block hfinds rfl hnamed hremoves hholds
          · rw [hok] at hstep
            have hwrite := hdelete.trans (State.touches_setBlock _ n (s.inode n).fileAcl (some m'))
            have hblock : ((s.setCache (s.inode n).fileAcl none).setBlock (s.inode n).fileAcl (some m')).block
                (s.inode n).fileAcl = some m' := Function.update_self ..
            have hown' : ((s.setCache (s.inode n).fileAcl none).setBlock (s.inode n).fileAcl (some m')).Has blockSize
                (s.inode n).fileAcl tgt := Or.inr ⟨hne, m', hblock, by rw [htgt]; exact hm'⟩
            dsimp only at hstep
            split at hstep
            next hdirty =>
              cases hstep
              refine ⟨h.moved_write hplain ⟨rfl, fun _ => rfl⟩ hm hone hfree hwrite rfl hnone hblock hm' hcount, ?_⟩
              exact proceeds_failed (c := c) hunder hown' (Or.inr rfl) hdirty (fun hclean => absurd hclean.2 hdirty)
                (State.phase_goto _ n _)
            next =>
              cases hstep
              refine ⟨h.moved_write hplain ⟨rfl, fun _ => rfl⟩ hm hone hfree hwrite rfl hnone hblock hm' hcount, ?_⟩
              exact proceeds_next rfl hunder ⟨iff_of_false (by rw [hsr]; exact Option.some_ne_none sr) hne,
                by rw [hsr]; exact Option.some_ne_none sr, hown'⟩
          · rw [hfull] at hstep
            cases hstep
            refine ⟨h.moved_write hplain ⟨rfl, fun _ => rfl⟩ hm hone hfree hdelete rfl hnone hm hholds rfl, ?_⟩
            exact proceeds_failed hunder hown (Or.inl rfl) (by decide) (fun _ => ⟨hv, rfl⟩) (State.phase_goto _ n _)
        next =>
          cases hstep
          exact ⟨h.moved_plain hplain ⟨rfl, fun _ => rfl⟩, proceeds_next rfl hunder
            ⟨⟨hnamed, hremoves, by rw [hsr]; exact ⟨hne, hfinds⟩⟩, by rw [hsr]; exact Option.some_ne_none sr, hown⟩⟩

/-- **Cloning.** -/
theorem stepClone_spec (h : Sound blockSize s) (hdoing : Doing blockSize s n c) (hph : s.phase n = .clone job)
    {nomem : Bool} (hstep : s.stepClone n job nomem = some (s', e)) :
    Moved blockSize n 0 s s' ∧ Proceeds blockSize s' n c (nomem = false) e := by
  obtain ⟨_, tgt, hjob, hunder, hdone⟩ := hdoing
  rw [hph] at hjob hdone
  cases hjob
  obtain ⟨⟨hnamed, hremoves, hsearch⟩, hsome, hown⟩ := hdone
  have hplain : (s.phase n).Plain := by
    rw [hph]
    exact ⟨rfl, fun _ => rfl⟩
  obtain ⟨sr, hsr⟩ := Option.ne_none_iff_exists'.mp hsome
  rw [hsr] at hsearch
  obtain ⟨hne, hfinds⟩ := hsearch
  obtain ⟨m, hm, hholds⟩ := hown.exists_block hne
  have hcopy : BlockHolds blockSize (setRefcount m 1) c.block := hholds.setRefcount (Nat.le_refl 1) (by decide)
  rw [State.stepClone, hsr, hm] at hstep
  dsimp only at hstep
  split at hstep
  next hnomem =>
    cases hstep
    refine ⟨h.moved_plain hplain ⟨rfl, fun _ => rfl⟩, proceeds_failed hunder hown (Or.inl rfl) (by decide)
      (fun hclean => ?_)
      (State.phase_goto s n _)⟩
    rw [hclean] at hnomem
    exact absurd hnomem Bool.false_ne_true
  next =>
    obtain ⟨m', hok, hm', hcount⟩ | ⟨hv, hfull⟩ := setEntry_block hfinds rfl hnamed hremoves hcopy
    · rw [hok] at hstep
      cases hstep
      refine ⟨h.moved_plain hplain ⟨rfl, fun _ => rfl⟩, proceeds_next rfl hunder ⟨iff_of_false hsome hne, hown, ?_, ?_⟩⟩
      · rw [hunder.tgt_eq]
        exact hm'
      · rw [hcount]
        exact hRefcount_setRefcount (by decide) m
    · rw [hfull] at hstep
      cases hstep
      exact ⟨h.moved_plain hplain ⟨rfl, fun _ => rfl⟩, proceeds_failed hunder hown (Or.inl rfl) (by decide)
        (fun _ => ⟨hv, rfl⟩)
        (State.phase_goto s n _)⟩

omit [DecidableEq ι] in
/-- An equal block holds the same attributes. -/
theorem has_of_candidate (h : Sound blockSize s) {b : Nat} (hcand : s.Candidate blockSize m b)
    (hm : BlockHolds blockSize m tgt) : b ≠ 0 ∧ s.Has blockSize b tgt ∧ ∃ entry, s.cache b = some entry := by
  obtain ⟨entry, hentry, mb, hmb, -, -, -, hcmp⟩ := hcand
  obtain ⟨as, has⟩ := h.blocks b mb hmb
  have htgt : tgt = as := (hm.holds.cmp_iff has.holds).mp hcmp
  have hb := h.ne_zero hmb
  rw [htgt]
  exact ⟨hb, Or.inr ⟨hb, mb, hmb, has⟩, entry, hentry⟩

/-- **The new content is stored**: in an equal block, in the block of the inode, or in a new one. -/
theorem stepInsert_spec (h : Sound blockSize s) (hdoing : Doing blockSize s n c) {base : Option Mem}
    (hph : s.phase n = .inserted job base) {hit : Option Nat} {alloc : Except Int (Nat × Int)}
    (hstep : s.stepInsert blockSize n job base hit alloc = some (s', e)) :
    ∃ lost, Moved blockSize n lost s s' ∧ (lost ≠ 0 → ∃ b dirty, alloc = .ok (b, dirty) ∧ dirty ≠ 0) ∧
      Proceeds blockSize s' n c (∃ b, alloc = .ok (b, 0)) e := by
  obtain ⟨_, tgt, hjob, hunder, hdone⟩ := hdoing
  rw [hph] at hjob hdone
  cases hjob
  obtain ⟨hsearch, hprepared⟩ := hdone
  have hplain : (s.phase n).Plain := by
    rw [hph]
    exact ⟨rfl, fun _ => rfl⟩
  obtain ⟨m, hor, hm⟩ : ∃ m, base.or (s.block (s.inode n).fileAcl) = some m ∧ BlockHolds blockSize m tgt := by
    cases base with
    | none =>
        obtain ⟨hsome, hown⟩ := hprepared
        exact hown.exists_block (mt hsearch.mpr hsome)
    | some m => exact ⟨m, rfl, hprepared.2.1⟩
  rw [State.stepInsert, hor] at hstep
  dsimp only at hstep
  split at hstep
  next hlast =>
    cases hstep
    have hnil := hm.holds.last_iff.mp hlast
    exact ⟨0, h.moved_plain hplain ⟨rfl, fun _ => rfl⟩, fun hne => absurd rfl hne,
      proceeds_next rfl hunder ⟨hsearch, Or.inl ⟨rfl, hnil⟩⟩⟩
  next =>
    cases hit with
    | some b =>
        dsimp only at hstep
        split at hstep
        next => cases hstep
        next hcand =>
          obtain ⟨hb, hhas, entry, hentry⟩ := has_of_candidate h (not_not.mp hcand) hm
          split at hstep
          next hkeep =>
            cases hstep
            refine ⟨0, h.moved_goto ?_ ?_, fun hne => absurd rfl hne, proceeds_next rfl hunder ⟨hsearch, hhas⟩⟩
            · rw [hkeep.2]
              exact refsOf_link_own hplain _
            · funext b
              rw [hplain.2]
              rfl
          next hkeep =>
            cases hstep
            have hne : b ≠ (s.inode n).fileAcl := by
              cases hsr : job.search with
              | none =>
                  rw [hsearch.mp hsr]
                  exact hb
              | some sr => exact fun heq => hkeep ⟨by rw [hsr]; rfl, heq⟩
            exact ⟨0, h.moved_hold hplain hentry, fun hne => absurd rfl hne,
              proceeds_next rfl hunder ⟨hsearch, hprepared, hb, hne, hhas⟩⟩
    | none =>
        cases base with
        | none =>
            cases hstep
            obtain ⟨hinode, -, hblock⟩ := State.cacheInsert_frame s (s.inode n).fileAcl m
            have hunder' : Underway c.info c.body c.block ((s.cacheInsert (s.inode n).fileAcl m).inode n) job tgt := by
              rw [hinode]
              exact hunder
            refine ⟨0, h.moved_entry hor (refsOf_link_own hplain _) ?_, fun hne => absurd rfl hne,
              proceeds_next rfl hunder' ?_⟩
            · funext b
              rw [hplain.2]
              rfl
            · rw [hinode]
              refine ⟨hsearch, ?_⟩
              rw [State.Has, hblock]
              exact hprepared.2
        | some m' =>
            cases hor
            dsimp only at hstep
            cases alloc with
            | error err =>
                dsimp only at hstep
                split at hstep
                next => cases hstep
                next herr =>
                  cases hstep
                  have hfail : ¬∃ b, (.error err : Except Int (Nat × Int)) = .ok (b, 0) := by
                    rintro ⟨b, hb⟩
                    cases hb
                  exact ⟨0, h.moved_plain hplain ⟨rfl, fun _ => rfl⟩, fun hne => absurd rfl hne,
                    proceeds_failed hunder hprepared.1 (Or.inl rfl) herr (fun hclean => absurd hclean hfail)
                      (State.phase_goto s n _)⟩
            | ok new =>
                obtain ⟨b, dirty⟩ := new
                dsimp only at hstep
                split at hstep
                next => cases hstep
                next hb =>
                  obtain ⟨hb, hfree⟩ := not_or.mp hb
                  have hfree : s.block b = none := Option.not_isSome_iff_eq_none.mp hfree
                  obtain ⟨hinode, -, hblock⟩ := State.cacheInsert_frame (s.setBlock b (some m)) b m
                  generalize hnew : (s.setBlock b (some m)).cacheInsert b m = t at *
                  have hother : ∀ b', b' ≠ b → t.block b' = s.block b' := by
                    intro b' hb'
                    rw [hblock]
                    exact Function.update_of_ne hb' ..
                  have hthere : t.Has blockSize b tgt := by
                    refine Or.inr ⟨hb, m, ?_, hm⟩
                    rw [hblock]
                    exact Function.update_self ..
                  have hown : t.Has blockSize (t.inode n).fileAcl c.block := by
                    have hne : (s.inode n).fileAcl ≠ b := by
                      rintro rfl
                      obtain ⟨m', hm', -⟩ := hprepared.1.exists_block hb
                      rw [hfree] at hm'
                      exact absurd hm'.symm (Option.some_ne_none m')
                    rw [hinode]
                    show AclHolds blockSize (s.inode n).fileAcl (t.block (s.inode n).fileAcl) c.block
                    rw [hother _ hne]
                    exact hprepared.1
                  have hunder' : Underway c.info c.body c.block (t.inode n) job tgt := by
                    rw [hinode]
                    exact hunder
                  split at hstep
                  next hdirty =>
                    cases hstep
                    have hfail : ¬∃ b', (.ok (b, dirty) : Except Int (Nat × Int)) = .ok (b', 0) := by
                      rintro ⟨b', heq⟩
                      cases heq
                      exact hdirty rfl
                    refine ⟨1, ?_, fun _ => ⟨b, dirty, rfl, hdirty⟩, proceeds_failed (c := c) hunder' hown (Or.inl rfl)
                      hdirty (fun hclean => absurd hclean hfail) (State.phase_goto t n _)⟩
                    rw [← hnew]
                    exact h.moved_alloc hplain job hb hfree hm hprepared.2.2 (Or.inr ⟨rfl, rfl⟩)
                  next hclean =>
                    cases hstep
                    refine ⟨0, ?_, fun hne => absurd rfl hne, proceeds_next rfl hunder' ⟨?_, hthere⟩⟩
                    · rw [← hnew]
                      exact h.moved_alloc hplain job hb hfree hm hprepared.2.2 (Or.inl ⟨rfl, rfl⟩)
                    · rw [hinode]
                      exact hsearch

/-- **Sharing**: the reference to the equal block. -/
theorem stepReuse_spec (h : Sound blockSize s) (hdoing : Doing blockSize s n c) {base : Option Mem} {b : Nat}
    (hph : s.phase n = .found job base b) {quota access dirty : Int}
    (hstep : s.stepReuse n job base b quota access dirty = some (s', e)) :
    ∃ lost, Moved blockSize n lost s s' ∧ (lost ≠ 0 → dirty ≠ 0) ∧
      Proceeds blockSize s' n c (quota = 0 ∧ access = 0 ∧ dirty = 0) e := by
  obtain ⟨_, tgt, hjob, hunder, hdone⟩ := hdoing
  rw [hph] at hjob hdone
  cases hjob
  obtain ⟨hsearch, hprepared, hb, hne, hhas⟩ := hdone
  obtain ⟨m, hm, hholds⟩ := hhas.exists_block hb
  obtain ⟨cur, hown, hcur⟩ : ∃ cur, s.Has blockSize (s.inode n).fileAcl cur ∧ (cur = c.block ∨ cur = tgt) := by
    cases base with
    | none => exact ⟨tgt, hprepared.2, Or.inr rfl⟩
    | some m' => exact ⟨c.block, hprepared.1, Or.inl rfl⟩
  have hput : ∀ ph, ph.Plain → Moved blockSize n 0 s ((s.cachePut b).goto n ph) := fun ph => h.moved_put hph
  rw [State.stepReuse, hm] at hstep
  dsimp only at hstep
  split at hstep
  next hquota =>
    cases hstep
    exact ⟨0, hput .idle ⟨rfl, fun _ => rfl⟩, fun hne => absurd rfl hne, proceeds_failed (c := c) hunder hown hcur
      hquota (fun hclean => absurd hclean.1 hquota) (State.phase_goto _ n _)⟩
  next =>
    split at hstep
    next haccess =>
      cases hstep
      exact ⟨0, hput .idle ⟨rfl, fun _ => rfl⟩, fun hne => absurd rfl hne, proceeds_failed (c := c) hunder hown hcur
        haccess (fun hclean => absurd hclean.2.1 haccess) (State.phase_goto _ n _)⟩
    next =>
      split at hstep
      next =>
        -- look for another one
        cases hstep
        exact ⟨0, hput _ ⟨rfl, fun _ => rfl⟩, fun hne => absurd rfl hne, proceeds_next rfl hunder ⟨hsearch, hprepared⟩⟩
      next hle =>
        have hle := Nat.not_lt.mp hle
        obtain ⟨htouch, hinode, hblock, -⟩ := recount_frame s n b m (hRefcount m + 1)
          (hRefcount m + 1 = EXT4_XATTR_REFCOUNT_MAX) false
        have hmoved : ∀ {ph lost}, (ph = .link job b ∧ lost = 0 ∨ ph = .idle ∧ lost = 1) → Moved blockSize n lost s
            (((s.recount b m (hRefcount m + 1) (hRefcount m + 1 = EXT4_XATTR_REFCOUNT_MAX) false).cachePut b).goto n
              ph) := fun {ph lost} hnext => h.moved_reuse hph hne hm hle hnext
        change (if dirty ≠ 0 then State.ret ((s.recount b m (hRefcount m + 1)
            (hRefcount m + 1 = EXT4_XATTR_REFCOUNT_MAX) false).cachePut b) n dirty
          else State.next ((s.recount b m (hRefcount m + 1) (hRefcount m + 1 = EXT4_XATTR_REFCOUNT_MAX) false).cachePut
            b) n (.link job b)) = some (s', e) at hstep
        generalize s.recount b m (hRefcount m + 1) (hRefcount m + 1 = EXT4_XATTR_REFCOUNT_MAX) false = t at *
        have hunder' : Underway c.info c.body c.block ((t.cachePut b).inode n) job tgt := by
          show Underway c.info c.body c.block (t.inode n) job tgt
          rw [hinode]
          exact hunder
        have hown' : (t.cachePut b).Has blockSize ((t.cachePut b).inode n).fileAcl cur := by
          show AclHolds blockSize (t.inode n).fileAcl (t.block (t.inode n).fileAcl) cur
          rw [hinode, htouch.block _ (Ne.symm hne)]
          exact hown
        split at hstep
        next hdirty =>
          cases hstep
          exact ⟨1, hmoved (Or.inr ⟨rfl, rfl⟩), fun _ => hdirty, proceeds_failed (c := c) hunder' hown' hcur hdirty
            (fun hclean => absurd hclean.2.2 hdirty) (State.phase_goto _ n _)⟩
        next =>
          cases hstep
          refine ⟨0, hmoved (Or.inl ⟨rfl, rfl⟩), fun hne => absurd rfl hne, proceeds_next rfl hunder' ⟨?_, ?_⟩⟩
          · show job.search = none ↔ (t.inode n).fileAcl = 0
            rw [hinode]
            exact hsearch
          · exact Or.inr ⟨hb, _, hblock, hholds.setRefcount (Nat.le_add_left 1 _) hle⟩

/-- The inode with another block. -/
theorem Underway.setAcl {i : Info} {bd bs : List Attr} {x : INode} (h : Underway i bd bs x job tgt) (new : Nat) :
    Underway i bd bs { x with fileAcl := new } job tgt := by
  obtain ⟨hi, hbefore, now, after, hplan, hx, hfinish⟩ := h
  exact ⟨hi, hbefore, now, after, hplan, ⟨hx.space, hx.noSpace, hx.marked, hx.magic⟩, hfinish⟩

/-- **The inode is updated.** -/
theorem stepLink_spec (h : Sound blockSize s) (hdoing : Doing blockSize s n c) {new : Nat}
    (hph : s.phase n = .link job new) (hstep : s.stepLink n job new = some (s', e)) {clean : Prop} :
    Moved blockSize n 0 s s' ∧ Proceeds blockSize s' n c clean e := by
  obtain ⟨_, tgt, hjob, hunder, hdone⟩ := hdoing
  rw [hph] at hjob hdone
  cases hjob
  obtain ⟨hsearch, hhas⟩ := hdone
  have hx : (s.setInode n { s.inode n with fileAcl := new }).inode n = { s.inode n with fileAcl := new } :=
    Function.update_self ..
  have hunder' : Underway c.info c.body c.block ((s.setInode n { s.inode n with fileAcl := new }).inode n) job tgt := by
    rw [hx]
    exact hunder.setAcl new
  have hheld : ∀ b, heldOf (s.phase n) b = 0 := by
    rw [hph]
    exact fun _ => rfl
  have hsecond : (s.phase n).second = new := by
    rw [hph]
    rfl
  rw [State.stepLink] at hstep
  dsimp only at hstep
  split at hstep
  next hrelease =>
    cases hstep
    obtain ⟨hsome, hne⟩ := hrelease
    have hzero : (s.inode n).fileAcl ≠ 0 := fun hzero => by
      rw [hsearch.mpr hzero] at hsome
      exact Bool.false_ne_true hsome
    refine ⟨h.moved_link hheld (fun _ => rfl) fun b _ => ?_, proceeds_next rfl hunder' ⟨hzero, ?_, ?_⟩⟩
    · rw [hsecond]
      exact or_comm
    · rw [hx]
      exact hne
    · rw [hx]
      exact hhas
  next hrelease =>
    cases hstep
    refine ⟨h.moved_link hheld (fun _ => rfl) fun b hb => ?_, proceeds_next rfl hunder' ?_⟩
    · rw [hsecond]
      have hidle : ¬0 = b := Ne.symm hb
      have hold : (s.inode n).fileAcl = b → new = b := by
        rintro rfl
        cases hsr : job.search with
        | none => exact absurd (hsearch.mp hsr) hb
        | some sr =>
            rw [hsr] at hrelease
            exact (not_not.mp fun hne => hrelease ⟨rfl, hne⟩).symm
      exact ⟨fun hor => Or.inr (hor.resolve_right hidle), fun hor => Or.inl (hor.elim hold id)⟩
    · rw [hx]
      exact hhas

/-- **The old block is released.** -/
theorem stepRelease_spec (h : Sound blockSize s) (hdoing : Doing blockSize s n c) {old : Nat}
    (hph : s.phase n = .release job old) {access : Int} (hstep : s.stepRelease n job old access = some (s', e))
    {clean : Prop} :
    ∃ lost, Moved blockSize n lost s s' ∧ (lost ≠ 0 → access ≠ 0) ∧ Proceeds blockSize s' n c clean e := by
  obtain ⟨_, tgt, hjob, hunder, hdone⟩ := hdoing
  rw [hph] at hjob hdone
  cases hjob
  obtain ⟨hb, hne, hown⟩ := hdone
  rw [State.stepRelease] at hstep
  split at hstep
  next haccess =>
    cases hstep
    exact ⟨1, h.moved_leak hph hb hne, fun _ => haccess, proceeds_next rfl hunder hown⟩
  next =>
    cases hm : s.block old with
    | none =>
        rw [hm] at hstep
        cases hstep
    | some m =>
        rw [hm] at hstep
        dsimp only at hstep
        split at hstep
        next hone =>
          split at hstep
          next => cases hstep
          next hfree =>
            cases hstep
            have hkept : ((s.setCache old none).setBlock old none).Has blockSize (s.inode n).fileAcl tgt := by
              show AclHolds blockSize (s.inode n).fileAcl (Function.update s.block old none (s.inode n).fileAcl) tgt
              rw [Function.update_of_ne (Ne.symm hne)]
              exact hown
            exact ⟨0, h.moved_free hph hb hne hm hone hfree, fun hne => absurd rfl hne, proceeds_next rfl hunder hkept⟩
        next hmany =>
          obtain ⟨htouch, hinode, -⟩ := recount_frame s n old m (hRefcount m - 1)
            (hRefcount m - 1 = EXT4_XATTR_REFCOUNT_MAX - 1) true
          have hmoved := h.moved_drop hph hb hne hm hmany
          change State.next (s.recount old m (hRefcount m - 1) (hRefcount m - 1 = EXT4_XATTR_REFCOUNT_MAX - 1) true) n
            (.finish job) = some (s', e) at hstep
          generalize s.recount old m (hRefcount m - 1) (hRefcount m - 1 = EXT4_XATTR_REFCOUNT_MAX - 1) true = t at *
          cases hstep
          have hunder' : Underway c.info c.body c.block (t.inode n) job tgt := by
            rw [hinode]
            exact hunder
          refine ⟨0, hmoved, fun hne => absurd rfl hne, proceeds_next rfl hunder' ?_⟩
          show AclHolds blockSize (t.inode n).fileAcl (t.block (t.inode n).fileAcl) tgt
          rw [hinode, htouch.block _ (Ne.symm hne)]
          exact hown

/-- **The end** of a call that has written the block. -/
theorem stepFinish_spec (h : Sound blockSize s) (hdoing : Doing blockSize s n c) (hph : s.phase n = .finish job)
    (hstep : s.stepFinish n job = some (s', e)) {clean : Prop} :
    Moved blockSize n 0 s s' ∧ Proceeds blockSize s' n c clean e := by
  obtain ⟨_, tgt, hjob, hunder, hown⟩ := hdoing
  rw [hph] at hjob hown
  cases hjob
  obtain ⟨hi, ⟨hbd, hbs⟩, now, after, hplan, hx, hfinish⟩ := hunder
  have hreturned := hplan.returned hbd hbs hi
  rw [State.stepFinish] at hstep
  cases hbody : job.body with
  | none =>
      rw [hbody] at hstep hfinish
      cases hstep
      have hafter : after = now := hfinish
      rw [hafter] at hreturned
      have hplain : (s.phase n).Plain := by
        rw [hph]
        exact ⟨rfl, fun _ => rfl⟩
      exact ⟨h.moved_plain hplain ⟨rfl, fun _ => rfl⟩, rfl, State.phase_goto s n _, now, tgt, ⟨hx, hown⟩, hreturned,
        fun _ hr => absurd rfl hr⟩
  | some waiting =>
      obtain ⟨j, sr⟩ := waiting
      rw [hbody] at hstep hfinish
      obtain ⟨hfinds, hj, hv, hsome, rfl⟩ := hfinish
      obtain ⟨x', hok, -, hacl, hx'⟩ | ⟨hvalue, -⟩ := hfinds.sets j (s.inode n) rfl rfl hx hj fun _ => hsome
      · dsimp only at hstep
        rw [hok] at hstep
        cases hstep
        have hinode : (s.setInode n x').inode n = x' := Function.update_self ..
        refine ⟨h.moved_link ?_ (fun _ => rfl) fun b _ => ?_, rfl, State.phase_goto _ n _, _, tgt, ⟨?_, ?_⟩, hreturned,
          fun _ hr => absurd rfl hr⟩
        · rw [hph]
          exact fun _ => rfl
        · rw [hacl, hph]
          rfl
        · show InodeHolds ((s.setInode n x').inode n) _
          rw [hinode]
          exact hx'
        · show AclHolds blockSize ((s.setInode n x').inode n).fileAcl (s.block ((s.setInode n x').inode n).fileAcl) tgt
          rw [hinode, hacl]
          exact hown
      · exact absurd hv hvalue

/-- **The beginning** of a call. -/
theorem stepBegin_spec (h : Sound blockSize s) {bd bs : List Attr} (hcontents : Contents blockSize s n bd bs)
    (hph : s.phase n = .idle) {req : Request} {fault : Int}
    (hstep : s.stepBegin blockSize n req fault = some (s', e)) {clean : Prop} :
    Moved blockSize n 0 s s' ∧ Proceeds blockSize s' n ⟨req.info, bd, bs⟩ clean e := by
  have hplain : (s.phase n).Plain := by
    rw [hph]
    exact ⟨rfl, fun _ => rfl⟩
  obtain ⟨hx, hown⟩ := hcontents
  rw [State.stepBegin] at hstep
  split at hstep
  next hfault =>
    cases hstep
    exact ⟨h.moved_plain hplain ⟨rfl, fun _ => rfl⟩, rfl, State.phase_goto s n _, bd, bs, ⟨hx, hown⟩,
      returned_failed hfault, fun _ _ => ⟨rfl, rfl⟩⟩
  next =>
    have hhandled := setHandle_handled hx hown req
    have hmoved : ∀ {x' : INode} {ph : Phase}, x'.fileAcl = (s.inode n).fileAcl → ph.Plain →
        Moved blockSize n 0 s ((s.setInode n x').goto n ph) := by
      intro x' ph hacl hnext
      apply h.moved_link hplain.2 hnext.2
      intro b _
      rw [hacl, hplain.1, hnext.1]
    cases hstart : ext4XattrSetHandle blockSize req (s.block (s.inode n).fileAcl) (s.inode n) with
    | done x' r =>
        rw [hstart] at hstep hhandled
        cases hstep
        obtain ⟨hacl, bd', hsame, hx', hreturned⟩ := hhandled
        have hinode : (s.setInode n x').inode n = x' := Function.update_self ..
        refine ⟨hmoved hacl ⟨rfl, fun _ => rfl⟩, rfl, State.phase_goto _ n _, bd', bs, ⟨?_, ?_⟩, hreturned,
          fun _ hr => ⟨hsame hr, rfl⟩⟩
        · show InodeHolds ((s.setInode n x').inode n) bd'
          rw [hinode]
          exact hx'
        · show AclHolds blockSize ((s.setInode n x').inode n).fileAcl (s.block ((s.setInode n x').inode n).fileAcl) bs
          rw [hinode, hacl]
          exact hown
    | blockSet x' job =>
        rw [hstart] at hstep hhandled
        cases hstep
        obtain ⟨hacl, tgt, hunder, hfeasible⟩ := hhandled
        have hinode : (s.setInode n x').inode n = x' := Function.update_self ..
        have hunder' : Underway req.info bd bs ((s.setInode n x').inode n) job tgt := by
          rw [hinode]
          exact hunder
        refine ⟨hmoved hacl ⟨rfl, fun _ => rfl⟩, proceeds_next (c := ⟨req.info, bd, bs⟩) rfl hunder' ⟨?_, ?_⟩⟩
        · rw [hinode, hacl]
          exact hfeasible
        · show AclHolds blockSize ((s.setInode n x').inode n).fileAcl (s.block ((s.setInode n x').inode n).fileAcl) bs
          rw [hinode, hacl]
          exact hown

end Steps

end OsHw.Xattr.Store
