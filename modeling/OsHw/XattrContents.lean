import OsHw.XattrStore

/-! What an inode holds: the attributes of its body and those of its block. A name is read from the body first, so an
attribute of the block is seen when the body has none of that name. The searches of `ext4_xattr_set_handle` depend on
the attributes alone, not on the bytes that hold them, so a search stays good while the block is shared, copied or
counted anew. -/

namespace OsHw.Xattr.Store

variable {isBlock : Bool} {p hi blockSize : Nat} {m m' : Mem} {as bs bd : List Attr} {i : Info} {k : Key} {s : Search}
  {x : INode}

section Search

/-- The search for a key, in every area with these attributes. -/
structure Finds (isBlock : Bool) (p hi : Nat) (as : List Attr) (k : Key) (s : Search) : Prop where
  notFound : s.notFound = (Keyed.lookup Attr.key k as).isNone
  search : ∀ i m, i.key = k → Holds isBlock p hi m as → searchEntry i p hi isBlock m = .ok s
  sets : ∀ i m, i.key = k → Holds isBlock p hi m as → i.Named →
    (i.value = none → Keyed.lookup Attr.key k as ≠ none) → Sets i s isBlock 0 p hi m as
  same : ∀ m value, Holds isBlock p hi m as → s.notFound = false → ext4XattrValueSame m s value = true →
    ∃ a, Keyed.lookup Attr.key k as = some a ∧ a.value = value

/-- The value that is compared is the one of the attribute. -/
theorem value_of_same {lo : Nat} {l r : List Slot} {a : Attr} {value : Bytes} {notFound : Bool}
    (h : Split isBlock true p hi m k lo l r as (a :: bs))
    (hsame : ext4XattrValueSame m ⟨p, hi, p + namesSpace as, notFound⟩ value = true) : a.value = value := by
  obtain ⟨-, e, r', rfl, hattr, -, hsize⟩ := h.hit
  have hentry := h.layout.names.entries.middle
  rw [namesSize_of_stored h.left] at hentry
  have hvalue : m.bytes e.offs e.size = a.value := congrArg Attr.value hattr
  obtain ⟨-, hlen, hbytes⟩ := of_decide_eq_true hsame
  rw [hentry.valueSize] at hlen
  rw [hentry.valueOffs, ← hlen, hvalue] at hbytes
  exact hbytes

theorem exists_finds (h : Holds isBlock p hi m as) (k : Key) : ∃ s, Finds isBlock p hi as k s := by
  have hordered := h.ordered
  obtain ⟨bs, cs, found, rfl, hstops⟩ := Keyed.exists_stops compareKey Attr.key isBlock k as
  refine ⟨⟨p, hi, p + namesSpace bs, !found⟩, ?_, ?_, ?_, ?_⟩
  · cases found with
    | false => rw [hstops.lookup_miss hordered]; rfl
    | true =>
        obtain ⟨a, cs, rfl, -, hhit⟩ := hstops.lookup_hit
        rw [hhit]
        rfl
  · rintro i m rfl hm
    obtain ⟨lo, l, r, hsplit⟩ := hm.split_of_stops hstops
    exact hsplit.search
  · rintro i m rfl hm hi' hcase
    obtain ⟨lo, l, r, hsplit⟩ := hm.split_of_stops hstops
    cases found with
    | false =>
        cases hv : i.value with
        | none => exact absurd (hstops.lookup_miss hordered) (hcase hv)
        | some v => exact hm.sets_insert hsplit hi' hv
    | true =>
        obtain ⟨a, cs, rfl, -⟩ := hstops.lookup_hit
        cases hv : i.value with
        | none => exact hm.sets_remove hsplit hi' hv
        | some v => exact hm.sets_update hsplit hi' hv
  · intro m value hm hfound hsame
    cases found with
    | false => exact absurd hfound.symm Bool.false_ne_true
    | true =>
        obtain ⟨a, cs, rfl, -, hhit⟩ := hstops.lookup_hit
        obtain ⟨lo, l, r, hsplit⟩ := hm.split_of_stops hstops
        exact ⟨a, hhit, value_of_same hsplit hsame⟩

end Search

section Body

/-- The body of the inode holds the attributes. The flag says whether there are any, and without it nobody reads
the magic number. -/
structure InodeHolds (x : INode) (as : List Attr) : Prop where
  space : 4 ≤ x.size → Holds false 0 x.size x.area as
  noSpace : x.size < 4 → as = []
  marked : x.stateXattr = false → as = []
  magic : x.stateXattr = true → 4 ≤ x.size ∧ x.magic = EXT4_XATTR_MAGIC

theorem InodeHolds.ordered (h : InodeHolds x as) : Keyed.Ordered compareKey Attr.key false as := by
  by_cases hsize : 4 ≤ x.size
  · exact (h.space hsize).ordered
  · rw [h.noSpace (Nat.not_le.mp hsize)]
    exact List.Pairwise.nil

theorem InodeHolds.ibodyGet (h : InodeHolds x as) (nameIndex : Nat) (name : Bytes) (buffer : Option Nat) :
    ext4XattrIbodyGet x nameIndex name buffer = readAttr buffer (Keyed.lookup Attr.key (nameIndex, name) as) := by
  rw [ext4XattrIbodyGet]
  cases hstate : x.stateXattr with
  | false =>
      rw [h.marked hstate]
      rfl
  | true =>
      obtain ⟨hsize, hmagic⟩ := h.magic hstate
      rw [if_neg (by decide), if_neg (by rw [hmagic]; omega)]
      exact (h.space hsize).getEntry_eq nameIndex name buffer _

/-- A search in the body, for every body of that size with the attributes. -/
structure BodyFinds (size : Nat) (as : List Attr) (k : Key) (s : Search) : Prop where
  notFound : s.notFound = (Keyed.lookup Attr.key k as).isNone
  search : ∀ i x, i.key = k → x.size = size → InodeHolds x as → ext4XattrIbodyFind i x = .ok s
  sets : ∀ i x, i.key = k → x.size = size → InodeHolds x as → i.Named →
    (i.value = none → Keyed.lookup Attr.key k as ≠ none) →
    (∃ x', ext4XattrIbodySet i s x = .ok x' ∧ x'.size = size ∧ x'.fileAcl = x.fileAcl ∧
        InodeHolds x' (i.setIn false as)) ∨
      i.value ≠ none ∧ ext4XattrIbodySet i s x = .error (-ENOSPC)
  same : ∀ x value, x.size = size → InodeHolds x as → s.notFound = false →
    ext4XattrValueSame x.area s value = true → ∃ a, Keyed.lookup Attr.key k as = some a ∧ a.value = value

theorem InodeHolds.bodyFind (h : InodeHolds x as) (i : Info) (hsize : 4 ≤ x.size) :
    ext4XattrIbodyFind i x = searchEntry i 0 x.size false x.area := by
  rw [ext4XattrIbodyFind, if_neg (by omega)]
  cases hstate : x.stateXattr with
  | false =>
      have hholds := h.space hsize
      have hlast : IsLastEntry x.area 0 := hholds.last_iff.mpr (h.marked hstate)
      obtain ⟨n, hn⟩ := Nat.exists_eq_add_one_of_ne_zero (by omega : x.size ≠ 0)
      have hfind : findEntry x.area x.size i.nameIndex i.name false x.size 0 = .ok (false, 0) := by
        rw [hn, findEntry, if_pos hlast]
      rw [if_neg (by decide), searchEntry, hfind]
      rfl
  | true =>
      obtain ⟨-, hmagic⟩ := h.magic hstate
      have hcheck := (h.space hsize).check
      rw [if_pos rfl, if_neg (not_not.mpr hmagic), hcheck]
      exact if_neg (not_not.mpr rfl)

theorem InodeHolds.finds_of_space (h : InodeHolds x as) (hsize : 4 ≤ x.size) (k : Key) :
    ∃ s, BodyFinds x.size as k s := by
  obtain ⟨s, hs⟩ := exists_finds (h.space hsize) k
  refine ⟨s, hs.notFound, ?_, ?_, ?_⟩
  · intro i y hkey hy hholds
    rw [hholds.bodyFind i (by omega), hy]
    apply hs.search i y.area hkey
    rw [← hy]
    exact hholds.space (by omega)
  · intro i y hkey hy hholds hi' hcase
    have harea := hholds.space (by omega)
    rw [hy] at harea
    have hsets := hs.sets i y.area hkey harea hi' hcase
    rw [ext4XattrIbodySet, if_neg (by omega)]
    by_cases hspace : 0 + demand (i.setIn false as) ≤ x.size
    · obtain ⟨m', hok, hm', -⟩ := hsets.fits hspace
      have hfirst : s.first = 0 := by
        have hsearch := hs.search i y.area hkey harea
        rw [searchEntry] at hsearch
        cases hfind : findEntry y.area x.size i.nameIndex i.name false x.size 0 with
        | error err =>
            rw [hfind] at hsearch
            cases hsearch
        | ok found =>
            rw [hfind] at hsearch
            cases hsearch
            rfl
      have hlast := hm'.last_iff
      rw [hok, hfirst]
      refine Or.inl ?_
      dsimp only
      split
      next hl =>
        exact ⟨_, rfl, hy, rfl, fun _ => by rw [hy]; exact hm', fun hlt => absurd hlt (by dsimp only; omega),
          fun _ => hlast.mp hl, fun hfalse => absurd hfalse (by dsimp only; decide)⟩
      next hl =>
        exact ⟨_, rfl, hy, rfl, fun _ => by rw [hy]; exact hm', fun hlt => absurd hlt (by dsimp only; omega),
          fun hfalse => absurd hfalse (by dsimp only; decide), fun _ => ⟨by dsimp only; omega, rfl⟩⟩
    · rw [hsets.full (Nat.not_le.mp hspace)]
      exact Or.inr ⟨fun hv => hspace (harea.fits_removal hv), rfl⟩
  · intro y value hy hholds hfound hsame
    apply hs.same y.area value _ hfound hsame
    rw [← hy]
    exact hholds.space (by omega)

theorem InodeHolds.finds (h : InodeHolds x as) (k : Key) : ∃ s, BodyFinds x.size as k s := by
  by_cases hsize : 4 ≤ x.size
  · exact h.finds_of_space hsize k
  · have hlt := Nat.not_le.mp hsize
    obtain rfl := h.noSpace hlt
    refine ⟨⟨0, 0, 0, true⟩, rfl, ?_, ?_, fun _ _ _ _ hfalse => absurd hfalse (by decide)⟩
    · intro i y _ hy _
      rw [ext4XattrIbodyFind, if_pos (by omega)]
    · intro i y _ hy _ _ hcase
      refine Or.inr ⟨fun hv => hcase hv rfl, ?_⟩
      rw [ext4XattrIbodySet, if_pos (by omega)]

end Body

section Block

/-- A block that holds the attributes and is counted within bounds. -/
structure BlockHolds (blockSize : Nat) (m : Mem) (as : List Attr) : Prop where
  magic : hMagic m = EXT4_XATTR_MAGIC
  blocks : hBlocks m = 1
  counted : 1 ≤ hRefcount m ∧ hRefcount m ≤ EXT4_XATTR_REFCOUNT_MAX
  holds : Holds true headerSize blockSize m as

theorem BlockHolds.check (h : BlockHolds blockSize m as) : ext4XattrCheckBlock blockSize m = 0 := by
  rw [ext4XattrCheckBlock, if_neg (by rw [h.magic, h.blocks]; decide)]
  exact h.holds.check

/-- The attributes of the block that the inode names, none without a block. -/
def AclHolds (blockSize fileAcl : Nat) (block : Option Mem) (as : List Attr) : Prop :=
  fileAcl = 0 ∧ as = [] ∨ fileAcl ≠ 0 ∧ ∃ m, block = some m ∧ BlockHolds blockSize m as

variable {block : Option Mem} {fileAcl : Nat}

theorem AclHolds.ordered (h : AclHolds blockSize fileAcl block as) : Keyed.Ordered compareKey Attr.key true as := by
  obtain ⟨-, rfl⟩ | ⟨-, m, -, hm⟩ := h
  · exact List.Pairwise.nil
  · exact hm.holds.ordered

theorem AclHolds.blockGet (h : AclHolds blockSize fileAcl block as) (nameIndex : Nat) (name : Bytes)
    (buffer : Option Nat) :
    ext4XattrBlockGet blockSize fileAcl block nameIndex name buffer =
      readAttr buffer (Keyed.lookup Attr.key (nameIndex, name) as) := by
  obtain ⟨rfl, rfl⟩ | ⟨hne, m, rfl, hm⟩ := h
  · exact if_pos rfl
  · rw [ext4XattrBlockGet, if_neg hne, if_neg (by rw [hm.magic, hm.blocks]; decide)]
    exact hm.holds.getEntry_eq nameIndex name buffer _

theorem AclHolds.blockFind (h : AclHolds blockSize fileAcl block as) (i : Info) :
    (fileAcl = 0 ∧ as = [] ∧ ext4XattrBlockFind blockSize i fileAcl block = .ok none) ∨
      fileAcl ≠ 0 ∧ ∃ s, Finds true headerSize blockSize as i.key s ∧
        ext4XattrBlockFind blockSize i fileAcl block = .ok (some s) ∧ ∃ m, block = some m ∧
          BlockHolds blockSize m as := by
  obtain ⟨rfl, rfl⟩ | ⟨hne, m, rfl, hm⟩ := h
  · exact Or.inl ⟨rfl, rfl, if_pos rfl⟩
  · obtain ⟨s, hs⟩ := exists_finds hm.holds i.key
    refine Or.inr ⟨hne, s, hs, ?_, m, rfl, hm⟩
    rw [ext4XattrBlockFind, if_neg hne, hm.check, if_neg (not_not.mpr rfl), hs.search i m rfl hm.holds]
    rfl

theorem BlockHolds.frame (h : BlockHolds blockSize m as) (hframe : Frame true headerSize blockSize m m')
    (hholds : Holds true headerSize blockSize m' bs) :
    BlockHolds blockSize m' bs ∧ hRefcount m' = hRefcount m := by
  have hload : ∀ a n, a + n ≤ 12 → m'.load a n = m.load a n := fun a n ha =>
    Mem.load_congr fun j hj => hframe (a + j) (Or.inl (by rw [headerSize]; omega)) fun _ => Or.inl (by omega)
  have hcount : hRefcount m' = hRefcount m := hload 4 4 (by omega)
  refine ⟨⟨(hload 0 4 (by omega)).trans h.magic, (hload 8 4 (by omega)).trans h.blocks, ?_, hholds⟩, hcount⟩
  rw [hcount]
  exact h.counted

theorem hRefcount_setRefcount {ref : Nat} (href : ref ≤ EXT4_XATTR_REFCOUNT_MAX) (m : Mem) :
    hRefcount (setRefcount m ref) = ref := by
  have hmax : EXT4_XATTR_REFCOUNT_MAX = 1024 := rfl
  calc hRefcount (setRefcount m ref) = ref % 256 ^ 4 := Mem.load_store_self ..
    _ = ref := Nat.mod_eq_of_lt (by omega)

theorem hHash_setRefcount (m : Mem) (ref : Nat) : hHash (setRefcount m ref) = hHash m :=
  Mem.load_store_disjoint (by omega)

/-- Counting a block anew leaves the attributes. -/
theorem holds_setRefcount (h : Holds true headerSize blockSize m as) (ref : Nat) :
    Holds true headerSize blockSize (setRefcount m ref) as := by
  obtain ⟨es, lo, hlayout, hpacked, hright, hstored⟩ := h.slots
  have hsame : ∀ x, headerSize ≤ x → x < blockSize → setRefcount m ref x = m x := fun x hx _ =>
    Mem.store_of_outside (Or.inr (Nat.le_trans (by decide) hx))
  obtain ⟨hlayout', hcontent⟩ := hlayout.congr hsame
  refine ⟨⟨es, lo, hlayout', hpacked, fun hblock => ?_, ?_⟩, h.ordered, h.noNul, h.header⟩
  · rw [hHash_setRefcount]
    exact hright hblock
  · rw [← hstored]
    exact stored_congr hcontent

theorem BlockHolds.setRefcount (h : BlockHolds blockSize m as) {ref : Nat} (hpos : 1 ≤ ref)
    (hle : ref ≤ EXT4_XATTR_REFCOUNT_MAX) : BlockHolds blockSize (setRefcount m ref) as := by
  have hcount := hRefcount_setRefcount hle m
  refine ⟨?_, ?_, by rw [hcount]; exact ⟨hpos, hle⟩, holds_setRefcount h.holds ref⟩
  · exact (Mem.load_store_disjoint (by omega)).trans h.magic
  · exact (Mem.load_store_disjoint (by omega)).trans h.blocks

/-- A block without attributes. -/
theorem blockHolds_newBlock (hmin : headerSize + 4 ≤ blockSize) (hmax : blockSize ≤ 65536) :
    BlockHolds blockSize newBlock [] := by
  refine ⟨by decide, by decide, by decide, holds_nil ?_ hmin hmax fun _ => ⟨rfl, by decide⟩⟩
  decide

/-- The search in a block without attributes ends where it begins. -/
theorem finds_newBlock (hmin : headerSize + 4 ≤ blockSize) (hmax : blockSize ≤ 65536) (k : Key) :
    Finds true headerSize blockSize [] k ⟨headerSize, blockSize, headerSize, true⟩ := by
  have hholds := (blockHolds_newBlock hmin hmax).holds
  obtain ⟨s, hs⟩ := exists_finds hholds k
  have hsearch := hs.search ⟨k.1, k.2, none⟩ newBlock rfl hholds
  have hlast : IsLastEntry newBlock headerSize := by decide
  obtain ⟨n, hn⟩ := Nat.exists_eq_add_one_of_ne_zero (by omega : blockSize ≠ 0)
  have hfind : findEntry newBlock blockSize k.1 k.2 true blockSize headerSize = .ok (false, headerSize) := by
    rw [hn, findEntry, if_pos hlast]
  rw [searchEntry, hfind] at hsearch
  cases hsearch
  exact hs

theorem aclHolds_unique {fileAcl : Nat} {block : Option Mem} (h : AclHolds blockSize fileAcl block as)
    (h' : AclHolds blockSize fileAcl block bs) : as = bs := by
  obtain ⟨hzero, rfl⟩ | ⟨hne, m, rfl, hm⟩ := h
  · obtain ⟨-, rfl⟩ | ⟨hne, -⟩ := h'
    · rfl
    · exact absurd hzero hne
  · obtain ⟨hzero, -⟩ | ⟨-, m', heq, hm'⟩ := h'
    · exact absurd hzero hne
    · cases heq
      exact hm.holds.unique hm'.holds

end Block

section View

/-- What is seen under a name. -/
def view (bd bs : List Attr) (k : Key) : Option Attr := (Keyed.lookup Attr.key k bd).or (Keyed.lookup Attr.key k bs)

/-- The name does not stand in both places. -/
def OnceAt (bd bs : List Attr) (k : Key) : Prop :=
  Keyed.lookup Attr.key k bd = none ∨ Keyed.lookup Attr.key k bs = none

def Once (bd bs : List Attr) : Prop := ∀ k, OnceAt bd bs k

theorem readAttr_ne_enodata (buffer : Option Nat) (a : Attr) : readAttr buffer (some a) ≠ .error (-ENODATA) := by
  have hne : (.error (-ERANGE) : Result) ≠ .error (-ENODATA) := by
    intro h
    exact absurd (Except.error.inj h) (by decide)
  cases buffer with
  | none =>
      rw [readAttr]
      split
      · exact hne
      · intro h
        cases h
  | some size =>
      rw [readAttr]
      split
      · exact hne
      · split
        · exact hne
        · intro h
          cases h

/-- **Reading an inode.** `ext4_xattr_get` answers from the body, or from the block. -/
theorem get_eq_view {block : Option Mem} (h : InodeHolds x bd) (hblock : AclHolds blockSize x.fileAcl block bs)
    {nameIndex : Nat} {name : Bytes} (hname : name.length ≤ 255) (buffer : Option Nat) :
    ext4XattrGet blockSize block x nameIndex name buffer = readAttr buffer (view bd bs (nameIndex, name)) := by
  rw [ext4XattrGet, if_neg (Nat.not_lt.mpr hname), h.ibodyGet, hblock.blockGet, view]
  cases hlookup : Keyed.lookup Attr.key (nameIndex, name) bd with
  | none => rfl
  | some a =>
      have hne := readAttr_ne_enodata buffer a
      rw [Option.some_or]
      cases hread : readAttr buffer (some a) with
      | ok r => rfl
      | error err =>
          rw [hread] at hne
          exact if_neg fun heq => hne (congrArg Except.error heq)

end View

end OsHw.Xattr.Store
