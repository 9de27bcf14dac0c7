import OsHw.Run
import OsHw.XattrShare
import Mathlib.Logic.Function.Basic

/-! The attributes of all inodes of a file system. An attribute that does not fit behind the fields of its inode goes to
a block, and inodes with the same attributes share one block, which counts them. A block that is not shared is changed
in place, another one is copied, and before a block is written the cache is asked for one with the same content. Any
number of inodes are written at once, each under its own lock: a step is what is done under the lock of one buffer, or
between two of them. The cache is not part of the repository. It is a table of blocks with the hash under which they
are found and the number of those that hold an entry, and an entry that is held is neither deleted nor its block freed.
The inode can be read and marked dirty, and its transaction has credits. -/

namespace OsHw.Xattr.Store

def EXT4_XATTR_REFCOUNT_MAX : Nat := 1024

/-- What an inode has for attributes. The space behind `IFIRST` is 0 when `EXT4_INODE_HAS_XATTR_SPACE` does not
hold. -/
structure INode where
  size : Nat
  magic : Nat
  area : Mem
  /-- `EXT4_STATE_XATTR`. -/
  stateXattr : Bool
  fileAcl : Nat

/-- A call of `ext4_xattr_set_handle`; without a value the attribute is removed. -/
structure Request where
  nameIndex : Nat
  name : Bytes
  value : Option Bytes
  /-- `XATTR_CREATE`. -/
  create : Bool
  /-- `XATTR_REPLACE`. -/
  replace : Bool
  /-- The index of a handler, which fits its field of an entry. -/
  index : nameIndex ≠ 0 ∧ nameIndex < 256
  noNul : 0 ∉ name

def Request.info (req : Request) : Info := ⟨req.nameIndex, req.name, req.value.map .data⟩

/-- The `ext4_xattr_info` with `i.value = NULL`. -/
def removal (i : Info) : Info := { i with value := none }

section Inode

def ext4XattrIbodyFind (i : Info) (n : INode) : Except Int Search :=
  if n.size < 4 then .ok ⟨0, 0, 0, true⟩
  else if n.stateXattr then
    let error := if n.magic ≠ EXT4_XATTR_MAGIC then -EFSCORRUPTED else ext4XattrCheckEntries n.area 0 n.size
    if error ≠ 0 then .error error else searchEntry i 0 n.size false n.area
  else .ok ⟨0, n.size, 0, true⟩

def ext4XattrIbodySet (i : Info) (s : Search) (n : INode) : Except Int INode :=
  if n.size < 4 then .error (-ENOSPC)
  else
    match ext4XattrSetEntry i s false 0 n.area with
    | .error err => .error err
    | .ok m =>
        if IsLastEntry m s.first then .ok { n with magic := 0, area := m, stateXattr := false }
        else .ok { n with magic := EXT4_XATTR_MAGIC, area := m, stateXattr := true }

/-- `ext4_xattr_check_block` on a file system without `metadata_csum`. -/
def ext4XattrCheckBlock (blockSize : Nat) (m : Mem) : Int :=
  if hMagic m ≠ EXT4_XATTR_MAGIC ∨ hBlocks m ≠ 1 then -EFSCORRUPTED else ext4XattrCheckEntries m headerSize blockSize

/-- `ext4_xattr_block_find`: the search, when there is a block. -/
def ext4XattrBlockFind (blockSize : Nat) (i : Info) (fileAcl : Nat) (block : Option Mem) :
    Except Int (Option Search) :=
  if fileAcl = 0 then .ok none
  else
    match block with
    | none => .error (- EIO)
    | some m =>
        let error := ext4XattrCheckBlock blockSize m
        if error ≠ 0 then .error error else (searchEntry i headerSize blockSize true m).map some

/-- `ext4_xattr_value_same`. -/
def ext4XattrValueSame (m : Mem) (s : Search) (value : Bytes) : Bool :=
  eValueInum m s.here = 0 ∧ eValueSize m s.here = value.length ∧ m.bytes (eValueOffs m s.here) value.length = value

/-- What `ext4_xattr_block_set` is called for: the change, the search in the block, and what is removed from the inode
body after it. -/
structure Job where
  info : Info
  search : Option Search
  body : Option (Info × Search)

/-- `ext4_xattr_set_handle` up to its end, or up to the call of `ext4_xattr_block_set`. -/
inductive Start where
  | done (n : INode) (r : Int)
  | blockSet (n : INode) (job : Job)

/-- The value is set: first in the inode body, and in the block when there is no room. -/
def startSet (blockSize : Nat) (i : Info) (is : Search) (bs : Option Search) (block : Option Mem) (n : INode) : Start :=
  match ext4XattrIbodySet i is n with
  | .ok n' => if bs.all Search.notFound then .done n' 0 else .blockSet n' ⟨removal i, bs, none⟩
  | .error err =>
      if err ≠ -ENOSPC then .done n err
      else
        let body := if is.notFound then none else some (removal i, is)
        if bs.isNone then
          match ext4XattrBlockFind blockSize i n.fileAcl block with
          | .error err => .done n err
          | .ok bs => .blockSet n ⟨i, bs, body⟩
        else .blockSet n ⟨i, bs, body⟩

def startRemove (i : Info) (is : Search) (bs : Option Search) (n : INode) : Start :=
  if is.notFound then .blockSet n ⟨i, bs, none⟩
  else
    match ext4XattrIbodySet i is n with
    | .ok n' => .done n' 0
    | .error err => .done n err

def ext4XattrSetHandle (blockSize : Nat) (req : Request) (block : Option Mem) (n : INode) : Start :=
  if 255 < req.name.length then .done n (-ERANGE)
  else
    match ext4XattrIbodyFind req.info n with
    | .error err => .done n err
    | .ok is =>
        match if is.notFound then ext4XattrBlockFind blockSize req.info n.fileAcl block else .ok none with
        | .error err => .done n err
        | .ok bs =>
            let notFound := is.notFound && bs.all Search.notFound
            if notFound ∧ req.replace then .done n (-ENODATA)
            else if notFound ∧ req.value = none then .done n 0
            else if notFound = false ∧ req.create then .done n (-EEXIST)
            else
              match req.value with
              | none => startRemove req.info is bs n
              | some value =>
                  -- the value did not change
                  if is.notFound = false ∧ ext4XattrValueSame n.area is value then .done n 0
                  else if bs.any fun s => !s.notFound && block.any fun m => ext4XattrValueSame m s value then .done n 0
                  else startSet blockSize req.info is bs block n

def ext4XattrIbodyGet (n : INode) (nameIndex : Nat) (name : Bytes) (buffer : Option Nat) : Result :=
  if n.stateXattr = false then .error (-ENODATA)
  else if n.size < 4 ∨ n.magic ≠ EXT4_XATTR_MAGIC then .error (-EFSCORRUPTED)
  else getEntry n.area 0 n.size false nameIndex name buffer (.error (-EFSCORRUPTED))

def ext4XattrBlockGet (blockSize fileAcl : Nat) (block : Option Mem) (nameIndex : Nat) (name : Bytes)
    (buffer : Option Nat) : Result :=
  if fileAcl = 0 then .error (-ENODATA)
  else
    match block with
    | none => .error (- EIO)
    | some m =>
        if hMagic m ≠ EXT4_XATTR_MAGIC ∨ hBlocks m ≠ 1 then .error (-EFSCORRUPTED)
        else getEntry m headerSize blockSize true nameIndex name buffer (.error (-EFSCORRUPTED))

def ext4XattrGet (blockSize : Nat) (block : Option Mem) (n : INode) (nameIndex : Nat) (name : Bytes)
    (buffer : Option Nat) : Result :=
  if 255 < name.length then .error (-ERANGE)
  else
    match ext4XattrIbodyGet n nameIndex name buffer with
    | .error err =>
        if err = -ENODATA then ext4XattrBlockGet blockSize n.fileAcl block nameIndex name buffer else .error err
    | .ok r => .ok r

end Inode

/-- An entry of the cache: its key, the number of those that hold it, and `MBE_REUSABLE_B`. -/
structure CacheEntry where
  key : Nat
  users : Nat
  reusable : Bool

/-- Where a writer is. In `inserted` and `found` the new content is that of the private buffer, or, without one, that
of the block of the inode, changed in place. -/
inductive Phase where
  | idle
  | lock (job : Job)
  | clone (job : Job)
  | inserted (job : Job) (base : Option Mem)
  | found (job : Job) (base : Option Mem) (b : Nat)
  | link (job : Job) (new : Nat)
  | release (job : Job) (old : Nat)
  | finish (job : Job)

structure State (ι : Type) where
  inode : ι → INode
  phase : ι → Phase
  block : Nat → Option Mem
  cache : Nat → Option CacheEntry

/-- What a step meets. The faults are error numbers, or 0. -/
inductive Label (ι : Type) where
  | begin (n : ι) (req : Request) (fault : Int)
  /-- `scanned`: one that looks for an equal block holds the entry while it compares. -/
  | lock (n : ι) (access dirty : Int) (scanned : Bool)
  | clone (n : ι) (nomem : Bool)
  /-- What the cache finds and, when it finds nothing and a block is needed, the block that is allocated and the error
  of marking it dirty. -/
  | insert (n : ι) (hit : Option Nat) (alloc : Except Int (Nat × Int))
  | reuse (n : ι) (quota access dirty : Int)
  | link (n : ι)
  | release (n : ι) (access : Int)
  | finish (n : ι)
  | get (n : ι) (nameIndex : Nat) (name : Bytes) (buffer : Option Nat)
  | shrink (b : Nat)

inductive Event (ι : Type) where
  | silent
  | returned (n : ι) (r : Int)
  | got (n : ι) (r : Result)

/-- A new block. -/
def newBlock : Mem := ((Mem.store (fun _ => 0) 0 4 EXT4_XATTR_MAGIC).store 8 4 1).store 4 4 1

def setRefcount (m : Mem) (ref : Nat) : Mem := m.store 4 4 ref

namespace State

variable {ι : Type} [DecidableEq ι]

def goto (s : State ι) (n : ι) (ph : Phase) : State ι := { s with phase := Function.update s.phase n ph }

def setInode (s : State ι) (n : ι) (x : INode) : State ι := { s with inode := Function.update s.inode n x }

def setBlock (s : State ι) (b : Nat) (m : Option Mem) : State ι := { s with block := Function.update s.block b m }

def setCache (s : State ι) (b : Nat) (e : Option CacheEntry) : State ι :=
  { s with cache := Function.update s.cache b e }

/-- The writer returns. -/
def ret (s : State ι) (n : ι) (r : Int) : Option (State ι × Event ι) := some (s.goto n .idle, .returned n r)

def next (s : State ι) (n : ι) (ph : Phase) : Option (State ι × Event ι) := some (s.goto n ph, .silent)

/-- The entry of a block is held, so `mb_cache_entry_delete_or_get` does not delete it. -/
def InUse (s : State ι) (b : Nat) : Prop := ∃ e ∈ s.cache b, e.users ≠ 0

instance (s : State ι) (b : Nat) : Decidable (s.InUse b) :=
  match h : s.cache b with
  | none => isFalse (by rintro ⟨e, he, -⟩; rw [h] at he; exact absurd he (Option.not_mem_none e))
  | some e =>
      if hu : e.users = 0 then isFalse (by rintro ⟨e', he', hne⟩; rw [h] at he'; cases he'; exact hne hu)
      else isTrue ⟨e, h, hu⟩

/-- `ext4_xattr_block_cache_insert`: unless there is an entry already. -/
def cacheInsert (s : State ι) (b : Nat) (m : Mem) : State ι :=
  match s.cache b with
  | some _ => s
  | none => s.setCache b (some ⟨hHash m, 0, decide (hRefcount m < EXT4_XATTR_REFCOUNT_MAX)⟩)

/-- `mb_cache_entry_find_first` has returned the entry. -/
def cacheHold (s : State ι) (b : Nat) : State ι :=
  s.setCache b ((s.cache b).map fun e => { e with users := e.users + 1 })

/-- `mb_cache_entry_put`. -/
def cachePut (s : State ι) (b : Nat) : State ι :=
  s.setCache b ((s.cache b).map fun e => { e with users := e.users - 1 })

def setReusable (s : State ι) (b : Nat) (reusable : Bool) : State ι :=
  s.setCache b ((s.cache b).map fun e => { e with reusable := reusable })

/-- The start of `ext4_xattr_block_set`, up to the unlocking of the buffer. -/
def stepLock (blockSize : Nat) (s : State ι) (n : ι) (job : Job) (access dirty : Int) (scanned : Bool) :
    Option (State ι × Event ι) :=
  let own := (s.inode n).fileAcl
  if access ≠ 0 then s.ret n access
  else
    match job.search with
    | none =>
        match ext4XattrSetEntry job.info ⟨headerSize, blockSize, headerSize, true⟩ true 0 newBlock with
        | .error err => s.ret n err
        | .ok m => s.next n (.inserted job (some m))
    | some search =>
        match s.block own with
        | none => none
        | some m =>
            if hRefcount m = 1 ∧ ¬s.InUse own ∧ scanned = false then
              -- modifying in place
              match ext4XattrSetEntry job.info search true 0 m with
              | .error err => (s.setCache own none).ret n err
              | .ok m' =>
                  let s' := (s.setCache own none).setBlock own (some m')
                  if dirty ≠ 0 then s'.ret n dirty else s'.next n (.inserted job none)
            else s.next n (.clone job)

/-- Cloning, after the buffer was unlocked. -/
def stepClone (s : State ι) (n : ι) (job : Job) (nomem : Bool) : Option (State ι × Event ι) :=
  match job.search, s.block (s.inode n).fileAcl with
  | some search, some m =>
      if nomem then s.ret n (-ENOMEM)
      else
        match ext4XattrSetEntry job.info search true 0 (setRefcount m 1) with
        | .error err => s.ret n err
        | .ok m' => s.next n (.inserted job (some m'))
  | _, _ => none

/-- What `ext4_xattr_block_cache_find` may return. -/
def Candidate (blockSize : Nat) (s : State ι) (m : Mem) (b : Nat) : Prop :=
  ∃ e ∈ s.cache b, ∃ mb ∈ s.block b,
    hHash m ≠ 0 ∧ e.key = hHash m ∧ e.reusable = true ∧ ext4XattrCmp m mb blockSize headerSize headerSize = 0

instance (blockSize : Nat) (s : State ι) (m : Mem) (b : Nat) : Decidable (s.Candidate blockSize m b) :=
  match he : s.cache b, hb : s.block b with
  | some e, some mb =>
      decidable_of_iff (hHash m ≠ 0 ∧ e.key = hHash m ∧ e.reusable = true ∧
          ext4XattrCmp m mb blockSize headerSize headerSize = 0)
        ⟨fun h => ⟨e, he, mb, hb, h⟩, by
          rintro ⟨e', he', mb', hb', h⟩
          rw [he] at he'
          rw [hb] at hb'
          cases he'
          cases hb'
          exact h⟩
  | none, _ => isFalse (by rintro ⟨e, h, -⟩; rw [he] at h; exact absurd h (Option.not_mem_none e))
  | some _, none => isFalse (by rintro ⟨e, -, mb, h, -⟩; rw [hb] at h; exact absurd h (Option.not_mem_none mb))

/-- From the label `inserted`: an equal block, the block itself, or a new one. -/
def stepInsert (blockSize : Nat) (s : State ι) (n : ι) (job : Job) (base : Option Mem) (hit : Option Nat)
    (alloc : Except Int (Nat × Int)) : Option (State ι × Event ι) :=
  let own := (s.inode n).fileAcl
  match base.or (s.block own) with
  | none => none
  | some m =>
      if IsLastEntry m headerSize then s.next n (.link job 0)
      else
        match hit with
        | some b =>
            if ¬s.Candidate blockSize m b then none
            else if job.search.isSome ∧ b = own then s.next n (.link job b)
            else (s.cacheHold b).next n (.found job base b)
        | none =>
            match base with
            | none => (s.cacheInsert own m).next n (.link job own)
            | some m =>
                match alloc with
                | .error err => if err = 0 then none else s.ret n err
                | .ok (b, dirty) =>
                    if b = 0 ∨ (s.block b).isSome then none
                    else
                      let s' := (s.setBlock b (some m)).cacheInsert b m
                      if dirty ≠ 0 then s'.ret n dirty else s'.next n (.link job b)

/-- An identical block was found in the cache: take a reference to it. -/
def stepReuse (s : State ι) (n : ι) (job : Job) (base : Option Mem) (b : Nat) (quota access dirty : Int) :
    Option (State ι × Event ι) :=
  match s.block b with
  | none => none
  | some m =>
      if quota ≠ 0 then (s.cachePut b).ret n quota
      else if access ≠ 0 then (s.cachePut b).ret n access
      else
        let ref := hRefcount m + 1
        if EXT4_XATTR_REFCOUNT_MAX < ref then (s.cachePut b).next n (.inserted job base)
        else
          let s' := s.setBlock b (some (setRefcount m ref))
          let s' := if ref = EXT4_XATTR_REFCOUNT_MAX then s'.setReusable b false else s'
          if dirty ≠ 0 then (s'.cachePut b).ret n dirty else (s'.cachePut b).next n (.link job b)

/-- Update the inode. -/
def stepLink (s : State ι) (n : ι) (job : Job) (new : Nat) : Option (State ι × Event ι) :=
  let old := (s.inode n).fileAcl
  let s' := s.setInode n { s.inode n with fileAcl := new }
  if job.search.isSome ∧ old ≠ new then s'.next n (.release job old) else s'.next n (.finish job)

/-- `ext4_xattr_release_block`; it waits while the entry of the last reference is held. -/
def stepRelease (s : State ι) (n : ι) (job : Job) (old : Nat) (access : Int) : Option (State ι × Event ι) :=
  if access ≠ 0 then s.next n (.finish job)
  else
    match s.block old with
    | none => none
    | some m =>
        if hRefcount m = 1 then
          if s.InUse old then none else ((s.setCache old none).setBlock old none).next n (.finish job)
        else
          let ref := hRefcount m - 1
          let s' := s.setBlock old (some (setRefcount m ref))
          let s' := if ref = EXT4_XATTR_REFCOUNT_MAX - 1 then s'.setReusable old true else s'
          s'.next n (.finish job)

/-- Back in `ext4_xattr_set_handle`. -/
def stepFinish (s : State ι) (n : ι) (job : Job) : Option (State ι × Event ι) :=
  match job.body with
  | none => s.ret n 0
  | some (i, search) =>
      match ext4XattrIbodySet i search (s.inode n) with
      | .error err => s.ret n err
      | .ok x => (s.setInode n x).ret n 0

def stepBegin (blockSize : Nat) (s : State ι) (n : ι) (req : Request) (fault : Int) : Option (State ι × Event ι) :=
  if fault ≠ 0 then s.ret n fault
  else
    match ext4XattrSetHandle blockSize req (s.block (s.inode n).fileAcl) (s.inode n) with
    | .done x r => (s.setInode n x).ret n r
    | .blockSet x job => (s.setInode n x).next n (.lock job)

/-- Reading, which puts the block into the cache when it is a good one. -/
def stepGet (blockSize : Nat) (s : State ι) (n : ι) (nameIndex : Nat) (name : Bytes) (buffer : Option Nat) :
    Option (State ι × Event ι) :=
  let own := (s.inode n).fileAcl
  let r := ext4XattrGet blockSize (s.block own) (s.inode n) nameIndex name buffer
  match s.block own with
  | none => some (s, .got n r)
  | some m =>
      if own ≠ 0 ∧ name.length ≤ 255 ∧ ext4XattrIbodyGet (s.inode n) nameIndex name buffer = .error (-ENODATA) ∧
          ext4XattrCheckBlock blockSize m = 0 then some (s.cacheInsert own m, .got n r)
      else some (s, .got n r)

def step (blockSize : Nat) (s : State ι) : Label ι → Option (State ι × Event ι)
  | .begin n req fault =>
      match s.phase n with
      | .idle => s.stepBegin blockSize n req fault
      | _ => none
  | .lock n access dirty scanned =>
      match s.phase n with
      | .lock job => s.stepLock blockSize n job access dirty scanned
      | _ => none
  | .clone n nomem =>
      match s.phase n with
      | .clone job => s.stepClone n job nomem
      | _ => none
  | .insert n hit alloc =>
      match s.phase n with
      | .inserted job base => s.stepInsert blockSize n job base hit alloc
      | _ => none
  | .reuse n quota access dirty =>
      match s.phase n with
      | .found job base b => s.stepReuse n job base b quota access dirty
      | _ => none
  | .link n =>
      match s.phase n with
      | .link job new => s.stepLink n job new
      | _ => none
  | .release n access =>
      match s.phase n with
      | .release job old => s.stepRelease n job old access
      | _ => none
  | .finish n =>
      match s.phase n with
      | .finish job => s.stepFinish n job
      | _ => none
  | .get n nameIndex name buffer =>
      match s.phase n with
      | .idle => s.stepGet blockSize n nameIndex name buffer
      | _ => none
  | .shrink b => if s.InUse b then none else some (s.setCache b none, .silent)

end State

end OsHw.Xattr.Store
