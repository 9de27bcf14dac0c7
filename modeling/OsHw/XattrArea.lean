import OsHw.Extents
import OsHw.Xattr

/-! The bytes in which ext4 keeps attributes: the space behind the fields of an inode, and a block of its own with a
header. The entries stand at the beginning, one after the other, and end with four bytes of zero; the values are
filled in from the end. Addresses are offsets from `s->base`, from which `e_value_offs` counts. The loops get as many
steps as the area has bytes. The file system has no feature `ea_inode`, so a new value never goes to an inode of its
own, and no feature `inline_data`. -/

namespace OsHw.Xattr

def EEXIST : Int := 17

def ENOSPC : Int := 28

def EFSCORRUPTED : Int := 117

def EXT4_XATTR_MAGIC : Nat := 0xEA020000

/-- `EXT4_XATTR_SIZE`: a value with its padding. -/
def xattrSize (size : Nat) : Nat := (size + 3) / 4 * 4

/-! The fields of an entry. -/

def eNameLen (m : Mem) (e : Nat) : Nat := m.load e 1

def eNameIndex (m : Mem) (e : Nat) : Nat := m.load (e + 1) 1

def eValueOffs (m : Mem) (e : Nat) : Nat := m.load (e + 2) 2

def eValueInum (m : Mem) (e : Nat) : Nat := m.load (e + 4) 4

def eValueSize (m : Mem) (e : Nat) : Nat := m.load (e + 8) 4

def eHash (m : Mem) (e : Nat) : Nat := m.load (e + 12) 4

def eName (m : Mem) (e : Nat) : Bytes := m.bytes (e + 16) (eNameLen m e)

/-- `IS_LAST_ENTRY`. -/
def IsLastEntry (m : Mem) (e : Nat) : Prop := m.load e 4 = 0

instance (m : Mem) (e : Nat) : Decidable (IsLastEntry m e) := inferInstanceAs (Decidable (_ = _))

/-- `EXT4_XATTR_NEXT`. -/
def xattrNext (m : Mem) (e : Nat) : Nat := e + xattrLen (eNameLen m e)

/-- The first loop of `ext4_xattr_check_entries`: the end of the names list. -/
def findNamesEnd (m : Mem) (fend : Nat) : Nat → Nat → Except Int Nat
  | 0, _ => .error (-EFSCORRUPTED)
  | fuel + 1, e =>
      if IsLastEntry m e then .ok e
      else if fend ≤ xattrNext m e then .error (-EFSCORRUPTED)
      else if 0 ∈ eName m e then .error (-EFSCORRUPTED)
      else findNamesEnd m fend fuel (xattrNext m e)

/-- The second loop; `e` is the end of the names list. -/
def checkValues (m : Mem) (fend e : Nat) : Nat → Nat → Int
  | 0, _ => -EFSCORRUPTED
  | fuel + 1, entry =>
      let size := eValueSize m entry
      let offs := eValueOffs m entry
      if IsLastEntry m entry then 0
      else if EXT4_XATTR_SIZE_MAX < size then -EFSCORRUPTED
      else if size ≠ 0 ∧ eValueInum m entry = 0 ∧
          (fend < offs ∨ offs < e + 4 ∨ fend - offs < size ∨ fend - offs < xattrSize size) then -EFSCORRUPTED
      else checkValues m fend e fuel (xattrNext m entry)

def ext4XattrCheckEntries (m : Mem) (entry fend : Nat) : Int :=
  match findNamesEnd m fend fend entry with
  | .error err => err
  | .ok e => checkValues m fend e fend entry

/-- The comparison of `xattr_find_entry`. -/
def compareAt (m : Mem) (nameIndex : Nat) (name : Bytes) (e : Nat) : Ordering :=
  (compare nameIndex (eNameIndex m e)).then ((compare name.length (eNameLen m e)).then (compare name (eName m e)))

/-- The loop of `xattr_find_entry`: whether the entry was found, and where the walk stopped. -/
def findEntry (m : Mem) (fend nameIndex : Nat) (name : Bytes) (sorted : Bool) : Nat → Nat → Except Int (Bool × Nat)
  | 0, _ => .error (-EFSCORRUPTED)
  | fuel + 1, entry =>
      if IsLastEntry m entry then .ok (false, entry)
      else if fend ≤ xattrNext m entry then .error (-EFSCORRUPTED)
      else
        match compareAt m nameIndex name entry with
        | .eq => .ok (true, entry)
        | .lt =>
            if sorted then .ok (false, entry) else findEntry m fend nameIndex name sorted fuel (xattrNext m entry)
        | .gt => findEntry m fend nameIndex name sorted fuel (xattrNext m entry)

/-- The value of `ext4_xattr_info`; `zero` is `EXT4_ZERO_XATTR_VALUE`. -/
inductive Value where
  | data (bytes : Bytes)
  | zero (len : Nat)

def Value.len : Value → Nat
  | .data bytes => bytes.length
  | .zero len => len

/-- `ext4_xattr_info`; without a value the attribute is removed. -/
structure Info where
  nameIndex : Nat
  name : Bytes
  value : Option Value

/-- `ext4_xattr_search`. -/
structure Search where
  first : Nat
  fend : Nat
  here : Nat
  notFound : Bool

/-- `char` is signed. -/
def signExtend (b : UInt8) : UInt32 := b.toInt8.toInt32.toUInt32

def hashName (m : Mem) (hash : UInt32) (name : Nat) : Nat → UInt32
  | 0 => hash
  | len + 1 => hashName m ((hash <<< 5) ^^^ (hash >>> 27) ^^^ signExtend (m name)) (name + 1) len

def hashValue (m : Mem) (hash : UInt32) (value : Nat) : Nat → UInt32
  | 0 => hash
  | count + 1 =>
      hashValue m ((hash <<< 16) ^^^ (hash >>> 16) ^^^ UInt32.ofNat (m.load value 4)) (value + 4) count

def ext4XattrHashEntry (m : Mem) (name nameLen value valueCount : Nat) : UInt32 :=
  hashValue m (hashName m 0 name nameLen) value valueCount

/-- The loop of `ext4_xattr_rehash`. -/
def blockHash (m : Mem) : Nat → UInt32 → Nat → UInt32
  | 0, _, _ => 0
  | fuel + 1, hash, here =>
      if IsLastEntry m here then hash
      else if eHash m here = 0 then 0
      else
        blockHash m fuel ((hash <<< 16) ^^^ (hash >>> 16) ^^^ UInt32.ofNat (eHash m here)) (xattrNext m here)

/-! The fields of the header of a block, which takes 32 bytes. -/

def hMagic (m : Mem) : Nat := m.load 0 4

def hRefcount (m : Mem) : Nat := m.load 4 4

def hBlocks (m : Mem) : Nat := m.load 8 4

def hHash (m : Mem) : Nat := m.load 12 4

def headerSize : Nat := 32

def ext4XattrRehash (fend : Nat) (m : Mem) : Mem := m.store 12 4 (blockHash m fend 0 headerSize).toNat

/-- The value and the bytes of zero that pad it. -/
def putValue (m : Mem) (val : Nat) : Value → Mem
  | .zero len => m.fill val (xattrSize len) 0
  | .data bytes => (m.write val bytes).fill (val + bytes.length) (xattrSize bytes.length - bytes.length) 0

/-- The first loop of `ext4_xattr_set_entry`: `min_offs` and `last`. -/
def minOffsAndLast (m : Mem) (fend : Nat) : Nat → Nat → Nat → Except Int (Nat × Nat)
  | 0, _, _ => .error (-EFSCORRUPTED)
  | fuel + 1, minOffs, last =>
      if IsLastEntry m last then .ok (minOffs, last)
      else if fend ≤ xattrNext m last then .error (-EFSCORRUPTED)
      else if eValueInum m last = 0 ∧ eValueSize m last ≠ 0 then
        minOffsAndLast m fend fuel (min minOffs (eValueOffs m last)) (xattrNext m last)
      else minOffsAndLast m fend fuel minOffs (xattrNext m last)

/-- The loop that adjusts all value offsets. -/
def adjustOffsets (offs oldSize : Nat) : Nat → Nat → Mem → Mem
  | 0, _, m => m
  | fuel + 1, last, m =>
      if IsLastEntry m last then m
      else
        let o := eValueOffs m last
        let m' :=
          if eValueInum m last = 0 ∧ eValueSize m last ≠ 0 ∧ o < offs then m.store (last + 2) 2 (o + oldSize) else m
        adjustOffsets offs oldSize fuel (xattrNext m' last) m'

/-- Remove the old value: the memory and `min_offs`. -/
def removeValue (s : Search) (minOffs oldSize : Nat) (m : Mem) : Mem × Nat :=
  if s.notFound = false ∧ eValueSize m s.here ≠ 0 ∧ eValueInum m s.here = 0 then
    let offs := eValueOffs m s.here
    let m' := (m.copy (minOffs + oldSize) minOffs (offs - minOffs)).fill minOffs oldSize 0
    (adjustOffsets offs oldSize s.fend s.first m', minOffs + oldSize)
  else (m, minOffs)

/-- Remove the old name. -/
def removeName (here last nameLen : Nat) (m : Mem) : Mem :=
  let size := xattrLen nameLen
  let last := last - size
  (m.copy here (here + size) (last - here + 4)).fill last size 0

/-- Insert the new name. -/
def insertName (i : Info) (here last : Nat) (m : Mem) : Mem :=
  let size := xattrLen i.name.length
  let m := (m.copy (here + size) here (last - here + 4)).fill here size 0
  ((m.store (here + 1) 1 i.nameIndex).store here 1 i.name.length).write (here + 16) i.name

/-- This is an update, reset the value. -/
def resetValue (here : Nat) (m : Mem) : Mem := ((m.store (here + 4) 4 0).store (here + 2) 2 0).store (here + 8) 4 0

/-- Insert the new value. -/
def insertValue (v : Value) (here minOffs newSize : Nat) (m : Mem) : Mem :=
  let m := if v.len ≠ 0 then putValue (m.store (here + 2) 2 (minOffs - newSize)) (minOffs - newSize) v else m
  m.store (here + 8) 4 v.len

/-- The end of `ext4_xattr_set_entry`, from `update_hash` on. -/
def updateHash (i : Info) (s : Search) (isBlock : Bool) (newSize : Nat) (m : Mem) : Mem :=
  let hash := if isBlock then
      ext4XattrHashEntry m (s.here + 16) (eNameLen m s.here) (eValueOffs m s.here) (newSize / 4)
    else 0
  let m := if i.value.isSome then m.store (s.here + 12) 4 hash.toNat else m
  if isBlock then ext4XattrRehash s.fend m else m

/-- A difference of two `size_t`. -/
def sizeSub (a b : Nat) : Nat := (a + 2 ^ 64 - b) % 2 ^ 64

/-- The space of the old value. -/
def oldValueSize (s : Search) (m : Mem) : Nat :=
  if s.notFound = false ∧ eValueInum m s.here = 0 then xattrSize (eValueSize m s.here) else 0

/-- The space of the new value. -/
def Info.newSize (i : Info) : Nat :=
  match i.value with
  | some v => xattrSize v.len
  | none => 0

/-- The simple case when the old and the new value have the same padded size. -/
def rewriteValue (i : Info) (s : Search) (m : Mem) : Mem :=
  match i.value with
  | some v => putValue (m.store (s.here + 8) 4 v.len) (eValueOffs m s.here) v
  | none => m

/-- What is done to the names, and the new value. -/
def changeEntry (i : Info) (s : Search) (last minOffs : Nat) (m : Mem) : Mem :=
  match i.value with
  | none => removeName s.here last i.name.length m
  | some v =>
      insertValue v s.here minOffs (xattrSize v.len)
        (if s.notFound then insertName i s.here last m else resetValue s.here m)

/-- `ext4_xattr_set_entry`. When the old value is in an inode of its own, `eaInode` is the error of getting and
releasing that inode, or 0. -/
def ext4XattrSetEntry (i : Info) (s : Search) (isBlock : Bool) (eaInode : Int) (m : Mem) : Except Int Mem :=
  let oldSize := oldValueSize s m
  if i.newSize ≠ 0 ∧ i.newSize = oldSize then .ok (updateHash i s isBlock i.newSize (rewriteValue i s m))
  else
    match minOffsAndLast m s.fend s.fend s.fend s.first with
    | .error err => .error err
    | .ok (minOffs, last) =>
        let len := xattrLen i.name.length
        let free := sizeSub minOffs (last + 4) + (if s.notFound then 0 else len + oldSize)
        if i.value.isSome ∧ free < len + i.newSize then .error (-ENOSPC)
        else if s.notFound = false ∧ eValueInum m s.here ≠ 0 ∧ eaInode ≠ 0 then .error eaInode
        else
          let (m', minOffs') := removeValue s minOffs oldSize m
          .ok (updateHash i s isBlock i.newSize (changeEntry i s last minOffs' m'))

/-- The search of `ext4_xattr_ibody_find` and `ext4_xattr_block_find`. -/
def searchEntry (i : Info) (first fend : Nat) (sorted : Bool) (m : Mem) : Except Int Search :=
  match findEntry m fend i.nameIndex i.name sorted fend first with
  | .error err => .error err
  | .ok (found, here) => .ok ⟨first, fend, here, !found⟩

/-- The end of `ext4_xattr_ibody_get` and `ext4_xattr_block_get`. A value that is in an inode of its own is what
`eaInode` reads. -/
def readValue (m : Mem) (fend entry : Nat) (buffer : Option Nat) (eaInode : Except Int Bytes) : Result :=
  let size := eValueSize m entry
  if EXT4_XATTR_SIZE_MAX < size then .error (-ERANGE)
  else
    match buffer with
    | none => .ok (size, [])
    | some bufferSize =>
        if bufferSize < size then .error (-ERANGE)
        else if eValueInum m entry ≠ 0 then eaInode.map fun data => (size, data)
        else if fend < eValueOffs m entry + size then .error (-ERANGE)
        else .ok (size, m.bytes (eValueOffs m entry) size)

/-- `ext4_xattr_ibody_get` and `ext4_xattr_block_get` from the check of the entries on. -/
def getEntry (m : Mem) (first fend : Nat) (sorted : Bool) (nameIndex : Nat) (name : Bytes) (buffer : Option Nat)
    (eaInode : Except Int Bytes) : Result :=
  let error := ext4XattrCheckEntries m first fend
  if error ≠ 0 then .error error
  else
    match findEntry m fend nameIndex name sorted fend first with
    | .error err => .error err
    | .ok (false, _) => .error (-ENODATA)
    | .ok (true, entry) => readValue m fend entry buffer eaInode

/-- `ext4_xattr_cmp` from a pair of entries on: 0 when the blocks are equal. -/
def ext4XattrCmp (m m' : Mem) : Nat → Nat → Nat → Int
  | 0, _, _ => 1
  | fuel + 1, entry1, entry2 =>
      if IsLastEntry m entry1 then if IsLastEntry m' entry2 then 0 else 1
      else if IsLastEntry m' entry2 then 1
      else if eHash m entry1 ≠ eHash m' entry2 ∨ eNameIndex m entry1 ≠ eNameIndex m' entry2 ∨
          eNameLen m entry1 ≠ eNameLen m' entry2 ∨ eValueSize m entry1 ≠ eValueSize m' entry2 ∨
          eValueInum m entry1 ≠ eValueInum m' entry2 ∨
          m.bytes (entry1 + 16) (eNameLen m entry1) ≠ m'.bytes (entry2 + 16) (eNameLen m entry1) then 1
      else if eValueInum m entry1 = 0 ∧
          m.bytes (eValueOffs m entry1) (eValueSize m entry1) ≠
            m'.bytes (eValueOffs m' entry2) (eValueSize m entry1) then
        1
      else ext4XattrCmp m m' fuel (xattrNext m entry1) (xattrNext m' entry2)

end OsHw.Xattr
