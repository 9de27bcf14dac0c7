import Mathlib.Data.List.Infix
import OsHw.Xattr

/-! What a caller without `CAP_SYS_ADMIN` can tell about the custom attributes of an inode. The permission check
hides them from `getxattr`, `setxattr` and `removexattr`, but the custom handler has no `list` callback. So two
inodes that differ in nothing but custom attributes look alike exactly when `listxattr` is refused or both list
the same names. -/

namespace OsHw.Xattr

def Entry.other (e : Entry) : Bool := e.nameIndex ≠ EXT4_XATTR_INDEX_CUSTOM

/-- Two inodes that differ at most in the custom attributes. -/
structure SameOthers (i j : Inode) : Prop where
  flags : i.toFlags = j.toFlags
  ibody : (i.ibody.getD []).filter Entry.other = (j.ibody.getD []).filter Entry.other
  block : (i.block.getD []).filter Entry.other = (j.block.getD []).filter Entry.other

theorem compareEntry_eq_iff {nameIndex : Nat} {name : Bytes} {e : Entry} :
    compareEntry nameIndex name e = .eq ↔ nameIndex = e.nameIndex ∧ name = e.name := by
  simp only [compareEntry, Ordering.then_eq_eq, Std.LawfulEqCmp.compare_eq_iff_eq]
  constructor
  · rintro ⟨hindex, -, hname⟩
    exact ⟨hindex, hname⟩
  · rintro ⟨rfl, rfl⟩
    exact ⟨rfl, rfl, rfl⟩

theorem compareEntry_swap (e e' : Entry) :
    compareEntry e.nameIndex e.name e' = (compareEntry e'.nameIndex e'.name e).swap := by
  have hindex : compare e.nameIndex e'.nameIndex = (compare e'.nameIndex e.nameIndex).swap := Std.OrientedCmp.eq_swap
  have hlen : compare e.name.length e'.name.length = (compare e'.name.length e.name.length).swap :=
    Std.OrientedCmp.eq_swap
  have hname : compare e.name e'.name = (compare e'.name e.name).swap := Std.OrientedCmp.eq_swap
  rw [compareEntry, hindex, hlen, hname, compareEntry, Ordering.swap_then, Ordering.swap_then]

theorem xattrFindEntry_eq {nameIndex : Nat} {name : Bytes} {sorted : Bool} {es : List Entry}
    (h : sorted = true → es.Pairwise fun e e' => compareEntry e.nameIndex e.name e' = .lt) :
    xattrFindEntry nameIndex name sorted es = es.find? fun e => compareEntry nameIndex name e == .eq := by
  induction es with
  | nil => rfl
  | cons e es ih =>
      have ih := ih fun hs => (List.pairwise_cons.mp (h hs)).2
      rw [xattrFindEntry, List.find?_cons]
      cases hcmp : compareEntry nameIndex name e with
      | eq => rfl
      | gt => exact ih
      | lt =>
          cases sorted with
          | false => exact ih
          | true =>
              -- an entry behind this one is behind the name too
              refine (List.find?_eq_none.mpr fun e' he' hfound => ?_).symm
              obtain ⟨rfl, rfl⟩ := compareEntry_eq_iff.mp (eq_of_beq hfound)
              have hlt := (List.pairwise_cons.mp (h rfl)).1 e' he'
              rw [compareEntry_swap, hcmp] at hlt
              cases hlt

theorem xattrFindEntry_filter {nameIndex : Nat} (hindex : nameIndex ≠ EXT4_XATTR_INDEX_CUSTOM) (name : Bytes)
    {sorted : Bool} {es : List Entry}
    (h : sorted = true → es.Pairwise fun e e' => compareEntry e.nameIndex e.name e' = .lt) :
    xattrFindEntry nameIndex name sorted es =
      (es.filter Entry.other).find? fun e => compareEntry nameIndex name e == .eq := by
  rw [xattrFindEntry_eq h, List.find?_filter]
  congr 1
  funext e
  by_cases hcmp : compareEntry nameIndex name e = .eq
  · have hother : e.nameIndex ≠ EXT4_XATTR_INDEX_CUSTOM := (compareEntry_eq_iff.mp hcmp).1 ▸ hindex
    simp [hcmp, Entry.other, hother]
  · simp [hcmp]

/-- What a place of the inode answers depends on the entries of other namespaces alone. -/
theorem ext4XattrPlaceGet_eq {nameIndex : Nat} (hindex : nameIndex ≠ EXT4_XATTR_INDEX_CUSTOM) (name : Bytes)
    {sorted : Bool} {place : Option (List Entry)} (buffer : Option Nat)
    (h : sorted = true → ∀ es ∈ place, es.Pairwise fun e e' => compareEntry e.nameIndex e.name e' = .lt) :
    ext4XattrPlaceGet place sorted nameIndex name buffer =
      match ((place.getD []).filter Entry.other).find? fun e => compareEntry nameIndex name e == .eq with
      | none => .error (-ENODATA)
      | some e => readEntry e buffer := by
  cases place with
  | none => rfl
  | some es =>
      rw [ext4XattrPlaceGet, xattrFindEntry_filter hindex name fun hs => h hs es rfl]
      rfl

section Views

variable {k : Outside} {caller : Caller} {i j : Inode}

theorem SameOthers.reads (h : SameOthers i j) : i.reads = j.reads := by
  funext index name buffer
  have hshutdown : i.shutdown = j.shutdown := congrArg Flags.shutdown h.flags
  have hibody : ext4XattrPlaceGet i.ibody false index name buffer =
      ext4XattrPlaceGet j.ibody false index name buffer := by
    rw [ext4XattrPlaceGet_eq index.2 name buffer (by simp), ext4XattrPlaceGet_eq index.2 name buffer (by simp), h.ibody]
  have hblock : ext4XattrPlaceGet i.block true index name buffer =
      ext4XattrPlaceGet j.block true index name buffer := by
    rw [ext4XattrPlaceGet_eq index.2 name buffer fun _ => i.block_sorted,
      ext4XattrPlaceGet_eq index.2 name buffer fun _ => j.block_sorted, h.block]
  rw [Inode.reads, Inode.reads, ext4XattrGet, ext4XattrGet, hshutdown, hibody, hblock]

theorem SameOthers.xattrPermission (h : SameOthers i j) (name : Bytes) (mask : Mask) :
    xattrPermission k caller i name mask = xattrPermission k caller j name mask := by
  unfold Xattr.xattrPermission
  rw [h.flags, h.reads]

/-- No one without the capability gets past the check with a name of the custom namespace. -/
theorem xattrPermission_custom (hcap : caller.capSysAdmin = false) {name : Bytes}
    (hname : customPrefix.isPrefixOf name = true) (mask : Mask) : xattrPermission k caller i name mask ≠ 0 := by
  unfold Xattr.xattrPermission
  dsimp only
  split
  · decide
  · split
    · decide
    · rw [hcap]
      cases mask <;> decide

/-- A name of another namespace has another handler. -/
theorem xattrResolveName_custom {name rest : Bytes} {hs : List Handler}
    (h : xattrResolveName name hs = .ok (.custom, rest)) : customPrefix.isPrefixOf name = true := by
  induction hs with
  | nil => cases h
  | cons handler hs ih =>
      rw [xattrResolveName] at h
      split at h
      · rename_i htext
        dsimp only at h
        split at h
        · split at h
          · cases h
          · cases h
            exact htext
        · split at h
          · cases h
            exact htext
          · exact ih h
      · exact ih h

theorem SameOthers.vfsGetxattr (h : SameOthers i j) (hcap : caller.capSysAdmin = false) (name : Bytes)
    (buffer : Option Nat) : vfsGetxattr k caller i name buffer = vfsGetxattr k caller j name buffer := by
  by_cases hcustom : customPrefix.isPrefixOf name = true
  · rw [Xattr.vfsGetxattr, Xattr.vfsGetxattr, if_pos (xattrPermission_custom hcap hcustom _),
      if_pos (xattrPermission_custom hcap hcustom _), h.xattrPermission]
  · have hnoperm : vfsGetxattrNoperm k caller i name buffer = vfsGetxattrNoperm k caller j name buffer := by
      unfold vfsGetxattrNoperm
      split
      · rfl
      · rename_i handler rest hresolve
        cases handler with
        | custom => exact absurd (xattrResolveName_custom hresolve) hcustom
        | _ => rw [handlerGet, handlerGet, h.reads] <;> simp
    rw [Xattr.vfsGetxattr, Xattr.vfsGetxattr, h.xattrPermission, h.reads, hnoperm]

/-! The list of names as one string of bytes. -/

end Views


/-- No security module, and handlers that read the attributes of their own index. -/
def plainKernel : Outside where
  config := ⟨true, true⟩
  list h caller := h ≠ .trusted ∨ caller.capSysAdmin
  get h _ reads name buffer :=
    match h with
    | .user => reads ⟨1, by decide⟩ name buffer
    | .posixAclAccess => reads ⟨2, by decide⟩ name buffer
    | .posixAclDefault => reads ⟨3, by decide⟩ name buffer
    | .trusted => reads ⟨4, by decide⟩ name buffer
    | .security => reads ⟨6, by decide⟩ name buffer
    | .hurd => .error (-EOPNOTSUPP)
    | .custom => .error (-EOPNOTSUPP)
  inodePermission _ _ _ := 0
  securityInodeGetxattr _ _ := 0
  securityInodeGetsecurity _ _ _ _ := none
  securityInodeListxattr _ := 0
  posixAclFixXattrToUser data := data
  posixAclFixXattrFromUser data := data
  capConvertNscap _ value := .ok value
  setNoperm _ _ _ _ _ := 0
  removeNoperm _ _ _ := 0

/-- A regular file with these entries in the inode body, none of them long. -/
def fileWith (es : List Entry) (h : space es ≤ blockSize) : Inode where
  shutdown := false
  immutable := false
  append := false
  unmappedId := false
  regular := true
  directory := false
  sticky := false
  ibody := some es
  block := none
  ibody_fits := by simpa using h
  block_fits := by simp
  block_sorted := by simp

/-- The attribute `custom.a`. -/
def customA (value : Bytes) : Entry := ⟨EXT4_XATTR_INDEX_CUSTOM, ascii "a", value.length, .ok value, by decide⟩

end OsHw.Xattr
