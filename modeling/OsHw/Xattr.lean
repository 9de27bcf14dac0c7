import Mathlib.Data.List.Basic

/-! Extended attributes of an ext4 inode, from the system calls down to the entries of the inode body and of the
attribute block, with the namespace `custom.` that was added to both layers. The other handlers, the security
modules and the permission check of the inode are not part of the repository. They are parameters, and what they
get to see of the attributes is what `ext4_xattr_get` answers for the name indexes other than the custom one. -/

namespace OsHw.Xattr

abbrev Bytes := List UInt8

def ascii (s : String) : Bytes := s.toList.map fun c => c.toNat.toUInt8

def EPERM : Int := 1

def EIO : Int := 5

def E2BIG : Int := 7

def ENOMEM : Int := 12

def EFAULT : Int := 14

def EINVAL : Int := 22

def ERANGE : Int := 34

def ENODATA : Int := 61

def EOPNOTSUPP : Int := 95

def XATTR_NAME_MAX : Nat := 255

def XATTR_SIZE_MAX : Nat := 65536

def EXT4_XATTR_SIZE_MAX : Nat := 1 <<< 24

def EXT4_XATTR_INDEX_CUSTOM : Nat := 11

/-- The handlers of ext4 that have a name index. -/
inductive Handler where
  | user
  | posixAclAccess
  | posixAclDefault
  | trusted
  | security
  | hurd
  | custom
deriving DecidableEq

/-- What a handler matches: names with a prefix and something behind it, or one name. -/
inductive Pattern where
  | withPrefix (text : Bytes)
  | exactly (text : Bytes)

/-- `xattr_prefix`. -/
def Pattern.text : Pattern → Bytes
  | .withPrefix text => text
  | .exactly text => text

def customPrefix : Bytes := ascii "custom."

def securityPrefix : Bytes := ascii "security."

def systemPrefix : Bytes := ascii "system."

def trustedPrefix : Bytes := ascii "trusted."

def userPrefix : Bytes := ascii "user."

def Handler.pattern : Handler → Pattern
  | .user => .withPrefix userPrefix
  | .posixAclAccess => .exactly (systemPrefix ++ ascii "posix_acl_access")
  | .posixAclDefault => .exactly (systemPrefix ++ ascii "posix_acl_default")
  | .trusted => .withPrefix trustedPrefix
  | .security => .withPrefix securityPrefix
  | .hurd => .withPrefix (ascii "gnu.")
  | .custom => .withPrefix customPrefix

/-- The configuration of the kernel. -/
structure Config where
  posixAcl : Bool
  security : Bool

/-- `ext4_xattr_handlers`: the order in which a name is tried. -/
def ext4XattrHandlers (config : Config) : List Handler :=
  [.user, .trusted, .custom] ++ (if config.posixAcl then [.posixAclAccess, .posixAclDefault] else []) ++
    (if config.security then [.security] else []) ++ [.hurd]

/-- An entry that passes `ext4_xattr_check_entries`. The value is what reading it gives, from the block or from
an inode of its own. -/
structure Entry where
  nameIndex : Nat
  name : Bytes
  valueSize : Nat
  value : Except Int Bytes
  no_nul : 0 ∉ name

/-- `EXT4_XATTR_LEN`: what the entry takes besides its value. -/
def xattrLen (nameLen : Nat) : Nat := (nameLen + 3 + 16) / 4 * 4

def space : List Entry → Nat
  | [] => 0
  | e :: es => xattrLen e.name.length + space es

/-- The order of the entries of a block: the comparison of `xattr_find_entry`. -/
def compareEntry (nameIndex : Nat) (name : Bytes) (e : Entry) : Ordering :=
  (compare nameIndex e.nameIndex).then ((compare name.length e.name.length).then (compare name e.name))

/-- The size of a block, which bounds that of an inode as well. -/
def blockSize : Nat := 4096

/-- What the permission checks look at besides the attributes. -/
structure Flags where
  shutdown : Bool
  immutable : Bool
  append : Bool
  unmappedId : Bool
  regular : Bool
  directory : Bool
  sticky : Bool

/-- An inode as far as its attributes are concerned. The entries of the block are kept in order, those of the
inode body are not. -/
structure Inode extends Flags where
  ibody : Option (List Entry)
  block : Option (List Entry)
  ibody_fits : ∀ es ∈ ibody, space es ≤ blockSize
  block_fits : ∀ es ∈ block, space es ≤ blockSize
  block_sorted : ∀ es ∈ block, es.Pairwise fun e e' => compareEntry e.nameIndex e.name e' = .lt

/-- A call that reads a value gives its size and, when there is a buffer, the bytes. -/
abbrev Result := Except Int (Nat × Bytes)

/-- `xattr_find_entry`; the walk over entries in order ends at the first one that is not before the name. -/
def xattrFindEntry (nameIndex : Nat) (name : Bytes) (sorted : Bool) : List Entry → Option Entry
  | [] => none
  | e :: es =>
      match compareEntry nameIndex name e with
      | .eq => some e
      | .lt => if sorted then none else xattrFindEntry nameIndex name sorted es
      | .gt => xattrFindEntry nameIndex name sorted es

/-- What the two places of an entry do once it is found. -/
def readEntry (e : Entry) (buffer : Option Nat) : Result :=
  if EXT4_XATTR_SIZE_MAX < e.valueSize then .error (-ERANGE)
  else
    match buffer with
    | none => .ok (e.valueSize, [])
    | some size => if size < e.valueSize then .error (-ERANGE) else e.value.map fun data => (e.valueSize, data)

/-- `ext4_xattr_ibody_get` and `ext4_xattr_block_get`; no entries at all when the place is not in use. -/
def ext4XattrPlaceGet (place : Option (List Entry)) (sorted : Bool) (nameIndex : Nat) (name : Bytes)
    (buffer : Option Nat) : Result :=
  match place with
  | none => .error (-ENODATA)
  | some es =>
      match xattrFindEntry nameIndex name sorted es with
      | none => .error (-ENODATA)
      | some e => readEntry e buffer

def ext4XattrGet (i : Inode) (nameIndex : Nat) (name : Bytes) (buffer : Option Nat) : Result :=
  if i.shutdown then .error (- EIO)
  else if 255 < name.length then .error (-ERANGE)
  else
    match ext4XattrPlaceGet i.ibody false nameIndex name buffer with
    | .error e =>
        if e = -ENODATA then ext4XattrPlaceGet i.block true nameIndex name buffer else .error e
    | .ok r => .ok r

/-- The attributes outside the custom namespace, as `ext4_xattr_get` gives them. -/
abbrev Reads := {index : Nat // index ≠ EXT4_XATTR_INDEX_CUSTOM} → Bytes → Option Nat → Result

def Inode.reads (i : Inode) : Reads := fun index => ext4XattrGet i index

/-- The caller. -/
structure Caller where
  capSysAdmin : Bool
  ownerOrCapable : Bool

inductive Mask where
  | mayRead
  | mayWrite
deriving DecidableEq

/-- The code outside the repository. -/
structure Outside where
  config : Config
  /-- The `list` callbacks of the other handlers. -/
  list : Handler → Caller → Bool
  /-- The `get` callbacks of the other handlers. -/
  get : Handler → Caller → Reads → Bytes → Option Nat → Result
  inodePermission : Caller → Reads → Mask → Int
  securityInodeGetxattr : Caller → Bytes → Int
  /-- `none` stands for `-EOPNOTSUPP`: no security module is active. -/
  securityInodeGetsecurity : Caller → Reads → Bytes → Option Nat → Option Result
  securityInodeListxattr : Caller → Int
  posixAclFixXattrToUser : Bytes → Bytes
  posixAclFixXattrFromUser : Bytes → Bytes
  capConvertNscap : Caller → Bytes → Except Int Bytes
  /-- What is left of `setxattr` and `removexattr` behind the permission check. -/
  setNoperm : Caller → Inode → Bytes → Bytes → Int → Int
  removeNoperm : Caller → Inode → Bytes → Int

/-- `xattr_permission`. -/
def xattrPermission (k : Outside) (caller : Caller) (i : Inode) (name : Bytes) (mask : Mask) : Int :=
  let refused := if mask = .mayWrite then -EPERM else -ENODATA
  if mask = .mayWrite ∧ (i.immutable ∨ i.append) then -EPERM
  else if mask = .mayWrite ∧ i.unmappedId then -EPERM
  else if customPrefix.isPrefixOf name then if !caller.capSysAdmin then refused else 0
  else if securityPrefix.isPrefixOf name ∨ systemPrefix.isPrefixOf name then 0
  else if trustedPrefix.isPrefixOf name then if !caller.capSysAdmin then refused else 0
  else if userPrefix.isPrefixOf name ∧ !i.regular ∧ !i.directory then refused
  else if userPrefix.isPrefixOf name ∧ i.directory ∧ i.sticky ∧ mask = .mayWrite ∧ !caller.ownerOrCapable then -EPERM
  else k.inodePermission caller i.reads mask

/-- `xattr_resolve_name`: the handler and the rest of the name. -/
def xattrResolveName (name : Bytes) : List Handler → Except Int (Handler × Bytes)
  | [] => .error (-EOPNOTSUPP)
  | h :: hs =>
      if h.pattern.text.isPrefixOf name then
        let rest := name.drop h.pattern.text.length
        match h.pattern with
        | .withPrefix _ => if rest = [] then .error (-EINVAL) else .ok (h, rest)
        | .exactly _ => if rest = [] then .ok (h, rest) else xattrResolveName name hs
      else xattrResolveName name hs

def handlerGet (k : Outside) (caller : Caller) (i : Inode) (name : Bytes) (buffer : Option Nat) : Handler → Result
  | .custom => ext4XattrGet i EXT4_XATTR_INDEX_CUSTOM name buffer
  | h => k.get h caller i.reads name buffer

/-- `__vfs_getxattr`. -/
def vfsGetxattrNoperm (k : Outside) (caller : Caller) (i : Inode) (name : Bytes) (buffer : Option Nat) : Result :=
  match xattrResolveName name (ext4XattrHandlers k.config) with
  | .error e => .error e
  | .ok (h, rest) => handlerGet k caller i rest buffer h

def vfsGetxattr (k : Outside) (caller : Caller) (i : Inode) (name : Bytes) (buffer : Option Nat) : Result :=
  if xattrPermission k caller i name .mayRead ≠ 0 then .error (xattrPermission k caller i name .mayRead)
  else if k.securityInodeGetxattr caller name ≠ 0 then .error (k.securityInodeGetxattr caller name)
  else if securityPrefix.isPrefixOf name then
    match k.securityInodeGetsecurity caller i.reads (name.drop securityPrefix.length) buffer with
    | some r => r
    | none => vfsGetxattrNoperm k caller i name buffer
  else vfsGetxattrNoperm k caller i name buffer

/-- What can go wrong between the kernel and the caller. -/
structure Faults where
  nomem : Bool
  copy : Bool

/-- What a system call returns, and what it leaves in the buffer of the caller. -/
abbrev Seen := Int × Option Bytes

/-- The end of `getxattr` and `listxattr`: the copy to the caller, and the error for what cannot be. -/
def toUser (faults : Faults) (size max : Nat) : Result → Seen
  | .ok (n, data) =>
      if n = 0 ∨ size = 0 then (n, none) else if faults.copy then (-EFAULT, none) else (n, some data)
  | .error e => if e = -ERANGE ∧ max ≤ size then (-E2BIG, none) else (e, none)

def isAcl (name : Bytes) : Bool :=
  name = Handler.posixAclAccess.pattern.text ∨ name = Handler.posixAclDefault.pattern.text

def getxattr (k : Outside) (caller : Caller) (faults : Faults) (i : Inode) (name : Bytes) (size : Nat) : Seen :=
  if name = [] ∨ XATTR_NAME_MAX < name.length then (-ERANGE, none)
  else
    let size := min size XATTR_SIZE_MAX
    if size ≠ 0 ∧ faults.nomem then (-ENOMEM, none)
    else
      let r := vfsGetxattr k caller i name (if size = 0 then none else some size)
      let fixed := if isAcl name then r.map fun (n, data) => (n, k.posixAclFixXattrToUser data) else r
      toUser faults size XATTR_SIZE_MAX fixed

/-- The flags of `setxattr`: `XATTR_CREATE` and `XATTR_REPLACE` are the low two bits. -/
def flagsValid (flags : Int) : Bool := 0 ≤ flags ∧ flags < 4

def vfsSetxattr (k : Outside) (caller : Caller) (i : Inode) (name value : Bytes) (flags : Int) : Int :=
  let converted :=
    if value ≠ [] ∧ name = securityPrefix ++ ascii "capability" then k.capConvertNscap caller value else .ok value
  match converted with
  | .error e => e
  | .ok value =>
      if xattrPermission k caller i name .mayWrite ≠ 0 then xattrPermission k caller i name .mayWrite
      else k.setNoperm caller i name value flags

def setxattr (k : Outside) (caller : Caller) (faults : Faults) (i : Inode) (name value : Bytes) (flags : Int) : Int :=
  if !flagsValid flags then -EINVAL
  else if name = [] ∨ XATTR_NAME_MAX < name.length then -ERANGE
  else if XATTR_SIZE_MAX < value.length then -E2BIG
  else if value ≠ [] ∧ faults.nomem then -ENOMEM
  else if value ≠ [] ∧ faults.copy then -EFAULT
  else vfsSetxattr k caller i name (if isAcl name then k.posixAclFixXattrFromUser value else value) flags

end OsHw.Xattr
