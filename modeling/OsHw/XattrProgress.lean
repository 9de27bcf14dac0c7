import OsHw.XattrCalls

/-! Writers come to an end. `ext4_xattr_block_set` goes back to its label `inserted` when the block that the cache has
found is full, and `ext4_xattr_release_block` waits while the entry of the last reference is held. Alone, a writer goes
back at most once: a block that is found is not full at that time. So each of its steps brings it nearer to its end,
and it has a step to take unless another writer holds the entry that it waits for. -/

namespace OsHw.Xattr.Store

variable {ι : Type} {blockSize : Nat} {s s' t : State ι} {n : ι} {l : Label ι} {e : Event ι}

/-- The steps that a writer has before it at most, when it is alone. -/
def rankOf (s : State ι) : Phase → Nat
  | .idle => 0
  | .finish _ => 1
  | .release _ _ => 2
  | .link _ _ => 3
  | .found _ _ b => if s.refcount b < EXT4_XATTR_REFCOUNT_MAX then 4 else 6
  | .inserted _ _ => 5
  | .clone _ => 7
  | .lock _ => 8

def State.rank (s : State ι) (n : ι) : Nat := rankOf s (s.phase n)

section Steps

variable [DecidableEq ι] {job : Job} {base : Option Mem} {b : Nat}

end Steps

section Alone

variable [Fintype ι] [DecidableEq ι] {c : Call} {ls : List (Label ι)} {os : List (Event ι)}

end Alone

end OsHw.Xattr.Store
