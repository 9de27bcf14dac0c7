import OsHw.Run
import OsHw.CString
import OsHw.FileContent

/-! `file_mmap_write`: a file is opened and extended, a prefix of it is mapped, and the string is copied into the
mapping. The length of the mapping is a sum of two 64-bit numbers, and the copy goes to wherever its first summand
leads. The system calls can fail one by one. -/

namespace OsHw.FileMmap

open FileContent

/-- A regular file; its size is an `off_t`. -/
structure File where
  bytes : List UInt8
  fits : bytes.length < 2 ^ 63

def File.empty : File := ⟨[], by decide⟩

/-- `st_size`, as the comparison with a `size_t` takes it. -/
def File.stSize (f : File) : UInt64 := UInt64.ofNat f.bytes.length

/-- What the system calls of one call answer where their arguments leave it open. -/
structure Answers where
  opens : Bool
  stats : Bool
  truncates : Bool
  maps : Bool
  syncs : Bool
  unmaps : Bool

/-- A length that is negative as an `off_t` is refused. -/
def ftruncate (ok : Bool) (f : File) (length : UInt64) : Option File :=
  if h : ok = true ∧ length.toNat < 2 ^ 63 then
    some ⟨resize 0 f.bytes length.toNat, by rw [length_resize]; exact h.2⟩
  else none

/-- A `memcpy` that is reached: where it goes, and the sizes of the moment. -/
structure Copy where
  offset : Nat
  length : Nat
  mapped : Nat
  fileSize : Nat

inductive Exit where
  | returned (r : Int)
  /-- The copy leaves the mapping. -/
  | strayed
deriving DecidableEq

structure Outcome where
  file : Option File
  copied : Option Copy
  exit : Exit

/-- The part behind `mmap`. -/
def copyIn (a : Answers) (f : File) (offset : UInt64) (content : CString) (totSize : UInt64) : Outcome :=
  let copy : Copy := ⟨offset.toNat, content.bytes.length, totSize.toNat, f.bytes.length⟩
  if copy.offset + copy.length ≤ copy.mapped then
    { file := some ⟨overwrite f.bytes offset.toNat content.bytes, by rw [length_overwrite]; exact f.fits⟩
      copied := some copy
      exit := if !a.syncs then .returned (-1) else if !a.unmaps then .returned (-1) else .returned 0 }
  else ⟨some f, some copy, .strayed⟩

/-- The part between `fstat` and `mmap`. -/
def grow (a : Answers) (f : File) (totSize : UInt64) : Option File :=
  if f.stSize < totSize then ftruncate a.truncates f totSize else some f

def fileMmapWrite (a : Answers) (file : Option File) (offset : UInt64) (content : CString) : Outcome :=
  let totSize := offset + content.strlen
  if !a.opens then ⟨file, none, .returned (-1)⟩
  else
    -- `O_CREAT`
    let f := file.getD .empty
    if !a.stats then ⟨some f, none, .returned (-1)⟩
    else
      match grow a f totSize with
      | none => ⟨some f, none, .returned (-1)⟩
      | some g =>
          -- no mapping has the length 0
          if !a.maps ∨ totSize = 0 then ⟨some g, none, .returned (-1)⟩
          else copyIn a g offset content totSize

section Steps

variable {a : Answers} {f g : File} {file : Option File} {offset totSize : UInt64} {content : CString}

@[simp] theorem File.toNat_stSize (f : File) : f.stSize.toNat = f.bytes.length := by
  have hfits := f.fits
  rw [stSize, UInt64.toNat_ofNat_of_lt' (by rw [UInt64.size]; omega)]

theorem grow_of_le (h : totSize.toNat ≤ f.bytes.length) : grow a f totSize = some f := by
  rw [grow, if_neg]
  rw [UInt64.lt_iff_toNat_lt, File.toNat_stSize]
  omega

theorem grow_of_lt (h : f.bytes.length < totSize.toNat) : grow a f totSize = ftruncate a.truncates f totSize := by
  rw [grow, if_pos]
  rw [UInt64.lt_iff_toNat_lt, File.toNat_stSize]
  exact h

/-- The file that is mapped is as long as the mapping. -/
theorem grow_bytes (h : grow a f totSize = some g) :
    g.bytes = resize 0 f.bytes (max f.bytes.length totSize.toNat) := by
  rcases Nat.lt_or_ge f.bytes.length totSize.toNat with hlt | hge
  · rw [grow_of_lt hlt, ftruncate] at h
    split at h
    · cases h
      rw [Nat.max_eq_right (Nat.le_of_lt hlt)]
    · cases h
  · rw [grow_of_le hge] at h
    cases h
    rw [Nat.max_eq_left hge, resize_self]

theorem toNat_totSize (h : offset.toNat + content.bytes.length < 2 ^ 64) :
    (offset + content.strlen).toNat = offset.toNat + content.bytes.length := by
  rw [UInt64.toNat_add, CString.toNat_strlen, Nat.mod_eq_of_lt h]

/-- A call gets to `mmap`, or fails and changes at most that the file is there. -/
theorem fileMmapWrite_cases (a : Answers) (file : Option File) (offset : UInt64) (content : CString) :
    (a.opens = true ∧ a.stats = true ∧ ∃ g, grow a (file.getD .empty) (offset + content.strlen) = some g) ∨
      ((fileMmapWrite a file offset content).copied = none ∧
        (fileMmapWrite a file offset content).exit = .returned (-1) ∧
        ∀ f, file = some f → (fileMmapWrite a file offset content).file = some f) := by
  rw [fileMmapWrite]
  dsimp only
  have hexists : ∀ f, file = some f → some (file.getD .empty) = some f := by
    rintro f rfl
    rfl
  cases hopens : a.opens with
  | false => exact .inr ⟨rfl, rfl, fun _ hf => hf⟩
  | true =>
      cases hstats : a.stats with
      | false => exact .inr ⟨rfl, rfl, hexists⟩
      | true =>
          cases hgrow : grow a (file.getD .empty) (offset + content.strlen) with
          | none => exact .inr ⟨rfl, rfl, hexists⟩
          | some g => exact .inl ⟨rfl, rfl, g, rfl⟩

/-- A call that gets to `mmap`. -/
theorem fileMmapWrite_of_grow (hopens : a.opens = true) (hstats : a.stats = true)
    (hgrow : grow a (file.getD .empty) (offset + content.strlen) = some g) :
    fileMmapWrite a file offset content =
      if a.maps = false ∨ offset + content.strlen = 0 then ⟨some g, none, .returned (-1)⟩
      else copyIn a g offset content (offset + content.strlen) := by
  rw [fileMmapWrite]
  simp only [hopens, hstats, hgrow, Bool.not_true, Bool.false_eq_true, if_false, Bool.not_eq_true']

/-- The copy keeps to the mapping when the sum of offset and length is one of 64 bits. -/
theorem copyIn_of_lt (h : offset.toNat + content.bytes.length < 2 ^ 64) :
    copyIn a g offset content (offset + content.strlen) =
      { file := some ⟨overwrite g.bytes offset.toNat content.bytes, by rw [length_overwrite]; exact g.fits⟩
        copied := some ⟨offset.toNat, content.bytes.length, offset.toNat + content.bytes.length, g.bytes.length⟩
        exit := if a.syncs = true ∧ a.unmaps = true then .returned 0 else .returned (-1) } := by
  rw [copyIn, toNat_totSize h]
  dsimp only
  rw [if_pos (Nat.le_refl _)]
  cases a.syncs <;> cases a.unmaps <;> rfl

theorem copyIn_of_ge (h : 2 ^ 64 ≤ offset.toNat + content.bytes.length) :
    copyIn a g offset content (offset + content.strlen) =
      ⟨some g, some ⟨offset.toNat, content.bytes.length, (offset + content.strlen).toNat, g.bytes.length⟩,
        .strayed⟩ := by
  have hlt := (offset + content.strlen).toNat_lt
  rw [copyIn]
  dsimp only
  rw [if_neg (by omega)]

end Steps

end OsHw.FileMmap
