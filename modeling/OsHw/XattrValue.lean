import OsHw.CString
import OsHw.XattrHiding

/-! `set_file_xattr` and `get_file_xattr`. The reader offers its whole buffer to `getxattr` and puts a zero byte behind
what it gets, so it is good for values that are shorter than the buffer. The two system calls are parameters. One
instance of them reads an inode of this kernel. -/

namespace OsHw.Xattr

/-- The calls, with an `errno` for a failure. -/
structure Calls (σ : Type) where
  setxattr : σ → CString → CString → Bytes → Int → Except Int σ
  getxattr : σ → CString → CString → Nat → Except Int Bytes
  /-- Why the caller may not read the attribute, if so. -/
  refuses : σ → CString → CString → Option Int
  /-- What a value is kept as: itself, but for the attributes that the kernel interprets. -/
  kept : σ → CString → CString → Bytes → Bytes

/-- What the calls promise. No size asks for the length alone and is left out. -/
structure Calls.Documented {σ : Type} (c : Calls σ) : Prop where
  getxattr_refused : ∀ s path key size err, c.refuses s path key = some err → c.getxattr s path key size = .error err
  getxattr_setxattr : ∀ s path key value s' size, c.setxattr s path key value 0 = .ok s' → 0 < size →
    c.refuses s' path key = none → c.getxattr s' path key size =
      if size < (c.kept s path key value).length then .error ERANGE else .ok (c.kept s path key value)

/-- What the program shows: a line, or the report of an error. -/
inductive Shown where
  | printf (text : Bytes)
  | perror (text : Bytes) (errno : Int)

def newline : Bytes := [10]

/-- What `%s` prints. -/
def text (buf : Bytes) : Bytes := buf.takeWhile (· ≠ 0)

def setLine (key value : Bytes) : Bytes := ascii "Set xattr " ++ key ++ ascii " = " ++ value ++ newline

def gotLine (key value : Bytes) : Bytes := ascii "Got xattr " ++ key ++ ascii " = " ++ value ++ newline

/-- `char buf[256]`. -/
def bufSize : Nat := 256

/-- What `get_file_xattr` shows, and the bytes that were written from the start of `buf` on. -/
structure Got where
  shown : Shown
  written : Bytes

variable {σ : Type}

def setFileXattr (c : Calls σ) (s : σ) (filepath key value : CString) : σ × Shown :=
  match c.setxattr s filepath key value.bytes 0 with
  | .error err => (s, .perror (ascii "setxattr failed") err)
  | .ok s' => (s', .printf (setLine key.bytes value.bytes))

def getFileXattr (c : Calls σ) (s : σ) (filepath key : CString) : Got :=
  match c.getxattr s filepath key bufSize with
  | .error err => ⟨.perror (ascii "getxattr failed") err, []⟩
  | .ok data =>
      -- `buf[len] = 0`, wherever that is
      let buf := data ++ [0]
      ⟨.printf (gotLine key.bytes (text buf)), buf⟩

/-- The value and its end are in the buffer, the value is shown, and nothing is written outside. -/
structure ReadsBack (key value : CString) (g : Got) : Prop where
  written : g.written = value.bytes ++ [0]
  shown : g.shown = .printf (gotLine key.bytes value.bytes)
  inside : g.written.length ≤ bufSize

theorem setxattr_of_printf {c : Calls σ} {s s' : σ} {path key value : CString} {line : Bytes}
    (h : setFileXattr c s path key value = (s', .printf line)) : c.setxattr s path key value.bytes 0 = .ok s' := by
  rw [setFileXattr] at h
  split at h
  · cases h
  · rename_i heq
    cases h
    exact heq

@[simp] theorem text_append_zero (s : CString) : text (s.bytes ++ [0]) = s.bytes := by
  have hne : ∀ b ∈ s.bytes, decide (b ≠ 0) = true := fun b hb => decide_eq_true fun he => s.no_nul (he ▸ hb)
  rw [text, List.takeWhile_append_of_pos hne]
  simp

theorem getFileXattr_error {c : Calls σ} {s : σ} {path key : CString} {err : Int}
    (h : c.getxattr s path key bufSize = .error err) :
    getFileXattr c s path key = ⟨.perror (ascii "getxattr failed") err, []⟩ := by
  rw [getFileXattr, h]

theorem getFileXattr_ok {c : Calls σ} {s : σ} {path key : CString} {data : Bytes}
    (h : c.getxattr s path key bufSize = .ok data) :
    getFileXattr c s path key = ⟨.printf (gotLine key.bytes (text (data ++ [0]))), data ++ [0]⟩ := by
  rw [getFileXattr, h]

/-- An attribute that cannot be read leaves nothing in the buffer. -/
theorem not_readsBack_of_error {c : Calls σ} {s : σ} {path key value : CString} {err : Int}
    (h : c.getxattr s path key bufSize = .error err) : ¬ReadsBack key value (getFileXattr c s path key) := by
  rw [getFileXattr_error h]
  intro hback
  exact absurd hback.written.symm (by simp)

/-- What is read back is the value, and there is room for one more byte. -/
theorem readsBack_of_ok {c : Calls σ} {s : σ} {path key value : CString} {data : Bytes}
    (h : c.getxattr s path key bufSize = .ok data) :
    ReadsBack key value (getFileXattr c s path key) ↔ data = value.bytes ∧ value.bytes.length < bufSize := by
  rw [getFileXattr_ok h]
  constructor
  · intro hback
    have hinside := hback.inside
    rw [hback.written, List.length_append, List.length_singleton] at hinside
    exact ⟨List.append_cancel_right hback.written, hinside⟩
  · rintro ⟨rfl, hlt⟩
    refine ⟨rfl, ?_, ?_⟩
    · rw [text_append_zero]
    · rw [List.length_append, List.length_singleton]
      exact hlt

/-- **Values.** A value that was set is read back, and every byte of it is written inside the buffer, exactly when
the caller may read it, the kernel keeps it as it is, and it is shorter than the buffer. -/
theorem setFileXattr_readsBack_iff (c : Calls σ) (hc : c.Documented) (s s' : σ) (path key value : CString)
    (hset : setFileXattr c s path key value = (s', .printf (setLine key.bytes value.bytes))) :
    ReadsBack key value (getFileXattr c s' path key) ↔
      c.refuses s' path key = none ∧ c.kept s path key value.bytes = value.bytes ∧ value.bytes.length < bufSize := by
  have hok := setxattr_of_printf hset
  cases hrefuses : c.refuses s' path key with
  | some err =>
      have hget := hc.getxattr_refused s' path key bufSize err hrefuses
      exact iff_of_false (not_readsBack_of_error hget) (by simp)
  | none =>
      have hget := hc.getxattr_setxattr s path key value.bytes s' bufSize hok (by decide) hrefuses
      by_cases hfits : bufSize < (c.kept s path key value.bytes).length
      · rw [if_pos hfits] at hget
        refine iff_of_false (not_readsBack_of_error hget) ?_
        rintro ⟨-, hkept, hlt⟩
        rw [hkept] at hfits
        omega
      · rw [if_neg hfits] at hget
        rw [readsBack_of_ok hget]
        simp

/-! The calls of this kernel, for one file and its attribute `custom.a`, with everything else left out of the file. -/

def root : Caller := ⟨true, true⟩

def noFaults : Faults := ⟨false, false⟩

theorem space_customA (value : Bytes) : space [customA value] ≤ blockSize := by
  have hspace : space [customA value] = space [customA []] := rfl
  rw [hspace]
  decide

def fileA (value : Bytes) : Inode := fileWith [customA value] (space_customA value)

/-- What a program makes of what the kernel returns. -/
def ofSeen : Seen → Except Int Bytes
  | (n, data) => if n < 0 then .error (-n) else .ok (data.getD [])

def kernelCalls : Calls Inode where
  setxattr _ _ key value _ :=
    if key.bytes ≠ ascii "custom.a" then .error EOPNOTSUPP
    else if XATTR_SIZE_MAX < value.length then .error E2BIG
    else .ok (fileA value)
  getxattr i _ key size := ofSeen (getxattr plainKernel root noFaults i key.bytes size)
  refuses _ _ _ := none
  kept _ _ _ value := value

/-- The walk through the layers ends at the entry. -/
theorem vfsGetxattr_fileA {value : Bytes} (hmax : value.length ≤ XATTR_SIZE_MAX) (size : Nat) :
    vfsGetxattr plainKernel root (fileA value) (ascii "custom.a") (some size) =
      if size < value.length then .error (-ERANGE) else .ok (value.length, value) := by
  have hlayers : vfsGetxattr plainKernel root (fileA value) (ascii "custom.a") (some size) =
      ext4XattrGet (fileA value) EXT4_XATTR_INDEX_CUSTOM (ascii "a") (some size) := rfl
  have hfound : ext4XattrPlaceGet (fileA value).ibody false EXT4_XATTR_INDEX_CUSTOM (ascii "a") (some size) =
      readEntry (customA value) (some size) := rfl
  have hsize : ¬EXT4_XATTR_SIZE_MAX < (customA value).valueSize := by
    have hvalue : (customA value).valueSize = value.length := rfl
    have hmin : XATTR_SIZE_MAX ≤ EXT4_XATTR_SIZE_MAX := by decide
    omega
  rw [hlayers, ext4XattrGet, hfound, readEntry, if_neg hsize]
  have hread : (customA value).value.map (fun data => ((customA value).valueSize, data)) =
      .ok (value.length, value) := rfl
  have hvalueSize : (customA value).valueSize = value.length := rfl
  rw [hread, hvalueSize]
  by_cases hlt : size < value.length
  · rw [if_pos hlt]
    rfl
  · rw [if_neg hlt]
    rfl

theorem getxattr_fileA {value : Bytes} (hmax : value.length ≤ XATTR_SIZE_MAX) {size : Nat} (hsize : 0 < size) :
    ofSeen (getxattr plainKernel root noFaults (fileA value) (ascii "custom.a") size) =
      if size < value.length then .error ERANGE else .ok value := by
  have hacl : isAcl (ascii "custom.a") = false := by decide
  have hname : ¬(ascii "custom.a" = [] ∨ XATTR_NAME_MAX < (ascii "custom.a").length) := by decide
  have hmin : min size XATTR_SIZE_MAX ≠ 0 := by
    have hpos : 0 < XATTR_SIZE_MAX := by decide
    omega
  rw [getxattr, if_neg hname]
  simp only [hacl, noFaults, Bool.false_eq_true, and_false, if_false, if_neg hmin]
  rw [vfsGetxattr_fileA hmax]
  have hiff : min size XATTR_SIZE_MAX < value.length ↔ size < value.length := by omega
  by_cases hlt : size < value.length
  · have hroom : ¬(-ERANGE = -ERANGE ∧ XATTR_SIZE_MAX ≤ min size XATTR_SIZE_MAX) := by omega
    rw [if_pos (hiff.mpr hlt), if_pos hlt, toUser, if_neg hroom]
    rfl
  · rw [if_neg (fun h => hlt (hiff.mp h)), if_neg hlt, toUser]
    have hnat : ¬(value.length : Int) < 0 := by omega
    by_cases hempty : value.length = 0
    · rw [if_pos (.inl hempty), ofSeen, if_neg hnat, List.length_eq_zero_iff.mp hempty]
      rfl
    · rw [if_neg (not_or.mpr ⟨hempty, hmin⟩), if_neg Bool.false_ne_true, ofSeen, if_neg hnat]
      rfl

theorem kernelCalls_documented : kernelCalls.Documented where
  getxattr_refused _ _ _ _ _ h := by cases h
  getxattr_setxattr i path key value i' size hset hsize _ := by
    simp only [kernelCalls] at hset ⊢
    split_ifs at hset with hkey hmax
    cases hset
    rw [not_not] at hkey
    rw [hkey]
    exact getxattr_fileA (by omega) hsize

def file : CString := ⟨ascii "f", by decide, by decide⟩

def keyA : CString := ⟨ascii "custom.a", by decide, by decide⟩

def letters255 : CString := .letters 255 (by decide)

def letters256 : CString := .letters 256 (by decide)

def letters257 : CString := .letters 257 (by decide)

/-- As long as the kernel takes it, a value is set. -/
theorem setFileXattr_kernelCalls {value : CString} (hmax : value.bytes.length ≤ XATTR_SIZE_MAX) (i : Inode) :
    setFileXattr kernelCalls i file keyA value = (fileA value.bytes, .printf (setLine keyA.bytes value.bytes)) := by
  have hkey : ¬keyA.bytes ≠ ascii "custom.a" := by decide
  have hset : kernelCalls.setxattr i file keyA value.bytes 0 = .ok (fileA value.bytes) := by
    simp only [kernelCalls]
    rw [if_neg hkey, if_neg (by omega)]
  rw [setFileXattr, hset]

theorem getxattr_kernelCalls {value : Bytes} (hmax : value.length ≤ XATTR_SIZE_MAX) :
    kernelCalls.getxattr (fileA value) file keyA bufSize =
      if bufSize < value.length then .error ERANGE else .ok value :=
  getxattr_fileA hmax (by decide)

/-- 255 letters are read back. -/
theorem letters255_readsBack :
    ReadsBack keyA letters255 (getFileXattr kernelCalls (fileA letters255.bytes) file keyA) := by
  have hlen : letters255.bytes.length = 255 := CString.length_letters _
  have hset := setFileXattr_kernelCalls (hlen.trans_le (by decide)) (fileA [])
  exact (setFileXattr_readsBack_iff kernelCalls kernelCalls_documented _ _ _ _ _ hset).mpr
    ⟨rfl, rfl, hlen.trans_lt (by decide)⟩

/-- 256 letters are set, and reading them writes behind the buffer. 257 letters are set, and cannot be read. -/
theorem letters256_not_readsBack : kernelCalls.Documented ∧
    (setFileXattr kernelCalls (fileA []) file keyA letters256 =
      (fileA letters256.bytes, .printf (setLine keyA.bytes letters256.bytes)) ∧
      (getFileXattr kernelCalls (fileA letters256.bytes) file keyA).written.length = bufSize + 1 ∧
      ¬ReadsBack keyA letters256 (getFileXattr kernelCalls (fileA letters256.bytes) file keyA)) ∧
    setFileXattr kernelCalls (fileA []) file keyA letters257 =
      (fileA letters257.bytes, .printf (setLine keyA.bytes letters257.bytes)) ∧
      (getFileXattr kernelCalls (fileA letters257.bytes) file keyA).shown = .perror (ascii "getxattr failed") ERANGE ∧
      ¬ReadsBack keyA letters257 (getFileXattr kernelCalls (fileA letters257.bytes) file keyA) := by
  have hlen : letters256.bytes.length = 256 := CString.length_letters _
  have hlen' : letters257.bytes.length = 257 := CString.length_letters _
  have hsame := getxattr_kernelCalls (hlen.trans_le (by decide))
  have hlong := getxattr_kernelCalls (hlen'.trans_le (by decide))
  rw [if_neg (by rw [hlen]; decide)] at hsame
  rw [if_pos (by rw [hlen']; decide)] at hlong
  refine ⟨kernelCalls_documented, ⟨setFileXattr_kernelCalls (hlen.trans_le (by decide)) _, ?_, fun hback => ?_⟩,
    setFileXattr_kernelCalls (hlen'.trans_le (by decide)) _, ?_, not_readsBack_of_error hlong⟩
  · rw [getFileXattr_ok hsame, List.length_append, hlen]
    rfl
  · have hlt := ((readsBack_of_ok hsame).mp hback).2
    rw [hlen] at hlt
    exact absurd hlt (by decide)
  · rw [getFileXattr_error hlong]

end OsHw.Xattr
