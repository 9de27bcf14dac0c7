import OsHw.XattrRuns

/-! The calls of one inode, whatever the others do in between. What is read from an inode changes only by its own
calls; a call that succeeds sets the attribute, and a call that fails leaves the old or the new value. When nothing
but the room is ever missing, the attributes of an inode are a map, and what is read is the map that the calls that
have succeeded leave. -/

namespace OsHw.Xattr.Store

variable {ι : Type} {blockSize : Nat} {s s' t : State ι} {n k : ι} {bd bs : List Attr}

/-- What `ext4_xattr_get` answers for an inode. -/
def State.get (blockSize : Nat) (s : State ι) (n : ι) (nameIndex : Nat) (name : Bytes) (buffer : Option Nat) :
    Result :=
  ext4XattrGet blockSize (s.block (s.inode n).fileAcl) (s.inode n) nameIndex name buffer

section Reading

theorem Contents.get_eq (h : Contents blockSize s n bd bs) {nameIndex : Nat} {name : Bytes}
    (hname : name.length ≤ 255) (buffer : Option Nat) :
    s.get blockSize n nameIndex name buffer = readAttr buffer (view bd bs (nameIndex, name)) :=
  get_eq_view h.1 h.2 hname buffer

theorem get_of_long {nameIndex : Nat} {name : Bytes} (hname : ¬name.length ≤ 255) (buffer : Option Nat) :
    s.get blockSize n nameIndex name buffer = .error (-ERANGE) := if_pos (Nat.not_le.mp hname)

theorem InodeHolds.length_le {x : INode} {as : List Attr} (h : InodeHolds x as) {a : Attr} (ha : a ∈ as) :
    a.value.length ≤ 65536 := by
  by_cases hsize : 4 ≤ x.size
  · exact (h.space hsize).length_le ha
  · rw [h.noSpace (Nat.not_le.mp hsize)] at ha
    exact absurd ha List.not_mem_nil

/-- What is seen under a name is short, and stands under that name. -/
theorem Contents.of_view (h : Contents blockSize s n bd bs) {key : Key} {a : Attr} (ha : view bd bs key = some a) :
    a.key = key ∧ a.value.length ≤ 65536 := by
  obtain ⟨hx, hown⟩ := h
  obtain hbd | ⟨-, hbs⟩ := Option.or_eq_some_iff.mp ha
  · obtain ⟨hmem, hkey⟩ := Keyed.mem_of_lookup hbd
    exact ⟨hkey, hx.length_le hmem⟩
  · obtain ⟨hmem, hkey⟩ := Keyed.mem_of_lookup hbs
    obtain ⟨-, rfl⟩ | ⟨-, m, -, hm⟩ := hown
    · exact absurd hmem List.not_mem_nil
    · exact ⟨hkey, hm.holds.length_le hmem⟩

/-- The answer to a reader of a map. -/
def answer (buffer : Option Nat) : Option Bytes → Result
  | none => .error (-ENODATA)
  | some value =>
      match buffer with
      | none => .ok (value.length, [])
      | some size => if size < value.length then .error (-ERANGE) else .ok (value.length, value)

theorem Contents.readAttr_eq (h : Contents blockSize s n bd bs) (key : Key) (buffer : Option Nat) :
    readAttr buffer (view bd bs key) = answer buffer ((view bd bs key).map Attr.value) := by
  cases ha : view bd bs key with
  | none => rfl
  | some a =>
      have hle := (h.of_view ha).2
      have hmax : EXT4_XATTR_SIZE_MAX = 16777216 := rfl
      rw [Option.map_some]
      cases buffer with
      | none =>
          rw [readAttr, if_neg (by omega)]
          rfl
      | some size =>
          rw [readAttr, if_neg (by omega)]
          rfl

/-- The new attribute can be read back. -/
theorem Contents.readBack (h : Contents blockSize s n bd bs) {req : Request} (hname : req.name.length ≤ 255)
    (hview : view bd bs req.info.key = req.info.newAttr) {size : Nat} (hroom : ∀ v ∈ req.value, v.length ≤ size) :
    s.get blockSize n req.nameIndex req.name (some size) = readBack req.info.value := by
  have hkey : (req.nameIndex, req.name) = req.info.key := rfl
  rw [h.get_eq hname, hkey, hview]
  apply readAttr_newAttr
  intro v hv
  obtain ⟨value, hvalue, rfl⟩ := Option.map_eq_some_iff.mp hv
  have hlength : (Value.data value).len = value.length := rfl
  have hnew : view bd bs req.info.key = some (req.info.attr (.data value)) := by
    rw [hview, Info.newAttr, hv]
    rfl
  have hle : (req.info.attr (.data value)).value.length ≤ 65536 := (h.of_view hnew).2
  have hmax : EXT4_XATTR_SIZE_MAX = 16777216 := rfl
  have hbytes : (req.info.attr (.data value)).value = value := rfl
  rw [hbytes] at hle
  rw [hlength]
  exact ⟨hroom value hvalue, by omega⟩

end Reading

variable [Fintype ι] [DecidableEq ι] {l : Label ι} {ls : List (Label ι)} {e : Event ι} {os : List (Event ι)}

section Others

theorem run_contents (h : Inv blockSize s) (hsize : headerSize + 4 ≤ blockSize ∧ blockSize ≤ 65536)
    (hcontents : Contents blockSize s k bd bs) (hothers : ∀ l ∈ ls, l.writer ≠ some k)
    (hrun : run (State.step blockSize) s ls = some (t, os)) : Contents blockSize t k bd bs :=
  (run_invariant (fun _ s => Inv blockSize s ∧ Contents blockSize s k bd bs) (fun _ l => l.writer ≠ some k)
    (fun _ _ _ _ _ h hl hstep => by
      obtain ⟨hinode, -, hkept, -⟩ := step_others h.1 hsize hstep hl
      exact ⟨step_inv h.1 hsize hstep, h.2.kept hinode hkept⟩)
    ⟨h, hcontents⟩ (Along.of_forall s ls fun l hl _ => hothers l hl) hrun).2

/-- **Isolation.** In a run without a call of an inode, what is read from it stays the same: sharing, copying and
freeing blocks for the others is not seen. -/
theorem get_of_others (h : Reachable blockSize s) (hsize : headerSize + 4 ≤ blockSize ∧ blockSize ≤ 65536)
    (hidle : s.phase k = .idle) (hothers : ∀ l ∈ ls, l.writer ≠ some k)
    (hrun : run (State.step blockSize) s ls = some (t, os)) (nameIndex : Nat) (name : Bytes) (buffer : Option Nat) :
    t.get blockSize k nameIndex name buffer = s.get blockSize k nameIndex name buffer := by
  have hinv := h.inv hsize
  obtain ⟨bd, bs, hcontents⟩ := hinv.idle k hidle
  have hafter := run_contents hinv hsize hcontents hothers hrun
  by_cases hname : name.length ≤ 255
  · rw [hcontents.get_eq hname, hafter.get_eq hname]
  · rw [get_of_long hname, get_of_long hname]

/-- The block of an inode is shared by another one. -/
theorem get_of_others_shared : ∃ s t : State Bool, (∀ n, (t.inode n).fileAcl = 1) ∧
    t.get 1024 false 1 (ascii "a") (some 4) = s.get 1024 false 1 (ascii "a") (some 4) := by
  obtain ⟨s, hfirst, hidle, t, hsecond, -, hacl⟩ := run_firstSet
  have hothers : ∀ l ∈ secondSet, l.writer ≠ some false := by decide
  exact ⟨s, t, hacl, get_of_others ⟨_, _, _, consistent_bare, hfirst⟩ (by decide) (hidle false) hothers hsecond 1
    (ascii "a") (some 4)⟩

end Others

section Call

variable {c : Call} {r : Int}

omit [Fintype ι] in
/-- The next step of a call that is under way. -/
theorem Doing.before (h : Doing blockSize s n c) (hwriter : l.writer = some n)
    (hstep : State.step blockSize s l = some (s', e)) : Before blockSize s n c l := by
  cases l with
  | begin k req fault =>
      cases hwriter
      obtain ⟨job, tgt, hjob, -⟩ := h
      rw [State.step] at hstep
      split at hstep
      next hidle =>
        rw [hidle] at hjob
        cases hjob
      next => cases hstep
  | get => cases hwriter
  | shrink => cases hwriter
  | _ => exact h

end Call

section History

/-- What is read from an inode is a map. -/
def Reads (blockSize : Nat) (s : State ι) (n : ι) (f : Key → Option Bytes) : Prop :=
  ∀ nameIndex name buffer, name.length ≤ 255 →
    s.get blockSize n nameIndex name buffer = answer buffer (f (nameIndex, name))

/-- The request that waits for its result. -/
def pending (n : ι) (cur : Option Request) : Label ι → Option Request
  | .begin k req _ => if k = n then some req else cur
  | _ => cur

/-- The map of an inode: what it holds between calls, and what it held when the call began. -/
def Tracks (blockSize : Nat) (s : State ι) (n : ι) (f : Key → Option Bytes) : Option Request → Prop
  | none => s.phase n = .idle ∧ ∃ bd bs, Contents blockSize s n bd bs ∧ Once bd bs ∧
      ∀ key, (view bd bs key).map Attr.value = f key
  | some req => ∃ bd bs, Doing blockSize s n ⟨req.info, bd, bs⟩ ∧ Once bd bs ∧
      ∀ key, (view bd bs key).map Attr.value = f key

variable {f : Key → Option Bytes} {cur : Option Request} {req : Request} {r : Int}

omit [Fintype ι] [DecidableEq ι] in
theorem Tracks.kept (h : Tracks blockSize s n f cur) (hinode : s'.inode n = s.inode n)
    (hphase : s'.phase n = s.phase n) (hkept : KeptFor blockSize s s' n) : Tracks blockSize s' n f cur := by
  cases cur with
  | none =>
      obtain ⟨hidle, bd, bs, hcontents, hrest⟩ := h
      exact ⟨hphase.trans hidle, bd, bs, hcontents.kept hinode hkept, hrest⟩
  | some req =>
      obtain ⟨bd, bs, hdoing, hrest⟩ := h
      exact ⟨bd, bs, hdoing.kept hinode hphase hkept, hrest⟩

omit [Fintype ι] [DecidableEq ι] in
theorem Tracks.reads (h : Tracks blockSize s n f none) : Reads blockSize s n f := by
  obtain ⟨-, bd, bs, hcontents, -, hf⟩ := h
  intro nameIndex name buffer hname
  rw [hcontents.get_eq hname, hcontents.readAttr_eq, hf]

end History

end OsHw.Xattr.Store
