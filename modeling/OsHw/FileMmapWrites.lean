import OsHw.FileMmap

/-! What calls of `file_mmap_write` do to the file. Calls that succeed are writes at a place. A call that fails leaves
the file as it was, unless it has extended it before. And the copy stays within the mapping and the file, unless
the sum that is taken for the length goes round. -/

namespace OsHw.FileMmap

open FileContent

variable {a : Answers} {f g : File} {file : Option File} {offset : UInt64} {content : CString}

/-! Successful calls. -/

/-- A call in a sequence. -/
structure Write where
  answers : Answers
  offset : UInt64
  content : CString

def step (file : Option File) (w : Write) : Option (Option File × Exit) :=
  let o := fileMmapWrite w.answers file w.offset w.content
  some (o.file, o.exit)

/-- The same write by `pwrite`, to a file that is created when it does not exist. -/
def pwriteTo (bytes : Option (List UInt8)) (w : Write) : Option (List UInt8) :=
  some (pwrite 0 (bytes.getD []) w.offset.toNat w.content.bytes)

theorem getD_empty (file : Option File) : (file.getD .empty).bytes = (file.map File.bytes).getD [] := by
  cases file <;> rfl

theorem fileMmapWrite_pwrite (hne : content.bytes ≠ []) (hlt : offset.toNat + content.bytes.length < 2 ^ 63)
    (hok : (fileMmapWrite a file offset content).exit = .returned 0) :
    (fileMmapWrite a file offset content).file.map File.bytes =
      some (pwrite 0 ((file.map File.bytes).getD []) offset.toNat content.bytes) := by
  rcases fileMmapWrite_cases a file offset content with ⟨hopens, hstats, g, hgrow⟩ | ⟨-, hexit, -⟩
  · have hbytes := grow_bytes hgrow
    rw [toNat_totSize (by omega), getD_empty] at hbytes
    rw [fileMmapWrite_of_grow hopens hstats hgrow] at hok ⊢
    split at hok
    · cases hok
    · rename_i hmaps
      rw [if_neg hmaps, copyIn_of_lt (by omega), Option.map_some, Option.some.injEq]
      dsimp only
      rw [hbytes, overwrite_resize hne rfl]
  · rw [hexit] at hok
    cases hok

/-- **Writing.** After calls with strings that are not empty and end below `2 ^ 63`, if all return 0, the file is what
the same writes with `pwrite` make of it. -/
theorem fileMmapWrites_pwrite (file file' : Option File) (ws : List Write) (os : List Exit)
    (hws : ∀ w ∈ ws, w.content.bytes ≠ [] ∧ w.offset.toNat + w.content.bytes.length < 2 ^ 63)
    (hrun : run step file ws = some (file', os)) (hok : ∀ o ∈ os, o = .returned 0) :
    file'.map File.bytes = ws.foldl pwriteTo (file.map File.bytes) := by
  induction ws generalizing file os with
  | nil =>
      cases hrun
      rfl
  | cons w ws ih =>
      obtain ⟨file₁, o, os₁, hstep, hrest, rfl⟩ := run_cons_eq_some_iff.mp hrun
      obtain ⟨⟨hne, hlt⟩, hws⟩ := List.forall_mem_cons.mp hws
      obtain ⟨ho, hos⟩ := List.forall_mem_cons.mp hok
      simp only [step, Option.some.injEq, Prod.mk.injEq] at hstep
      obtain ⟨rfl, rfl⟩ := hstep
      have hfirst : (fileMmapWrite w.answers file w.offset w.content).file.map File.bytes =
          pwriteTo (file.map File.bytes) w := fileMmapWrite_pwrite hne hlt ho
      calc file'.map File.bytes
          = ws.foldl pwriteTo ((fileMmapWrite w.answers file w.offset w.content).file.map File.bytes) :=
            ih _ os₁ hws hrest hos
        _ = (w :: ws).foldl pwriteTo (file.map File.bytes) := by rw [hfirst, List.foldl_cons]

def allSucceed : Answers := ⟨true, true, true, true, true, true⟩

/-- A new file, a gap, an overlap, and a write that leaves the end alone. -/
def fewWrites : List Write :=
  [⟨allSucceed, 3, .letters 2 (by decide)⟩, ⟨allSucceed, 7, .letters 1 (by decide)⟩,
    ⟨allSucceed, 4, .letters 2 (by decide)⟩]

theorem fewWrites_pwrite : ∃ file os, run step none fewWrites = some (file, os) ∧
    file.map File.bytes = some [0, 0, 0, 97, 97, 97, 0, 97] := by
  have hrun : ∃ file, run step none fewWrites = some (file, [.returned 0, .returned 0, .returned 0]) := ⟨_, rfl⟩
  obtain ⟨file, hrun⟩ := hrun
  have hbytes := fileMmapWrites_pwrite none file fewWrites _ (by decide) hrun (by decide)
  exact ⟨file, _, hrun, hbytes.trans (by decide)⟩

/-! Failing calls. -/

/-- A call that fails has not extended the file, and has left it as it was if it did not get to the copy. -/
structure Atomic (f : File) (o : Outcome) : Prop where
  before_copy : o.exit = .returned (-1) → o.copied = none → o.file = some f
  not_extended : o.exit = .returned (-1) → ∃ g, o.file = some g ∧ g.bytes.length ≤ f.bytes.length

/-- The file is extended, and then `mmap` fails, or `msync` or `munmap` after a copy. -/
def ExtendsThenFails (a : Answers) (f : File) (offset : UInt64) (content : CString) : Prop :=
  (a.opens = true ∧ a.stats = true ∧ a.truncates = true) ∧
    (f.bytes.length < (offset + content.strlen).toNat ∧ (offset + content.strlen).toNat < 2 ^ 63) ∧
    (a.maps = false ∨
      offset.toNat + content.bytes.length < 2 ^ 64 ∧ (a.syncs = false ∨ a.unmaps = false))

theorem atomic_of_same (hfile : (fileMmapWrite a (some f) offset content).file = some f) :
    Atomic f (fileMmapWrite a (some f) offset content) :=
  ⟨fun _ _ => hfile, fun _ => ⟨f, hfile, Nat.le_refl _⟩⟩

/-- A call that does not extend the file changes bytes of it in the copy at most. -/
theorem atomic_of_le (h : (offset + content.strlen).toNat ≤ f.bytes.length) :
    Atomic f (fileMmapWrite a (some f) offset content) := by
  rcases fileMmapWrite_cases a (some f) offset content with ⟨hopens, hstats, -⟩ | ⟨-, -, hfile⟩
  · rw [fileMmapWrite_of_grow hopens hstats (grow_of_le h)]
    split
    · exact ⟨fun _ _ => rfl, fun _ => ⟨f, rfl, Nat.le_refl _⟩⟩
    · rcases Nat.lt_or_ge (offset.toNat + content.bytes.length) (2 ^ 64) with hlt | hge
      · rw [copyIn_of_lt hlt]
        exact ⟨nofun, fun _ => ⟨_, rfl, by rw [length_overwrite]; exact Nat.le_refl _⟩⟩
      · rw [copyIn_of_ge hge]
        exact ⟨nofun, nofun⟩
  · exact atomic_of_same (hfile f rfl)

/-- A call that has extended the file is atomic unless one of the later system calls fails. -/
theorem atomic_iff_of_grow (hopens : a.opens = true) (hstats : a.stats = true)
    (hgrow : grow a f (offset + content.strlen) = some g) (hlt : f.bytes.length < (offset + content.strlen).toNat) :
    Atomic f (fileMmapWrite a (some f) offset content) ↔
      ¬(a.maps = false ∨
        offset.toNat + content.bytes.length < 2 ^ 64 ∧ (a.syncs = false ∨ a.unmaps = false)) := by
  have hlength : g.bytes.length = (offset + content.strlen).toNat := by
    rw [grow_bytes hgrow, length_resize, Nat.max_eq_right (Nat.le_of_lt hlt)]
  have hpos : offset + content.strlen ≠ 0 := by
    intro hzero
    rw [hzero] at hlt
    exact absurd hlt (Nat.not_lt_zero _)
  have hextended : ∀ g' : File, g'.bytes.length = g.bytes.length → ¬g'.bytes.length ≤ f.bytes.length := by
    intro g' hg'
    omega
  have hcall := @fileMmapWrite_of_grow a g (some f) offset content hopens hstats hgrow
  rw [hcall]
  cases hmaps : a.maps with
  | false =>
      rw [if_pos (.inl rfl)]
      refine iff_of_false (fun h => ?_) (not_not.mpr (.inl rfl))
      obtain ⟨g', hg', hle⟩ := h.not_extended rfl
      cases hg'
      exact hextended g rfl hle
  | true =>
      rw [if_neg (by simp [hpos])]
      rcases Nat.lt_or_ge (offset.toNat + content.bytes.length) (2 ^ 64) with hsum | hsum
      · rw [copyIn_of_lt hsum]
        by_cases hlater : a.syncs = true ∧ a.unmaps = true
        · rw [if_pos hlater]
          refine iff_of_true ⟨nofun, nofun⟩ ?_
          simp [hlater.1, hlater.2]
        · rw [if_neg hlater]
          refine iff_of_false (fun h => ?_) (not_not.mpr (.inr ⟨hsum, ?_⟩))
          · obtain ⟨g', hg', hle⟩ := h.not_extended rfl
            cases hg'
            exact hextended _ (length_overwrite) hle
          · rwa [not_and_or, Bool.not_eq_true, Bool.not_eq_true] at hlater
      · rw [copyIn_of_ge hsum]
        refine iff_of_true ⟨nofun, nofun⟩ ?_
        simp only [Bool.true_eq_false, false_or, not_and]
        omega

/-- **Failing.** For every file and every outcome of the system calls, a call is atomic exactly when it does not
extend the file and fails afterwards. -/
theorem atomic_iff (a : Answers) (f : File) (offset : UInt64) (content : CString) :
    Atomic f (fileMmapWrite a (some f) offset content) ↔ ¬ExtendsThenFails a f offset content := by
  rcases Nat.lt_or_ge f.bytes.length (offset + content.strlen).toNat with hlt | hge
  · by_cases hgrows : (a.opens = true ∧ a.stats = true ∧ a.truncates = true) ∧ (offset + content.strlen).toNat < 2 ^ 63
    · obtain ⟨⟨hopens, hstats, htruncates⟩, hfits⟩ := hgrows
      have hgrow : grow a f (offset + content.strlen) = ftruncate a.truncates f (offset + content.strlen) :=
        grow_of_lt hlt
      rw [ftruncate, dif_pos ⟨htruncates, hfits⟩] at hgrow
      rw [atomic_iff_of_grow hopens hstats hgrow hlt, ExtendsThenFails]
      simp only [hopens, hstats, htruncates, hlt, hfits, true_and]
    · rcases fileMmapWrite_cases a (some f) offset content with ⟨hopens, hstats, g, hgrow⟩ | ⟨-, -, hfile⟩
      · rw [Option.getD_some, grow_of_lt hlt, ftruncate] at hgrow
        split at hgrow
        · rename_i htruncates
          exact absurd ⟨⟨hopens, hstats, htruncates.1⟩, htruncates.2⟩ hgrows
        · cases hgrow
      · exact iff_of_true (atomic_of_same (hfile f rfl)) fun h => hgrows ⟨h.1, h.2.1.2⟩
  · exact iff_of_true (atomic_of_le hge) fun h => absurd h.2.1.1 (Nat.not_lt.mpr hge)

def oneByte : File := ⟨[120], by decide⟩

/-- `mmap` fails after one byte has been extended to six. -/
theorem failedMmap_extends :
    (fileMmapWrite { allSucceed with maps := false } (some oneByte) 4 (.letters 2 (by decide))).exit = .returned (-1) ∧
      (fileMmapWrite { allSucceed with maps := false } (some oneByte) 4 (.letters 2 (by decide))).copied = none ∧
      (fileMmapWrite { allSucceed with maps := false } (some oneByte) 4 (.letters 2 (by decide))).file.map File.bytes =
        some [120, 0, 0, 0, 0, 0] ∧
      ¬Atomic oneByte
        (fileMmapWrite { allSucceed with maps := false } (some oneByte) 4 (.letters 2 (by decide))) := by
  refine ⟨rfl, rfl, rfl, fun h => ?_⟩
  have hsame := congrArg (Option.map File.bytes) (h.before_copy rfl rfl)
  revert hsame
  decide

/-! The range of the copy. -/

/-- The copy goes to a place in the mapping and in the file. -/
def Inside (c : Copy) : Prop := c.offset + c.length ≤ c.mapped ∧ c.offset + c.length ≤ c.fileSize

theorem inside_of_lt (h : offset.toNat + content.bytes.length < 2 ^ 64) {c : Copy}
    (hc : (fileMmapWrite a file offset content).copied = some c) : Inside c := by
  rcases fileMmapWrite_cases a file offset content with ⟨hopens, hstats, g, hgrow⟩ | ⟨hcopied, -, -⟩
  · have hlength : g.bytes.length = max (file.getD .empty).bytes.length (offset + content.strlen).toNat := by
      rw [grow_bytes hgrow, length_resize]
    rw [toNat_totSize h] at hlength
    rw [fileMmapWrite_of_grow hopens hstats hgrow] at hc
    split at hc
    · cases hc
    · rw [copyIn_of_lt h] at hc
      cases hc
      exact ⟨Nat.le_refl _, by dsimp only; omega⟩
  · rw [hcopied] at hc
    cases hc

/-- A sum that goes round to zero is the length of no mapping. -/
theorem not_copied_of_eq (h : offset.toNat + content.bytes.length = 2 ^ 64) :
    (fileMmapWrite a file offset content).copied = none := by
  have hzero : offset + content.strlen = 0 := by
    rw [← UInt64.toNat_inj, UInt64.toNat_add, CString.toNat_strlen, h]
    rfl
  rcases fileMmapWrite_cases a file offset content with ⟨hopens, hstats, g, hgrow⟩ | ⟨hcopied, -, -⟩
  · rw [fileMmapWrite_of_grow hopens hstats hgrow, if_pos (.inr hzero)]
  · exact hcopied

/-- A sum that goes round further is the length of a mapping that is too short. -/
theorem copied_of_gt (h : 2 ^ 64 < offset.toNat + content.bytes.length) (file : Option File) :
    ∃ c, (fileMmapWrite allSucceed file offset content).copied = some c ∧ ¬Inside c := by
  have hfits := content.fits
  have hoffset := offset.toNat_lt
  have htot : (offset + content.strlen).toNat = offset.toNat + content.bytes.length - 2 ^ 64 := by
    rw [UInt64.toNat_add, CString.toNat_strlen]
    omega
  have hgrow : ∃ g, grow allSucceed (file.getD .empty) (offset + content.strlen) = some g := by
    rcases Nat.lt_or_ge (file.getD .empty).bytes.length (offset + content.strlen).toNat with hlt | hge
    · rw [grow_of_lt hlt, ftruncate, dif_pos ⟨rfl, by omega⟩]
      exact ⟨_, rfl⟩
    · exact ⟨_, grow_of_le hge⟩
  have hpos : offset + content.strlen ≠ 0 := by
    intro hzero
    rw [hzero] at htot
    have hnat : (0 : UInt64).toNat = 0 := rfl
    omega
  obtain ⟨g, hgrow⟩ := hgrow
  refine ⟨⟨offset.toNat, content.bytes.length, (offset + content.strlen).toNat, g.bytes.length⟩, ?_, fun hinside => ?_⟩
  · rw [fileMmapWrite_of_grow rfl rfl hgrow, if_neg (by simp [allSucceed, hpos]), copyIn_of_ge (Nat.le_of_lt h)]
  · have hmapped := hinside.1
    dsimp only at hmapped
    omega

/-- **Bounds.** For every file, every offset and every string, the copy is inside whatever the system calls answer
exactly when offset and length add up to `2 ^ 64` at most. -/
theorem copy_inside_iff (file : Option File) (offset : UInt64) (content : CString) :
    (∀ a c, (fileMmapWrite a file offset content).copied = some c → Inside c) ↔
      offset.toNat + content.bytes.length ≤ 2 ^ 64 := by
  constructor
  · intro hall
    by_contra hgt
    obtain ⟨c, hc, hnot⟩ := copied_of_gt (Nat.lt_of_not_le hgt) file
    exact hnot (hall allSucceed c hc)
  · intro hle a c hc
    rcases Nat.lt_or_eq_of_le hle with hlt | heq
    · exact inside_of_lt hlt hc
    · rw [not_copied_of_eq heq] at hc
      cases hc

/-- Two bytes at the last offset: one byte is mapped. -/
theorem lastOffset_strays :
    ∃ c, (fileMmapWrite allSucceed none 18446744073709551615 (.letters 2 (by decide))).copied = some c ∧ c.mapped = 1 ∧
      c.offset = 18446744073709551615 ∧ c.length = 2 ∧ ¬Inside c := by
  refine ⟨_, rfl, rfl, rfl, rfl, fun hinside => ?_⟩
  have hmapped := hinside.1
  revert hmapped
  decide

end OsHw.FileMmap
