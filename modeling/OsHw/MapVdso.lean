import Mathlib.Tactic.ByContra
import OsHw.AddressSpace

/-! `map_vdso` of `arch/x86/entry/vdso/vma.c`. The three regions lie one behind the other from the requested address,
`[vtask]`, `[vvar]`, `[vdso]`, and are installed in the order `[vtask]`, `[vdso]`, `[vvar]`; what is installed is
taken back when a later one fails. The functions of `mm` are parameters, with what the code relies on as laws. -/

namespace OsHw.Vdso

abbrev Errno := Nat

def eintr : Errno := 4
def enomem : Errno := 12
def eexist : Errno := 17

def pageSize : UInt64 := 4096

/-- A blob of the vDSO. The text has whole pages, and the `vvar` pages lie before it. -/
structure VdsoImage where
  size : UInt64
  symVvarStart : Int64
  size_pages : size.toNat % 4096 = 0
  vvar_neg : symVvarStart.toInt < 0
  vvar_pages : symVvarStart.toInt % 4096 = 0

/-- What is mapped somewhere: one of the special mappings or something else. -/
inductive Mapping where
  | vtask
  | vdso
  | vvar
  | other
  deriving DecidableEq, Repr

/-- The functions of `mm` that are called. -/
structure MmOps where
  installSpecialMapping : Space Mapping → UInt64 → UInt64 → Mapping → Except Errno (Space Mapping)
  doMunmap : Space Mapping → UInt64 → UInt64 → Space Mapping

/-- `_install_special_mapping` adds its range to an address space where it is free, or fails, and `do_munmap`
removes its range. -/
structure MmOps.Lawful (ops : MmOps) : Prop where
  install : ∀ s start len a s', ops.installSpecialMapping s start len a = .ok s' →
    s.Free start len ∧ s' = s.map start len a
  munmap : ∀ s start len, ops.doMunmap s start len = s.unmap start len

/-- Besides, `_install_special_mapping` fails only where its range is not free. -/
structure MmOps.Exact (ops : MmOps) : Prop extends ops.Lawful where
  install_free : ∀ s start len a, s.Free start len → ops.installSpecialMapping s start len a = .ok (s.map start len a)

/-- The address space of a process and the fields of `mm->context`. -/
structure Mm where
  space : Space Mapping
  vdso : UInt64
  vdsoImage : Option VdsoImage
  vtaskBase : UInt64

def vtaskSize : UInt64 := pageSize * 6

/-- `-image->sym_vvar_start`. -/
def VdsoImage.vvarSize (image : VdsoImage) : UInt64 := (-image.symVvarStart).toUInt64

/-- The length of the three regions, with the six pages of the vtask. -/
def VdsoImage.total (image : VdsoImage) : Nat := 24576 + image.vvarSize.toNat + image.size.toNat

def vvarAddr (vtaskAddr : UInt64) : UInt64 := vtaskAddr + vtaskSize

def VdsoImage.textStart (image : VdsoImage) (vtaskAddr : UInt64) : UInt64 :=
  vvarAddr vtaskAddr - image.symVvarStart.toUInt64

/-- `map_vdso`; a task that is killed does not get the lock. -/
def mapVdso (ops : MmOps) (image : VdsoImage) (addr : UInt64) (killed : Bool) (mm : Mm) : Mm × Except Errno Unit :=
  if killed then (mm, .error eintr)
  else
    -- `update_vtask_page(current)` comes first: it writes the pages behind the vtask and maps nothing
    match ops.installSpecialMapping mm.space addr vtaskSize .vtask with
    | .error err => (mm, .error err)
    | .ok s₁ =>
        match ops.installSpecialMapping s₁ (image.textStart addr) image.size .vdso with
        | .error err => ({ mm with space := ops.doMunmap s₁ addr vtaskSize }, .error err)
        | .ok s₂ =>
            match ops.installSpecialMapping s₂ (vvarAddr addr) image.vvarSize .vvar with
            | .error err => ({ mm with space := ops.doMunmap s₂ addr (vtaskSize + image.size) }, .error err)
            | .ok s₃ => (⟨s₃, image.textStart addr, some image, addr⟩, .ok ())

variable {ops : MmOps} {image : VdsoImage} {addr x : UInt64} {killed : Bool} {mm : Mm} {s : Space Mapping}

theorem toNat_vtaskSize : vtaskSize.toNat = 24576 := rfl

theorem vvarSize_eq (image : VdsoImage) : image.vvarSize = -image.symVvarStart.toUInt64 := rfl

theorem textStart_eq (image : VdsoImage) (addr : UInt64) :
    image.textStart addr = addr + (vtaskSize + image.vvarSize) := by
  rw [VdsoImage.textStart, vvarAddr, vvarSize_eq, UInt64.sub_eq_add_neg, UInt64.add_assoc]

theorem toNat_vvarSize (image : VdsoImage) : (image.vvarSize.toNat : Int) = -image.symVvarStart.toInt := by
  have hneg := image.vvar_neg
  have hword := image.symVvarStart.toUInt64.toNat_lt
  have hsigned : image.symVvarStart.toInt =
      if 2 * image.symVvarStart.toUInt64.toNat < 18446744073709551616 then (image.symVvarStart.toUInt64.toNat : Int)
      else image.symVvarStart.toUInt64.toNat - (18446744073709551616 : Nat) :=
    BitVec.toInt_eq_toNat_cond image.symVvarStart.toBitVec
  rw [vvarSize_eq, UInt64.toNat_neg, UInt64.size]
  split at hsigned
  · omega
  · omega

theorem vvarSize_bounds (image : VdsoImage) :
    4096 ≤ image.vvarSize.toNat ∧ image.vvarSize.toNat ≤ 9223372036854775808 ∧ image.vvarSize.toNat % 4096 = 0 := by
  have hsize := toNat_vvarSize image
  have hneg := image.vvar_neg
  have hpages := image.vvar_pages
  have hlo := image.symVvarStart.le_toInt
  omega

/-- How far the text is from the start. -/
theorem toNat_textOffset (image : VdsoImage) :
    (vtaskSize + image.vvarSize).toNat = 24576 + image.vvarSize.toNat := by
  have hbounds := vvarSize_bounds image
  rw [UInt64.toNat_add, toNat_vtaskSize]
  omega

/-- The vtask and the text are in and the vvar pages are not. -/
def VvarFails (ops : MmOps) (image : VdsoImage) (addr : UInt64) (s : Space Mapping) : Prop :=
  ∃ s₁ s₂ err, ops.installSpecialMapping s addr vtaskSize .vtask = .ok s₁ ∧
    ops.installSpecialMapping s₁ (image.textStart addr) image.size .vdso = .ok s₂ ∧
    ops.installSpecialMapping s₂ (vvarAddr addr) image.vvarSize .vvar = .error err

/-- What the second call finds free does not meet what the first one put there, so that the text ends where the
address space does at the latest. -/
theorem add_size_le (h : (s.map addr vtaskSize .vtask).Free (image.textStart addr) image.size) :
    image.total ≤ 18446744073709551616 := by
  have hin : InRange addr vtaskSize addr := by
    rw [inRange_iff, UInt64.sub_self]
    decide
  have hout : ¬InRange (addr + (vtaskSize + image.vvarSize)) image.size addr := by
    rw [← textStart_eq]
    exact fun hx => (Space.free_map_iff.mp h).2 addr hx hin
  have hpos : 0 < (vtaskSize + image.vvarSize).toNat := by
    rw [toNat_textOffset]
    omega
  rw [VdsoImage.total, ← toNat_textOffset]
  exact add_le_of_not_inRange hpos hout

/-- The three regions by the distance from the start. -/
theorem inRange_regions (addr : UInt64)
    (h : image.total ≤ 18446744073709551616) (x : UInt64) :
    (InRange addr vtaskSize x ↔ (x - addr).toNat < 24576) ∧
    (InRange (vvarAddr addr) image.vvarSize x ↔
      24576 ≤ (x - addr).toNat ∧ (x - addr).toNat < 24576 + image.vvarSize.toNat) ∧
    (InRange (image.textStart addr) image.size x ↔ 24576 + image.vvarSize.toNat ≤ (x - addr).toNat ∧
      (x - addr).toNat < 24576 + image.vvarSize.toNat + image.size.toNat) := by
  rw [VdsoImage.total] at h
  refine ⟨inRange_iff, ?_, ?_⟩
  · rw [vvarAddr, inRange_add_iff, toNat_vtaskSize]
    rw [toNat_vtaskSize]
    omega
  · rw [textStart_eq, inRange_add_iff, toNat_textOffset]
    rw [toNat_textOffset]
    exact h

/-- What is installed first takes nothing away from the later regions. -/
theorem text_free_iff (h : image.total ≤ 18446744073709551616) :
    (s.map addr vtaskSize .vtask).Free (image.textStart addr) image.size ↔
      s.Free (image.textStart addr) image.size := by
  rw [Space.free_map_iff, and_iff_left_iff_imp]
  intro _ x hx hin
  obtain ⟨hvtask, -, htext⟩ := inRange_regions addr h x
  rw [htext] at hx
  rw [hvtask] at hin
  omega

theorem vvar_free_iff (h : image.total ≤ 18446744073709551616) :
    ((s.map addr vtaskSize .vtask).map (image.textStart addr) image.size .vdso).Free (vvarAddr addr) image.vvarSize ↔
      s.Free (vvarAddr addr) image.vvarSize := by
  rw [Space.free_map_iff, Space.free_map_iff, and_assoc, and_iff_left_iff_imp]
  refine fun _ => ⟨fun x hx hin => ?_, fun x hx hin => ?_⟩
  · obtain ⟨hvtask, hvvar, -⟩ := inRange_regions addr h x
    rw [hvvar] at hx
    rw [hvtask] at hin
    omega
  · obtain ⟨-, hvvar, htext⟩ := inRange_regions addr h x
    rw [hvvar] at hx
    rw [htext] at hin
    omega

/-- The last byte of the text is behind what the rollback removes. -/
theorem rollback_leaves_text (addr : UInt64) (h : image.total ≤ 18446744073709551616)
    (hsize : image.size ≠ 0) :
    ∃ x, InRange (image.textStart addr) image.size x ∧ ¬InRange addr (vtaskSize + image.size) x := by
  have hbounds := vvarSize_bounds image
  have hregions := inRange_regions addr h
  rw [VdsoImage.total] at h
  have hpos : 0 < image.size.toNat := Nat.pos_of_ne_zero fun hzero => hsize (UInt64.toNat_inj.mp hzero)
  have hsum : (vtaskSize + image.size).toNat = 24576 + image.size.toNat := by
    rw [UInt64.toNat_add, toNat_vtaskSize]
    omega
  obtain ⟨d, hd⟩ : ∃ d : UInt64, d.toNat = 24576 + image.vvarSize.toNat + image.size.toNat - 1 :=
    ⟨.ofNat (24576 + image.vvarSize.toNat + image.size.toNat - 1), UInt64.toNat_ofNat_of_lt' (by
      show _ < 18446744073709551616
      omega)⟩
  have hdist : (addr + d - addr).toNat = d.toNat := by rw [UInt64.add_comm, UInt64.add_sub_cancel]
  refine ⟨addr + d, ?_, ?_⟩
  · rw [(hregions _).2.2, hdist, hd]
    omega
  · rw [inRange_iff, hdist, hsum, hd]
    omega

/-- A rollback after the third call leaves part of the text behind, unless there is no text. -/
theorem rollback_eq_iff (hvtask : s.Free addr vtaskSize)
    (htext : (s.map addr vtaskSize .vtask).Free (image.textStart addr) image.size) :
    ((s.map addr vtaskSize .vtask).map (image.textStart addr) image.size .vdso).unmap addr (vtaskSize + image.size) =
      s ↔ image.size = 0 := by
  constructor
  · intro heq
    by_contra hsize
    obtain ⟨x, hin, hout⟩ := rollback_leaves_text addr (add_size_le htext) hsize
    have hleft := congrFun heq x
    rw [Space.unmap_of_not_inRange hout, Space.map_of_inRange hin, (Space.free_map_iff.mp htext).1 x hin] at hleft
    cases hleft
  · intro hsize
    rw [hsize, Space.map_zero, UInt64.add_zero, Space.unmap_map hvtask]

/-- What a call that gets the lock can do: it fails before the text is in and leaves nothing behind, or it fails at the
vvar pages and rolls back, or it maps all three regions. -/
theorem mapVdso_cases (hops : ops.Lawful) (image : VdsoImage) (addr : UInt64) (mm : Mm) :
    (∃ mm' err, mapVdso ops image addr false mm = (mm', .error err) ∧ mm'.space = mm.space ∧
      ¬VvarFails ops image addr mm.space) ∨
    (∃ err, mapVdso ops image addr false mm = ({ mm with space := (((mm.space.map addr vtaskSize .vtask).map
        (image.textStart addr) image.size .vdso).unmap addr (vtaskSize + image.size)) }, .error err) ∧
      VvarFails ops image addr mm.space ∧ mm.space.Free addr vtaskSize ∧
      (mm.space.map addr vtaskSize .vtask).Free (image.textStart addr) image.size) ∨
    (mapVdso ops image addr false mm = (⟨((mm.space.map addr vtaskSize .vtask).map (image.textStart addr) image.size
        .vdso).map (vvarAddr addr) image.vvarSize .vvar, image.textStart addr, some image, addr⟩, .ok ()) ∧
      ¬VvarFails ops image addr mm.space ∧ mm.space.Free addr vtaskSize ∧
      (mm.space.map addr vtaskSize .vtask).Free (image.textStart addr) image.size ∧
      ((mm.space.map addr vtaskSize .vtask).map (image.textStart addr) image.size .vdso).Free (vvarAddr addr)
        image.vvarSize) := by
  unfold mapVdso VvarFails
  cases h₁ : ops.installSpecialMapping mm.space addr vtaskSize .vtask with
  | error err => exact .inl ⟨mm, err, by simp⟩
  | ok s₁ =>
      obtain ⟨hvtask, rfl⟩ := hops.install _ _ _ _ _ h₁
      cases h₂ : ops.installSpecialMapping (mm.space.map addr vtaskSize .vtask) (image.textStart addr) image.size
          .vdso with
      | error err =>
          refine .inl ⟨mm, err, ?_⟩
          simp [h₂, hops.munmap, Space.unmap_map hvtask]
      | ok s₂ =>
          obtain ⟨htext, rfl⟩ := hops.install _ _ _ _ _ h₂
          cases h₃ : ops.installSpecialMapping ((mm.space.map addr vtaskSize .vtask).map (image.textStart addr)
              image.size .vdso) (vvarAddr addr) image.vvarSize .vvar with
          | error err =>
              refine .inr (.inl ⟨err, ?_, ?_, hvtask, htext⟩)
              · simp [h₂, h₃, hops.munmap]
              · exact ⟨_, _, err, rfl, h₂, h₃⟩
          | ok s₃ =>
              obtain ⟨hvvar, rfl⟩ := hops.install _ _ _ _ _ h₃
              refine .inr (.inr ⟨?_, ?_, hvtask, htext, hvvar⟩)
              · simp [h₂, h₃]
              · simp [h₂, h₃]

/-- **Rollback.** A `map_vdso` that fails leaves the address space as it was, unless the vtask and the text are in
and the vvar pages are not; and then it never does for an image with text. -/
theorem mapVdso_restores_iff (hops : ops.Lawful) (image : VdsoImage) (addr : UInt64) (killed : Bool) (mm : Mm) :
    (∀ err, (mapVdso ops image addr killed mm).2 = .error err →
      (mapVdso ops image addr killed mm).1.space = mm.space) ↔
    (killed = false → VvarFails ops image addr mm.space → image.size = 0) := by
  cases killed with
  | true => exact iff_of_true (fun _ _ => rfl) fun h => nomatch h
  | false =>
      rcases mapVdso_cases hops image addr mm with ⟨mm', err, heq, hsame, hno⟩ | ⟨err, heq, hvvar, hvtask, htext⟩ |
        ⟨heq, hno, -⟩
      · rw [heq]
        exact iff_of_true (fun _ _ => hsame) fun _ h => absurd h hno
      · rw [heq, ← rollback_eq_iff hvtask htext]
        exact ⟨fun h _ _ => h err rfl, fun h _ _ => h rfl hvvar⟩
      · rw [heq]
        exact iff_of_true (fun _ h => nomatch h) fun _ h => absurd h hno

open Classical in
/-- Functions of `mm` that fail where a range is not free and nowhere else. -/
noncomputable def exactOps : MmOps where
  installSpecialMapping s start len a := if s.Free start len then .ok (s.map start len a) else .error enomem
  doMunmap s start len := s.unmap start len

theorem exactOps_free {start len : UInt64} {a : Mapping} (h : s.Free start len) :
    exactOps.installSpecialMapping s start len a = .ok (s.map start len a) := if_pos h

theorem exactOps_occupied {start len : UInt64} {a : Mapping} (h : ¬s.Free start len) :
    exactOps.installSpecialMapping s start len a = .error enomem := if_neg h

theorem exactOps_exact : exactOps.Exact where
  install s start len a s' h := by
    by_cases hfree : s.Free start len
    · rw [exactOps_free hfree] at h
      cases h
      exact ⟨hfree, rfl⟩
    · rw [exactOps_occupied hfree] at h
      cases h
  munmap _ _ _ := rfl
  install_free _ _ _ _ := exactOps_free

/-- Two pages of text behind four `vvar` pages. -/
def smallImage : VdsoImage := ⟨8192, -16384, by decide, by decide, by decide⟩

/-- A process with one page mapped. -/
def onePage (start : UInt64) : Mm := ⟨Space.map (fun _ => none) start 4096 .other, 0, none, 0⟩

/-- What is free beside the page. -/
theorem onePage_free {page start len : UInt64} (hpage : page.toNat + 4096 ≤ 18446744073709551616)
    (hstart : start.toNat + len.toNat ≤ 18446744073709551616)
    (h : start.toNat + len.toNat ≤ page.toNat ∨ page.toNat + 4096 ≤ start.toNat) :
    (onePage page).space.Free start len := by
  refine Space.free_map_iff.mpr ⟨fun _ _ => rfl, fun x hx => ?_⟩
  rw [inRange_iff_le hstart] at hx
  rw [inRange_iff_le hpage]
  show ¬(page.toNat ≤ x.toNat ∧ x.toNat < page.toNat + 4096)
  omega

/-- The second page of the text is taken, and nothing comes of the call. -/
theorem takenText_restored :
    (mapVdso exactOps smallImage 65536 false (onePage 110592)).1.space = (onePage 110592).space := by
  have hvtask : (onePage 110592).space.Free 65536 vtaskSize := onePage_free (by decide) (by decide) (by decide)
  have htext : ¬((onePage 110592).space.map 65536 vtaskSize .vtask).Free (smallImage.textStart 65536)
      smallImage.size := by
    rw [text_free_iff (by decide)]
    exact fun h => absurd (h 110592 (by decide)) (by decide)
  refine (mapVdso_restores_iff exactOps_exact.toLawful smallImage 65536 false (onePage 110592)).mpr ?_ enomem ?_
  · rintro - ⟨s₁, s₂, err, h₁, h₂, -⟩
    rw [exactOps_free hvtask] at h₁
    cases h₁
    rw [exactOps_occupied htext] at h₂
    cases h₂
  · rw [mapVdso, if_neg (by decide), exactOps_free hvtask]
    dsimp only
    rw [exactOps_occupied htext]

/-- The first `vvar` page is taken: the call fails, that page is gone and the text is still there. -/
theorem takenGap_not_restored :
    (mapVdso exactOps smallImage 65536 false (onePage 90112)).2 = .error enomem ∧
    (onePage 90112).space 90112 = some .other ∧
    (mapVdso exactOps smallImage 65536 false (onePage 90112)).1.space 90112 = none ∧
    (onePage 90112).space 106496 = none ∧
    (mapVdso exactOps smallImage 65536 false (onePage 90112)).1.space 106496 = some .vdso := by
  have hvtask : (onePage 90112).space.Free 65536 vtaskSize := onePage_free (by decide) (by decide) (by decide)
  have htext : ((onePage 90112).space.map 65536 vtaskSize .vtask).Free (smallImage.textStart 65536)
      smallImage.size :=
    (text_free_iff (by decide)).mpr (onePage_free (by decide) (by decide) (by decide))
  have hvvar : ¬(((onePage 90112).space.map 65536 vtaskSize .vtask).map (smallImage.textStart 65536) smallImage.size
      .vdso).Free (vvarAddr 65536) smallImage.vvarSize := by
    rw [vvar_free_iff (by decide)]
    exact fun h => absurd (h 90112 (by decide)) (by decide)
  have hcall : mapVdso exactOps smallImage 65536 false (onePage 90112) =
      ({ onePage 90112 with space := ((((onePage 90112).space.map 65536 vtaskSize .vtask).map
        (smallImage.textStart 65536) smallImage.size .vdso).unmap 65536 (vtaskSize + smallImage.size)) },
        .error enomem) := by
    rw [mapVdso, if_neg (by decide), exactOps_free hvtask]
    dsimp only
    rw [exactOps_free htext]
    dsimp only
    rw [exactOps_occupied hvvar]
    rfl
  rw [hcall]
  exact ⟨rfl, by decide, by decide, by decide, by decide⟩

end OsHw.Vdso
