import OsHw.MapVdsoPlaced

/-! Where a new program finds its vDSO. `vdso_addr` picks an address above the stack, at random within what is left of
a PMD and below the top of the window for mappings, `map_vdso` lays the regions out from there, and the vDSO finds
the vtask region again from the address of its data. The three agree on six pages before the `vvar` pages. -/

namespace OsHw.Vdso

/-- `PAGE_ALIGN`. -/
def pageAlign (x : UInt64) : UInt64 := (x + (pageSize - 1)) &&& ~~~(pageSize - 1)

def pmdSize : UInt64 := 0x200000

/-- `DEFAULT_MAP_WINDOW`: 47 bits without the last page. -/
def defaultMapWindow : UInt64 := ((1 : UInt64) <<< 47) - pageSize

/-- `vdso_addr`, with `align_vdso_addr` and what `get_random_int` returns. The length and the offset are of type
`unsigned`, and `end` is called `last` here. -/
def vdsoAddr (alignVdsoAddr : UInt64 → UInt64) (start : UInt64) (len random : UInt32) : UInt64 :=
  let len := len + vtaskSize.toUInt32
  let start := pageAlign start
  let last := (start + len.toUInt64 + pmdSize - 1) &&& ~~~(pmdSize - 1)
  let last := if defaultMapWindow ≤ last then defaultMapWindow else last
  let last := last - len.toUInt64
  let addr :=
    if start < last then
      let offset := (random.toUInt64 % (((last - start) >>> 12) + 1)).toUInt32
      start + (offset <<< 12).toUInt64
    else start
  alignVdsoAddr addr

/-- `map_vdso_randomized`. -/
def mapVdsoRandomized (ops : MmOps) (alignVdsoAddr : UInt64 → UInt64) (image : VdsoImage) (startStack : UInt64)
    (random : UInt32) (killed : Bool) (mm : Mm) : Mm × Except Errno Unit :=
  mapVdso ops image
    (vdsoAddr alignVdsoAddr startStack (image.size - image.symVvarStart.toUInt64).toUInt32 random) killed mm

/-- `__vdso_get_vtask_base`, from the address of the vDSO data. -/
def vdsoGetVtaskBase (vdsoData : UInt64) : UInt64 := vdsoData - 6 * 4096 - 8 * 16

variable {image : VdsoImage} {start addr : UInt64}

theorem toNat_pageAlign_mod (x : UInt64) : (pageAlign x).toNat % 4096 = 0 := by
  have hmask : (pageSize - 1).toNat = 2 ^ 12 - 1 := rfl
  rw [pageAlign, toNat_and_not_mask hmask]
  omega

theorem toNat_defaultMapWindow : defaultMapWindow.toNat = 140737488351232 := rfl

/-- The length that `vdso_addr` works with is that of all three regions. -/
theorem toNat_len (h : image.total < 2147483648) :
    ((image.size - image.symVvarStart.toUInt64).toUInt32 + vtaskSize.toUInt32).toUInt64.toNat = image.total := by
  have hvtask : vtaskSize.toUInt32.toNat = 24576 := rfl
  rw [UInt64.sub_eq_add_neg, ← vvarSize_eq, UInt32.toNat_toUInt64, UInt32.toNat_add, UInt64.toNat_toUInt32,
    UInt64.toNat_add, hvtask, VdsoImage.total]
  rw [VdsoImage.total] at h
  omega

/-- The end of the room: the next PMD boundary, or the end of the window for mappings. -/
theorem toNat_last {s len : UInt64} (h : s.toNat + len.toNat ≤ 140737488351232) :
    (if defaultMapWindow ≤ (s + len + pmdSize - 1) &&& ~~~(pmdSize - 1) then defaultMapWindow
      else (s + len + pmdSize - 1) &&& ~~~(pmdSize - 1)).toNat =
      min 140737488351232 ((s.toNat + len.toNat + 2097151) / 2097152 * 2097152) := by
  have hmask : (pmdSize - 1).toNat = 2 ^ 21 - 1 := rfl
  have hsum : (s + len + pmdSize - 1).toNat = s.toNat + len.toNat + 2097151 := by
    have hpmd : pmdSize.toNat = 2097152 := rfl
    have hone : (1 : UInt64).toNat = 1 := rfl
    rw [UInt64.toNat_sub, UInt64.toNat_add, UInt64.toNat_add, hpmd, hone]
    omega
  have hround := toNat_and_not_mask hmask (s + len + pmdSize - 1)
  rw [hsum] at hround
  have hwindow := toNat_defaultMapWindow
  split
  · rename_i hle
    rw [UInt64.le_iff_toNat_le] at hle
    omega
  · rename_i hle
    rw [UInt64.le_iff_toNat_le] at hle
    omega

/-- The random offset is a number of whole pages, and leaves room for the regions. -/
theorem toNat_offset {s last : UInt64} (hlt : s < last) (h : last.toNat ≤ s.toNat + 2097151) (random : UInt32) :
    ((random.toUInt64 % (((last - s) >>> 12) + 1)).toUInt32 <<< 12).toUInt64.toNat % 4096 = 0 ∧
      s.toNat + ((random.toUInt64 % (((last - s) >>> 12) + 1)).toUInt32 <<< 12).toUInt64.toNat ≤ last.toNat := by
  rw [UInt64.lt_iff_toNat_lt] at hlt
  have hs := s.toNat_lt
  have hl := last.toNat_lt
  have hroom : ((last - s) >>> 12 + 1).toNat = (last.toNat - s.toNat) / 4096 + 1 := by
    have htwelve : (12 : UInt64).toNat % 64 = 12 := rfl
    have hone : (1 : UInt64).toNat = 1 := rfl
    rw [UInt64.toNat_add, UInt64.toNat_shiftRight, UInt64.toNat_sub, htwelve, hone, Nat.shiftRight_eq_div_pow]
    omega
  have hpages : random.toNat % ((last.toNat - s.toNat) / 4096 + 1) < (last.toNat - s.toNat) / 4096 + 1 :=
    Nat.mod_lt _ (Nat.succ_pos _)
  have hoffset : ((random.toUInt64 % (((last - s) >>> 12) + 1)).toUInt32 <<< 12).toUInt64.toNat =
      random.toNat % ((last.toNat - s.toNat) / 4096 + 1) * 4096 := by
    have htwelve : (12 : UInt32).toNat % 32 = 12 := rfl
    rw [UInt32.toNat_toUInt64, UInt32.toNat_shiftLeft, UInt64.toNat_toUInt32, UInt64.toNat_mod, UInt32.toNat_toUInt64,
      hroom, htwelve, Nat.shiftLeft_eq]
    omega
  rw [hoffset]
  omega

/-- `vdso_addr` stays within the room. -/
theorem vdsoAddr_bounds {alignVdsoAddr : UInt64 → UInt64} (halign : ∀ a, alignVdsoAddr a = a) (random : UInt32)
    {len : UInt32} {total : Nat} (hlen : (len + vtaskSize.toUInt32).toUInt64.toNat = total)
    (h : (pageAlign start).toNat + total ≤ 140737488351232) :
    (vdsoAddr alignVdsoAddr start len random).toNat % 4096 = 0 ∧
      (pageAlign start).toNat ≤ (vdsoAddr alignVdsoAddr start len random).toNat ∧
      (vdsoAddr alignVdsoAddr start len random).toNat + total ≤
        min 140737488351232 (((pageAlign start).toNat + total + 2097151) / 2097152 * 2097152) := by
  subst hlen
  have hpage := toNat_pageAlign_mod start
  have hend := toNat_last h
  rw [vdsoAddr, halign]
  dsimp only
  generalize (if defaultMapWindow ≤ (pageAlign start + (len + vtaskSize.toUInt32).toUInt64 + pmdSize - 1) &&&
      ~~~(pmdSize - 1) then defaultMapWindow
    else (pageAlign start + (len + vtaskSize.toUInt32).toUInt64 + pmdSize - 1) &&& ~~~(pmdSize - 1)) = last at hend ⊢
  generalize (len + vtaskSize.toUInt32).toUInt64 = len at h hend ⊢
  have hlast : (last - len).toNat = last.toNat - len.toNat := by
    have hl := last.toNat_lt
    rw [UInt64.toNat_sub]
    omega
  by_cases hlt : pageAlign start < last - len
  · rw [if_pos hlt]
    obtain ⟨hwhole, hroom⟩ := toNat_offset hlt (by omega) random
    rw [UInt64.toNat_add]
    omega
  · rw [if_neg hlt]
    omega

/-- Inside the vDSO the address of the data leads back to the address that `map_vdso` was given. -/
theorem vdsoGetVtaskBase_eq {archGetVdsoData : UInt64 → UInt64}
    (hdata : ∀ text, archGetVdsoData text = text + image.symVvarStart.toUInt64 + 128) (addr : UInt64) :
    vdsoGetVtaskBase (archGetVdsoData (image.textStart addr)) = addr := by
  have hpages : (6 * 4096 : UInt64) = vtaskSize := rfl
  have hplace : (8 * 16 : UInt64) = 128 := rfl
  calc
    vdsoGetVtaskBase (archGetVdsoData (image.textStart addr))
      = image.textStart addr + image.symVvarStart.toUInt64 + 128 - vtaskSize - 128 := by
        rw [vdsoGetVtaskBase, hdata, hpages, hplace]
    _ = vvarAddr addr + 128 - vtaskSize - 128 := by
        rw [VdsoImage.textStart, UInt64.sub_add_cancel]
    _ = addr + 128 + vtaskSize - vtaskSize - 128 := by
        rw [vvarAddr, UInt64.add_assoc, UInt64.add_comm vtaskSize, ← UInt64.add_assoc]
    _ = addr := by
        rw [UInt64.add_sub_cancel, UInt64.add_sub_cancel]

/-- A program that got its vDSO finds the vtask region where `mm->context` says it is. -/
theorem mapVdsoRandomized_base {ops : MmOps} (hops : ops.Lawful) {archGetVdsoData : UInt64 → UInt64}
    (hdata : ∀ text, archGetVdsoData text = text + image.symVvarStart.toUInt64 + 128)
    {alignVdsoAddr : UInt64 → UInt64} {random : UInt32} {killed : Bool} {mm mm' : Mm}
    (h : mapVdsoRandomized ops alignVdsoAddr image start random killed mm = (mm', .ok ())) :
    vdsoGetVtaskBase (archGetVdsoData mm'.vdso) = mm'.vtaskBase := by
  have hleft := (mapVdso_of_ok hops (congrArg Prod.snd h)).2.2.2.2
  have hmm : (mapVdso ops image _ killed mm).1 = mm' := congrArg Prod.fst h
  rw [hmm] at hleft
  rw [hleft]
  exact vdsoGetVtaskBase_eq hdata _

/-- Where the regions lie: they follow one another without a gap, do not meet and end where they should, and the vDSO
finds the first one from the address of its data. -/
structure LaidOut (image : VdsoImage) (vdsoData : UInt64) (start addr : UInt64) : Prop where
  page_aligned : addr.toNat % 4096 = 0
  above : (pageAlign start).toNat ≤ addr.toNat
  vvar_adjacent : (vvarAddr addr).toNat = addr.toNat + vtaskSize.toNat
  text_adjacent : (image.textStart addr).toNat = (vvarAddr addr).toNat + image.vvarSize.toNat
  vtask_vvar : ∀ x, ¬(InRange addr vtaskSize x ∧ InRange (vvarAddr addr) image.vvarSize x)
  vtask_text : ∀ x, ¬(InRange addr vtaskSize x ∧ InRange (image.textStart addr) image.size x)
  vvar_text : ∀ x, ¬(InRange (vvarAddr addr) image.vvarSize x ∧ InRange (image.textStart addr) image.size x)
  last : (image.textStart addr).toNat + image.size.toNat ≤ min defaultMapWindow.toNat
    (((pageAlign start).toNat + image.total + (pmdSize.toNat - 1)) / pmdSize.toNat * pmdSize.toNat)
  base : vdsoGetVtaskBase vdsoData = addr

/-- **Layout.** For every image, every start of the stack with room below the end of the window and every random
number, the regions are laid out from the address that `vdso_addr` returns, and the vDSO finds them. -/
theorem vdsoAddr_laidOut (alignVdsoAddr : UInt64 → UInt64) (halign : ∀ a, alignVdsoAddr a = a) (image : VdsoImage)
    (archGetVdsoData : UInt64 → UInt64)
    (hdata : ∀ text, archGetVdsoData text = text + image.symVvarStart.toUInt64 + 128) (start : UInt64)
    (random : UInt32) (htotal : image.total < 2147483648)
    (hroom : (pageAlign start).toNat + image.total ≤ defaultMapWindow.toNat) :
    LaidOut image (archGetVdsoData (image.textStart (vdsoAddr alignVdsoAddr start
        (image.size - image.symVvarStart.toUInt64).toUInt32 random))) start
      (vdsoAddr alignVdsoAddr start (image.size - image.symVvarStart.toUInt64).toUInt32 random) := by
  rw [toNat_defaultMapWindow] at hroom
  have hbounds := vdsoAddr_bounds halign random (toNat_len htotal) hroom
  generalize vdsoAddr alignVdsoAddr start (image.size - image.symVvarStart.toUInt64).toUInt32 random = addr at hbounds ⊢
  obtain ⟨haligned, habove, hend⟩ := hbounds
  have htop : image.total ≤ 18446744073709551616 := by omega
  have hregions := inRange_regions addr htop
  have hsum : image.total = 24576 + image.vvarSize.toNat + image.size.toNat := rfl
  have hvvar : (vvarAddr addr).toNat = addr.toNat + 24576 := by
    rw [vvarAddr, UInt64.toNat_add, toNat_vtaskSize]
    omega
  have htext : (image.textStart addr).toNat = addr.toNat + (24576 + image.vvarSize.toNat) := by
    rw [textStart_eq, UInt64.toNat_add, toNat_textOffset]
    omega
  constructor
  · exact haligned
  · exact habove
  · rw [toNat_vtaskSize]
    exact hvvar
  · rw [htext, hvvar]
    omega
  · rintro x ⟨hx, hx'⟩
    rw [(hregions x).1] at hx
    rw [(hregions x).2.1] at hx'
    omega
  · rintro x ⟨hx, hx'⟩
    rw [(hregions x).1] at hx
    rw [(hregions x).2.2] at hx'
    omega
  · rintro x ⟨hx, hx'⟩
    rw [(hregions x).2.1] at hx
    rw [(hregions x).2.2] at hx'
    omega
  · have hpmd : pmdSize.toNat = 2097152 := rfl
    have hpred : 2097152 - 1 = 2097151 := rfl
    have htop : (image.textStart addr).toNat + image.size.toNat = addr.toNat + image.total := by omega
    rw [htop, toNat_defaultMapWindow, hpmd, hpred]
    exact hend
  · exact vdsoGetVtaskBase_eq hdata addr

/-- A stack that ends at an address that is not aligned. -/
theorem smallImage_laidOut :
    LaidOut smallImage (smallImage.textStart (vdsoAddr id 140735000000123
        (smallImage.size - smallImage.symVvarStart.toUInt64).toUInt32 7777) + smallImage.symVvarStart.toUInt64 + 128)
      140735000000123
      (vdsoAddr id 140735000000123 (smallImage.size - smallImage.symVvarStart.toUInt64).toUInt32 7777) :=
  vdsoAddr_laidOut id (fun _ => rfl) smallImage (fun text => text + smallImage.symVvarStart.toUInt64 + 128)
    (fun _ => rfl) 140735000000123 7777 (by decide) (by decide)

end OsHw.Vdso
