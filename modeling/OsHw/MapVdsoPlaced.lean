import OsHw.MapVdso

/-! Where `map_vdso` puts its regions. It takes the address it is given, also when that is zero, and looks for no
other place. It succeeds, and on free addresses that do not start at zero, exactly when the whole range from the
requested address is free and that address is not zero. -/

namespace OsHw.Vdso

/-- `map_vdso_once`, with what `mm->mmap` has mapped. -/
def mapVdsoOnce (ops : MmOps) (image : VdsoImage) (addr : UInt64) (mmap : List Mapping) (killed : Bool) (mm : Mm) :
    Mm × Except Errno Unit :=
  if mmap.any fun a => a = .vdso || a = .vvar then (mm, .error eexist) else mapVdso ops image addr killed mm

/-- `load_vdso32`, with `vdso32_enabled` and the image `vdso_image_32`. -/
def loadVdso32 (ops : MmOps) (vdso32Enabled : UInt32) (vdsoImage32 : VdsoImage) (killed : Bool) (mm : Mm) :
    Mm × Except Errno Unit :=
  if vdso32Enabled ≠ 1 then (mm, .ok ()) else mapVdso ops vdsoImage32 0 killed mm

variable {ops : MmOps} {image : VdsoImage} {addr base x : UInt64} {killed : Bool} {mm : Mm} {s : Space Mapping}

/-- The whole range is free from an address on, and ends where the address space does at the latest. -/
structure GapAt (image : VdsoImage) (s : Space Mapping) (base : UInt64) : Prop where
  inside : base.toNat + image.total ≤ 18446744073709551616
  free : ∀ x, base.toNat ≤ x.toNat → x.toNat < base.toNat + image.total → s x = none

/-- The call succeeds, its three regions are on free addresses from one that is not zero, and `mm->context` says
where. -/
structure Placed (image : VdsoImage) (mm mm' : Mm) (ret : Except Errno Unit) : Prop where
  ok : ret = .ok ()
  base_ne : mm'.vtaskBase ≠ 0
  inside : mm'.vtaskBase.toNat + image.total ≤ 18446744073709551616
  vtask_free : mm.space.Free mm'.vtaskBase vtaskSize
  vvar_free : mm.space.Free (vvarAddr mm'.vtaskBase) image.vvarSize
  text_free : mm.space.Free (image.textStart mm'.vtaskBase) image.size
  space : mm'.space = ((mm.space.map mm'.vtaskBase vtaskSize .vtask).map (image.textStart mm'.vtaskBase) image.size
    .vdso).map (vvarAddr mm'.vtaskBase) image.vvarSize .vvar
  vdso : mm'.vdso = image.textStart mm'.vtaskBase

/-- The three regions fill the range. -/
theorem gapAt_iff (h : addr.toNat + image.total ≤ 18446744073709551616) :
    GapAt image s addr ↔ s.Free addr vtaskSize ∧ s.Free (vvarAddr addr) image.vvarSize ∧
      s.Free (image.textStart addr) image.size := by
  have htotal : image.total ≤ 18446744073709551616 :=
    Nat.le_trans (Nat.le_add_left _ _) h
  have hdist : ∀ x : UInt64, (x - addr).toNat < image.total ↔
      addr.toNat ≤ x.toNat ∧ x.toNat < addr.toNat + image.total := by
    intro x
    have hx := x.toNat_lt
    rw [UInt64.toNat_sub]
    omega
  constructor
  · intro hgap
    have hfree : ∀ x : UInt64, (x - addr).toNat < image.total → s x = none := fun x hx =>
      hgap.free x ((hdist x).mp hx).1 ((hdist x).mp hx).2
    refine ⟨fun x hx => hfree x ?_, fun x hx => hfree x ?_, fun x hx => hfree x ?_⟩
    · rw [(inRange_regions addr htotal x).1] at hx
      rw [VdsoImage.total]
      omega
    · rw [(inRange_regions addr htotal x).2.1] at hx
      rw [VdsoImage.total]
      omega
    · rw [(inRange_regions addr htotal x).2.2] at hx
      exact hx.2
  · rintro ⟨hvtask, hvvar, htext⟩
    refine ⟨h, fun x hlo hhi => ?_⟩
    have hx := (hdist x).mpr ⟨hlo, hhi⟩
    obtain ⟨hin₁, hin₂, hin₃⟩ := inRange_regions addr htotal x
    rw [VdsoImage.total] at hx
    by_cases h₁ : (x - addr).toNat < 24576
    · exact hvtask x (hin₁.mpr h₁)
    · by_cases h₂ : (x - addr).toNat < 24576 + image.vvarSize.toNat
      · exact hvvar x (hin₂.mpr ⟨Nat.le_of_not_lt h₁, h₂⟩)
      · exact htext x (hin₃.mpr ⟨Nat.le_of_not_lt h₂, hx⟩)

/-- What a call that succeeds has found and what it leaves: the address it was given. -/
theorem mapVdso_of_ok (hops : ops.Lawful) (h : (mapVdso ops image addr killed mm).2 = .ok ()) :
    killed = false ∧ mm.space.Free addr vtaskSize ∧
      (mm.space.map addr vtaskSize .vtask).Free (image.textStart addr) image.size ∧
      ((mm.space.map addr vtaskSize .vtask).map (image.textStart addr) image.size .vdso).Free (vvarAddr addr)
        image.vvarSize ∧
      (mapVdso ops image addr killed mm).1 = ⟨((mm.space.map addr vtaskSize .vtask).map (image.textStart addr)
        image.size .vdso).map (vvarAddr addr) image.vvarSize .vvar, image.textStart addr, some image, addr⟩ := by
  cases killed with
  | true => cases h
  | false =>
      rcases mapVdso_cases hops image addr mm with ⟨mm', err, heq, -⟩ | ⟨err, heq, -⟩ | ⟨heq, -, hfree⟩
      · rw [heq] at h
        cases h
      · rw [heq] at h
        cases h
      · rw [heq]
        exact ⟨rfl, hfree.1, hfree.2.1, hfree.2.2, rfl⟩

theorem mapVdso_of_free (hops : ops.Exact) (h : image.total ≤ 18446744073709551616)
    (hvtask : mm.space.Free addr vtaskSize) (hvvar : mm.space.Free (vvarAddr addr) image.vvarSize)
    (htext : mm.space.Free (image.textStart addr) image.size) :
    mapVdso ops image addr false mm = (⟨((mm.space.map addr vtaskSize .vtask).map (image.textStart addr)
      image.size .vdso).map (vvarAddr addr) image.vvarSize .vvar, image.textStart addr, some image, addr⟩, .ok ()) := by
  rw [mapVdso, if_neg Bool.false_ne_true, hops.install_free _ _ _ _ hvtask]
  dsimp only
  rw [hops.install_free _ _ _ _ ((text_free_iff h).mpr htext)]
  dsimp only
  rw [hops.install_free _ _ _ _ ((vvar_free_iff h).mpr hvvar)]

/-- The 32-bit image is never placed: it is mapped at zero. -/
theorem loadVdso32_not_placed (hops : ops.Lawful) :
    ¬Placed image mm (loadVdso32 ops 1 image killed mm).1 (loadVdso32 ops 1 image killed mm).2 := by
  intro h
  have hok := h.ok
  have hbase := h.base_ne
  rw [loadVdso32, if_neg (by decide)] at hok hbase
  rw [(mapVdso_of_ok hops hok).2.2.2.2] at hbase
  exact hbase rfl

/-- What `map_vdso_once` adds is a refusal. -/
theorem mapVdsoOnce_placed {mmap : List Mapping}
    (h : Placed image mm (mapVdsoOnce ops image addr mmap killed mm).1 (mapVdsoOnce ops image addr mmap killed mm).2) :
    (∀ a ∈ mmap, a ≠ .vdso ∧ a ≠ .vvar) ∧
      Placed image mm (mapVdso ops image addr killed mm).1 (mapVdso ops image addr killed mm).2 := by
  unfold mapVdsoOnce at h
  split at h
  · cases h.ok
  · rename_i hnone
    refine ⟨fun a ha => ?_, h⟩
    simp only [List.any_eq_true, not_exists, not_and, Bool.or_eq_true, decide_eq_true_eq, not_or] at hnone
    exact hnone a ha

/-- **Placement.** In any address space, whether or not it has a gap elsewhere, `map_vdso` places its regions exactly
when the task is not killed, the requested address is not zero and the whole range from there on is free. -/
theorem mapVdso_placed_iff (hops : ops.Exact) (image : VdsoImage) (addr : UInt64) (killed : Bool) (mm : Mm) :
    Placed image mm (mapVdso ops image addr killed mm).1 (mapVdso ops image addr killed mm).2 ↔
      killed = false ∧ addr ≠ 0 ∧ GapAt image mm.space addr := by
  constructor
  · intro h
    obtain ⟨hlive, hvtask, htext, hvvar, hmm⟩ := mapVdso_of_ok hops.toLawful h.ok
    have hbase := h.base_ne
    have hinside := h.inside
    rw [hmm] at hbase hinside
    have htotal := add_size_le htext
    exact ⟨hlive, hbase, (gapAt_iff hinside).mpr ⟨hvtask, (vvar_free_iff htotal).mp hvvar,
      (text_free_iff htotal).mp htext⟩⟩
  · rintro ⟨rfl, hne, hgap⟩
    have htotal : image.total ≤ 18446744073709551616 :=
      Nat.le_trans (Nat.le_add_left _ _) hgap.inside
    obtain ⟨hvtask, hvvar, htext⟩ := (gapAt_iff hgap.inside).mp hgap
    rw [mapVdso_of_free hops htotal hvtask hvvar htext]
    exact ⟨rfl, hne, hgap.inside, hvtask, hvvar, htext, rfl, rfl⟩

/-- Beside a page of something else there is room. -/
theorem smallImage_placed :
    Placed smallImage (onePage 4096) (mapVdso exactOps smallImage 65536 false (onePage 4096)).1
      (mapVdso exactOps smallImage 65536 false (onePage 4096)).2 := by
  refine (mapVdso_placed_iff exactOps_exact smallImage 65536 false (onePage 4096)).mpr ⟨rfl, by decide, ?_⟩
  refine (gapAt_iff (by decide)).mpr ⟨?_, ?_, ?_⟩ <;> exact onePage_free (by decide) (by decide) (by decide)

/-- There is a gap at 65536. A request for zero succeeds there, and one for an address that is taken fails. -/
theorem smallImage_not_placed :
    GapAt smallImage (onePage 4194304).space 65536 ∧
    (mapVdso exactOps smallImage 0 false (onePage 4194304)).2 = .ok () ∧
    (mapVdso exactOps smallImage 0 false (onePage 4194304)).1.vtaskBase = 0 ∧
    ¬Placed smallImage (onePage 4194304) (mapVdso exactOps smallImage 0 false (onePage 4194304)).1
      (mapVdso exactOps smallImage 0 false (onePage 4194304)).2 ∧
    (mapVdso exactOps smallImage 4194304 false (onePage 4194304)).2 = .error enomem := by
  have hgap : GapAt smallImage (onePage 4194304).space 65536 := by
    refine (gapAt_iff (by decide)).mpr ⟨?_, ?_, ?_⟩ <;> exact onePage_free (by decide) (by decide) (by decide)
  have hzero : mapVdso exactOps smallImage 0 false (onePage 4194304) = _ := mapVdso_of_free exactOps_exact (by decide)
    (onePage_free (by decide) (by decide) (by decide)) (onePage_free (by decide) (by decide) (by decide))
    (onePage_free (by decide) (by decide) (by decide))
  have hvtask : ¬(onePage 4194304).space.Free 4194304 vtaskSize := fun h =>
    absurd (h 4194304 (by decide)) (by decide)
  refine ⟨hgap, by rw [hzero], by rw [hzero], fun h => ?_, ?_⟩
  · have hbase := h.base_ne
    rw [hzero] at hbase
    exact hbase rfl
  · rw [mapVdso, if_neg Bool.false_ne_true, exactOps_occupied hvtask]

end OsHw.Vdso
