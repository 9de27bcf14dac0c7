import OsHw.XattrPlace

/-! When two blocks may stand for each other. `ext4_xattr_cmp` finds no difference exactly when the blocks hold the
same attributes, whatever the order of their values, and such blocks have the same hash, under which the cache finds
them. -/

namespace OsHw.Xattr

variable {m m' : Mem} {p p' hi fuel : Nat} {es es' : List Slot} {as as' : List Attr}

/-- A step of the comparison: the fields that are compared are those of the attribute and its hash. -/
theorem attr_eq_iff {e e' : Slot} (h : EntryAt m p e) (h' : EntryAt m' p' e') :
    (attrAt m e, e.hash) = (attrAt m' e', e'.hash) ↔
      ¬(eHash m p ≠ eHash m' p' ∨ eNameIndex m p ≠ eNameIndex m' p' ∨ eNameLen m p ≠ eNameLen m' p' ∨
          eValueSize m p ≠ eValueSize m' p' ∨ eValueInum m p ≠ eValueInum m' p' ∨
          m.bytes (p + 16) (eNameLen m p) ≠ m'.bytes (p' + 16) (eNameLen m p)) ∧
        ¬(eValueInum m p = 0 ∧
          m.bytes (eValueOffs m p) (eValueSize m p) ≠ m'.bytes (eValueOffs m' p') (eValueSize m p)) := by
  have hname : m.bytes (p + 16) (eNameLen m p) = e.name := h.nameEq
  have hname' : m'.bytes (p' + 16) (eNameLen m' p') = e'.name := h'.nameEq
  rw [h.inum, h'.inum, h.hashEq, h'.hashEq, h.nameIndexEq, h'.nameIndexEq, h.valueSize, h'.valueSize, h.valueOffs,
    h'.valueOffs, hname]
  constructor
  · intro heq
    obtain ⟨hattr, hhash⟩ := Prod.mk.inj heq
    obtain ⟨hindex, hnames, hvalue⟩ := Attr.mk.inj hattr
    have hsize : e.size = e'.size := by
      rw [← Mem.length_bytes m e.offs e.size, ← Mem.length_bytes m' e'.offs e'.size]
      exact congrArg List.length hvalue
    have hlen : eNameLen m p = eNameLen m' p' := by rw [h.nameLen, h'.nameLen, hnames]
    refine ⟨fun hne => ?_, fun hne => hne.2 ?_⟩
    · rw [hlen, hname'] at hne
      obtain hne | hne | hne | hne | hne | hne := hne
      · exact hne hhash
      · exact hne hindex
      · exact hne rfl
      · exact hne hsize
      · exact hne rfl
      · exact hne hnames
    · rw [content, content, ← hsize] at hvalue
      exact hvalue
  · rintro ⟨hfields, hvalue⟩
    simp only [not_or, not_not] at hfields
    obtain ⟨hhash, hindex, hlen, hsize, -, hnames⟩ := hfields
    have hvalue : m.bytes e.offs e.size = m'.bytes e'.offs e.size := not_not.mp fun hne => hvalue ⟨rfl, hne⟩
    rw [hlen, hname'] at hnames
    rw [attrAt, attrAt, content, content, hhash, hindex, hnames, hvalue, hsize]

/-- The comparison of two lists of entries. -/
theorem ext4XattrCmp_eq_zero_iff (h : Names m p es) (h' : Names m' p' es') (hfuel : es.length < fuel) :
    ext4XattrCmp m m' fuel p p' = 0 ↔ stored m es = stored m' es' := by
  induction es generalizing p p' es' fuel with
  | nil =>
      obtain ⟨fuel, rfl⟩ := Nat.exists_eq_add_one_of_ne_zero (Nat.ne_of_gt hfuel)
      rw [ext4XattrCmp, if_pos h.last_nil]
      cases es' with
      | nil =>
          rw [if_pos h'.last_nil]
          exact iff_of_true rfl rfl
      | cons e' es' =>
          rw [if_neg h'.not_last]
          exact iff_of_false (by decide) fun heq => List.cons_ne_nil _ _ heq.symm
  | cons e es ih =>
      obtain ⟨fuel, rfl⟩ := Nat.exists_eq_add_one_of_ne_zero (Nat.ne_zero_of_lt hfuel)
      rw [ext4XattrCmp, if_neg h.not_last]
      cases es' with
      | nil =>
          rw [if_pos h'.last_nil]
          exact iff_of_false (by decide) fun heq => List.cons_ne_nil _ _ heq
      | cons e' es' =>
          rw [if_neg h'.not_last, stored_cons, stored_cons, List.cons.injEq,
            attr_eq_iff h.entries.1 h'.entries.1, h.next, h'.next]
          have hrest := ih h.tail h'.tail (by simpa using hfuel : es.length < fuel)
          split
          next hfields => exact iff_of_false (by decide) fun hand => hand.1.1 hfields
          next hfields =>
            split
            next hvalue => exact iff_of_false (by decide) fun hand => hand.1.2 hvalue
            next hvalue =>
              rw [hrest]
              exact ⟨fun heq => ⟨⟨hfields, hvalue⟩, heq⟩, fun hand => hand.2⟩

theorem map_hashed_inj (isBlock : Bool) (h : as.map (Attr.hashed isBlock) = as'.map (Attr.hashed isBlock)) :
    as = as' := by
  rw [← map_fst_hashed isBlock as, h, map_fst_hashed]

theorem Holds.cmp_iff (h : Holds true headerSize hi m as) (h' : Holds true headerSize hi m' as') :
    ext4XattrCmp m m' hi headerSize headerSize = 0 ↔ as = as' := by
  obtain ⟨es, lo, hlayout, -, -, hstored⟩ := h.slots
  obtain ⟨es', lo', hlayout', -, -, hstored'⟩ := h'.slots
  have hroom := hlayout.room
  have hle := hlayout.le
  have hcount := length_le_namesSize es
  rw [ext4XattrCmp_eq_zero_iff hlayout.names hlayout'.names (by omega), hstored, hstored']
  constructor
  · exact map_hashed_inj true
  · rintro rfl
    rfl

theorem Holds.hash_eq (h : Holds true headerSize hi m as) :
    hHash m = (shareHash 0 (as.map fun a => a.hash.toNat)).toNat := by
  obtain ⟨es, lo, hlayout, -, hright, hstored⟩ := h.slots
  have hhash : es.map Slot.hash = as.map fun a => a.hash.toNat := by
    calc es.map Slot.hash = (stored m es).map Prod.snd := by
          rw [stored, List.map_map]
          rfl
      _ = as.map fun a => a.hash.toNat := by
          rw [hstored, List.map_map]
          rfl
  rw [hright rfl, hhash]

/-- A block holds one list of attributes. -/
theorem Holds.unique (h : Holds true headerSize hi m as) (h' : Holds true headerSize hi m as') : as = as' := by
  have hself : ext4XattrCmp m m hi headerSize headerSize = 0 := (h.cmp_iff h).mpr rfl
  exact (h.cmp_iff h').mp hself

theorem Holds.length_le {isBlock : Bool} (h : Holds isBlock p hi m as) {a : Attr} (ha : a ∈ as) :
    a.value.length ≤ 65536 := by
  obtain ⟨es, lo, hlayout, hpacked, -, -⟩ := h.slots
  have hsmall := hlayout.small
  obtain ⟨bs, cs, rfl⟩ := List.append_of_mem ha
  have hsize := xattrSize_bounds a.value.length
  rw [valuesSpace_append, valuesSpace] at hpacked
  omega

end OsHw.Xattr
