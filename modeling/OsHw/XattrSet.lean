import OsHw.XattrValues

/-! `ext4_xattr_set_entry` on the entries and the values of an area. Each of its steps keeps the area in the format:
entries from the beginning, values at the end and room between them. Put together they change one attribute of the
list and leave the others, with their values and hashes, as they are; it fails with `-ENOSPC` exactly when the lowest
value does not leave enough room. -/

namespace OsHw.Xattr

/-- The format, with the names of `es` and the values of `vs`. -/
structure Layout (m : Mem) (p lo hi : Nat) (es vs : List Slot) : Prop where
  names : Names m p es
  values : Values m lo hi vs
  room : p + namesSize es + 4 ≤ lo
  le : lo ≤ hi
  small : hi ≤ 65536

/-- Nothing outside a range is written. -/
def Within (p hi : Nat) (m m' : Mem) : Prop := ∀ x, x < p ∨ hi ≤ x → m' x = m x

theorem Within.trans {p hi : Nat} {m m' m'' : Mem} (h : Within p hi m m') (h' : Within p hi m' m'') :
    Within p hi m m'' := fun x hx => (h' x hx).trans (h x hx)

theorem load_eq_zero {m : Mem} {a n : Nat} (h : ∀ j, j < n → m (a + j) = 0) : m.load a n = 0 := by
  induction n generalizing a with
  | zero => rfl
  | succ n ih =>
      have hhead : m a = 0 := h 0 (by omega)
      have htail : m.load (a + 1) n = 0 := by
        refine ih fun j hj => ?_
        rw [Nat.add_assoc, Nat.add_comm 1 j]
        exact h (j + 1) (by omega)
      rw [Mem.load, hhead, htail]
      rfl

section Bytes

variable {m : Mem} {here last n x j : Nat} {i : Info}

theorem removeName_of_outside (hle : here + xattrLen n ≤ last) (h : x < here ∨ last ≤ x) :
    removeName here last n m x = m x := by
  have hlen := xattrLen_bounds n
  rw [removeName, Mem.fill_of_outside (by omega), Mem.copy_of_outside (by omega)]

theorem removeName_moved (h : here + xattrLen n + j < last) :
    removeName here last n m (here + j) = m (here + xattrLen n + j) := by
  rw [removeName, Mem.fill_of_outside (by omega), Mem.copy_of_inside (by omega) (by omega)]
  exact congrArg m (by omega)

theorem removeName_end (hj : j < xattrLen n) :
    removeName here last n m (last - xattrLen n + j) = 0 := by
  rw [removeName]
  exact Mem.fill_of_inside (by omega) (by omega)

/-- Away from the new entry nothing is written after the moves. -/
theorem insertName_of_outside (h : x < here ∨ here + xattrLen i.name.length ≤ x) :
    insertName i here last m x = m.copy (here + xattrLen i.name.length) here (last - here + 4) x := by
  have hlen := xattrLen_bounds i.name.length
  rw [insertName, Mem.write_of_outside (by omega), Mem.store_of_outside (by omega), Mem.store_of_outside (by omega),
    Mem.fill_of_outside (by omega)]

theorem insertName_moved (h : here + j < last + 4) (hle : here ≤ last) :
    insertName i here last m (here + xattrLen i.name.length + j) = m (here + j) := by
  rw [insertName_of_outside (by omega), Mem.copy_of_inside (by omega) (by omega)]
  exact congrArg m (by omega)

/-- The fields of the new entry other than the name, its length and its index are cleared. -/
theorem insertName_cleared {k : Nat} (h₁ : 2 ≤ k) (h₂ : k + n ≤ 16) :
    (insertName i here last m).load (here + k) n = 0 := by
  have hlen := xattrLen_bounds i.name.length
  apply load_eq_zero
  intro j hj
  rw [insertName, Mem.write_of_outside (by omega), Mem.store_of_outside (by omega), Mem.store_of_outside (by omega),
    Mem.fill_of_inside (by omega) (by omega)]

theorem eNameLen_insertName (h : i.name.length < 256) :
    eNameLen (insertName i here last m) here = i.name.length := by
  have hload : ∀ m' : Mem, ((m'.store here 1 i.name.length).write (here + 16) i.name).load here 1 =
      (m'.store here 1 i.name.length).load here 1 := fun m' =>
    Mem.load_congr fun j hj => Mem.write_of_outside (by omega)
  rw [eNameLen, insertName, hload, Mem.load_store_self]
  exact Nat.mod_eq_of_lt h

theorem eNameIndex_insertName (h : i.nameIndex < 256) :
    eNameIndex (insertName i here last m) here = i.nameIndex := by
  have hload : ∀ m' : Mem, (((m'.store (here + 1) 1 i.nameIndex).store here 1 i.name.length).write (here + 16)
      i.name).load (here + 1) 1 = (m'.store (here + 1) 1 i.nameIndex).load (here + 1) 1 := by
    intro m'
    apply Mem.load_congr
    intro j hj
    rw [Mem.write_of_outside (by omega), Mem.store_of_outside (by omega)]
  rw [eNameIndex, insertName, hload, Mem.load_store_self]
  exact Nat.mod_eq_of_lt h

end Bytes

section Steps

variable {m : Mem} {p lo hi : Nat} {i : Info} {e : Slot} {es vs l r : List Slot}

theorem namesSize_middle (l r : List Slot) (e : Slot) :
    namesSize (l ++ e :: r) = namesSize l + e.len + namesSize r := by
  rw [namesSize_append, namesSize, Nat.add_assoc]

/-- The name goes, and the entries behind it move down. -/
theorem names_removeName {last : Nat} (h : Names m p (l ++ e :: r)) (hlast : last = p + namesSize (l ++ e :: r)) :
    Names (removeName (p + namesSize l) last e.name.length m) p (l ++ r) ∧
      Within (p + namesSize l) last m (removeName (p + namesSize l) last e.name.length m) := by
  have hend := namesSize_middle l r e
  have hold := namesSize_append l r
  have hlen := e.name_lt_len
  have hsize : xattrLen e.name.length = e.len := rfl
  obtain ⟨hl, -, hr⟩ := entries_append.mp h.entries
  refine ⟨⟨entries_append.mpr ⟨?_, ?_⟩, load_eq_zero fun j hj => ?_, fun e' he' => ?_⟩, fun x hx => ?_⟩
  · exact hl.congr fun j hj => removeName_of_outside (by omega) (by omega)
  · exact hr.congr fun j hj => removeName_moved (by omega)
  · have hnew : p + namesSize (l ++ r) = last - xattrLen e.name.length := by omega
    rw [hnew]
    exact removeName_end (by omega)
  · refine h.indexed e' ?_
    rw [List.mem_append, List.mem_cons]
    exact (List.mem_append.mp he').imp_right Or.inr
  · exact removeName_of_outside (by omega) hx

/-- An entry without a value. -/
def Info.slot (i : Info) : Slot := ⟨i.nameIndex, i.name, 0, 0, 0⟩

/-- What the callers promise of the name. -/
structure Info.Named (i : Info) : Prop where
  index : i.nameIndex ≠ 0 ∧ i.nameIndex < 256
  length : i.name.length ≤ 255
  noNul : 0 ∉ i.name

theorem entryAt_insertName {here last : Nat} (hi : i.Named) : EntryAt (insertName i here last m) here i.slot := by
  have hshort : i.name.length < 256 := Nat.lt_succ_of_le hi.length
  have hname : eName (insertName i here last m) here = i.name := by
    rw [eName, eNameLen_insertName hshort, insertName]
    exact Mem.bytes_write_self ..
  constructor
  · rw [slotAt, eNameIndex_insertName hi.index.2, hname, eValueOffs, eValueSize, eHash,
      insertName_cleared (by omega) (by omega), insertName_cleared (by omega) (by omega),
      insertName_cleared (by omega) (by omega)]
    rfl
  · exact insertName_cleared (by omega) (by omega)

/-- The entries behind the name move up, and the name is put in their place. -/
theorem names_insertName {last : Nat} (hi : i.Named) (h : Names m p (l ++ r)) (hlast : last = p + namesSize (l ++ r)) :
    Names (insertName i (p + namesSize l) last m) p (l ++ i.slot :: r) ∧
      Within (p + namesSize l) (last + i.slot.len + 4) m (insertName i (p + namesSize l) last m) := by
  have hend := namesSize_middle l r i.slot
  have hold := namesSize_append l r
  have hsize : xattrLen i.name.length = i.slot.len := rfl
  obtain ⟨hl, hr⟩ := entries_append.mp h.entries
  have hbelow : ∀ x, x < p + namesSize l ∨ last + i.slot.len + 4 ≤ x →
      insertName i (p + namesSize l) last m x = m x := by
    intro x hx
    rw [insertName_of_outside (by omega), Mem.copy_of_outside (by omega)]
  refine ⟨⟨entries_append.mpr ⟨?_, entryAt_insertName hi, ?_⟩, ?_, fun e' he' => ?_⟩, hbelow⟩
  · exact hl.congr fun j hj => hbelow _ (by omega)
  · exact hr.congr fun j hj => insertName_moved (by omega) (by omega)
  · have hplace : p + namesSize (l ++ i.slot :: r) = p + namesSize l + i.slot.len + namesSize r := by omega
    have hplace' : p + namesSize (l ++ r) = p + namesSize l + namesSize r := by omega
    rw [hplace]
    refine h.last.congr fun j hj => ?_
    rw [hplace', Nat.add_assoc _ (namesSize r), Nat.add_assoc _ (namesSize r)]
    exact insertName_moved (by omega) (by omega)
  · rw [List.mem_append, List.mem_cons] at he'
    obtain he' | rfl | he' := he'
    · exact h.indexed e' (List.mem_append_left r he')
    · exact hi.index.1
    · exact h.indexed e' (List.mem_append_right l he')

/-- What the removal of the old value leaves: the other entries with their values, and the entry without one. -/
structure Removed (m m' : Mem) (p lo hi : Nat) (l r : List Slot) (e : Slot) (l' r' : List Slot) : Prop where
  layout : Layout m' p (lo + xattrSize e.size) hi (l' ++ e :: r') (l' ++ r')
  left : stored m' l' = stored m l
  right : stored m' r' = stored m r
  within : Within p hi m m'

theorem removeValue_spec {s : Search} (h : Layout m p lo hi (l ++ e :: r) (l ++ e :: r)) (hfirst : s.first = p)
    (hend : s.fend = hi) (hhere : s.here = p + namesSize l) (hfound : s.notFound = false) :
    (removeValue s lo (xattrSize e.size) m).2 = lo + xattrSize e.size ∧
      ∃ l' r', Removed m (removeValue s lo (xattrSize e.size) m).1 p lo hi l r e l' r' := by
  have hentry : EntryAt m s.here e := by
    rw [hhere]
    exact h.names.entries.middle
  have hroom := h.room
  have hle := h.le
  have hsmall := h.small
  rw [removeValue, hentry.valueSize, hentry.inum, hentry.valueOffs]
  by_cases hzero : e.size = 0
  · have hnone : xattrSize e.size = 0 := xattrSize_eq_zero.mpr hzero
    rw [if_neg fun hand => hand.2.1 hzero]
    refine ⟨by rw [hnone]; rfl, l, r, ⟨h.names, ?_, by omega, by omega, hsmall⟩, rfl, rfl, fun _ _ => rfl⟩
    rw [hnone]
    exact (Values.middle.mp h.values).tail
  · rw [if_pos ⟨hfound, hzero, rfl⟩]
    refine ⟨rfl, l.map (Slot.raise e.extent), r.map (Slot.raise e.extent), ?_⟩
    dsimp only
    rw [hfirst, hend]
    have hin := h.values.inside (List.mem_append_right l List.mem_cons_self) hzero
    obtain ⟨hvalues, hcontent⟩ := (Values.middle.mp h.values).closeGap hzero
    -- the bytes of the names are not those of the values
    have hnames : Names (m.closeGap lo e.extent) p (l ++ e :: r) := h.names.congr fun j hj =>
      Mem.closeGap_of_outside hin.1 (by omega)
    have hcount := length_le_namesSize (l ++ e :: r)
    have hfuel : (l ++ e :: r).length < hi := by omega
    obtain ⟨hadjusted, hframe⟩ := adjustOffsets_spec e.extent hnames hfuel fun e' _ _ hlt => by
      rw [Slot.extent] at hlt ⊢
      dsimp only at hlt ⊢
      omega
    obtain ⟨hkept, hcontent'⟩ := hvalues.congr fun x hlo _ => hframe x (by omega)
    have hself : e.raise e.extent = e := by
      rw [Slot.raise, Extent.raise_of_le (Nat.le_refl _)]
      rfl
    rw [List.map_append, List.map_cons, hself] at hadjusted
    rw [List.map_append] at hkept hcontent'
    have hstored : ∀ es, (∀ x ∈ es, x ∈ l ++ r) →
        stored (adjustOffsets e.extent.offs e.extent.len hi p (m.closeGap lo e.extent)) (es.map (Slot.raise e.extent)) =
          stored m es := by
      intro es hes
      rw [stored, List.map_map]
      apply List.map_congr_left
      intro x hx
      have hvalue := (hcontent' (x.raise e.extent) (by
        rw [← List.map_append]
        exact List.mem_map_of_mem (hes x hx))).trans (hcontent x (hes x hx))
      rw [Function.comp_apply, attrAt, hvalue]
      rfl
    refine ⟨⟨hadjusted, hkept, ?_, ?_, hsmall⟩, ?_, ?_, fun x hx => ?_⟩
    · rw [namesSize_middle, namesSize_map_raise, namesSize_map_raise, ← namesSize_middle]
      omega
    · omega
    · exact hstored l fun x hx => List.mem_append_left r hx
    · exact hstored r fun x hx => List.mem_append_right l hx
    · have hgap : m.closeGap lo e.extent x = m x := Mem.closeGap_of_outside hin.1 (by
        rw [Slot.extent]
        dsimp only
        omega)
      rw [← hgap]
      exact hframe x (by omega)

/-- The entry once it has a value under `lo`. -/
def Slot.withValue (e : Slot) (v : Value) (lo : Nat) : Slot :=
  { e with offs := if v.len ≠ 0 then lo - xattrSize v.len else e.offs, size := v.len }

/-- What one entry more with its value leaves of the others. -/
structure Added (m m' : Mem) (p lo hi : Nat) (l r : List Slot) (e' : Slot) : Prop where
  layout : Layout m' p lo hi (l ++ e' :: r) (l ++ e' :: r)
  left : stored m' l = stored m l
  right : stored m' r = stored m r

theorem EntryAt.insertValue {v : Value} {here : Nat} (h : EntryAt m here e)
    (hbelow : here + e.len ≤ lo - xattrSize v.len)
    (hlo : lo ≤ 65536) (hroom : xattrSize v.len ≤ lo) :
    EntryAt (Xattr.insertValue v here lo (xattrSize v.len) m) here (e.withValue v lo) ∧
      ∀ x, x < here ∨ here + 16 ≤ x → Xattr.insertValue v here lo (xattrSize v.len) m x =
        (if v.len ≠ 0 then putValue m (lo - xattrSize v.len) v else m) x := by
  have hsize := xattrSize_bounds v.len
  have hlen := e.name_lt_len
  by_cases hzero : v.len = 0
  · rw [Xattr.insertValue, if_neg (not_not.mpr hzero), Slot.withValue, if_neg (not_not.mpr hzero),
      if_neg (not_not.mpr hzero)]
    exact ⟨h.store_size (by omega), fun x hx => Mem.store_of_outside (by omega)⟩
  · rw [Xattr.insertValue, if_pos hzero, Slot.withValue, if_pos hzero, if_pos hzero]
    refine ⟨?_, fun x hx => ?_⟩
    · have hoffs := h.store_offs (by omega : lo - xattrSize v.len < 65536)
      have hput : EntryAt (putValue (m.store (here + 2) 2 (lo - xattrSize v.len)) (lo - xattrSize v.len) v) here
          { e with offs := lo - xattrSize v.len } := by
        refine hoffs.congr fun j hj => putValue_of_outside v ?_
        dsimp only at hj
        omega
      exact hput.store_size (by omega)
    · rw [Mem.store_of_outside (by omega)]
      exact putValue_congr v (Mem.store_of_outside (by omega))

theorem insertValue_spec {v : Value} (h : Layout m p lo hi (l ++ e :: r) (l ++ r)) (hempty : e.offs ≤ hi)
    (hroom : p + namesSize (l ++ e :: r) + 4 + xattrSize v.len ≤ lo) :
    Added m (insertValue v (p + namesSize l) lo (xattrSize v.len) m) p (lo - xattrSize v.len) hi l r
        (e.withValue v lo) ∧
      content (insertValue v (p + namesSize l) lo (xattrSize v.len) m) (e.withValue v lo) = v.bytes ∧
      Within p hi m (insertValue v (p + namesSize l) lo (xattrSize v.len) m) := by
  have hle := h.le
  have hsmall := h.small
  have hend := namesSize_middle l r e
  have hlen := e.name_lt_len
  have hbelow : p + namesSize l + e.len ≤ lo - xattrSize v.len := by omega
  have hfits : xattrSize v.len ≤ lo := by omega
  obtain ⟨hentry, hbase⟩ := h.names.entries.middle.insertValue hbelow (by omega) hfits
  generalize hm' : insertValue v (p + namesSize l) lo (xattrSize v.len) m = m' at hentry hbase ⊢
  have hplace : v.len ≠ 0 → (e.withValue v lo).offs = lo - xattrSize v.len := fun hne => if_pos hne
  have hkeep : v.len = 0 → (e.withValue v lo).offs ≤ hi := fun hzero => by
    rw [Slot.withValue, if_neg (not_not.mpr hzero)]
    exact hempty
  have hlength : (e.withValue v lo).size = v.len := rfl
  obtain ⟨hvalues, hkept, hnew⟩ := h.values.putBelow hle hfits hplace hkeep hlength
  have hput : ∀ x, x < lo - xattrSize v.len ∨ lo ≤ x →
      (if v.len ≠ 0 then putValue m (lo - xattrSize v.len) v else m) x = m x := by
    intro x hx
    split
    · exact putValue_of_outside v (by omega)
    · rfl
  obtain ⟨hvalues', hcontent⟩ := hvalues.congr fun x hlo _ => hbase x (by omega)
  have hnames : Names m' p (l ++ e.withValue v lo :: r) := by
    refine h.names.replace rfl ?_ hentry fun x h₁ h₂ hx => ?_
    · exact h.names.indexed e (List.mem_append_right l List.mem_cons_self)
    · rw [hbase x (by omega), hput x (by omega)]
  have hothers : ∀ x ∈ l ++ r, content m' x = content m x := fun x hx =>
    (hcontent x (List.mem_cons_of_mem _ hx)).trans (hkept x hx)
  have hend' : namesSize (l ++ e.withValue v lo :: r) = namesSize (l ++ e :: r) := by
    rw [hend, namesSize_middle]
    rfl
  refine ⟨⟨⟨hnames, Values.middle.mpr hvalues', by omega, by omega, hsmall⟩, ?_, ?_⟩, ?_, fun x hx => ?_⟩
  · exact stored_congr fun x hx => hothers x (List.mem_append_left r hx)
  · exact stored_congr fun x hx => hothers x (List.mem_append_right l hx)
  · exact (hcontent _ List.mem_cons_self).trans hnew
  · rw [hbase x (by omega), hput x (by omega)]

theorem Layout.congr {m' : Mem} (h : Layout m p lo hi es vs) (heq : ∀ x, p ≤ x → x < hi → m' x = m x) :
    Layout m' p lo hi es vs ∧ ∀ e ∈ vs, content m' e = content m e := by
  have hroom := h.room
  have hle := h.le
  obtain ⟨hvalues, hcontent⟩ := h.values.congr fun x h₁ h₂ => heq x (by omega) h₂
  exact ⟨⟨h.names.congr fun j hj => heq _ (by omega) (by omega), hvalues, h.room, h.le, h.small⟩, hcontent⟩

/-- Outside a range only the hash in the header of a block is written. -/
def Frame (isBlock : Bool) (p hi : Nat) (m m' : Mem) : Prop :=
  ∀ x, x < p ∨ hi ≤ x → (isBlock = true → x < 12 ∨ 16 ≤ x) → m' x = m x

/-- The hash of a block is the one of its entries. -/
def HashRight (isBlock : Bool) (m : Mem) (es : List Slot) : Prop :=
  isBlock = true → hHash m = (shareHash 0 (es.map Slot.hash)).toNat

/-- The end of the operation: `ext4_xattr_rehash` when the area is a block. -/
theorem rehash_spec {isBlock : Bool} (hp : isBlock = true → p = headerSize) (h : Layout m p lo hi es es) :
    Layout (if isBlock then ext4XattrRehash hi m else m) p lo hi es es ∧
      (∀ e ∈ es, content (if isBlock then ext4XattrRehash hi m else m) e = content m e) ∧
      Frame isBlock p hi m (if isBlock then ext4XattrRehash hi m else m) ∧
      HashRight isBlock (if isBlock then ext4XattrRehash hi m else m) es := by
  cases isBlock with
  | false => exact ⟨h, fun _ _ => rfl, fun _ _ _ => rfl, fun hfalse => absurd hfalse Bool.false_ne_true⟩
  | true =>
      obtain rfl := hp rfl
      rw [if_pos rfl]
      have hroom := h.room
      have hle := h.le
      have hframe : ∀ x, x < 12 ∨ 16 ≤ x → ext4XattrRehash hi m x = m x := fun x hx =>
        Mem.store_of_outside (by omega)
      have hheader : headerSize = 32 := rfl
      have hcount := length_le_namesSize es
      obtain ⟨hlayout, hcontent⟩ := h.congr fun x hx _ => hframe x (by omega)
      refine ⟨hlayout, hcontent, fun x _ hx => hframe x (hx rfl), fun _ => ?_⟩
      rw [hHash, ext4XattrRehash, Mem.load_store_self, blockHash_eq h.names (by omega)]
      exact Nat.mod_eq_of_lt (UInt32.toNat_lt _)

theorem updateHash_none {isBlock : Bool} {s : Search} (hend : s.fend = hi) (hvalue : i.value = none) (n : Nat) :
    updateHash i s isBlock n m = if isBlock then ext4XattrRehash hi m else m := by
  rw [updateHash, hvalue, hend]
  rfl

/-- The entry that was changed gets the hash of its attribute. -/
theorem updateHash_some {isBlock : Bool} {s : Search} {v : Value} (hp : isBlock = true → p = headerSize)
    (h : Layout m p lo hi (l ++ e :: r) (l ++ e :: r)) (hend : s.fend = hi) (hhere : s.here = p + namesSize l)
    (hvalue : i.value = some v) (hsize : e.size = v.len) :
    Added m (updateHash i s isBlock (xattrSize v.len) m) p lo hi l r
        { e with hash := (attrAt m e).hashIn isBlock } ∧
      content (updateHash i s isBlock (xattrSize v.len) m) { e with hash := (attrAt m e).hashIn isBlock } =
        content m e ∧
      Frame isBlock p hi m (updateHash i s isBlock (xattrSize v.len) m) ∧
      HashRight isBlock (updateHash i s isBlock (xattrSize v.len) m)
        (l ++ { e with hash := (attrAt m e).hashIn isBlock } :: r) := by
  have hentry : EntryAt m s.here e := by
    rw [hhere]
    exact h.names.entries.middle
  have hlen := e.name_lt_len
  have hnames := namesSize_middle l r e
  have hroom := h.room
  have hle := h.le
  generalize he' : ({ e with hash := (attrAt m e).hashIn isBlock } : Slot) = e'
  -- the hash that is stored
  have hhash : (if isBlock then ext4XattrHashEntry m (s.here + 16) (eNameLen m s.here) (eValueOffs m s.here)
      (xattrSize v.len / 4) else 0).toNat = (attrAt m e).hashIn isBlock := by
    cases isBlock with
    | false => rfl
    | true =>
        rw [if_pos rfl, ← hsize, hentry.hash_eq (h.values.padded e (List.mem_append_right l List.mem_cons_self))]
        rfl
  have hstep : updateHash i s isBlock (xattrSize v.len) m =
      if isBlock then ext4XattrRehash hi (m.store (s.here + 12) 4 ((attrAt m e).hashIn isBlock))
      else m.store (s.here + 12) 4 ((attrAt m e).hashIn isBlock) := by
    rw [updateHash, hvalue, hend, ← hhash]
    rfl
  have hlt : (attrAt m e).hashIn isBlock < 2 ^ 32 := by
    rw [← hhash]
    exact UInt32.toNat_lt _
  have hframe : ∀ x, x < s.here + 12 ∨ s.here + 16 ≤ x →
      m.store (s.here + 12) 4 ((attrAt m e).hashIn isBlock) x = m x := fun x hx => Mem.store_of_outside (by omega)
  have hstored : EntryAt (m.store (s.here + 12) 4 ((attrAt m e).hashIn isBlock)) s.here e' := by
    rw [← he']
    exact hentry.store_hash hlt
  rw [hstep]
  generalize m.store (s.here + 12) 4 ((attrAt m e).hashIn isBlock) = m₁ at hframe hstored ⊢
  rw [hhere] at hframe hstored
  obtain ⟨hoffs, hsize', hindex, hlen'⟩ :
      e'.offs = e.offs ∧ e'.size = e.size ∧ e'.nameIndex = e.nameIndex ∧ e'.len = e.len := by
    rw [← he']
    exact ⟨rfl, rfl, rfl, rfl⟩
  have hend' : namesSize (l ++ e' :: r) = namesSize (l ++ e :: r) := by rw [namesSize_middle, namesSize_middle, hlen']
  obtain ⟨hvalues, hcontent⟩ := (h.values.relabel hoffs hsize').congr fun x hx _ => hframe x (by omega)
  have hlayout : Layout m₁ p lo hi (l ++ e' :: r) (l ++ e' :: r) := by
    refine ⟨h.names.replace hlen' ?_ hstored fun x _ _ hx => hframe x (by omega), hvalues, by omega, hle, h.small⟩
    rw [hindex]
    exact h.names.indexed e (List.mem_append_right l List.mem_cons_self)
  obtain ⟨hfinal, hkept, hout, hright⟩ := rehash_spec hp hlayout
  have hall : ∀ x ∈ l ++ e' :: r, content (if isBlock then ext4XattrRehash hi m₁ else m₁) x = content m x :=
    fun x hx => (hkept x hx).trans (hcontent x hx)
  have hself : content m e' = content m e := by rw [content, content, hoffs, hsize']
  refine ⟨⟨hfinal, ?_, ?_⟩, ?_, fun x hx hheader => ?_, hright⟩
  · exact stored_congr fun x hx => hall x (List.mem_append_left _ hx)
  · exact stored_congr fun x hx => hall x (List.mem_append_right l (List.mem_cons_of_mem e' hx))
  · exact (hall e' (List.mem_append_right l List.mem_cons_self)).trans hself
  · rw [hout x hx hheader]
    exact hframe x (by omega)

theorem sizeSub_of_le {a b : Nat} (h : b ≤ a) (ha : a < 2 ^ 64) : sizeSub a b = a - b := by
  rw [sizeSub, Nat.add_comm, Nat.add_sub_assoc h, Nat.add_mod_left]
  exact Nat.mod_eq_of_lt (by omega)

/-- An area in the format with these attributes and hashes, after an operation that wrote nothing else. -/
structure Outcome (isBlock : Bool) (m m' : Mem) (p lo hi : Nat) (as : List (Attr × Nat)) : Prop where
  slots : ∃ es, Layout m' p lo hi es es ∧ HashRight isBlock m' es ∧ stored m' es = as
  frame : Frame isBlock p hi m m'

theorem Within.frame {isBlock : Bool} {m' : Mem} (h : Within p hi m m') : Frame isBlock p hi m m' :=
  fun x hx _ => h x hx

theorem Frame.trans {isBlock : Bool} {m' m'' : Mem} (h : Frame isBlock p hi m m') (h' : Frame isBlock p hi m' m'') :
    Frame isBlock p hi m m'' := fun x hx hheader => (h' x hx hheader).trans (h x hx hheader)

section Operation

variable {isBlock : Bool} {ea : Int} {v : Value}

/-- The first loop on a list in the format. -/
theorem Layout.minOffsAndLast (h : Layout m p lo hi es es) (hlow : Extent.lowest hi (es.map Slot.extent) = lo) :
    Xattr.minOffsAndLast m hi hi hi p = .ok (lo, p + namesSize es) := by
  have hroom := h.room
  have hle := h.le
  have hcount := length_le_namesSize es
  rw [minOffsAndLast_eq h.names (by omega) (by omega) (Nat.le_refl hi), hlow, Nat.min_eq_right hle]

/-- The space of the old value and the list of names, as the search has found them. -/
theorem Layout.found (h : Layout m p lo hi (l ++ e :: r) (l ++ e :: r)) :
    oldValueSize ⟨p, hi, p + namesSize l, false⟩ m = xattrSize e.size ∧
      eValueInum m (p + namesSize l) = 0 ∧ eValueOffs m (p + namesSize l) = e.offs := by
  have hentry := h.names.entries.middle
  refine ⟨?_, hentry.inum, hentry.valueOffs⟩
  rw [oldValueSize, if_pos ⟨rfl, hentry.inum⟩, hentry.valueSize]

/-- **Removing an attribute.** -/
theorem setEntry_remove (hp : isBlock = true → p = headerSize) (h : Layout m p lo hi (l ++ e :: r) (l ++ e :: r))
    (hlow : Extent.lowest hi ((l ++ e :: r).map Slot.extent) = lo) (hvalue : i.value = none)
    (hname : i.name.length = e.name.length) :
    ∃ m', ext4XattrSetEntry i ⟨p, hi, p + namesSize l, false⟩ isBlock ea m = .ok m' ∧
      Outcome isBlock m m' p (lo + xattrSize e.size) hi (stored m l ++ stored m r) := by
  obtain ⟨hold, hinum, -⟩ := h.found
  have hnew : i.newSize = 0 := by rw [Info.newSize, hvalue]
  have hsearch : (⟨p, hi, p + namesSize l, false⟩ : Search).first = p := rfl
  obtain ⟨hlow', l', r', hremoved⟩ := removeValue_spec h hsearch rfl rfl rfl
  have hl := namesSize_eq_of_stored hremoved.left
  have hr := namesSize_eq_of_stored hremoved.right
  have hend : p + namesSize (l ++ e :: r) = p + namesSize (l' ++ e :: r') := by
    rw [namesSize_middle, namesSize_middle, hl, hr]
  have hset : ext4XattrSetEntry i ⟨p, hi, p + namesSize l, false⟩ isBlock ea m =
      .ok (updateHash i ⟨p, hi, p + namesSize l, false⟩ isBlock i.newSize
        (removeName (p + namesSize l) (p + namesSize (l ++ e :: r)) i.name.length
          (removeValue ⟨p, hi, p + namesSize l, false⟩ lo (xattrSize e.size) m).1)) := by
    rw [ext4XattrSetEntry, hold, hnew, if_neg fun hand => hand.1 rfl]
    dsimp only
    rw [h.minOffsAndLast hlow]
    dsimp only
    rw [hvalue, hinum, if_neg (by simp), if_neg fun hand => hand.2.1 rfl, changeEntry, hvalue]
  refine ⟨_, hset, ?_⟩
  generalize (removeValue ⟨p, hi, p + namesSize l, false⟩ lo (xattrSize e.size) m).1 = m₁ at hremoved
  obtain ⟨hnames, hwithin⟩ := names_removeName hremoved.layout.names hend
  have hafter := hremoved.layout.room
  have hle := hremoved.layout.le
  rw [updateHash_none rfl hvalue, hname, ← hl]
  generalize hm₂ : removeName (p + namesSize l') (p + namesSize (l ++ e :: r)) e.name.length m₁ = m₂ at hnames hwithin
  have hsmaller : namesSize (l' ++ r') ≤ namesSize (l' ++ e :: r') := by
    rw [namesSize_middle, namesSize_append]
    omega
  obtain ⟨hvalues, hcontent⟩ := hremoved.layout.values.congr fun x hx _ => hwithin x (by omega)
  have hlayout : Layout m₂ p (lo + xattrSize e.size) hi (l' ++ r') (l' ++ r') :=
    ⟨hnames, hvalues, by omega, hle, h.small⟩
  obtain ⟨hfinal, hkept, hframe, hright⟩ := rehash_spec hp hlayout
  refine ⟨⟨l' ++ r', hfinal, hright, ?_⟩, ?_⟩
  · rw [stored_congr hkept, stored_congr hcontent, stored_append, hremoved.left, hremoved.right]
  · refine hremoved.within.frame.trans (Frame.trans (fun x hx _ => hwithin x (by omega)) hframe)

/-- The attribute of an `ext4_xattr_info` with a value. -/
def Info.attr (i : Info) (v : Value) : Attr := ⟨i.nameIndex, i.name, v.bytes⟩

/-- The area before the hash is computed: the entry has the attribute, those on both sides of it have theirs. -/
structure Placed (m m' : Mem) (p lo hi here : Nat) (as bs : List (Attr × Nat)) (a : Attr) : Prop where
  slots : ∃ l r e, Layout m' p lo hi (l ++ e :: r) (l ++ e :: r) ∧ here = p + namesSize l ∧
    stored m' l = as ∧ stored m' r = bs ∧ attrAt m' e = a
  within : Within p hi m m'

theorem Placed.finish {m₁ : Mem} {s : Search} {as bs : List (Attr × Nat)} (hp : isBlock = true → p = headerSize)
    (h : Placed m m₁ p lo hi s.here as bs (i.attr v)) (hend : s.fend = hi) (hvalue : i.value = some v) :
    Outcome isBlock m (updateHash i s isBlock (xattrSize v.len) m₁) p lo hi
      (as ++ (i.attr v, (i.attr v).hashIn isBlock) :: bs) := by
  obtain ⟨l, r, e, hlayout, hhere, hl, hr, ha⟩ := h.slots
  have hsize : e.size = v.len :=
    calc e.size = (attrAt m₁ e).value.length := (Mem.length_bytes ..).symm
      _ = v.len := by rw [ha, Info.attr, Value.length_bytes]
  obtain ⟨hchanged, hcontent, hframe, hright⟩ := updateHash_some hp hlayout hend hhere hvalue hsize
  refine ⟨⟨_, hchanged.layout, hright, ?_⟩, h.within.frame.trans hframe⟩
  rw [stored_append, stored_cons, hchanged.left, hchanged.right, hl, hr, ← ha, attrAt, hcontent]
  rfl

/-- **A new attribute.** -/
theorem setEntry_insert (hi' : i.Named) (hp : isBlock = true → p = headerSize)
    (h : Layout m p lo hi (l ++ r) (l ++ r)) (hlow : Extent.lowest hi ((l ++ r).map Slot.extent) = lo)
    (hvalue : i.value = some v) :
    (lo < p + namesSize (l ++ r) + 4 + (xattrLen i.name.length + xattrSize v.len) →
      ext4XattrSetEntry i ⟨p, hi, p + namesSize l, true⟩ isBlock ea m = .error (-ENOSPC)) ∧
    (p + namesSize (l ++ r) + 4 + (xattrLen i.name.length + xattrSize v.len) ≤ lo →
      ∃ m', ext4XattrSetEntry i ⟨p, hi, p + namesSize l, true⟩ isBlock ea m = .ok m' ∧
        Outcome isBlock m m' p (lo - xattrSize v.len) hi
          (stored m l ++ (i.attr v, (i.attr v).hashIn isBlock) :: stored m r)) := by
  have hnew : i.newSize = xattrSize v.len := by rw [Info.newSize, hvalue]
  have hroom := h.room
  have hle := h.le
  have hsmall := h.small
  have hfree : sizeSub lo (p + namesSize (l ++ r) + 4) = lo - (p + namesSize (l ++ r) + 4) :=
    sizeSub_of_le hroom (by omega)
  have hset : ext4XattrSetEntry i ⟨p, hi, p + namesSize l, true⟩ isBlock ea m =
      if lo - (p + namesSize (l ++ r) + 4) < xattrLen i.name.length + xattrSize v.len then .error (-ENOSPC)
      else .ok (updateHash i ⟨p, hi, p + namesSize l, true⟩ isBlock (xattrSize v.len)
        (insertValue v (p + namesSize l) lo (xattrSize v.len)
          (insertName i (p + namesSize l) (p + namesSize (l ++ r)) m))) := by
    have hnotFound : ∀ q : Prop, ¬(true = false ∧ q) := fun _ hand => Bool.noConfusion hand.1
    rw [ext4XattrSetEntry, hnew, oldValueSize, if_neg (hnotFound _), if_neg fun hand => hand.1 hand.2]
    dsimp only
    rw [h.minOffsAndLast hlow]
    dsimp only
    rw [hvalue, hfree, if_pos rfl, Nat.add_zero, removeValue, if_neg (hnotFound _), changeEntry, hvalue]
    by_cases hspace : lo - (p + namesSize (l ++ r) + 4) < xattrLen i.name.length + xattrSize v.len
    · rw [if_pos ⟨rfl, hspace⟩, if_pos hspace]
    · rw [if_neg fun hand => hspace hand.2, if_neg (hnotFound _), if_neg hspace]
      rfl
  rw [hset]
  constructor
  · intro hfull
    rw [if_pos (by omega)]
  · intro hfits
    rw [if_neg (by omega)]
    refine ⟨_, rfl, ?_⟩
    obtain ⟨hnames, hwithin⟩ := names_insertName hi' h.names rfl
    have hend := namesSize_middle l r i.slot
    have hold := namesSize_append l r
    have hlen : i.slot.len = xattrLen i.name.length := rfl
    generalize insertName i (p + namesSize l) (p + namesSize (l ++ r)) m = m₁ at hnames hwithin ⊢
    obtain ⟨hvalues, hcontent⟩ := h.values.congr fun x hx _ => hwithin x (by omega)
    have hlayout : Layout m₁ p lo hi (l ++ i.slot :: r) (l ++ r) := ⟨hnames, hvalues, by omega, hle, hsmall⟩
    have hspace : p + namesSize (l ++ i.slot :: r) + 4 + xattrSize v.len ≤ lo := by omega
    obtain ⟨hadded, hput, hwithin'⟩ := insertValue_spec hlayout (Nat.zero_le hi) hspace
    generalize insertValue v (p + namesSize l) lo (xattrSize v.len) m₁ = m₂ at hadded hput hwithin' ⊢
    refine Placed.finish hp ⟨⟨l, r, _, hadded.layout, rfl, ?_, ?_, ?_⟩, fun x hx => ?_⟩ rfl hvalue
    · exact hadded.left.trans (stored_congr fun x hx => hcontent x (List.mem_append_left r hx))
    · exact hadded.right.trans (stored_congr fun x hx => hcontent x (List.mem_append_right l hx))
    · rw [attrAt, hput]
      rfl
    · rw [hwithin' x hx, hwithin x (by omega)]

/-- The optimised path writes over the old value. -/
theorem rewriteValue_spec (h : Layout m p lo hi (l ++ e :: r) (l ++ e :: r)) (hvalue : i.value = some v)
    (hne : v.len ≠ 0) (hsame : xattrSize v.len = xattrSize e.size) :
    Placed m (rewriteValue i ⟨p, hi, p + namesSize l, false⟩ m) p lo hi (p + namesSize l) (stored m l) (stored m r)
      ⟨e.nameIndex, e.name, v.bytes⟩ := by
  have hroom := h.room
  have hle := h.le
  have hsmall := h.small
  have hlen := e.name_lt_len
  have hend := namesSize_middle l r e
  have hsize := xattrSize_bounds v.len
  have hesize : e.size ≠ 0 := xattrSize_ne_zero.mp (hsame ▸ xattrSize_ne_zero.mpr hne)
  have hin := h.values.inside (List.mem_append_right l List.mem_cons_self) hesize
  have hentry := h.names.entries.middle
  have hstep : rewriteValue i ⟨p, hi, p + namesSize l, false⟩ m =
      putValue (m.store (p + namesSize l + 8) 4 v.len) e.offs v := by
    rw [rewriteValue, hvalue, ← hentry.valueOffs]
  rw [hstep]
  -- the size is stored among the names, the value is put behind them
  have hput : ∀ x, x < p + namesSize l + 8 ∨ p + namesSize l + 12 ≤ x →
      putValue (m.store (p + namesSize l + 8) 4 v.len) e.offs v x = putValue m e.offs v x :=
    fun x hx => putValue_congr v (Mem.store_of_outside hx)
  have hkeep : ∀ x, x < e.offs ∨ e.offs + xattrSize e.size ≤ x →
      putValue (m.store (p + namesSize l + 8) 4 v.len) e.offs v x = m.store (p + namesSize l + 8) 4 v.len x :=
    fun x hx => putValue_of_outside v (by omega)
  generalize putValue (m.store (p + namesSize l + 8) 4 v.len) e.offs v = m' at hput hkeep ⊢
  have hsized : EntryAt m' (p + namesSize l) { e with size := v.len } :=
    (hentry.store_size (by omega)).congr fun j hj => hkeep _ (by
      dsimp only at hj
      omega)
  obtain ⟨hvalues, hothers, hnew⟩ := (Values.middle.mp h.values).rewrite hsame hne
  obtain ⟨hvalues', hcontent⟩ := hvalues.congr fun x hx _ => hput x (by omega)
  have hnames : Names m' p (l ++ { e with size := v.len } :: r) :=
    h.names.replace rfl (h.names.indexed e (List.mem_append_right l List.mem_cons_self)) hsized fun x h₁ h₂ hx => by
      rw [hkeep x (by omega)]
      exact Mem.store_of_outside (by omega)
  have hkept : ∀ x ∈ l ++ r, content m' x = content m x := fun x hx =>
    (hcontent x (List.mem_cons_of_mem _ hx)).trans (hothers x hx)
  have hend' : namesSize (l ++ { e with size := v.len } :: r) = namesSize (l ++ e :: r) := by
    rw [hend, namesSize_middle]
    rfl
  have hlayout : Layout m' p lo hi (l ++ { e with size := v.len } :: r) (l ++ { e with size := v.len } :: r) :=
    ⟨hnames, Values.middle.mpr hvalues', by omega, hle, hsmall⟩
  refine ⟨⟨l, r, _, hlayout, rfl, ?_, ?_, ?_⟩, fun x hx => ?_⟩
  · exact stored_congr fun x hx => hkept x (List.mem_append_left r hx)
  · exact stored_congr fun x hx => hkept x (List.mem_append_right l hx)
  · rw [attrAt, hcontent _ List.mem_cons_self, hnew]
  · rw [hkeep x (by omega)]
    exact Mem.store_of_outside (by omega)

/-- The general path removes the old value, resets the entry and adds the new value. -/
theorem replaceValue_spec (h : Layout m p lo hi (l ++ e :: r) (l ++ e :: r))
    (hfits : p + namesSize (l ++ e :: r) + 4 + xattrSize v.len ≤ lo + xattrSize e.size) :
    Placed m (insertValue v (p + namesSize l) (lo + xattrSize e.size) (xattrSize v.len) (resetValue (p + namesSize l)
        (removeValue ⟨p, hi, p + namesSize l, false⟩ lo (xattrSize e.size) m).1))
      p (lo + xattrSize e.size - xattrSize v.len) hi (p + namesSize l) (stored m l) (stored m r)
      ⟨e.nameIndex, e.name, v.bytes⟩ := by
  have hsearch : (⟨p, hi, p + namesSize l, false⟩ : Search).first = p := rfl
  obtain ⟨-, l', r', hremoved⟩ := removeValue_spec h hsearch rfl rfl rfl
  have hl := namesSize_eq_of_stored hremoved.left
  have hr := namesSize_eq_of_stored hremoved.right
  have hmiddle := namesSize_middle l r e
  have hmiddle' := namesSize_middle l' r' e
  have hlen := e.name_lt_len
  have hafter := hremoved.layout.room
  have hle := hremoved.layout.le
  generalize (removeValue ⟨p, hi, p + namesSize l, false⟩ lo (xattrSize e.size) m).1 = m₁ at hremoved ⊢
  rw [← hl]
  have hreset := hremoved.layout.names.entries.middle.resetValue
  have hoff : ∀ x, x < p + namesSize l' ∨ p + namesSize l' + 16 ≤ x → resetValue (p + namesSize l') m₁ x = m₁ x := by
    intro x hx
    rw [resetValue, Mem.store_of_outside (by omega), Mem.store_of_outside (by omega), Mem.store_of_outside (by omega)]
  generalize resetValue (p + namesSize l') m₁ = m₂ at hreset hoff ⊢
  generalize he' : ({ e with offs := 0, size := 0 } : Slot) = e' at hreset
  obtain ⟨hlen', hindex, hname, hempty⟩ :
      e'.len = e.len ∧ e'.nameIndex = e.nameIndex ∧ e'.name = e.name ∧ e'.offs ≤ hi := by
    rw [← he']
    exact ⟨rfl, rfl, rfl, Nat.zero_le hi⟩
  have hnames : Names m₂ p (l' ++ e' :: r') := by
    refine hremoved.layout.names.replace hlen' ?_ hreset fun x _ _ hx => hoff x (by omega)
    rw [hindex]
    exact h.names.indexed e (List.mem_append_right l List.mem_cons_self)
  obtain ⟨hvalues, hcontent⟩ := hremoved.layout.values.congr fun x hx _ => hoff x (by omega)
  have hend : namesSize (l' ++ e' :: r') = namesSize (l ++ e :: r) := by
    rw [namesSize_middle, hlen', hl, hr, ← namesSize_middle]
  have hlayout : Layout m₂ p (lo + xattrSize e.size) hi (l' ++ e' :: r') (l' ++ r') :=
    ⟨hnames, hvalues, by omega, hle, h.small⟩
  have hspace : p + namesSize (l' ++ e' :: r') + 4 + xattrSize v.len ≤ lo + xattrSize e.size := by omega
  obtain ⟨hadded, hput, hwithin⟩ := insertValue_spec hlayout hempty hspace
  refine ⟨⟨l', r', _, hadded.layout, rfl, ?_, ?_, ?_⟩, fun x hx => ?_⟩
  · exact hadded.left.trans
      ((stored_congr fun x hx => hcontent x (List.mem_append_left r' hx)).trans hremoved.left)
  · exact hadded.right.trans
      ((stored_congr fun x hx => hcontent x (List.mem_append_right l' hx)).trans hremoved.right)
  · rw [attrAt, hput, Slot.withValue, hindex, hname]
  · rw [hwithin x hx, hoff x (by omega)]
    exact hremoved.within x hx

/-- **Another value** for an attribute that is there. -/
theorem setEntry_update (hp : isBlock = true → p = headerSize) (h : Layout m p lo hi (l ++ e :: r) (l ++ e :: r))
    (hlow : Extent.lowest hi ((l ++ e :: r).map Slot.extent) = lo) (hvalue : i.value = some v)
    (hindex : i.nameIndex = e.nameIndex) (hname : i.name = e.name) :
    (lo + xattrSize e.size < p + namesSize (l ++ e :: r) + 4 + xattrSize v.len →
      ext4XattrSetEntry i ⟨p, hi, p + namesSize l, false⟩ isBlock ea m = .error (-ENOSPC)) ∧
    (p + namesSize (l ++ e :: r) + 4 + xattrSize v.len ≤ lo + xattrSize e.size →
      ∃ m', ext4XattrSetEntry i ⟨p, hi, p + namesSize l, false⟩ isBlock ea m = .ok m' ∧
        Outcome isBlock m m' p (lo + xattrSize e.size - xattrSize v.len) hi
          (stored m l ++ (i.attr v, (i.attr v).hashIn isBlock) :: stored m r)) := by
  obtain ⟨hold, hinum, -⟩ := h.found
  have hnew : i.newSize = xattrSize v.len := by rw [Info.newSize, hvalue]
  have hattr : i.attr v = ⟨e.nameIndex, e.name, v.bytes⟩ := by rw [Info.attr, hindex, hname]
  have hroom := h.room
  have hle := h.le
  have hsmall := h.small
  by_cases hsame : xattrSize v.len ≠ 0 ∧ xattrSize v.len = xattrSize e.size
  · have hset : ext4XattrSetEntry i ⟨p, hi, p + namesSize l, false⟩ isBlock ea m =
        .ok (updateHash i ⟨p, hi, p + namesSize l, false⟩ isBlock (xattrSize v.len)
          (rewriteValue i ⟨p, hi, p + namesSize l, false⟩ m)) := by
      rw [ext4XattrSetEntry, hold, hnew, if_pos hsame]
    have hplaced := rewriteValue_spec h hvalue (xattrSize_ne_zero.mp hsame.1) hsame.2
    have hsum : lo + xattrSize e.size - xattrSize v.len = lo := by omega
    rw [← hattr] at hplaced
    rw [hset, hsum]
    refine ⟨fun hfull => by omega, fun _ => ⟨_, rfl, ?_⟩⟩
    exact Placed.finish hp hplaced rfl hvalue
  · have hfree : sizeSub lo (p + namesSize (l ++ e :: r) + 4) = lo - (p + namesSize (l ++ e :: r) + 4) :=
      sizeSub_of_le hroom (by omega)
    have hsearch : (⟨p, hi, p + namesSize l, false⟩ : Search).first = p := rfl
    obtain ⟨hlow', -⟩ := removeValue_spec h hsearch rfl rfl rfl
    have hset : ext4XattrSetEntry i ⟨p, hi, p + namesSize l, false⟩ isBlock ea m =
        if lo - (p + namesSize (l ++ e :: r) + 4) + (xattrLen i.name.length + xattrSize e.size) <
            xattrLen i.name.length + xattrSize v.len then .error (-ENOSPC)
        else .ok (updateHash i ⟨p, hi, p + namesSize l, false⟩ isBlock (xattrSize v.len)
          (insertValue v (p + namesSize l) (lo + xattrSize e.size) (xattrSize v.len) (resetValue (p + namesSize l)
            (removeValue ⟨p, hi, p + namesSize l, false⟩ lo (xattrSize e.size) m).1))) := by
      rw [ext4XattrSetEntry, hold, hnew, if_neg hsame]
      dsimp only
      rw [h.minOffsAndLast hlow]
      dsimp only
      rw [hvalue, hfree, if_neg Bool.false_ne_true, changeEntry, hvalue, hlow']
      dsimp only
      rw [if_neg Bool.false_ne_true]
      split
      next hand => rw [if_pos hand.2]
      next hand => rw [if_neg fun hspace => hand ⟨rfl, hspace⟩, if_neg fun hboth => hboth.2.1 hinum]
    rw [hset]
    constructor
    · intro hfull
      rw [if_pos (by omega)]
    · intro hfits
      have hplaced := replaceValue_spec h hfits
      rw [← hattr] at hplaced
      rw [if_neg (by omega)]
      exact ⟨_, rfl, Placed.finish hp hplaced rfl hvalue⟩

end Operation

end Steps

end OsHw.Xattr
