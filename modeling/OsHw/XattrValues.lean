import OsHw.XattrSlots

/-! The values of an attribute area. They lie apart from each other between the end of the names and the end of the
area, each with its padding of zero. The steps in which `ext4_xattr_set_entry` changes an area are described one by
one: what they do to the entries, what to the values, and that the bytes of the other values are not changed. -/

namespace OsHw.Xattr

/-- The value that an entry stands for. -/
def content (m : Mem) (e : Slot) : Bytes := m.bytes e.offs e.size

@[ext] structure Attr where
  nameIndex : Nat
  name : Bytes
  value : Bytes
  deriving DecidableEq

def attrAt (m : Mem) (e : Slot) : Attr := ⟨e.nameIndex, e.name, content m e⟩

/-- The attributes of the entries, with the hashes that are stored for them. -/
def stored (m : Mem) (es : List Slot) : List (Attr × Nat) := es.map fun e => (attrAt m e, e.hash)

/-- The values of the entries lie in a range, apart, with zeros behind them. -/
structure Values (m : Mem) (lo hi : Nat) (vs : List Slot) : Prop where
  fit : Extent.Fit lo hi (vs.map Slot.extent)
  padded : ∀ e ∈ vs, ∀ j, e.size ≤ j → j < xattrSize e.size → m (e.offs + j) = 0
  empty : ∀ e ∈ vs, e.size = 0 → e.offs ≤ hi

def Value.bytes : Value → Bytes
  | .data bytes => bytes
  | .zero len => List.replicate len 0

@[simp] theorem Value.length_bytes (v : Value) : v.bytes.length = v.len := by
  cases v with
  | data bytes => rfl
  | zero len => exact List.length_replicate

variable {m m' : Mem} {lo hi : Nat} {e g : Slot} {vs l r : List Slot}

theorem content_congr (h : ∀ j, j < e.size → m' (e.offs + j) = m (e.offs + j)) : content m' e = content m e :=
  Mem.bytes_congr h

namespace Values

theorem inside (h : Values m lo hi vs) (he : e ∈ vs) (hsize : e.size ≠ 0) :
    lo ≤ e.offs ∧ e.offs + xattrSize e.size ≤ hi :=
  h.fit.inside e.extent (List.mem_map_of_mem he) (xattrSize_ne_zero.mpr hsize)

theorem mono {lo' : Nat} (h : Values m lo hi vs) (hle : lo' ≤ lo) : Values m lo' hi vs :=
  ⟨h.fit.mono hle, h.padded, h.empty⟩

theorem middle : Values m lo hi (l ++ e :: r) ↔ Values m lo hi (e :: (l ++ r)) := by
  have hfit : Extent.Fit lo hi ((l ++ e :: r).map Slot.extent) ↔
      Extent.Fit lo hi ((e :: (l ++ r)).map Slot.extent) := by
    rw [List.map_append, List.map_cons, List.map_cons, List.map_append]
    exact Extent.fit_middle
  have hmem : ∀ y, y ∈ l ++ e :: r ↔ y ∈ e :: (l ++ r) := by
    intro y
    simp only [List.mem_append, List.mem_cons]
    tauto
  constructor
  · intro h
    exact ⟨hfit.mp h.fit, fun y hy => h.padded y ((hmem y).mpr hy), fun y hy => h.empty y ((hmem y).mpr hy)⟩
  · intro h
    exact ⟨hfit.mpr h.fit, fun y hy => h.padded y ((hmem y).mp hy), fun y hy => h.empty y ((hmem y).mp hy)⟩

/-- The name and the hash of an entry say nothing about its value. -/
theorem relabel {e' : Slot} (h : Values m lo hi (l ++ e :: r)) (hoffs : e'.offs = e.offs) (hsize : e'.size = e.size) :
    Values m lo hi (l ++ e' :: r) := by
  have hextent : e'.extent = e.extent := by rw [Slot.extent, Slot.extent, hoffs, hsize]
  refine ⟨?_, fun x hx j h₁ h₂ => ?_, fun x hx hzero => ?_⟩
  · have hfit := h.fit
    rw [List.map_append, List.map_cons] at hfit ⊢
    rwa [hextent]
  · rw [List.mem_append, List.mem_cons] at hx
    obtain hx | rfl | hx := hx
    · exact h.padded x (List.mem_append_left _ hx) j h₁ h₂
    · rw [hsize] at h₁ h₂
      rw [hoffs]
      exact h.padded e (List.mem_append_right _ List.mem_cons_self) j h₁ h₂
    · exact h.padded x (List.mem_append_right _ (List.mem_cons_of_mem e hx)) j h₁ h₂
  · rw [List.mem_append, List.mem_cons] at hx
    obtain hx | rfl | hx := hx
    · exact h.empty x (List.mem_append_left _ hx) hzero
    · rw [hsize] at hzero
      rw [hoffs]
      exact h.empty e (List.mem_append_right _ List.mem_cons_self) hzero
    · exact h.empty x (List.mem_append_right _ (List.mem_cons_of_mem e hx)) hzero

theorem tail (h : Values m lo hi (e :: vs)) : Values m lo hi vs :=
  ⟨h.fit.tail, fun y hy => h.padded y (List.mem_cons_of_mem e hy), fun y hy => h.empty y (List.mem_cons_of_mem e hy)⟩

/-- Only the bytes of the range matter. -/
theorem congr (h : Values m lo hi vs) (heq : ∀ x, lo ≤ x → x < hi → m' x = m x) :
    Values m' lo hi vs ∧ ∀ e ∈ vs, content m' e = content m e := by
  have hbyte : ∀ e ∈ vs, ∀ j, j < xattrSize e.size → m' (e.offs + j) = m (e.offs + j) := by
    intro e he j hj
    have hsize : e.size ≠ 0 := fun hzero => by
      rw [hzero] at hj
      exact absurd hj (Nat.not_lt_zero j)
    have hin := h.inside he hsize
    exact heq _ (by omega) (by omega)
  refine ⟨⟨h.fit, fun e he j h₁ h₂ => ?_, h.empty⟩, fun e he => content_congr fun j hj => hbyte e he j ?_⟩
  · rw [hbyte e he j h₂]
    exact h.padded e he j h₁ h₂
  · exact hj.trans_le (xattrSize_bounds _).1

/-- **Removing a value.** The bytes under it close the gap, and the other values are what they were. -/
theorem closeGap (h : Values m lo hi (g :: vs)) (hsize : g.size ≠ 0) :
    Values (m.closeGap lo g.extent) (lo + xattrSize g.size) hi (vs.map (Slot.raise g.extent)) ∧
      ∀ e ∈ vs, content (m.closeGap lo g.extent) (e.raise g.extent) = content m e := by
  have hgap : g.extent.len ≠ 0 := xattrSize_ne_zero.mpr hsize
  have hle : lo ≤ g.extent.offs := (h.inside List.mem_cons_self hsize).1
  have hapart : ∀ e ∈ vs, g.extent.Apart e.extent := fun e he =>
    (List.pairwise_cons.mp h.fit.apart).1 _ (List.mem_map_of_mem he)
  have hbyte : ∀ e ∈ vs, ∀ j, j < xattrSize e.size →
      m.closeGap lo g.extent ((e.raise g.extent).offs + j) = m (e.offs + j) := by
    intro e he j hj
    have hne : e.size ≠ 0 := fun hzero => by
      rw [hzero] at hj
      exact absurd hj (Nat.not_lt_zero j)
    exact Mem.closeGap_extent hle hgap (hapart e he) (h.tail.inside he hne).1 hj
  refine ⟨⟨?_, fun e' he' j h₁ h₂ => ?_, fun e' he' hzero => ?_⟩, fun e he => ?_⟩
  · have hmap : (vs.map (Slot.raise g.extent)).map Slot.extent = (vs.map Slot.extent).map (Extent.raise g.extent) := by
      rw [List.map_map, List.map_map]
      exact List.map_congr_left fun e _ => Slot.extent_raise g.extent e
    rw [hmap]
    exact h.fit.closeGap hgap
  · obtain ⟨e, he, rfl⟩ := List.mem_map.mp he'
    rw [hbyte e he j h₂]
    exact h.tail.padded e he j h₁ h₂
  · obtain ⟨e, he, rfl⟩ := List.mem_map.mp he'
    have hsame : e.raise g.extent = e := by
      rw [Slot.raise, Extent.raise, if_neg fun hand => xattrSize_ne_zero.mp hand.1 hzero]
      rfl
    rw [hsame]
    exact h.tail.empty e he hzero
  · exact Mem.bytes_congr fun j hj => hbyte e he j (Nat.lt_of_lt_of_le hj (xattrSize_bounds _).1)

end Values

/-! What a value leaves where it is put. -/

theorem putValue_of_outside (v : Value) {val x : Nat} (h : x < val ∨ val + xattrSize v.len ≤ x) :
    putValue m val v x = m x := by
  have hsize := xattrSize_bounds v.len
  cases v with
  | data bytes =>
      rw [Value.len] at h hsize
      rw [putValue, Mem.fill_of_outside (by omega), Mem.write_of_outside (by omega)]
  | zero len => exact Mem.fill_of_outside h

theorem putValue_congr (v : Value) {val x : Nat} (h : m' x = m x) : putValue m' val v x = putValue m val v x := by
  cases v with
  | data bytes => rw [putValue, putValue, Mem.fill, Mem.fill, Mem.write, Mem.write, h]
  | zero len => rw [putValue, putValue, Mem.fill, Mem.fill, h]

theorem bytes_putValue (m : Mem) (val : Nat) (v : Value) : (putValue m val v).bytes val v.len = v.bytes := by
  cases v with
  | data bytes =>
      calc (putValue m val (.data bytes)).bytes val bytes.length = (m.write val bytes).bytes val bytes.length := by
            apply Mem.bytes_congr
            intro j hj
            exact Mem.fill_of_outside (by omega)
        _ = bytes := Mem.bytes_write_self m val bytes
  | zero len =>
      apply Mem.bytes_eq_replicate_iff.mpr
      intro j hj
      have hsize := xattrSize_bounds len
      rw [Value.len] at hj
      exact Mem.fill_of_inside (by omega) (by omega)

theorem putValue_padding (m : Mem) (val : Nat) (v : Value) {j : Nat} (h₁ : v.len ≤ j) (h₂ : j < xattrSize v.len) :
    putValue m val v (val + j) = 0 := by
  cases v with
  | data bytes =>
      rw [Value.len] at h₁ h₂
      exact Mem.fill_of_inside (by omega) (by omega)
  | zero len => exact Mem.fill_of_inside (by omega) (by rwa [Nat.add_lt_add_iff_left])

/-- **Adding a value** right under the others. -/
theorem Values.putBelow {v : Value} (h : Values m lo hi vs) (hle : lo ≤ hi) (hroom : xattrSize v.len ≤ lo)
    (hoffs : v.len ≠ 0 → e.offs = lo - xattrSize v.len) (hempty : v.len = 0 → e.offs ≤ hi) (hsize : e.size = v.len) :
    Values (if v.len ≠ 0 then putValue m (lo - xattrSize v.len) v else m) (lo - xattrSize v.len) hi (e :: vs) ∧
      (∀ e' ∈ vs, content (if v.len ≠ 0 then putValue m (lo - xattrSize v.len) v else m) e' = content m e') ∧
      content (if v.len ≠ 0 then putValue m (lo - xattrSize v.len) v else m) e = v.bytes := by
  by_cases hzero : v.len = 0
  · have hnone : e.extent.len = 0 := by
      rw [Slot.extent, hsize, hzero]
      rfl
    have hbytes : v.bytes = [] := List.eq_nil_of_length_eq_zero (by rw [Value.length_bytes, hzero])
    rw [if_neg (not_not.mpr hzero)]
    refine ⟨⟨(h.fit.mono (Nat.sub_le _ _)).cons_empty hnone, fun e' he' j h₁ h₂ => ?_, fun e' he' hzero' => ?_⟩,
      fun _ _ => rfl, ?_⟩
    · obtain rfl | he' := List.mem_cons.mp he'
      · rw [hsize, hzero] at h₂
        exact absurd h₂ (Nat.not_lt_zero j)
      · exact h.padded e' he' j h₁ h₂
    · obtain rfl | he' := List.mem_cons.mp he'
      · exact hempty hzero
      · exact h.empty e' he' hzero'
    · rw [content, hsize, hzero, hbytes]
      rfl
  · have hplace : e.offs = lo - xattrSize v.len := hoffs hzero
    rw [if_pos hzero]
    have hframe : ∀ x, lo ≤ x → x < hi → putValue m (lo - xattrSize v.len) v x = m x :=
      fun x hlo _ => putValue_of_outside v (by omega)
    obtain ⟨hkept, hcontent⟩ := h.congr hframe
    refine ⟨⟨?_, fun e' he' j h₁ h₂ => ?_, fun e' he' hzero' => ?_⟩, hcontent, ?_⟩
    · have hextent : e.extent = ⟨lo - xattrSize v.len, xattrSize v.len⟩ := by rw [Slot.extent, hplace, hsize]
      rw [List.map_cons, hextent]
      exact h.fit.cons_below hle hroom
    · obtain rfl | he' := List.mem_cons.mp he'
      · rw [hsize] at h₁ h₂
        rw [hplace]
        exact putValue_padding m _ v h₁ h₂
      · exact hkept.padded e' he' j h₁ h₂
    · obtain rfl | he' := List.mem_cons.mp he'
      · exact absurd (hsize.symm.trans hzero') hzero
      · exact h.empty e' he' hzero'
    · rw [content, hplace, hsize, bytes_putValue]

/-- **Writing over a value** of the same padded size. -/
theorem Values.rewrite {v : Value} (h : Values m lo hi (e :: vs)) (hsame : xattrSize v.len = xattrSize e.size)
    (hne : v.len ≠ 0) :
    Values (putValue m e.offs v) lo hi ({ e with size := v.len } :: vs) ∧
      (∀ e' ∈ vs, content (putValue m e.offs v) e' = content m e') ∧
      content (putValue m e.offs v) { e with size := v.len } = v.bytes := by
  have hextent : Slot.extent { e with size := v.len } = e.extent := by
    rw [Slot.extent, Slot.extent, hsame]
  have hapart : ∀ e' ∈ vs, e.extent.Apart e'.extent := fun e' he' =>
    (List.pairwise_cons.mp h.fit.apart).1 _ (List.mem_map_of_mem he')
  have hbyte : ∀ e' ∈ vs, ∀ j, j < xattrSize e'.size →
      putValue m e.offs v (e'.offs + j) = m (e'.offs + j) := by
    intro e' he' j hj
    apply putValue_of_outside v
    by_cases hzero : e.extent.len = 0
    · have hlen : xattrSize v.len = 0 := hsame.trans hzero
      omega
    · have hpos : e'.extent.len ≠ 0 := by
        rw [Slot.extent]
        dsimp only
        omega
      have hdisjoint := hapart e' he' hzero hpos
      rw [Slot.extent, Slot.extent] at hdisjoint
      dsimp only at hdisjoint
      omega
  refine ⟨⟨?_, fun e' he' j h₁ h₂ => ?_, fun e' he' hzero => ?_⟩,
    fun e' he' => content_congr fun j hj => hbyte e' he' j ?_, ?_⟩
  · rw [List.map_cons, hextent, ← List.map_cons]
    exact h.fit
  · obtain rfl | he' := List.mem_cons.mp he'
    · exact putValue_padding m e.offs v h₁ h₂
    · rw [hbyte e' he' j h₂]
      exact h.tail.padded e' he' j h₁ h₂
  · obtain rfl | he' := List.mem_cons.mp he'
    · exact absurd hzero hne
    · exact h.tail.empty e' he' hzero
  · exact hj.trans_le (xattrSize_bounds _).1
  · exact bytes_putValue m e.offs v

theorem stored_append (m : Mem) (l r : List Slot) : stored m (l ++ r) = stored m l ++ stored m r := List.map_append

theorem stored_cons (m : Mem) (e : Slot) (r : List Slot) : stored m (e :: r) = (attrAt m e, e.hash) :: stored m r := rfl

theorem stored_congr (h : ∀ e ∈ vs, content m' e = content m e) : stored m' vs = stored m vs :=
  List.map_congr_left fun e he => by rw [attrAt, attrAt, h e he]

/-- What the attributes take in the list of names. -/
def namesSpace : List Attr → Nat
  | [] => 0
  | a :: as => xattrLen a.name.length + namesSpace as

/-- What their values take. -/
def valuesSpace : List Attr → Nat
  | [] => 0
  | a :: as => xattrSize a.value.length + valuesSpace as

theorem namesSpace_stored (m : Mem) (es : List Slot) : namesSpace ((stored m es).map Prod.fst) = namesSize es := by
  induction es with
  | nil => rfl
  | cons e es ih =>
      rw [stored_cons, List.map_cons, namesSpace, ih]
      rfl

theorem valuesSpace_stored (m : Mem) (es : List Slot) :
    valuesSpace ((stored m es).map Prod.fst) = Extent.total (es.map Slot.extent) := by
  induction es with
  | nil => rfl
  | cons e es ih =>
      have hlength : (attrAt m e).value.length = e.size := Mem.length_bytes ..
      rw [stored_cons, List.map_cons, valuesSpace, ih, hlength]
      rfl

theorem namesSpace_append (as bs : List Attr) : namesSpace (as ++ bs) = namesSpace as + namesSpace bs := by
  induction as with
  | nil => exact (Nat.zero_add _).symm
  | cons a as ih => rw [List.cons_append, namesSpace, namesSpace, ih, Nat.add_assoc]

theorem valuesSpace_append (as bs : List Attr) : valuesSpace (as ++ bs) = valuesSpace as + valuesSpace bs := by
  induction as with
  | nil => exact (Nat.zero_add _).symm
  | cons a as ih => rw [List.cons_append, valuesSpace, valuesSpace, ih, Nat.add_assoc]

theorem namesSize_eq_of_stored {es es' : List Slot} (h : stored m' es' = stored m es) :
    namesSize es' = namesSize es := by
  rw [← namesSpace_stored m', h, namesSpace_stored]

/-! The hash of an entry. -/

theorem hashName_congr {a b n : Nat} (hash : UInt32) (h : ∀ j, j < n → m (a + j) = m' (b + j)) :
    hashName m hash a n = hashName m' hash b n := by
  induction n generalizing a b hash with
  | zero => rfl
  | succ n ih =>
      have hhead : m a = m' b := h 0 (by omega)
      rw [hashName, hashName, hhead]
      apply ih
      intro j hj
      rw [Nat.add_assoc, Nat.add_assoc, Nat.add_comm 1 j]
      exact h (j + 1) (by omega)

theorem hashValue_congr {a b n : Nat} (hash : UInt32) (h : ∀ j, j < n * 4 → m (a + j) = m' (b + j)) :
    hashValue m hash a n = hashValue m' hash b n := by
  induction n generalizing a b hash with
  | zero => rfl
  | succ n ih =>
      have hhead : m.load a 4 = m'.load b 4 := Mem.load_congr fun j hj => h j (by omega)
      rw [hashValue, hashValue, hhead]
      apply ih
      intro j hj
      rw [Nat.add_assoc, Nat.add_assoc, Nat.add_comm 4 j]
      exact h (j + 4) (by omega)

/-- The bytes, with zeros behind them. -/
def asMem (bs : Bytes) : Mem := fun x => bs.getD x 0

/-- The hash of an attribute, wherever it is kept. -/
def Attr.hash (a : Attr) : UInt32 :=
  hashValue (asMem a.value) (hashName (asMem a.name) 0 0 a.name.length) 0 (xattrSize a.value.length / 4)

/-- What `e_hash` is to be. In an inode it is not used. -/
def Attr.hashIn (a : Attr) (isBlock : Bool) : Nat := if isBlock then a.hash.toNat else 0

theorem bytes_getD (m : Mem) (a n j : Nat) (h : j < n) : (m.bytes a n).getD j 0 = m (a + j) := by
  induction n generalizing a j with
  | zero => omega
  | succ n ih =>
      rw [Mem.bytes]
      cases j with
      | zero => rfl
      | succ j =>
          rw [List.getD_cons_succ, ih (a + 1) j (by omega), Nat.add_assoc, Nat.add_comm 1 j]

/-- The hash that is computed in place is the one of the attribute: the padding is zero. -/
theorem EntryAt.hash_eq {p : Nat} (h : EntryAt m p e)
    (hpadded : ∀ j, e.size ≤ j → j < xattrSize e.size → m (e.offs + j) = 0) :
    ext4XattrHashEntry m (p + 16) (eNameLen m p) (eValueOffs m p) (xattrSize e.size / 4) = (attrAt m e).hash := by
  have hname : hashName m 0 (p + 16) (eNameLen m p) = hashName (asMem e.name) 0 0 e.name.length := by
    rw [h.nameLen]
    apply hashName_congr
    intro j hj
    have hbytes : m.bytes (p + 16) e.name.length = e.name := by
      rw [← h.nameLen]
      exact h.nameEq
    rw [asMem, Nat.zero_add, ← bytes_getD m (p + 16) e.name.length j hj, hbytes]
  have hlength : (attrAt m e).value.length = e.size := Mem.length_bytes ..
  rw [ext4XattrHashEntry, hname, h.valueOffs, Attr.hash, hlength]
  apply hashValue_congr
  intro j hj
  rw [xattrSize_div_four_mul_four] at hj
  rw [asMem, Nat.zero_add]
  by_cases hvalue : j < e.size
  · exact (bytes_getD m e.offs e.size j hvalue).symm
  · rw [hpadded j (by omega) hj]
    rw [List.getD_eq_getElem?_getD, List.getElem?_eq_none (by omega), Option.getD_none]

/-- The hash of a block from those of its entries. -/
def shareHash : UInt32 → List Nat → UInt32
  | hash, [] => hash
  | hash, h :: hs =>
      if h = 0 then 0 else shareHash ((hash <<< 16) ^^^ (hash >>> 16) ^^^ UInt32.ofNat h) hs

theorem blockHash_eq {p fuel : Nat} {es : List Slot} (h : Names m p es) (hfuel : es.length < fuel) (hash : UInt32) :
    blockHash m fuel hash p = shareHash hash (es.map Slot.hash) := by
  induction es generalizing p fuel hash with
  | nil =>
      obtain ⟨fuel, rfl⟩ := Nat.exists_eq_add_one_of_ne_zero (Nat.ne_of_gt hfuel)
      rw [blockHash, if_pos h.last_nil]
      rfl
  | cons e es ih =>
      obtain ⟨fuel, rfl⟩ := Nat.exists_eq_add_one_of_ne_zero (Nat.ne_zero_of_lt hfuel)
      rw [blockHash, if_neg h.not_last, h.entries.1.hashEq, h.next, List.map_cons, shareHash]
      split
      · rfl
      · exact ih h.tail (by simpa using hfuel) _

end OsHw.Xattr
