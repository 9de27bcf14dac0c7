import OsHw.XattrSet

/-! An attribute area as a list of attributes. The bytes that `ext4_xattr_set_entry` leaves hold the list in which
the attribute was set, as in a finite map, or there was no room for that list: the values are packed at the end of the
area, so nothing is lost to gaps. Reading the area is what reading the list is. -/

namespace OsHw.Xattr

namespace Attr

def key (a : Attr) : Key := (a.nameIndex, a.name)

/-- The attribute with the hash that is stored for it. -/
def hashed (isBlock : Bool) (a : Attr) : Attr × Nat := (a, a.hashIn isBlock)

end Attr

namespace Info

def key (i : Info) : Key := (i.nameIndex, i.name)

def newAttr (i : Info) : Option Attr := i.value.map i.attr

end Info

/-- What a list of attributes takes, with the end of the names. -/
def demand (as : List Attr) : Nat := namesSpace as + 4 + valuesSpace as

/-- The attribute set in the list. -/
def Info.setIn (i : Info) (isBlock : Bool) (as : List Attr) : List Attr :=
  Keyed.set compareKey Attr.key isBlock i.key i.newAttr as

/-- The area holds the attributes: in the format, with the values packed, the keys in order and the hashes right. -/
structure Holds (isBlock : Bool) (p hi : Nat) (m : Mem) (as : List Attr) : Prop where
  slots : ∃ es lo, Layout m p lo hi es es ∧ lo + valuesSpace as = hi ∧ HashRight isBlock m es ∧
    stored m es = as.map (Attr.hashed isBlock)
  ordered : Keyed.Ordered compareKey Attr.key isBlock as
  noNul : ∀ a ∈ as, 0 ∉ a.name
  header : isBlock = true → p = headerSize

variable {isBlock : Bool} {p hi lo : Nat} {m : Mem} {as bs : List Attr} {i : Info} {es : List Slot}

theorem map_fst_hashed (isBlock : Bool) (as : List Attr) : (as.map (Attr.hashed isBlock)).map Prod.fst = as := by
  rw [List.map_map]
  exact List.map_id as

theorem namesSize_of_stored (h : stored m es = as.map (Attr.hashed isBlock)) : namesSize es = namesSpace as := by
  rw [← namesSpace_stored m, h, map_fst_hashed]

theorem total_of_stored (h : stored m es = as.map (Attr.hashed isBlock)) :
    Extent.total (es.map Slot.extent) = valuesSpace as := by
  rw [← valuesSpace_stored m, h, map_fst_hashed]

/-- The search in the entries is the search in the attributes. -/
theorem stops_stored {sorted found : Bool} {k : Key} {l r : List Slot} (hl : stored m l = as.map (Attr.hashed isBlock))
    (hr : stored m r = bs.map (Attr.hashed isBlock)) :
    Keyed.Stops compareKey Slot.key sorted found k l r ↔ Keyed.Stops compareKey Attr.key sorted found k as bs := by
  have hslot : ∀ e : Slot, (attrAt m e, e.hash).1.key = e.key := fun _ => rfl
  have hattr : ∀ a : Attr, (a.hashed isBlock).1.key = a.key := fun _ => rfl
  rw [← Keyed.stops_map (fun x : Attr × Nat => x.1.key) hslot,
    ← Keyed.stops_map (fun x : Attr × Nat => x.1.key) hattr, ← hl, ← hr]
  rfl

/-- The area split where the search for a key stops, in the entries as in the attributes. -/
structure Split (isBlock found : Bool) (p hi : Nat) (m : Mem) (k : Key) (lo : Nat) (l r : List Slot)
    (as bs : List Attr) : Prop where
  layout : Layout m p lo hi (l ++ r) (l ++ r)
  packed : lo + valuesSpace (as ++ bs) = hi
  lowest : Extent.lowest hi ((l ++ r).map Slot.extent) = lo
  hash : HashRight isBlock m (l ++ r)
  left : stored m l = as.map (Attr.hashed isBlock)
  right : stored m r = bs.map (Attr.hashed isBlock)
  stops : Keyed.Stops compareKey Attr.key isBlock found k as bs

theorem Holds.split_of_stops {found : Bool} {k : Key} (h : Holds isBlock p hi m (as ++ bs))
    (hstops : Keyed.Stops compareKey Attr.key isBlock found k as bs) :
    ∃ lo l r, Split isBlock found p hi m k lo l r as bs := by
  obtain ⟨es, lo, hlayout, hpacked, hright, hstored⟩ := h.slots
  obtain ⟨l, r, rfl, hl, hr⟩ := List.map_eq_append_iff.mp (hstored.trans List.map_append)
  have htotal := total_of_stored hstored
  have hlowest := (hlayout.values.fit.packed_of_total (by rw [htotal, hpacked])).1
  exact ⟨lo, l, r, hlayout, hpacked, hlowest, hright, hl, hr, hstops⟩

theorem Holds.split (h : Holds isBlock p hi m as) (k : Key) :
    ∃ found lo l r bs cs, as = bs ++ cs ∧ Split isBlock found p hi m k lo l r bs cs := by
  obtain ⟨bs, cs, found, rfl, hstops⟩ := Keyed.exists_stops compareKey Attr.key isBlock k as
  obtain ⟨lo, l, r, hsplit⟩ := h.split_of_stops hstops
  exact ⟨found, lo, l, r, bs, cs, rfl, hsplit⟩

namespace Split

variable {found : Bool} {k : Key} {l r : List Slot}

theorem search (h : Split isBlock found p hi m i.key lo l r as bs) :
    searchEntry i p hi isBlock m = .ok ⟨p, hi, p + namesSpace as, !found⟩ := by
  have hroom := h.layout.room
  have hle := h.layout.le
  have hcount := length_le_namesSize (l ++ r)
  have hfind := findEntry_eq ((stops_stored h.left h.right).mpr h.stops) h.layout.names
    (by omega : p + namesSize (l ++ r) < hi) (by omega : (l ++ r).length < hi)
  rw [searchEntry, hfind, namesSize_of_stored h.left]

end Split

/-- What an operation makes of the area. -/
theorem Outcome.holds {m' : Mem} {L : List (Attr × Nat)} {cs : List Attr} (h : Outcome isBlock m m' p lo hi L)
    (hL : L = cs.map (Attr.hashed isBlock)) (hpacked : lo + valuesSpace cs = hi)
    (hordered : Keyed.Ordered compareKey Attr.key isBlock cs) (hnul : ∀ a ∈ cs, 0 ∉ a.name)
    (hp : isBlock = true → p = headerSize) : Holds isBlock p hi m' cs := by
  obtain ⟨es, hlayout, hright, hstored⟩ := h.slots
  exact ⟨⟨es, lo, hlayout, hpacked, hright, hstored.trans hL⟩, hordered, hnul, hp⟩

theorem Info.key_newAttr (i : Info) : ∀ a ∈ i.newAttr, a.key = i.key := by
  intro a ha
  obtain ⟨v, -, rfl⟩ := Option.map_eq_some_iff.mp ha
  rfl

theorem Holds.ordered_setIn (h : Holds isBlock p hi m as) (i : Info) :
    Keyed.Ordered compareKey Attr.key isBlock (i.setIn isBlock as) := h.ordered.set i.key_newAttr

theorem Holds.noNul_setIn (h : Holds isBlock p hi m as) (hi' : i.Named) : ∀ a ∈ i.setIn isBlock as, 0 ∉ a.name := by
  intro a ha
  obtain hnew | hold := Keyed.mem_of_mem_set ha
  · obtain ⟨v, -, rfl⟩ := Option.map_eq_some_iff.mp hnew
    exact hi'.noNul
  · exact h.noNul a hold

/-- `ext4_xattr_set_entry` sets the attribute in the list, or fails with `-ENOSPC` when the result does not fit. -/
structure Sets (i : Info) (s : Search) (isBlock : Bool) (ea : Int) (p hi : Nat) (m : Mem) (as : List Attr) : Prop where
  fits : p + demand (i.setIn isBlock as) ≤ hi → ∃ m', ext4XattrSetEntry i s isBlock ea m = .ok m' ∧
    Holds isBlock p hi m' (i.setIn isBlock as) ∧ Frame isBlock p hi m m'
  full : hi < p + demand (i.setIn isBlock as) → ext4XattrSetEntry i s isBlock ea m = .error (-ENOSPC)

theorem Holds.last_iff (h : Holds isBlock p hi m as) : IsLastEntry m p ↔ as = [] := by
  obtain ⟨es, lo, hlayout, -, -, hstored⟩ := h.slots
  cases es with
  | nil => exact iff_of_true hlayout.names.last_nil (List.map_eq_nil_iff.mp hstored.symm)
  | cons e es =>
      refine iff_of_false hlayout.names.not_last ?_
      rintro rfl
      exact List.cons_ne_nil _ _ hstored

theorem Holds.fits (h : Holds isBlock p hi m as) : p + demand as ≤ hi := by
  obtain ⟨es, lo, hlayout, hpacked, -, hstored⟩ := h.slots
  have hroom := hlayout.room
  rw [namesSize_of_stored hstored] at hroom
  rw [demand]
  omega

/-- Removing leaves room. -/
theorem demand_setIn_le (hv : i.value = none) (isBlock : Bool) (as : List Attr) :
    demand (i.setIn isBlock as) ≤ demand as := by
  have hnew : i.newAttr = none := by
    rw [Info.newAttr, hv]
    rfl
  obtain ⟨bs, cs, found, rfl, hstops⟩ := Keyed.exists_stops compareKey Attr.key isBlock i.key as
  cases found with
  | false => rw [Info.setIn, hstops.set_miss, hnew, Option.toList_none, List.nil_append]
  | true =>
      obtain ⟨a, cs, rfl, -⟩ := hstops.hit rfl
      rw [Info.setIn, hstops.set_hit, hnew, Option.toList_none, List.nil_append]
      simp only [demand, namesSpace_append, valuesSpace_append, namesSpace, valuesSpace]
      omega

theorem Holds.fits_removal (h : Holds isBlock p hi m as) (hv : i.value = none) :
    p + demand (i.setIn isBlock as) ≤ hi := by
  calc p + demand (i.setIn isBlock as) ≤ p + demand as := Nat.add_le_add_left (demand_setIn_le hv isBlock as) p
    _ ≤ hi := h.fits

section Cases

variable {ea : Int} {k : Key} {l r : List Slot}

theorem Holds.sets_insert {v : Value} (h : Holds isBlock p hi m (as ++ bs))
    (hsplit : Split isBlock false p hi m i.key lo l r as bs) (hi' : i.Named) (hv : i.value = some v) :
    Sets i ⟨p, hi, p + namesSpace as, true⟩ isBlock ea p hi m (as ++ bs) := by
  have hroom := hsplit.layout.room
  have hpacked := hsplit.packed
  have hhere := namesSize_of_stored hsplit.left
  have hbehind := namesSize_of_stored hsplit.right
  have hset : i.setIn isBlock (as ++ bs) = as ++ i.attr v :: bs := by
    rw [Info.setIn, hsplit.stops.set_miss, Info.newAttr, hv]
    rfl
  have hlength : (i.attr v).value.length = v.len := Value.length_bytes v
  have hname : (i.attr v).name = i.name := rfl
  have hnames : namesSpace (i.setIn isBlock (as ++ bs)) =
      namesSpace as + (xattrLen i.name.length + namesSpace bs) := by
    rw [hset, namesSpace_append, namesSpace, hname]
  have hvalues : valuesSpace (i.setIn isBlock (as ++ bs)) =
      valuesSpace as + (xattrSize v.len + valuesSpace bs) := by
    rw [hset, valuesSpace_append, valuesSpace, hlength]
  obtain ⟨hfull, hfits⟩ := setEntry_insert hi' h.header hsplit.layout hsplit.lowest hv
  rw [valuesSpace_append] at hpacked
  rw [namesSize_append] at hfull hfits hroom
  rw [← hhere]
  constructor
  · intro hspace
    rw [demand] at hspace
    obtain ⟨m', hok, houtcome⟩ := hfits (by omega)
    refine ⟨m', hok, houtcome.holds ?_ (by omega) (h.ordered_setIn i) (h.noNul_setIn hi') h.header, houtcome.frame⟩
    rw [hset, hsplit.left, hsplit.right, List.map_append, List.map_cons]
    rfl
  · intro hspace
    rw [demand] at hspace
    exact hfull (by omega)

/-- The entry that a hit stands on is the one of the attribute. -/
theorem Split.hit {a : Attr} (h : Split isBlock true p hi m k lo l r as (a :: bs)) :
    a.key = k ∧ ∃ e r', r = e :: r' ∧ attrAt m e = a ∧ stored m r' = bs.map (Attr.hashed isBlock) ∧
      e.size = a.value.length := by
  obtain ⟨a', bs', heq, hcmp⟩ := h.stops.hit rfl
  obtain ⟨rfl, rfl⟩ := List.cons.inj heq
  obtain ⟨e, r', rfl, hhead, htail⟩ := List.map_eq_cons_iff.mp (h.right.trans List.map_cons)
  have hattr : attrAt m e = a := congrArg Prod.fst hhead
  refine ⟨(Std.LawfulEqCmp.eq_of_compare hcmp).symm, e, r', rfl, hattr, htail, ?_⟩
  rw [← hattr]
  exact (Mem.length_bytes ..).symm

theorem Holds.sets_update {v : Value} {a : Attr} (h : Holds isBlock p hi m (as ++ a :: bs))
    (hsplit : Split isBlock true p hi m i.key lo l r as (a :: bs)) (hi' : i.Named) (hv : i.value = some v) :
    Sets i ⟨p, hi, p + namesSpace as, false⟩ isBlock ea p hi m (as ++ a :: bs) := by
  obtain ⟨hkey, e, r, rfl, hattr, htail, hsize⟩ := hsplit.hit
  have hroom := hsplit.layout.room
  have hpacked := hsplit.packed
  have hhere := namesSize_of_stored hsplit.left
  have hbehind := namesSize_of_stored htail
  have hset : i.setIn isBlock (as ++ a :: bs) = as ++ i.attr v :: bs := by
    rw [Info.setIn, hsplit.stops.set_hit, Info.newAttr, hv]
    rfl
  have hindex : i.nameIndex = e.nameIndex := by
    have hfst : a.nameIndex = i.nameIndex := congrArg Prod.fst hkey
    rw [← hfst, ← hattr]
    rfl
  have hname : i.name = e.name := by
    have hsnd : a.name = i.name := congrArg Prod.snd hkey
    rw [← hsnd, ← hattr]
    rfl
  have hlen : e.len = xattrLen i.name.length := by rw [Slot.len, hname]
  have hlength : (i.attr v).value.length = v.len := Value.length_bytes v
  have hnames : namesSpace (i.setIn isBlock (as ++ a :: bs)) =
      namesSpace as + (xattrLen i.name.length + namesSpace bs) := by
    rw [hset, namesSpace_append]
    rfl
  have hvalues : valuesSpace (i.setIn isBlock (as ++ a :: bs)) =
      valuesSpace as + (xattrSize v.len + valuesSpace bs) := by
    rw [hset, valuesSpace_append, valuesSpace, hlength]
  obtain ⟨hfull, hfits⟩ := setEntry_update h.header hsplit.layout hsplit.lowest hv hindex hname
  rw [valuesSpace_append, valuesSpace, ← hsize] at hpacked
  rw [namesSize_middle] at hfull hfits hroom
  rw [← hhere]
  constructor
  · intro hspace
    rw [demand] at hspace
    obtain ⟨m', hok, houtcome⟩ := hfits (by omega)
    refine ⟨m', hok, houtcome.holds ?_ (by omega) (h.ordered_setIn i) (h.noNul_setIn hi') h.header, houtcome.frame⟩
    rw [hset, hsplit.left, htail, List.map_append, List.map_cons]
    rfl
  · intro hspace
    rw [demand] at hspace
    exact hfull (by omega)

theorem Holds.sets_remove {a : Attr} (h : Holds isBlock p hi m (as ++ a :: bs))
    (hsplit : Split isBlock true p hi m i.key lo l r as (a :: bs)) (hi' : i.Named) (hv : i.value = none) :
    Sets i ⟨p, hi, p + namesSpace as, false⟩ isBlock ea p hi m (as ++ a :: bs) := by
  obtain ⟨hkey, e, r, rfl, hattr, htail, hsize⟩ := hsplit.hit
  have hroom := hsplit.layout.room
  have hle := hsplit.layout.le
  have hpacked := hsplit.packed
  have hhere := namesSize_of_stored hsplit.left
  have hbehind := namesSize_of_stored htail
  have hset : i.setIn isBlock (as ++ a :: bs) = as ++ bs := by
    rw [Info.setIn, hsplit.stops.set_hit, Info.newAttr, hv]
    rfl
  have hname : i.name.length = e.name.length := by
    have hsnd : a.name = i.name := congrArg Prod.snd hkey
    rw [← hsnd, ← hattr]
    rfl
  have hnames : namesSpace (i.setIn isBlock (as ++ a :: bs)) = namesSpace as + namesSpace bs := by
    rw [hset, namesSpace_append]
  have hvalues : valuesSpace (i.setIn isBlock (as ++ a :: bs)) = valuesSpace as + valuesSpace bs := by
    rw [hset, valuesSpace_append]
  obtain ⟨m', hok, houtcome⟩ := setEntry_remove h.header hsplit.layout hsplit.lowest hv hname
  rw [valuesSpace_append, valuesSpace, ← hsize] at hpacked
  rw [namesSize_middle] at hroom
  rw [← hhere]
  constructor
  · intro _
    refine ⟨m', hok, houtcome.holds ?_ (by omega) (h.ordered_setIn i) (h.noNul_setIn hi') h.header, houtcome.frame⟩
    rw [hset, hsplit.left, htail, List.map_append]
  · intro hspace
    rw [demand] at hspace
    omega

/-- **Setting an attribute.** The search and `ext4_xattr_set_entry` set the attribute in the list. -/
theorem Holds.sets (h : Holds isBlock p hi m as) (hi' : i.Named) (ea : Int)
    (hcase : i.value = none → Keyed.lookup Attr.key i.key as ≠ none) :
    ∃ s, searchEntry i p hi isBlock m = .ok s ∧ s.notFound = (Keyed.lookup Attr.key i.key as).isNone ∧
      Sets i s isBlock ea p hi m as := by
  obtain ⟨found, lo, l, r, bs, cs, rfl, hsplit⟩ := h.split i.key
  refine ⟨_, hsplit.search, ?_⟩
  cases found with
  | false =>
      have hmiss := hsplit.stops.lookup_miss h.ordered
      rw [hmiss]
      refine ⟨rfl, ?_⟩
      cases hv : i.value with
      | none => exact absurd hmiss (hcase hv)
      | some v => exact h.sets_insert hsplit hi' hv
  | true =>
      obtain ⟨a, cs, rfl, -, hhit⟩ := hsplit.stops.lookup_hit
      rw [hhit]
      refine ⟨rfl, ?_⟩
      cases hv : i.value with
      | none => exact h.sets_remove hsplit hi' hv
      | some v => exact h.sets_update hsplit hi' hv

end Cases

/-! Reading an area. -/

/-- An area without entries. -/
theorem holds_nil (hlast : IsLastEntry m p) (hroom : p + 4 ≤ hi) (hsmall : hi ≤ 65536)
    (hhash : isBlock = true → p = headerSize ∧ hHash m = 0) : Holds isBlock p hi m [] := by
  have hnames : Names m p [] := ⟨trivial, hlast, fun _ he => absurd he List.not_mem_nil⟩
  have hvalues : Values m hi hi [] :=
    ⟨Extent.fit_nil, fun _ he => absurd he List.not_mem_nil, fun _ he => absurd he List.not_mem_nil⟩
  refine ⟨⟨[], hi, ⟨hnames, hvalues, hroom, Nat.le_refl hi, hsmall⟩, rfl, fun hblock => (hhash hblock).2, rfl⟩,
    List.Pairwise.nil, fun _ ha => absurd ha List.not_mem_nil, fun hblock => (hhash hblock).1⟩

/-- Every operation leaves an area that passes the check. -/
theorem Holds.check (h : Holds isBlock p hi m as) : ext4XattrCheckEntries m p hi = 0 := by
  obtain ⟨es, lo, hlayout, -, -, hstored⟩ := h.slots
  have hroom := hlayout.room
  have hle := hlayout.le
  have hsmall := hlayout.small
  have hcount := length_le_namesSize es
  have hnul : ∀ e ∈ es, 0 ∉ e.name := by
    intro e he
    have hmem : (attrAt m e, e.hash) ∈ as.map (Attr.hashed isBlock) := by
      rw [← hstored]
      exact List.mem_map_of_mem he
    obtain ⟨a, ha, heq⟩ := List.mem_map.mp hmem
    have hattr : a = attrAt m e := congrArg Prod.fst heq
    have hname := h.noNul a ha
    rw [hattr] at hname
    exact hname
  have hend := findNamesEnd_eq hlayout.names hnul (by omega : p + namesSize es < hi) (by omega : es.length < hi)
  rw [ext4XattrCheckEntries, hend]
  refine checkValues_eq hlayout.names (fun e he => ?_) (by omega)
  have hsize := xattrSize_bounds e.size
  have hmax : EXT4_XATTR_SIZE_MAX = 16777216 := rfl
  by_cases hzero : e.size = 0
  · exact ⟨by omega, fun hne => absurd hzero hne⟩
  · have hin := hlayout.values.inside he hzero
    exact ⟨by omega, fun _ => ⟨by omega, hin.2⟩⟩

/-- Reading an attribute that was looked up. -/
def readAttr (buffer : Option Nat) : Option Attr → Result
  | none => .error (-ENODATA)
  | some a =>
      if EXT4_XATTR_SIZE_MAX < a.value.length then .error (-ERANGE)
      else
        match buffer with
        | none => .ok (a.value.length, [])
        | some size => if size < a.value.length then .error (-ERANGE) else .ok (a.value.length, a.value)

/-- **Reading the area** is looking up the attribute. -/
theorem Holds.getEntry_eq (h : Holds isBlock p hi m as) (nameIndex : Nat) (name : Bytes) (buffer : Option Nat)
    (eaInode : Except Int Bytes) :
    getEntry m p hi isBlock nameIndex name buffer eaInode =
      readAttr buffer (Keyed.lookup Attr.key (nameIndex, name) as) := by
  have hcheck := h.check
  have hordered := h.ordered
  obtain ⟨found, lo, l, r, bs, cs, rfl, hsplit⟩ := h.split (nameIndex, name)
  have hroom := hsplit.layout.room
  have hle := hsplit.layout.le
  have hcount := length_le_namesSize (l ++ r)
  have hfind := findEntry_eq ((stops_stored hsplit.left hsplit.right).mpr hsplit.stops) hsplit.layout.names
    (by omega : p + namesSize (l ++ r) < hi) (by omega : (l ++ r).length < hi)
  rw [getEntry, hcheck, if_neg (by decide), hfind]
  cases found with
  | false => rw [hsplit.stops.lookup_miss hordered, readAttr]
  | true =>
      obtain ⟨a, cs', rfl, -, hlookup⟩ := hsplit.stops.lookup_hit
      obtain ⟨-, e, r', rfl, hattr, -, hsize⟩ := hsplit.hit
      have hentry := hsplit.layout.names.entries.middle
      have hvalue : m.bytes e.offs e.size = a.value := congrArg Attr.value hattr
      have hin : e.offs + e.size ≤ hi := by
        by_cases hzero : e.size = 0
        · have hoffs := hsplit.layout.values.empty e (List.mem_append_right l List.mem_cons_self) hzero
          omega
        · have hplace := hsplit.layout.values.inside (List.mem_append_right l List.mem_cons_self) hzero
          have hbound := xattrSize_bounds e.size
          omega
      rw [hlookup]
      dsimp only
      cases buffer with
      | none =>
          rw [readValue, hentry.valueSize, hsize]
          rfl
      | some n =>
          rw [readValue, hentry.valueSize, hentry.valueOffs, hentry.inum, if_neg (not_not.mpr rfl),
            if_neg (Nat.not_lt.mpr hin), hvalue, hsize]
          rfl

theorem Info.lookup_setIn (h : Keyed.Ordered compareKey Attr.key isBlock as) (i : Info) (k : Key) :
    Keyed.lookup Attr.key k (i.setIn isBlock as) = if k = i.key then i.newAttr else Keyed.lookup Attr.key k as :=
  h.lookup_set i.key_newAttr k

/-- What has been written. -/
def readBack : Option Value → Result
  | none => .error (-ENODATA)
  | some v => .ok (v.len, v.bytes)

theorem readAttr_newAttr {n : Nat} (hvalue : ∀ v ∈ i.value, v.len ≤ n ∧ v.len ≤ EXT4_XATTR_SIZE_MAX) :
    readAttr (some n) i.newAttr = readBack i.value := by
  rw [Info.newAttr]
  cases hv : i.value with
  | none => rfl
  | some v =>
      obtain ⟨hn, hmax⟩ := hvalue v hv
      have hlength : (i.attr v).value.length = v.len := Value.length_bytes v
      rw [Option.map_some, readAttr, hlength, if_neg (Nat.not_lt.mpr hmax)]
      exact if_neg (Nat.not_lt.mpr hn)

/-- The attribute as the reading of a place sees it. -/
def Attr.entry (a : Attr) (h : 0 ∉ a.name) : Entry := ⟨a.nameIndex, a.name, a.value.length, .ok a.value, h⟩

/-- The walk over the decoded entries is the same search. -/
theorem xattrFindEntry_of_stops {sorted found : Bool} {nameIndex : Nat} {name : Bytes}
    (hstops : Keyed.Stops compareKey Attr.key sorted found (nameIndex, name) as bs)
    (hnul : ∀ a ∈ as ++ bs, 0 ∉ a.name) :
    (found = false → xattrFindEntry nameIndex name sorted ((as ++ bs).pmap Attr.entry hnul) = none) ∧
      ∀ a bs' h, found = true → bs = a :: bs' →
        xattrFindEntry nameIndex name sorted ((as ++ bs).pmap Attr.entry hnul) = some (a.entry h) := by
  obtain ⟨hpassed, hhit, hexhausted, hbefore⟩ := hstops
  have hcompare : ∀ (a : Attr) (h : 0 ∉ a.name), compareEntry nameIndex name (a.entry h) =
      compareKey (nameIndex, name) a.key := fun _ _ => rfl
  induction as with
  | nil =>
      refine ⟨fun hfound => ?_, fun a bs' h hfound hbs => ?_⟩
      · cases bs with
        | nil => rfl
        | cons b bs =>
            cases sorted with
            | false => exact absurd (hexhausted hfound rfl) (List.cons_ne_nil b bs)
            | true =>
                have hlt := hbefore hfound rfl b bs rfl
                simp only [List.nil_append, List.pmap_cons, xattrFindEntry, hcompare, hlt]
                rfl
      · subst hbs
        obtain ⟨b, bs, heq, hcmp⟩ := hhit hfound
        obtain ⟨rfl, rfl⟩ := List.cons.inj heq
        simp only [List.nil_append, List.pmap_cons, xattrFindEntry, hcompare, hcmp]
  | cons b as ih =>
      obtain ⟨hne, hgt⟩ := hpassed b List.mem_cons_self
      have hrest := ih (fun a ha => hnul a (List.mem_cons_of_mem b ha))
        fun a ha => hpassed a (List.mem_cons_of_mem b ha)
      have hstep : xattrFindEntry nameIndex name sorted ((b :: as ++ bs).pmap Attr.entry hnul) =
          xattrFindEntry nameIndex name sorted
            ((as ++ bs).pmap Attr.entry fun a ha => hnul a (List.mem_cons_of_mem b ha)) := by
        simp only [List.cons_append, List.pmap_cons, xattrFindEntry, hcompare]
        cases hcmp : compareKey (nameIndex, name) b.key with
        | eq => exact absurd hcmp hne
        | gt => rfl
        | lt =>
            have hunsorted : sorted ≠ true := fun hs => by
              rw [hgt hs] at hcmp
              exact Ordering.noConfusion hcmp
            exact if_neg hunsorted
      rw [hstep]
      exact hrest

/-- **The two levels agree**: reading the bytes is reading the decoded entries. -/
theorem getEntry_refines (h : Holds isBlock p hi m as) (nameIndex : Nat) (name : Bytes) (buffer : Option Nat)
    (eaInode : Except Int Bytes) :
    getEntry m p hi isBlock nameIndex name buffer eaInode =
      ext4XattrPlaceGet (some (as.pmap Attr.entry h.noNul)) isBlock nameIndex name buffer := by
  rw [h.getEntry_eq]
  have hnul := h.noNul
  have hordered := h.ordered
  obtain ⟨bs, cs, found, rfl, hstops⟩ := Keyed.exists_stops compareKey Attr.key isBlock (nameIndex, name) as
  obtain ⟨hmiss, hhit⟩ := xattrFindEntry_of_stops hstops hnul
  rw [ext4XattrPlaceGet]
  cases found with
  | false => rw [hmiss rfl, hstops.lookup_miss hordered, readAttr]
  | true =>
      obtain ⟨a, cs', rfl, -, hlookup⟩ := hstops.lookup_hit
      rw [hlookup, hhit a cs' (hnul a (List.mem_append_right bs List.mem_cons_self)) rfl rfl]
      cases buffer with
      | none => rfl
      | some n => rfl

theorem getEntry_refines_one :
    ∃ m, ∃ hname : 0 ∉ ascii "a", getEntry m 0 64 false 1 (ascii "a") (some 4) (.ok []) =
      ext4XattrPlaceGet (some [Attr.entry ⟨1, ascii "a", ascii "v"⟩ hname]) false 1 (ascii "a") (some 4) := by
  have hempty : Holds false 0 64 (fun _ => 0) [] := holds_nil (by decide) (by decide) (by decide) nofun
  obtain ⟨s, -, -, hsets⟩ :=
    hempty.sets (i := ⟨1, ascii "a", some (.data (ascii "v"))⟩) ⟨by decide, by decide, by decide⟩ 0 nofun
  obtain ⟨m', -, hholds, -⟩ := hsets.fits (by decide)
  exact ⟨m', by decide, getEntry_refines hholds 1 (ascii "a") (some 4) (.ok [])⟩

end OsHw.Xattr
