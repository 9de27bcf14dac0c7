import OsHw.XattrContents

/-! What a call of `ext4_xattr_set_handle` sets out to do. It ends at once, or the block is to be written: to take the
value, when the body had no room for it, to lose the old one, when the body has the new one, or because the attribute
is removed. Each plan changes the inode in two or three places, and a call that fails in between leaves some of them
undone. What is seen under the name is the old or the new value then, and every other name is seen as before. -/

namespace OsHw.Xattr.Store

variable {blockSize : Nat} {bd bs : List Attr} {i : Info} {k : Key} {x x' : INode} {r : Int}

theorem removal_key (i : Info) : (removal i).key = i.key := rfl

theorem removal_newAttr (i : Info) : (removal i).newAttr = none := rfl

theorem Named.removal (h : i.Named) : (removal i).Named := ⟨h.index, h.length, h.noNul⟩

theorem newAttr_eq_none : i.newAttr = none ↔ i.value = none := Option.map_eq_none_iff

theorem lookup_removal {isBlock : Bool} {as : List Attr} (h : Keyed.Ordered compareKey Attr.key isBlock as) (i : Info)
    (k : Key) :
    Keyed.lookup Attr.key k ((removal i).setIn isBlock as) = if k = i.key then none else Keyed.lookup Attr.key k as :=
  Info.lookup_setIn h (removal i) k

/-- What a call with the result may have made of the attributes. -/
structure Returned (i : Info) (bd bs : List Attr) (r : Int) (bd' bs' : List Attr) : Prop where
  short : r = 0 → i.name.length ≤ 255
  others : ∀ k, k ≠ i.key → view bd' bs' k = view bd bs k
  success : r = 0 → i.value ≠ none ∨ OnceAt bd bs i.key → view bd' bs' i.key = i.newAttr
  failure : r ≠ 0 → view bd' bs' i.key = view bd bs i.key ∨ view bd' bs' i.key = i.newAttr
  once : r = 0 → Once bd bs → Once bd' bs'

section Ends

theorem returned_failed (hr : r ≠ 0) : Returned i bd bs r bd bs :=
  ⟨fun h => absurd h hr, fun _ _ => rfl, fun h => absurd h hr, fun _ => Or.inl rfl, fun h => absurd h hr⟩

/-- Nothing is to be done. -/
theorem returned_same (hi : i.Named) (hsame : view bd bs i.key = i.newAttr) : Returned i bd bs 0 bd bs :=
  ⟨fun _ => hi.length, fun _ _ => rfl, fun _ _ => hsame, fun h => absurd rfl h, fun _ honce => honce⟩

theorem view_of_setIn (h : Keyed.Ordered compareKey Attr.key false bd) (i : Info) (bs : List Attr) (k : Key) :
    view (i.setIn false bd) bs k = (if k = i.key then i.newAttr else Keyed.lookup Attr.key k bd).or
      (Keyed.lookup Attr.key k bs) := by
  rw [view, Info.lookup_setIn h]

/-- Only the body is written. -/
theorem returned_body (hi : i.Named) (h : Keyed.Ordered compareKey Attr.key false bd)
    (hcase : Keyed.lookup Attr.key i.key bd ≠ none ∨ i.value ≠ none ∧ Keyed.lookup Attr.key i.key bs = none) :
    Returned i bd bs 0 (i.setIn false bd) bs := by
  have honce : OnceAt bd bs i.key → Keyed.lookup Attr.key i.key bs = none := by
    intro honce
    obtain hbd | ⟨-, hbs⟩ := hcase
    · exact honce.resolve_left hbd
    · exact hbs
  refine ⟨fun _ => hi.length, fun k hk => ?_, fun _ hv => ?_, fun hr => absurd rfl hr, fun _ hbefore k => ?_⟩
  · rw [view_of_setIn h, if_neg hk]
    rfl
  · rw [view_of_setIn h, if_pos rfl]
    obtain hv | hbefore := hv
    · obtain ⟨a, ha⟩ := Option.ne_none_iff_exists'.mp (mt newAttr_eq_none.mp hv)
      rw [ha, Option.some_or]
    · rw [honce hbefore, Option.or_none]
  · rw [OnceAt, Info.lookup_setIn h]
    split
    next heq =>
      rw [heq]
      exact Or.inr (honce (hbefore i.key))
    next => exact hbefore k

end Ends

/-- How the inode is written, when its block takes part: the change of the block, the body while it is made, the block
after it, and the body in the end. -/
inductive Plan (i : Info) (bd bs : List Attr) : Info → List Attr → List Attr → List Attr → Prop where
  /-- The value is in the body, and the old one leaves the block. -/
  | toBody (hv : i.value ≠ none) :
      Plan i bd bs (removal i) (i.setIn false bd) ((removal i).setIn true bs) (i.setIn false bd)
  /-- The body had no room. -/
  | toBlock (hv : i.value ≠ none) : Plan i bd bs i bd (i.setIn true bs) ((removal i).setIn false bd)
  | fromBlock (hv : i.value = none) (hbd : Keyed.lookup Attr.key i.key bd = none) :
      Plan i bd bs i bd (i.setIn true bs) bd

namespace Plan

variable {job : Info} {now tgt after cur : List Attr}

theorem key (h : Plan i bd bs job now tgt after) : job.key = i.key := by
  cases h with
  | toBody => rfl
  | toBlock => rfl
  | fromBlock => rfl

theorem tgt_eq (h : Plan i bd bs job now tgt after) : tgt = job.setIn true bs := by
  cases h with
  | toBody => rfl
  | toBlock => rfl
  | fromBlock => rfl

/-- A value is put into the block only while the body is as it was. -/
theorem now_eq (h : Plan i bd bs job now tgt after) (hv : job.value ≠ none) : now = bd := by
  cases h with
  | toBody => exact absurd rfl hv
  | toBlock => rfl
  | fromBlock => rfl

variable (hbd : Keyed.Ordered compareKey Attr.key false bd) (hbs : Keyed.Ordered compareKey Attr.key true bs)

include hbd hbs in
/-- The other names are not touched. -/
theorem others (h : Plan i bd bs job now tgt after) (hk : k ≠ i.key) :
    Keyed.lookup Attr.key k now = Keyed.lookup Attr.key k bd ∧
      Keyed.lookup Attr.key k tgt = Keyed.lookup Attr.key k bs ∧
      Keyed.lookup Attr.key k after = Keyed.lookup Attr.key k bd := by
  cases h with
  | toBody => simp only [Info.lookup_setIn hbd, lookup_removal hbs, if_neg hk, and_self]
  | toBlock => simp only [Info.lookup_setIn hbs, lookup_removal hbd, if_neg hk, and_self]
  | fromBlock => simp only [Info.lookup_setIn hbs, if_neg hk, and_self]

include hbd hbs in
/-- The plan carried out. -/
theorem returned (hi : i.Named) (h : Plan i bd bs job now tgt after) : Returned i bd bs 0 after tgt := by
  have hkey : (Keyed.lookup Attr.key i.key after = none ∨ Keyed.lookup Attr.key i.key tgt = none) ∧
      view after tgt i.key = i.newAttr := by
    cases h with
    | toBody hv =>
        rw [view, Info.lookup_setIn hbd, lookup_removal hbs, if_pos rfl, if_pos rfl]
        exact ⟨Or.inr rfl, Option.or_none⟩
    | toBlock hv =>
        rw [view, Info.lookup_setIn hbs, lookup_removal hbd, if_pos rfl, if_pos rfl]
        exact ⟨Or.inl rfl, rfl⟩
    | fromBlock hv hnone =>
        rw [view, Info.lookup_setIn hbs, hnone, if_pos rfl]
        exact ⟨Or.inl rfl, rfl⟩
  refine ⟨fun _ => hi.length, fun k hk => ?_, fun _ _ => hkey.2, fun hr => absurd rfl hr, fun _ honce k => ?_⟩
  · obtain ⟨-, htgt, hafter⟩ := h.others hbd hbs hk
    rw [view, view, htgt, hafter]
  · by_cases hk : k = i.key
    · rw [hk]
      exact hkey.1
    · obtain ⟨-, htgt, hafter⟩ := h.others hbd hbs hk
      rw [OnceAt, htgt, hafter]
      exact honce k

include hbd hbs in
/-- The plan abandoned, before the block was written or after it. -/
theorem returned_failed (h : Plan i bd bs job now tgt after) (hr : r ≠ 0) (hcur : cur = bs ∨ cur = tgt) :
    Returned i bd bs r now cur := by
  refine ⟨fun hzero => absurd hzero hr, fun k hk => ?_, fun hzero => absurd hzero hr, fun _ => ?_,
    fun hzero => absurd hzero hr⟩
  · obtain ⟨hnow, htgt, -⟩ := h.others hbd hbs hk
    obtain rfl | rfl := hcur
    · rw [view, view, hnow]
    · rw [view, view, hnow, htgt]
  · cases h with
    | toBody hv =>
        obtain ⟨a, ha⟩ := Option.ne_none_iff_exists'.mp (mt newAttr_eq_none.mp hv)
        refine Or.inr ?_
        rw [view_of_setIn hbd, if_pos rfl, ha, Option.some_or]
    | toBlock hv =>
        obtain rfl | rfl := hcur
        · exact Or.inl rfl
        · rw [view, view, Info.lookup_setIn hbs, if_pos rfl]
          cases Keyed.lookup Attr.key i.key bd with
          | none => exact Or.inr rfl
          | some a => exact Or.inl rfl
    | fromBlock hv hnone =>
        obtain rfl | rfl := hcur
        · exact Or.inl rfl
        · refine Or.inr ?_
          rw [view, hnone, Info.lookup_setIn hbs, if_pos rfl]
          rfl

end Plan

/-- The body is finished by the removal that waits, or it is finished already. -/
def Finishes (size : Nat) (now : List Attr) : Option (Info × Search) → List Attr → Prop
  | none, after => after = now
  | some (j, s), after =>
      BodyFinds size now j.key s ∧ j.Named ∧ j.value = none ∧ Keyed.lookup Attr.key j.key now ≠ none ∧
        after = j.setIn false now

/-- The search in the block, if the inode has one. -/
def Searched (blockSize fileAcl : Nat) (bs : List Attr) (k : Key) : Option Search → Prop
  | none => fileAcl = 0
  | some s => fileAcl ≠ 0 ∧ Finds true headerSize blockSize bs k s

/-- The part of a plan that is carried out after the block is written. -/
structure Underway (i : Info) (bd bs : List Attr) (x : INode) (job : Job) (tgt : List Attr) : Prop where
  named : i.Named
  before : Keyed.Ordered compareKey Attr.key false bd ∧ Keyed.Ordered compareKey Attr.key true bs
  plan : ∃ now after, Plan i bd bs job.info now tgt after ∧ InodeHolds x now ∧ Finishes x.size now job.body after

/-- The job can be done on a block with the attributes `bs`. -/
structure Feasible (blockSize fileAcl : Nat) (bs : List Attr) (job : Job) : Prop where
  named : job.info.Named
  removes : job.info.value = none → Keyed.lookup Attr.key job.info.key bs ≠ none
  search : Searched blockSize fileAcl bs job.info.key job.search

/-- What `ext4_xattr_set_handle` comes to. -/
def Handled (blockSize : Nat) (i : Info) (x : INode) (bd bs : List Attr) : Start → Prop
  | .done x' r => x'.fileAcl = x.fileAcl ∧ ∃ bd', (r ≠ 0 → bd' = bd) ∧ InodeHolds x' bd' ∧ Returned i bd bs r bd' bs
  | .blockSet x' job => x'.fileAcl = x.fileAcl ∧ ∃ tgt, Underway i bd bs x' job tgt ∧
      Feasible blockSize x.fileAcl bs job

section Handle

variable {block : Option Mem} {is : Search}

theorem handled_failed (hx : InodeHolds x bd) (hr : r ≠ 0) : Handled blockSize i x bd bs (.done x r) :=
  ⟨rfl, bd, fun _ => rfl, hx, returned_failed hr⟩

theorem handled_same (hx : InodeHolds x bd) (hi : i.Named) (hsame : view bd bs i.key = i.newAttr) :
    Handled blockSize i x bd bs (.done x 0) := ⟨rfl, bd, fun _ => rfl, hx, returned_same hi hsame⟩

/-- There was no room in the body, so the block is to take the value. -/
theorem handled_toBlock {search : Option Search} (hx : InodeHolds x bd)
    (hbs : Keyed.Ordered compareKey Attr.key true bs) (hi : i.Named) (hv : i.value ≠ none)
    (his : BodyFinds x.size bd i.key is) (hsearch : Searched blockSize x.fileAcl bs i.key search) :
    Handled blockSize i x bd bs (.blockSet x ⟨i, search, if is.notFound then none else some (removal i, is)⟩) := by
  have hnew : i.value = none → Keyed.lookup Attr.key i.key bs ≠ none := fun hnone => absurd hnone hv
  refine ⟨rfl, i.setIn true bs, ⟨hi, ⟨hx.ordered, hbs⟩, bd, (removal i).setIn false bd, Plan.toBlock hv, hx, ?_⟩,
    hi, hnew, hsearch⟩
  have hlookup := his.notFound
  cases hfound : is.notFound with
  | false =>
      rw [hfound] at hlookup
      refine ⟨his, Named.removal hi, rfl, fun hnone => ?_, rfl⟩
      rw [removal_key] at hnone
      rw [hnone] at hlookup
      exact Bool.false_ne_true hlookup
  | true =>
      -- the removal has nothing to remove
      rw [hfound] at hlookup
      have hnone : Keyed.lookup Attr.key i.key bd = none := Option.isNone_iff_eq_none.mp hlookup.symm
      obtain ⟨l, r, found, rfl, hstops⟩ := Keyed.exists_stops compareKey Attr.key false (removal i).key bd
      cases found with
      | false =>
          show (removal i).setIn false (l ++ r) = l ++ r
          rw [Info.setIn, hstops.set_miss, removal_newAttr, Option.toList_none, List.nil_append]
      | true =>
          obtain ⟨a, r, rfl, -, hhit⟩ := hstops.lookup_hit
          rw [removal_key, hnone] at hhit
          exact absurd hhit.symm (Option.some_ne_none a)

theorem startSet_handled {bsr : Option Search} (hx : InodeHolds x bd) (hblock : AclHolds blockSize x.fileAcl block bs)
    (hi : i.Named) (hv : i.value ≠ none) (his : BodyFinds x.size bd i.key is)
    (hbsr : is.notFound = true ∧ Searched blockSize x.fileAcl bs i.key bsr ∨ is.notFound = false ∧ bsr = none) :
    Handled blockSize i x bd bs (startSet blockSize i is bsr block x) := by
  have hlookup := his.notFound
  rw [startSet]
  obtain ⟨x', hok, hsize, hacl, hx'⟩ | ⟨-, hfull⟩ := his.sets i x rfl rfl hx hi fun hnone => absurd hnone hv
  · rw [hok]
    dsimp only
    obtain ⟨hfound, hsearch⟩ | ⟨hfound, rfl⟩ := hbsr
    · cases bsr with
      | none =>
          have hnil : bs = [] := by
            obtain ⟨-, hnil⟩ | ⟨hne, -⟩ := hblock
            · exact hnil
            · exact absurd hsearch hne
          subst hnil
          exact ⟨hacl, _, fun hr => absurd rfl hr, hx', returned_body hi hx.ordered (Or.inr ⟨hv, rfl⟩)⟩
      | some s =>
          obtain ⟨hne, hs⟩ := hsearch
          have hnotFound := hs.notFound
          rw [Option.all_some]
          cases hsf : s.notFound with
          | true =>
              rw [hsf] at hnotFound
              have hnone := Option.isNone_iff_eq_none.mp hnotFound.symm
              exact ⟨hacl, _, fun hr => absurd rfl hr, hx', returned_body hi hx.ordered (Or.inr ⟨hv, hnone⟩)⟩
          | false =>
              rw [hsf] at hnotFound
              refine ⟨hacl, _, ⟨hi, ⟨hx.ordered, hblock.ordered⟩, _, _, Plan.toBody hv, hx', rfl⟩, Named.removal hi,
                fun _ hnone => ?_, hne, hs⟩
              rw [removal_key] at hnone
              rw [hnone] at hnotFound
              exact Bool.false_ne_true hnotFound
    · rw [hfound] at hlookup
      have hsome : Keyed.lookup Attr.key i.key bd ≠ none := by
        intro hnone
        rw [hnone] at hlookup
        exact Bool.false_ne_true hlookup
      exact ⟨hacl, _, fun hr => absurd rfl hr, hx', returned_body hi hx.ordered (Or.inl hsome)⟩
  · rw [hfull]
    dsimp only
    rw [if_neg (not_not.mpr rfl)]
    have hsearched : ∀ search, Searched blockSize x.fileAcl bs i.key search → Handled blockSize i x bd bs
        (.blockSet x ⟨i, search, if is.notFound then none else some (removal i, is)⟩) :=
      fun _ => handled_toBlock hx hblock.ordered hi hv his
    cases bsr with
    | some s =>
        obtain ⟨-, hsearch⟩ | ⟨-, hnone⟩ := hbsr
        · exact hsearched (some s) hsearch
        · exact absurd hnone (Option.some_ne_none s)
    | none =>
        rw [if_pos Option.isNone_none]
        obtain ⟨hzero, -, hfind⟩ | ⟨hne, s, hs, hfind, -⟩ := hblock.blockFind i
        · rw [hfind]
          exact hsearched none hzero
        · rw [hfind]
          exact hsearched (some s) ⟨hne, hs⟩

theorem startRemove_handled {bsr : Option Search} (hx : InodeHolds x bd)
    (hblock : AclHolds blockSize x.fileAcl block bs) (hi : i.Named) (hv : i.value = none)
    (his : BodyFinds x.size bd i.key is)
    (hbsr : is.notFound = true → Searched blockSize x.fileAcl bs i.key bsr ∧ Keyed.lookup Attr.key i.key bs ≠ none) :
    Handled blockSize i x bd bs (startRemove i is bsr x) := by
  have hlookup := his.notFound
  rw [startRemove]
  cases hfound : is.notFound with
  | true =>
      rw [hfound] at hlookup
      have hnone := Option.isNone_iff_eq_none.mp hlookup.symm
      obtain ⟨hsearch, hsome⟩ := hbsr hfound
      exact ⟨rfl, _, ⟨hi, ⟨hx.ordered, hblock.ordered⟩, _, _, Plan.fromBlock hv hnone, hx, rfl⟩, hi, fun _ => hsome,
        hsearch⟩
  | false =>
      rw [hfound] at hlookup
      have hsome : Keyed.lookup Attr.key i.key bd ≠ none := by
        intro hnone
        rw [hnone] at hlookup
        exact Bool.false_ne_true hlookup
      rw [if_neg Bool.false_ne_true]
      obtain ⟨x', hok, hsize, hacl, hx'⟩ | ⟨hvalue, -⟩ := his.sets i x rfl rfl hx hi fun _ => hsome
      · rw [hok]
        exact ⟨hacl, _, fun hr => absurd rfl hr, hx', returned_body hi hx.ordered (Or.inl hsome)⟩
      · exact absurd hv hvalue

/-- The block is searched when the body has no such attribute. -/
def SearchedIn (blockSize fileAcl : Nat) (bs : List Attr) (k : Key) (is : Search) (bsr : Option Search) : Prop :=
  is.notFound = true ∧ Searched blockSize fileAcl bs k bsr ∨ is.notFound = false ∧ bsr = none

/-- What the two searches say about the name. -/
theorem view_eq_none_iff {bsr : Option Search} (hblock : AclHolds blockSize x.fileAcl block bs)
    (his : BodyFinds x.size bd k is) (hbsr : SearchedIn blockSize x.fileAcl bs k is bsr) :
    (is.notFound && bsr.all Search.notFound) = true ↔ view bd bs k = none := by
  have hlookup := his.notFound
  rw [view, Option.or_eq_none_iff, ← Option.isNone_iff_eq_none, ← Option.isNone_iff_eq_none, ← hlookup]
  obtain ⟨hfound, hsearch⟩ | ⟨hfound, rfl⟩ := hbsr
  · rw [hfound, Bool.true_and]
    cases bsr with
    | none =>
        obtain ⟨-, rfl⟩ | ⟨hne, -⟩ := hblock
        · exact iff_of_true rfl ⟨rfl, rfl⟩
        · exact absurd hsearch hne
    | some s =>
        rw [Option.all_some, hsearch.2.notFound]
        exact ⟨fun h => ⟨rfl, h⟩, fun h => h.2⟩
  · rw [hfound, Bool.false_and]
    exact iff_of_false Bool.false_ne_true fun h => Bool.false_ne_true h.1

/-- The value that is there already is the new one. -/
theorem newAttr_of_same {value : Bytes} {as : List Attr} (hv : i.value = some (.data value))
    (h : ∃ a, Keyed.lookup Attr.key i.key as = some a ∧ a.value = value) :
    Keyed.lookup Attr.key i.key as = i.newAttr := by
  obtain ⟨a, hlookup, hvalue⟩ := h
  obtain ⟨hindex, hname⟩ := Prod.mk.inj (Keyed.mem_of_lookup hlookup).2
  rw [hlookup, Info.newAttr, hv]
  exact congrArg some (Attr.ext hindex hname hvalue)

theorem setHandle_handled (hx : InodeHolds x bd) (hblock : AclHolds blockSize x.fileAcl block bs) (req : Request) :
    Handled blockSize req.info x bd bs (ext4XattrSetHandle blockSize req block x) := by
  rw [ext4XattrSetHandle]
  split
  next => exact handled_failed hx (by decide)
  next hlen =>
    have hi : req.info.Named := ⟨req.index, Nat.not_lt.mp hlen, req.noNul⟩
    obtain ⟨is, his⟩ := hx.finds req.info.key
    rw [his.search req.info x rfl rfl hx]
    dsimp only
    -- what the two searches have found
    obtain ⟨bsr, hfind, hbsr, hgood⟩ : ∃ bsr, (if is.notFound then ext4XattrBlockFind blockSize req.info x.fileAcl block
          else .ok none) = .ok bsr ∧ SearchedIn blockSize x.fileAcl bs req.info.key is bsr ∧
        (bsr ≠ none → ∃ m, block = some m ∧ BlockHolds blockSize m bs) := by
      cases hfound : is.notFound with
      | false => exact ⟨none, rfl, Or.inr ⟨hfound, rfl⟩, fun hne => absurd rfl hne⟩
      | true =>
          obtain ⟨hzero, -, hfind⟩ | ⟨hne, s, hs, hfind, hm⟩ := hblock.blockFind req.info
          · exact ⟨none, hfind, Or.inl ⟨hfound, hzero⟩, fun hne => absurd rfl hne⟩
          · exact ⟨some s, hfind, Or.inl ⟨hfound, hne, hs⟩, fun _ => hm⟩
    have hview := view_eq_none_iff hblock his hbsr
    rw [hfind]
    dsimp only
    split
    next => exact handled_failed hx (by decide)
    next =>
      split
      next h =>
        apply handled_same hx hi
        rw [hview.mp h.1, Info.newAttr, Request.info, h.2]
        rfl
      next hcase =>
        split
        next => exact handled_failed hx (by decide)
        next =>
          cases hvalue : req.value with
          | none =>
              have hsome : view bd bs req.info.key ≠ none := fun hnone => hcase ⟨hview.mpr hnone, hvalue⟩
              have hinfo : req.info.value = none := by rw [Request.info, hvalue]; rfl
              apply startRemove_handled hx hblock hi hinfo his
              intro hfound
              have hlookup := his.notFound
              rw [hfound] at hlookup
              rw [view, Option.isNone_iff_eq_none.mp hlookup.symm, Option.none_or] at hsome
              obtain ⟨-, hsearch⟩ | ⟨hfalse, -⟩ := hbsr
              · exact ⟨hsearch, hsome⟩
              · rw [hfound] at hfalse
                exact absurd hfalse.symm Bool.false_ne_true
          | some value =>
              have hinfo : req.info.value = some (.data value) := by rw [Request.info, hvalue]; rfl
              have hne : req.info.value ≠ none := by rw [hinfo]; exact Option.some_ne_none _
              dsimp only
              split
              next hsame =>
                apply handled_same hx hi
                rw [view, newAttr_of_same hinfo (his.same x value rfl hx hsame.1 hsame.2)]
                obtain ⟨a, ha⟩ := Option.ne_none_iff_exists'.mp (mt newAttr_eq_none.mp hne)
                rw [ha, Option.some_or]
              next =>
                split
                next hsame =>
                  apply handled_same hx hi
                  cases bsr with
                  | none => exact absurd hsame Bool.false_ne_true
                  | some s =>
                      obtain ⟨hsf, hblocksame⟩ := Bool.and_eq_true_iff.mp hsame
                      obtain ⟨m, rfl, hholds⟩ := hgood (Option.some_ne_none s)
                      obtain ⟨hfound, -, hs⟩ | ⟨-, hnone⟩ := hbsr
                      · have hlookup := his.notFound
                        have hsf : s.notFound = false := (Bool.not_eq_true' _).mp hsf
                        rw [hfound] at hlookup
                        rw [view, Option.isNone_iff_eq_none.mp hlookup.symm, Option.none_or]
                        exact newAttr_of_same hinfo (hs.same m value hholds.holds hsf hblocksame)
                      · exact absurd hnone (Option.some_ne_none s)
                next => exact startSet_handled hx hblock hi hne his hbsr

end Handle

end OsHw.Xattr.Store
