import OsHw.CString
import OsHw.Tcpdump

/-! The option `-g min-max` of `tcpdump`. Both numbers are left to `strtoul`, which takes no number at all for zero,
blanks and signs for parts of a number, and gives 64 bits of which 32 are kept. So there are arguments besides the
documented ones that the option does not refuse. -/

namespace OsHw.Tcpdump

open Strtoul

def dash : UInt8 := 45

/-- What the option does to the options when it does not end in `error()`. -/
def Options.setRange (o : Options) (lo hi : UInt32) (h : lo ≤ hi) : Options :=
  { o with filterByLength := true, minLength := lo, maxLength := hi, range := h }

/-- `case 'g'` of `main`; an error is the text for `error()`. -/
def Options.caseG (o : Options) (optarg : CString) : Except String Options :=
  match strchr dash optarg.bytes with
  | none => .error "invalid packet length range format (min-max expected)"
  | some (first, second) =>
      if (strtoul first).2 ≠ [] then .error "invalid minimum packet length"
      else if (strtoul second).2 ≠ [] then .error "invalid maximum packet length"
      -- the numbers are narrowed when they are stored
      else if h : (strtoul first).1.toUInt32 ≤ (strtoul second).1.toUInt32 then
        .ok (o.setRange (strtoul first).1.toUInt32 (strtoul second).1.toUInt32 h)
      else .error "minimum packet length cannot be greater than maximum"

/-- Digits for a number of 32 bits. -/
def IsNumber (s : List UInt8) (v : UInt32) : Prop := Digits s ∧ value s = v.toNat

/-- The documented argument, `MIN-MAX`. -/
def IsRange (arg : List UInt8) (lo hi : UInt32) : Prop :=
  ∃ first second, arg = first ++ dash :: second ∧ IsNumber first lo ∧ IsNumber second hi

/-- The option takes the documented argument, for the numbers that are written there, and no other. -/
def Meets (o : Options) (arg : CString) : Prop :=
  ∀ o', o.caseG arg = .ok o' ↔ ∃ lo hi h, IsRange arg.bytes lo hi ∧ o' = o.setRange lo hi h

/-- The argument is taken for two numbers that are in order once they are narrowed, and not both are digits for
numbers of 32 bits. -/
def Misread (arg : List UInt8) : Prop :=
  ∃ first second v w, arg = first ++ dash :: second ∧ dash ∉ first ∧ Reads first v ∧ Reads second w ∧
    v.toUInt32 ≤ w.toUInt32 ∧ ¬(IsNumber first v.toUInt32 ∧ IsNumber second w.toUInt32)

section Range

variable {o o' : Options} {arg : CString} {s : List UInt8}

/-- **The option.** It is taken exactly for two strings that `strtoul` takes for numbers, with the first dash between
them. -/
theorem caseG_eq_ok_iff : o.caseG arg = .ok o' ↔
    ∃ first second v w, ∃ h : v.toUInt32 ≤ w.toUInt32, (arg.bytes = first ++ dash :: second ∧ dash ∉ first) ∧
      Reads first v ∧ Reads second w ∧ o' = o.setRange v.toUInt32 w.toUInt32 h := by
  rw [Options.caseG]
  constructor
  · intro h
    split at h
    · cases h
    · rename_i first second hchr
      split_ifs at h with hfirst hsecond hle
      cases h
      rw [not_not] at hfirst hsecond
      exact ⟨first, second, (strtoul first).1, (strtoul second).1, hle, strchr_eq_some_iff.mp hchr,
        strtoul_eq_iff.mp (Prod.ext rfl hfirst), strtoul_eq_iff.mp (Prod.ext rfl hsecond), rfl⟩
  · rintro ⟨first, second, v, w, hle, hchr, hfirst, hsecond, rfl⟩
    simp [strchr_eq_some_iff.mpr hchr, strtoul_eq_iff.mpr hfirst, strtoul_eq_iff.mpr hsecond, hle]

theorem dash_not_mem (h : Digits s) : dash ∉ s := fun hmem => (ne_sign_of_isDigit (h.2 dash hmem)).1 rfl

/-- Plain digits are read as the number they are written for. -/
theorem IsNumber.reads {v : UInt32} (h : IsNumber s v) : Reads s v.toUInt64 := by
  have hlt := v.toNat_lt
  have hresult : result false s = v.toUInt64 := by
    rw [result, h.2, if_neg (by omega), if_neg Bool.false_ne_true]
    apply UInt64.toNat_inj.mp
    rw [UInt64.toNat_ofNat_of_lt' (by rw [UInt64.size]; omega), UInt32.toNat_toUInt64]
  have hblanks : ∀ b ∈ ([] : List UInt8), isSpace b = true := List.forall_mem_nil _
  have hreads : Reads ([] ++ [] ++ s) (result false s) := .number hblanks .none h.1
  rwa [hresult] at hreads

/-- The documented argument is always taken. -/
theorem IsRange.caseG {lo hi : UInt32} (harg : IsRange arg.bytes lo hi) (h : lo ≤ hi) (o : Options) :
    o.caseG arg = .ok (o.setRange lo hi h) := by
  obtain ⟨first, second, hsplit, hfirst, hsecond⟩ := harg
  have hlo : lo.toUInt64.toUInt32 = lo := UInt32.toUInt32_toUInt64 lo
  have hhi : hi.toUInt64.toUInt32 = hi := UInt32.toUInt32_toUInt64 hi
  refine caseG_eq_ok_iff.mpr ⟨first, second, lo.toUInt64, hi.toUInt64, ?_, ⟨hsplit, dash_not_mem hfirst.1⟩,
    hfirst.reads, hsecond.reads, ?_⟩
  · rwa [hlo, hhi]
  · simp only [hlo, hhi]

/-- The two numbers of the documented argument stand around its first dash. -/
theorem IsRange.numbers {lo hi : UInt32} (harg : IsRange s lo hi) {first second : List UInt8}
    (hsplit : s = first ++ dash :: second) (hdash : dash ∉ first) : IsNumber first lo ∧ IsNumber second hi := by
  obtain ⟨first', second', hsplit', hfirst, hsecond⟩ := harg
  have hchr := strchr_eq_some_iff.mpr ⟨hsplit', dash_not_mem hfirst.1⟩
  rw [strchr_eq_some_iff.mpr ⟨hsplit, hdash⟩, Option.some.injEq, Prod.mk.injEq] at hchr
  rw [hchr.1, hchr.2]
  exact ⟨hfirst, hsecond⟩

theorem not_meets (htaken : o.caseG arg = .ok o') (hnot : ∀ lo hi, ¬IsRange arg.bytes lo hi) : ¬Meets o arg := by
  intro hmeets
  obtain ⟨lo, hi, -, harg, -⟩ := (hmeets o').mp htaken
  exact hnot lo hi harg

/-- **Arguments.** For every string the option does what is documented exactly when the string is not misread. -/
theorem meets_iff (o : Options) (arg : CString) : Meets o arg ↔ ¬Misread arg.bytes := by
  constructor
  · rintro hmeets ⟨first, second, v, w, hsplit, hdash, hv, hw, hle, hnot⟩
    have htaken : o.caseG arg = .ok (o.setRange v.toUInt32 w.toUInt32 hle) :=
      caseG_eq_ok_iff.mpr ⟨first, second, v, w, hle, ⟨hsplit, hdash⟩, hv, hw, rfl⟩
    obtain ⟨lo, hi, h, harg, heq⟩ := (hmeets _).mp htaken
    have hlo : v.toUInt32 = lo := congrArg Options.minLength heq
    have hhi : w.toUInt32 = hi := congrArg Options.maxLength heq
    rw [hlo, hhi] at hnot
    exact hnot (harg.numbers hsplit hdash)
  · intro hread o'
    constructor
    · intro htaken
      obtain ⟨first, second, v, w, hle, ⟨hsplit, hdash⟩, hv, hw, rfl⟩ := caseG_eq_ok_iff.mp htaken
      refine ⟨v.toUInt32, w.toUInt32, hle, ⟨first, second, hsplit, ?_⟩, rfl⟩
      by_contra hnot
      exact hread ⟨first, second, v, w, hsplit, hdash, hv, hw, hle, hnot⟩
    · rintro ⟨lo, hi, h, harg, rfl⟩
      exact harg.caseG h o

end Range

/-- Without `-c` there is no bound. -/
theorem cnt_range_initial : (-1 : Int) = -1 ∨ 1 ≤ (-1 : Int) := .inl rfl

/-- The options before the command line is read. -/
def Options.initial : Options where
  cnt := -1
  packetsToSkip := 0
  countMode := false
  filterByLength := false
  minLength := 0
  maxLength := 0
  uflag := false
  gflag := 0
  cflag := 0
  wflag := 0
  wflagChars := 0
  ndo := false
  cnt_range := cnt_range_initial
  skip_le := by decide
  no_overflow h := absurd rfl h
  range := by decide

/-- `-5`. -/
def noMinimum : CString := ⟨[45, 53], by decide, by decide⟩

/-- `10--1`. -/
def negativeMaximum : CString := ⟨[49, 48, 45, 45, 49], by decide, by decide⟩

/-- `4294967297-5`. -/
def wideMinimum : CString := ⟨[52, 50, 57, 52, 57, 54, 55, 50, 57, 55, 45, 53], by decide, by decide⟩

/-- A range without a minimum, one up to a negative number, and one from a number of 33 bits are taken. -/
theorem undocumented_taken :
    (∃ h, Options.initial.caseG noMinimum = .ok (Options.initial.setRange 0 5 h) ∧ ¬Meets .initial noMinimum) ∧
      (∃ h, Options.initial.caseG negativeMaximum = .ok (Options.initial.setRange 10 4294967295 h) ∧
        ¬Meets .initial negativeMaximum) ∧
      ∃ h, Options.initial.caseG wideMinimum = .ok (Options.initial.setRange 1 5 h) ∧ ¬Meets .initial wideMinimum := by
  refine ⟨⟨by decide, rfl, not_meets rfl fun lo hi harg => ?_⟩, ⟨by decide, rfl, not_meets rfl fun lo hi harg => ?_⟩,
    ⟨by decide, rfl, not_meets rfl fun lo hi harg => ?_⟩⟩
  · have hsplit : noMinimum.bytes = [] ++ dash :: [53] := rfl
    exact (harg.numbers hsplit (by decide)).1.1.1 rfl
  · have hsplit : negativeMaximum.bytes = [49, 48] ++ dash :: [45, 49] := rfl
    have hdigits := (harg.numbers hsplit (by decide)).2.1
    revert hdigits
    decide
  · have hsplit : wideMinimum.bytes = [52, 50, 57, 52, 57, 54, 55, 50, 57, 55] ++ dash :: [53] := rfl
    have hvalue := (harg.numbers hsplit (by decide)).1.2
    have hwide : value [52, 50, 57, 52, 57, 54, 55, 50, 57, 55] = 4294967297 := by decide
    have hlt := lo.toNat_lt
    omega

end OsHw.Tcpdump
