import DbClinic.Lib.Calendar
import Mathlib.Algebra.Group.Nat.Defs

/-!
The date that the prompt gives to the model. The count of days is cut in eras of 400
years that begin on the first of March, so that a leap day is the last day of its year.
An operation that overflows its type has no result.
-/

namespace DbClinic.Runtime

open Calendar (Date Leap daysIn daysBefore yearLength)

def InI64 (x : Int) : Prop := -9223372036854775808 ≤ x ∧ x ≤ 9223372036854775807

def InI32 (x : Int) : Prop := -2147483648 ≤ x ∧ x ≤ 2147483647

instance (x : Int) : Decidable (InI64 x) := inferInstanceAs (Decidable (_ ∧ _))

instance (x : Int) : Decidable (InI32 x) := inferInstanceAs (Decidable (_ ∧ _))

/-- The result of an operation on `i64`. -/
def i64 (x : Int) : Option Int := if InI64 x then some x else none

/-- A difference of two `u64`. -/
def u64Sub (a b : Nat) : Option Nat := if b ≤ a then some (a - b) else none

/-- `x as u64`. -/
def asU64 (x : Int) : Nat := (x % 18446744073709551616).toNat

/-- `x as u32`. -/
def asU32 (x : Nat) : Nat := x % 4294967296

/-- `x as i32`. -/
def asI32 (x : Int) : Int := (x + 2147483648) % 4294967296 - 2147483648

namespace CivilDate

/-- `if z >= 0 { z } else { z - 146_096 } / 146_097`, a quotient that is rounded towards
zero. -/
def eraOf (z : Int) : Option Int := do
  let shifted ← if z ≥ 0 then pure z else i64 (z - 146096)
  return shifted.tdiv 146097

def yearOfEra (doe : Nat) : Option Nat := do
  let short ← u64Sub doe (doe / 1460)
  let long ← u64Sub (short + doe / 36524) (doe / 146096)
  return long / 365

def dayOfYear (doe yoe : Nat) : Option Nat := do
  let start ← u64Sub (365 * yoe + yoe / 4) (yoe / 100)
  u64Sub doe start

def monthDay (doy : Nat) : Option (Nat × Nat) := do
  let mp := (5 * doy + 2) / 153
  let d ← u64Sub doy ((153 * mp + 2) / 5)
  let m ← if mp < 10 then pure (mp + 3) else u64Sub mp 9
  return (asU32 m, asU32 (d + 1))

end CivilDate

open CivilDate

def civilFromDays (z : Int) : Option (Int × Nat × Nat) := do
  let z ← i64 (z + 719468)
  let era ← eraOf z
  let doe := asU64 (← i64 (z - (← i64 (era * 146097))))
  let yoe ← yearOfEra doe
  let y ← i64 ((if yoe < 2 ^ 63 then yoe else 0 : Nat) + (← i64 (era * 400)))
  let doy ← dayOfYear doe yoe
  let (m, d) ← monthDay doy
  let y ← if m ≤ 2 then i64 (y + 1) else pure y
  return (asI32 y, m, d)

variable {x : Int}

theorem i64_eq (h : InI64 x) : i64 x = some x := if_pos h

theorem u64Sub_eq {a b : Nat} (h : b ≤ a) : u64Sub a b = some (a - b) := if_pos h

theorem asU64_eq (h : 0 ≤ x) (hlt : x < 18446744073709551616) : asU64 x = x.toNat := by
  unfold asU64
  omega

theorem asI32_eq (h : InI32 x) : asI32 x = x := by
  unfold InI32 at h
  unfold asI32
  omega

namespace CivilDate

theorem eraOf_eq {z : Int} (hlow : InI64 (z - 146096)) :
    eraOf z = some (z / 146097) := by
  unfold eraOf
  split
  · rename_i hpos
    exact congrArg some (Int.tdiv_eq_ediv_of_nonneg hpos)
  · rename_i hneg
    rw [i64_eq hlow]
    apply congrArg some
    rw [show z - 146096 = -(146096 - z) by omega, Int.neg_tdiv,
      Int.tdiv_eq_ediv_of_nonneg (by omega)]
    omega

/-- The days without those that leap years have more. -/
def commonDays (doe : Nat) : Nat := doe - doe / 1460 + doe / 36524 - doe / 146096

def eraYearStart (yoe : Nat) : Nat := 365 * yoe + yoe / 4 - yoe / 100

def eraYearLength (yoe : Nat) : Nat := yearLength (Leap (yoe + 1))

variable {doe yoe : Nat}

theorem commonDays_succ (h : doe + 1 < 146097) :
    commonDays doe ≤ commonDays (doe + 1) := by
  unfold commonDays
  omega

theorem commonDays_mono {later : Nat} (h : doe ≤ later) (hlater : later < 146097) :
    commonDays doe ≤ commonDays later := by
  induction h with
  | refl => exact Nat.le_refl _
  | step h ih =>
    apply (ih (Nat.lt_of_succ_lt hlater)).trans
    exact commonDays_succ hlater

theorem eraYearStart_succ (yoe : Nat) (h : yoe < 399) :
    eraYearStart (yoe + 1) = eraYearStart yoe + eraYearLength yoe := by
  unfold eraYearStart eraYearLength yearLength
  by_cases hleap : Leap (yoe + 1)
  · rw [decide_eq_true hleap, if_pos rfl]
    unfold Leap at hleap
    omega
  · rw [decide_eq_false hleap, if_neg Bool.false_ne_true]
    unfold Leap at hleap
    omega

theorem eraYearLength_le (yoe : Nat) : eraYearLength yoe ≤ 366 := by
  unfold eraYearLength yearLength
  split <;> decide

theorem eraYear_lt (h : yoe < 400) :
    eraYearStart yoe + eraYearLength yoe ≤ 146097 ∧ 0 < eraYearLength yoe := by
  have hlen : yearLength (Leap (yoe + 1)) = 365 ∨
      yearLength (Leap (yoe + 1)) = 366 := by
    unfold yearLength
    split <;> simp
  unfold eraYearStart eraYearLength
  omega

theorem commonDays_year : ∀ yoe < 400, 365 * yoe ≤ commonDays (eraYearStart yoe) ∧
    commonDays (eraYearStart yoe + eraYearLength yoe - 1) < 365 * (yoe + 1) := by
  decide +kernel

theorem commonDays_div (h : doe < 146097) :
    commonDays doe / 365 < 400 ∧ eraYearStart (commonDays doe / 365) ≤ doe ∧
      doe < eraYearStart (commonDays doe / 365) + eraYearLength (commonDays doe / 365) := by
  have hlast := commonDays_mono (Nat.le_of_lt_succ h) (by decide : 146096 < 146097)
  have hbound : commonDays 146096 = 145999 := by decide
  have hlow := Nat.div_mul_le_self (commonDays doe) 365
  have hhigh := Nat.lt_div_mul_add (a := commonDays doe) (b := 365) (by decide)
  generalize commonDays doe / 365 = yoe at *
  have hyoe : yoe < 400 := by omega
  refine ⟨hyoe, ?_, ?_⟩
  · -- otherwise the day is in a year before, whose common days are fewer
    by_contra hbefore
    push Not at hbefore
    obtain ⟨y, rfl⟩ : ∃ y, yoe = y + 1 := by
      apply Nat.exists_eq_succ_of_ne_zero
      rintro rfl
      exact absurd hbefore (Nat.not_lt_zero _)
    have hstart := eraYearStart_succ y (by omega)
    have hyear := commonDays_year y (by omega)
    have hend := eraYear_lt (show y < 400 by omega)
    have hmono := commonDays_mono (show doe ≤ eraYearStart y + eraYearLength y - 1 by omega)
      (by omega)
    omega
  · by_contra hafter
    push Not at hafter
    by_cases hfinal : yoe < 399
    · have hstart := eraYearStart_succ yoe hfinal
      have hyear := commonDays_year (yoe + 1) (by omega)
      have hmono := commonDays_mono (show eraYearStart (yoe + 1) ≤ doe by omega) h
      omega
    · obtain rfl : yoe = 399 := by omega
      have hend : eraYearStart 399 + eraYearLength 399 = 146097 := by decide
      omega

theorem yearOfEra_eq (doe : Nat) (h : doe < 146097) :
    yearOfEra doe = some (commonDays doe / 365) := by
  unfold yearOfEra commonDays
  rw [u64Sub_eq (Nat.div_le_self _ _), Option.bind_eq_bind, Option.bind_some,
    u64Sub_eq (by omega)]
  rfl

theorem dayOfYear_eq (h : eraYearStart yoe ≤ doe) :
    dayOfYear doe yoe = some (doe - eraYearStart yoe) := by
  unfold dayOfYear
  rw [u64Sub_eq (by omega), Option.bind_eq_bind, Option.bind_some]
  exact u64Sub_eq h

theorem monthDay_table : ∀ doy < 366, ∃ md ∈ monthDay doy,
    (1 ≤ md.1 ∧ md.1 ≤ 12) ∧ 1 ≤ md.2 ∧
    ∀ leap : Bool, if md.1 ≤ 2
      then (md.2 ≤ daysIn leap md.1 ∨ leap = false ∧ doy = 365) ∧
        daysBefore leap md.1 + (md.2 - 1) + 306 = doy
      else md.2 ≤ daysIn leap md.1 ∧
        daysBefore leap md.1 + (md.2 - 1) = doy + daysBefore leap 3 := by
  decide +kernel

open Calendar.Date (yearStart yearStart_succ)

theorem exists_date (era : Int) {doy : Nat} {md : Nat × Nat} (hstart : eraYearStart yoe ≤ doe)
    (hend : doe < eraYearStart yoe + eraYearLength yoe) (hyoe : yoe < 400)
    (hdoy : doy = doe - eraYearStart yoe) (hmd : md ∈ monthDay doy) :
    ∃ date : Date, date.dayNumber + 719468 = era * 146097 + doe ∧
      date.year = yoe + era * 400 + (if md.1 ≤ 2 then 1 else 0) ∧
      date.month = md.1 ∧ date.day = md.2 := by
  have hlen := eraYearLength_le yoe
  obtain ⟨other, hother, hmonth, hday, htable⟩ := monthDay_table doy (by omega)
  obtain rfl : other = md := Option.mem_unique hother hmd
  obtain ⟨year, hyear⟩ : ∃ year : Int, year = yoe + era * 400 := ⟨_, rfl⟩
  have hleap : decide (Leap (year + 1)) = decide (Leap (yoe + 1)) := by
    apply decide_eq_decide.mpr
    unfold Leap
    omega
  have hmarch : yearStart (year + 1) + doy = era * 146097 + doe := by
    unfold yearStart eraYearStart at *
    omega
  have hepoch : yearStart 1970 = 719162 := rfl
  by_cases hearly : other.1 ≤ 2
  · have hdays := htable (Leap (year + 1))
    rw [if_pos hearly] at hdays
    have hvalid : other.2 ≤ daysIn (Leap (year + 1)) other.1 := by
      refine hdays.1.resolve_right ?_
      rintro ⟨hcommon, hlast⟩
      rw [hleap] at hcommon
      unfold eraYearLength yearLength at hend
      rw [hcommon, if_neg Bool.false_ne_true] at hend
      omega
    refine ⟨⟨year + 1, other.1, other.2, hmonth, hday, hvalid⟩, ?_, ?_, rfl, rfl⟩
    · unfold Date.dayNumber Date.dayOfYear
      dsimp only
      omega
    · show year + 1 = _
      rw [if_pos hearly, hyear]
  · have hdays := htable (Leap year)
    rw [if_neg hearly] at hdays
    refine ⟨⟨year, other.1, other.2, hmonth, hday, hdays.1⟩, ?_, ?_, rfl, rfl⟩
    · have hnext := yearStart_succ year
      have hfirst : daysBefore (Leap year) 3 + 306 = yearLength (Leap year) := by
        cases decide (Leap year) <;> rfl
      unfold Date.dayNumber Date.dayOfYear
      dsimp only
      omega
    · show year = _
      rw [if_neg hearly, hyear, Int.add_zero]

end CivilDate

theorem civilFromDays_eq {z : Int} (hz : InI64 z) (hshift : InI64 (z + 719468)) :
    ∃ date : Date, date.dayNumber = z ∧
      civilFromDays z = some (asI32 date.year, date.month, date.day) := by
  obtain ⟨era, hera⟩ : ∃ era, era = (z + 719468) / 146097 := ⟨_, rfl⟩
  obtain ⟨doe, hdoe⟩ : ∃ doe, doe = (z + 719468 - era * 146097).toNat := ⟨_, rfl⟩
  unfold InI64 at hz hshift
  have hsmall : doe < 146097 := by omega
  obtain ⟨hyoe, hstart, hend⟩ := commonDays_div hsmall
  obtain ⟨yoe, hyoe'⟩ : ∃ yoe, yoe = commonDays doe / 365 := ⟨_, rfl⟩
  rw [← hyoe'] at hyoe hstart hend
  have hlen := eraYearLength_le yoe
  obtain ⟨md, hmd, -⟩ := monthDay_table (doe - eraYearStart yoe) (by omega)
  obtain ⟨date, hnum, hyear, hmonth, hday⟩ :=
    exists_date era hstart hend hyoe rfl hmd
  refine ⟨date, by omega, ?_⟩
  unfold civilFromDays
  simp only [Option.bind_eq_bind, Option.pure_def]
  rw [i64_eq hshift, Option.bind_some, eraOf_eq (by unfold InI64; omega), Option.bind_some,
    ← hera, i64_eq (by unfold InI64; omega), Option.bind_some, i64_eq (by unfold InI64; omega),
    Option.bind_some, asU64_eq (by omega) (by omega), ← hdoe, yearOfEra_eq doe hsmall,
    Option.bind_some, ← hyoe', i64_eq (by unfold InI64; omega), Option.bind_some,
    if_pos (by omega), i64_eq (by unfold InI64; omega), Option.bind_some, dayOfYear_eq hstart,
    Option.bind_some, Option.mem_def.mp hmd, Option.bind_some, hyear, hmonth, hday]
  split
  · rw [i64_eq (by unfold InI64; omega), Option.bind_some]
  · rw [Option.bind_some, Int.add_zero]

/-- `1970-01-01` is day 0, each day has its date in the calendar, and the day after it the
next date. -/
theorem civilFromDays_calendar :
    civilFromDays 0 = some (1970, 1, 1) ∧
    ∀ z, InI64 z → InI64 (z + 719468) → ∃ date : Date, date.dayNumber = z ∧
      (InI32 date.year → civilFromDays z = some (date.year, date.month, date.day)) ∧
      (InI64 (z + 1) → InI64 (z + 1 + 719468) → InI32 date.next.year →
        civilFromDays (z + 1) = some (date.next.year, date.next.month, date.next.day)) := by
  refine ⟨by decide, ?_⟩
  intro z hz hshift
  obtain ⟨date, hnum, hdate⟩ := civilFromDays_eq hz hshift
  refine ⟨date, hnum, ?_, ?_⟩
  · intro hyear
    rw [hdate, asI32_eq hyear]
  · intro hz' hshift' hyear
    obtain ⟨later, hlater, hdate'⟩ := civilFromDays_eq hz' hshift'
    have hnext : later = date.next := by
      apply Date.dayNumber_injective
      rw [hlater, Date.dayNumber_next, hnum]
    rw [hdate', hnext, asI32_eq hyear]

/-- A number with zeros in front, up to a width that counts the sign. -/
def padded (width : Nat) (n : Int) : List Char :=
  let sign := if n < 0 then ['-'] else []
  let digits := (Nat.repr n.natAbs).toList
  sign ++ List.replicate (width - (sign.length + digits.length)) '0' ++ digits

/-- The seconds since the epoch; a clock that is before it counts as there. -/
def epochSeconds (now : Option Nat) : Nat := (now.map (min 9223372036854775807)).getD 0

def todayUtcYmd (now : Option Nat) : Option (List Char) := do
  let (y, m, d) ← civilFromDays (epochSeconds now / 86400)
  return padded 4 y ++ '-' :: (padded 2 m ++ '-' :: padded 2 d)

theorem todayUtcYmd_eq (now : Option Nat) :
    ∃ date : Date, date.dayNumber = epochSeconds now / 86400 ∧
      todayUtcYmd now = some (padded 4 (asI32 date.year) ++
        '-' :: (padded 2 date.month ++ '-' :: padded 2 date.day)) := by
  have hseconds : epochSeconds now ≤ 9223372036854775807 := by
    cases now with
    | none => exact Nat.zero_le _
    | some seconds => exact Nat.min_le_left _ _
  obtain ⟨date, hnum, hdate⟩ := civilFromDays_eq (z := epochSeconds now / 86400)
    (by unfold InI64; omega) (by unfold InI64; omega)
  refine ⟨date, hnum, ?_⟩
  unfold todayUtcYmd
  rw [hdate]
  rfl

example : todayUtcYmd (some 951782400) = some "2000-02-29".toList := by decide

end DbClinic.Runtime
