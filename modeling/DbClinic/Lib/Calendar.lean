import Mathlib.Order.Lattice
import Mathlib.Data.Int.Order.Basic

/-!
The proleptic Gregorian calendar. Every fourth year is a leap year, but for the centuries
that 400 does not divide. Days are counted from the first day of 1970; a date and the next
one have numbers that follow one another, and no two dates have the same number.
-/

namespace DbClinic.Calendar

def Leap (year : Int) : Prop := year % 4 = 0 ∧ (year % 100 ≠ 0 ∨ year % 400 = 0)

instance (year : Int) : Decidable (Leap year) := inferInstanceAs (Decidable (_ ∧ _))

def daysIn (leap : Bool) : Nat → Nat
  | 2 => if leap then 29 else 28
  | 4 | 6 | 9 | 11 => 30
  | _ => 31

def daysBefore (leap : Bool) : Nat → Nat
  | 0 => 0
  | 1 => 0
  | month + 2 => daysBefore leap (month + 1) + daysIn leap (month + 1)

def yearLength (leap : Bool) : Nat := if leap then 366 else 365

theorem daysIn_pos (leap : Bool) (month : Nat) : 0 < daysIn leap month := by
  unfold daysIn
  split
  · cases leap <;> decide
  all_goals omega

theorem daysBefore_succ (leap : Bool) {month : Nat} (h : 1 ≤ month) :
    daysBefore leap (month + 1) = daysBefore leap month + daysIn leap month := by
  obtain ⟨m, rfl⟩ := Nat.exists_eq_add_of_le' h
  rfl

theorem daysBefore_year (leap : Bool) : daysBefore leap 13 = yearLength leap := by
  cases leap <;> rfl

theorem daysBefore_mono (leap : Bool) {month later : Nat} (h : 1 ≤ month) (hlt : month < later) :
    daysBefore leap month + daysIn leap month ≤ daysBefore leap later := by
  induction hlt with
  | refl => exact (daysBefore_succ leap h).ge
  | step hlt ih =>
    apply ih.trans
    rw [daysBefore_succ leap (h.trans (Nat.le_of_succ_le hlt))]
    exact Nat.le_add_right _ _

structure Date where
  year : Int
  month : Nat
  day : Nat
  month_mem : 1 ≤ month ∧ month ≤ 12
  day_mem : 1 ≤ day ∧ day ≤ daysIn (Leap year) month

namespace Date

variable (date : Date)

theorem ext {a b : Date} (hyear : a.year = b.year) (hmonth : a.month = b.month)
    (hday : a.day = b.day) : a = b := by
  cases a
  cases b
  simp_all

def next : Date :=
  if hday : date.day < daysIn (Leap date.year) date.month then
    { date with
      day := date.day + 1
      day_mem := ⟨Nat.le_add_left _ _, hday⟩ }
  else if hmonth : date.month < 12 then
    { year := date.year
      month := date.month + 1
      day := 1
      month_mem := ⟨Nat.le_add_left _ _, hmonth⟩
      day_mem := ⟨Nat.le_refl _, daysIn_pos _ _⟩ }
  else
    { year := date.year + 1
      month := 1
      day := 1
      month_mem := by decide
      day_mem := ⟨Nat.le_refl _, daysIn_pos _ _⟩ }

def yearStart (year : Int) : Int :=
  365 * (year - 1) + (year - 1) / 4 - (year - 1) / 100 + (year - 1) / 400

def dayOfYear : Nat := daysBefore (Leap date.year) date.month + (date.day - 1)

def dayNumber : Int := yearStart date.year - yearStart 1970 + date.dayOfYear

theorem yearStart_succ (year : Int) :
    yearStart (year + 1) = yearStart year + yearLength (Leap year) := by
  unfold yearStart yearLength
  by_cases hleap : Leap year
  · rw [decide_eq_true hleap, if_pos rfl]
    unfold Leap at hleap
    omega
  · rw [decide_eq_false hleap, if_neg Bool.false_ne_true]
    unfold Leap at hleap
    omega

theorem yearStart_mono {year later : Int} (h : year < later) :
    yearStart year + yearLength (Leap year) ≤ yearStart later := by
  rw [← yearStart_succ]
  unfold yearStart
  omega

theorem dayOfYear_lt : date.dayOfYear < yearLength (Leap date.year) := by
  have hmonth := daysBefore_mono (Leap date.year) date.month_mem.1
    (Nat.lt_succ_of_le date.month_mem.2)
  rw [daysBefore_year] at hmonth
  have hday := date.day_mem
  unfold dayOfYear
  omega

theorem dayNumber_next : date.next.dayNumber = date.dayNumber + 1 := by
  have hmonths := date.month_mem
  have hdays := date.day_mem
  unfold next
  split
  · unfold dayNumber dayOfYear
    dsimp only
    omega
  · rename_i hday
    split
    · unfold dayNumber dayOfYear
      dsimp only
      rw [daysBefore_succ _ hmonths.1]
      omega
    · rename_i hmonth
      have hlast : date.month = 12 := by omega
      have hyear := daysBefore_succ (Leap date.year) hmonths.1
      rw [hlast, daysBefore_year] at hyear
      unfold dayNumber dayOfYear
      dsimp only
      rw [yearStart_succ, hyear, hlast, show daysBefore _ 1 = 0 from rfl]
      rw [hlast] at hday hdays
      omega

theorem month_eq_of_dayOfYear_eq {a b : Date} (hyear : a.year = b.year)
    (h : a.dayOfYear = b.dayOfYear) : a.month = b.month := by
  have ha := a.day_mem
  have hb := b.day_mem
  unfold dayOfYear at h
  rw [hyear] at h ha
  rcases Nat.lt_trichotomy a.month b.month with hlt | heq | hgt
  · have hmono := daysBefore_mono (Leap b.year) a.month_mem.1 hlt
    omega
  · exact heq
  · have hmono := daysBefore_mono (Leap b.year) b.month_mem.1 hgt
    omega

theorem dayNumber_injective : Function.Injective dayNumber := by
  intro a b h
  have ha := a.dayOfYear_lt
  have hb := b.dayOfYear_lt
  unfold dayNumber at h
  have hyear : a.year = b.year := by
    rcases Int.lt_trichotomy a.year b.year with hlt | heq | hgt
    · have hmono := yearStart_mono hlt
      omega
    · exact heq
    · have hmono := yearStart_mono hgt
      omega
  rw [hyear] at h
  have hday : a.dayOfYear = b.dayOfYear := by omega
  have hmonth := month_eq_of_dayOfYear_eq hyear hday
  refine ext hyear hmonth ?_
  have hadays := a.day_mem
  have hbdays := b.day_mem
  unfold dayOfYear at hday
  rw [hyear, hmonth] at hday
  omega

end Date

end DbClinic.Calendar
