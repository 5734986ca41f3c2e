import Mathlib

/-!
# The Gregorian calendar

Dates of the proleptic Gregorian calendar, the day after a date, and the dates in order. Years
that begin in March end with the leap day, so in such years the month and the day follow from the
number of the day alone, and the days before a year are a sum of whole parts.
-/
namespace Base

def isLeapYear (year : Int) : Bool := decide (year % 4 = 0 ∧ (year % 100 ≠ 0 ∨ year % 400 = 0))

/-- The number of days of a month, 1 to 12. -/
def lengthOfMonth (leap : Bool) (month : Nat) : Nat :=
  if month = 2 then if leap then 29 else 28
  else if month = 4 ∨ month = 6 ∨ month = 9 ∨ month = 11 then 30
  else 31

@[ext] structure Date where
  year : Int
  month : Nat
  day : Nat
  deriving DecidableEq, Repr

namespace Date

def monthDays (d : Date) : Nat := lengthOfMonth (isLeapYear d.year) d.month

structure Valid (d : Date) : Prop where
  month_pos : 1 ≤ d.month
  month_le : d.month ≤ 12
  day_pos : 1 ≤ d.day
  day_le : d.day ≤ d.monthDays

/-- The day after a date. -/
def next (d : Date) : Date :=
  if d.day < d.monthDays then { d with day := d.day + 1 }
  else if d.month < 12 then { d with month := d.month + 1, day := 1 }
  else { year := d.year + 1, month := 1, day := 1 }

/-- The date so many days later. -/
def after (d : Date) (n : Nat) : Date := next^[n] d

@[simp] theorem after_zero (d : Date) : d.after 0 = d := rfl

theorem after_succ (d : Date) (n : Nat) : d.after (n + 1) = (d.after n).next := Function.iterate_succ_apply' next n d

theorem monthDays_bounds (d : Date) : 28 ≤ d.monthDays ∧ d.monthDays ≤ 31 := by
  unfold monthDays lengthOfMonth
  split_ifs <;> omega

theorem Valid.next {d : Date} (h : d.Valid) : d.next.Valid := by
  obtain ⟨h1, h2, h3, h4⟩ := h
  unfold Date.next
  split_ifs with hday hmonth
  · exact ⟨h1, h2, Nat.le_add_left _ _, hday⟩
  · exact ⟨Nat.le_add_left _ _, hmonth, le_rfl, by have := monthDays_bounds ⟨d.year, d.month + 1, 1⟩; dsimp only; omega⟩
  · exact ⟨le_rfl, Nat.one_le_ofNat, le_rfl, by have := monthDays_bounds ⟨d.year + 1, 1, 1⟩; dsimp only; omega⟩

theorem Valid.after {d : Date} (h : d.Valid) (n : Nat) : (d.after n).Valid := by
  induction n with
  | zero => exact h
  | succ n ih =>
    rw [after_succ]
    exact ih.next

/-- The number that the digits of a date spell; valid dates are in the order of these numbers. -/
def key (d : Date) : Int := (d.year * 100 + d.month) * 100 + d.day

theorem key_lt_next {d : Date} (h : d.Valid) : d.key < d.next.key := by
  have hbounds := d.monthDays_bounds
  have hmonth := h.month_le
  have hday := h.day_le
  unfold Date.next key
  split_ifs
  · dsimp only
    omega
  · dsimp only
    omega
  · dsimp only
    omega

theorem strictMono_key_after {d : Date} (h : d.Valid) : StrictMono fun n => (d.after n).key := by
  refine strictMono_nat_of_lt_succ fun n => ?_
  rw [after_succ]
  exact key_lt_next (h.after n)

theorem after_injective {d : Date} (h : d.Valid) : Function.Injective d.after := by
  intro n m heq
  exact (strictMono_key_after h).injective (congrArg key heq)

/-- Years only grow. -/
theorem year_mono {d : Date} : Monotone fun n => (d.after n).year := by
  refine monotone_nat_of_le_succ fun n => ?_
  rw [after_succ]
  unfold Date.next
  split_ifs
  · exact le_rfl
  · exact le_rfl
  · dsimp only
    omega

def parts (d : Date) : Int × Nat × Nat := (d.year, d.month, d.day)

end Date

/-! ## Years that begin in March -/

/-- The days of the year that ends in February of the year after. -/
def marchLength (y : Nat) : Nat := if isLeapYear (y + 1) then 366 else 365

/-- The days of all March years before. -/
def marchDays (y : Nat) : Nat := 365 * y + y / 4 - y / 100 + y / 400

/-- The calendar year counted from the March year, the month and the day. -/
def marchParts (d : Nat) : Nat × Nat × Nat :=
  let mp := (5 * d + 2) / 153
  let day := d - (153 * mp + 2) / 5 + 1
  if mp < 10 then (0, mp + 3, day) else (1, mp - 9, day)

def partsDate (y : Nat) (p : Nat × Nat × Nat) : Date := { year := y + p.1, month := p.2.1, day := p.2.2 }

/-- The date of a day of a March year. -/
def marchDate (y d : Nat) : Date := partsDate y (marchParts d)

/-- The next day, when it is known whether the February of the March year has a leap day. -/
def partsNext (leap : Bool) (p : Nat × Nat × Nat) : Nat × Nat × Nat :=
  if p.2.2 < lengthOfMonth leap p.2.1 then (p.1, p.2.1, p.2.2 + 1)
  else if p.2.1 < 12 then (p.1, p.2.1 + 1, 1)
  else (p.1 + 1, 1, 1)

theorem isLeapYear_iff (y : Nat) : isLeapYear (y + 1) = true ↔ 4 ∣ y + 1 ∧ (¬ 100 ∣ y + 1 ∨ 400 ∣ y + 1) := by
  rw [isLeapYear, decide_eq_true_eq]
  omega

theorem marchDays_succ (y : Nat) : marchDays (y + 1) = marchDays y + marchLength y := by
  have hless : y / 100 ≤ y / 4 := Nat.div_le_div_left (by decide) (by decide)
  unfold marchDays marchLength
  rw [Nat.succ_div, Nat.succ_div, Nat.succ_div]
  simp only [isLeapYear_iff]
  by_cases h4 : 4 ∣ y + 1
  · by_cases h100 : 100 ∣ y + 1
    · by_cases h400 : 400 ∣ y + 1
      · simp only [h4, h100, h400, if_true, not_true, false_or, and_self]
        omega
      · simp only [h4, h100, h400, if_true, if_false, not_true, or_self, and_false]
        omega
    · have h400 : ¬ 400 ∣ y + 1 := fun h => h100 (dvd_trans (by decide) h)
      simp only [h4, h100, h400, if_true, if_false, not_false_eq_true, true_or, and_self]
      omega
  · have h100 : ¬ 100 ∣ y + 1 := fun h => h4 (dvd_trans (by decide) h)
    have h400 : ¬ 400 ∣ y + 1 := fun h => h4 (dvd_trans (by decide) h)
    simp only [h4, h100, h400, if_false, false_and]
    omega

theorem marchLength_bounds (y : Nat) : 365 ≤ marchLength y ∧ marchLength y ≤ 366 := by
  unfold marchLength
  split <;> omega

/-- Within a year the parts of the days follow one another as dates do. -/
theorem marchParts_succ_common : ∀ d < 365, partsNext false (marchParts d) = if d = 364 then (1, 3, 1) else marchParts (d + 1) := by
  decide +kernel

theorem marchParts_succ_leap : ∀ d < 365, partsNext true (marchParts d) = marchParts (d + 1) := by
  decide +kernel

/-- February belongs to the second year, whose leap day counts; no other month depends on it. -/
theorem marchParts_month : ∀ d < 366, (marchParts d).1 = 0 ∧ (marchParts d).2.1 ≠ 2 ∨ (marchParts d).1 = 1 := by
  decide +kernel

theorem monthDays_marchDate (y : Nat) {d : Nat} (hd : d < 366) :
    (marchDate y d).monthDays = lengthOfMonth (isLeapYear (y + 1)) (marchParts d).2.1 := by
  rcases marchParts_month d hd with ⟨-, hmonth⟩ | hyear
  · rw [Date.monthDays, lengthOfMonth, lengthOfMonth, marchDate, partsDate, if_neg hmonth, if_neg hmonth]
  · simp only [Date.monthDays, marchDate, partsDate, hyear, Nat.cast_one]

theorem next_marchDate (y : Nat) {d : Nat} (hd : d < 366) :
    (marchDate y d).next = partsDate y (partsNext (isLeapYear (y + 1)) (marchParts d)) := by
  rw [Date.next, monthDays_marchDate y hd, partsNext]
  change (if (marchParts d).2.2 < _ then _ else if (marchParts d).2.1 < 12 then _ else _) = _
  split_ifs
  · rfl
  · rfl
  · simp [marchDate, partsDate, add_assoc]

theorem marchDate_next (y : Nat) {d : Nat} (hd : d < marchLength y) :
    (marchDate y d).next = if d + 1 < marchLength y then marchDate y (d + 1) else marchDate (y + 1) 0 := by
  have hbound := (marchLength_bounds y).2
  have hfirst : marchDate (y + 1) 0 = partsDate y (1, 3, 1) := rfl
  rw [next_marchDate y (by omega), hfirst]
  unfold marchLength at hd ⊢
  cases hleap : isLeapYear (y + 1) with
  | false =>
    rw [hleap, if_neg Bool.false_ne_true] at hd
    rw [marchParts_succ_common d hd]
    by_cases hlast : d = 364
    · simp [hlast]
    · simp [hlast, show d + 1 < 365 by omega, marchDate]
  | true =>
    rw [hleap, if_pos rfl] at hd
    by_cases hlast : d = 365
    · subst hlast
      rfl
    · rw [marchParts_succ_leap d (by omega)]
      simp [show d + 1 < 366 by omega, marchDate]

/-- The days of the calendar from the first of January 1970, as days of March years. -/
theorem after_eq_marchDate (n : Nat) :
    ∃ y d, n + 719468 = marchDays y + d ∧ d < marchLength y ∧ Date.after ⟨1970, 1, 1⟩ n = marchDate y d := by
  induction n with
  | zero => exact ⟨1969, 306, by decide, by decide, by decide⟩
  | succ n ih =>
    obtain ⟨y, d, hn, hd, hdate⟩ := ih
    have hnext := marchDate_next y hd
    rw [Date.after_succ, hdate]
    by_cases hlast : d + 1 < marchLength y
    · exact ⟨y, d + 1, by omega, hlast, hnext.trans (if_pos hlast)⟩
    · have hlength := (marchLength_bounds (y + 1)).1
      have hdays := marchDays_succ y
      exact ⟨y + 1, 0, by omega, by omega, hnext.trans (if_neg hlast)⟩

end Base
