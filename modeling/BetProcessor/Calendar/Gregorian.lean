import Mathlib.Order.Basic
import Mathlib.Data.Int.Order.Basic

namespace Calendar
set_option autoImplicit true

/-- A leap year of the Gregorian calendar, in which 1 BC is the year 0. -/
def IsLeap (year : Int) : Prop := year % 4 = 0 ∧ (year % 100 = 0 → year % 400 = 0)

instance (year : Int) : Decidable (IsLeap year) :=
  inferInstanceAs (Decidable (year % 4 = 0 ∧ (year % 100 = 0 → year % 400 = 0)))

/-- The first of January, in days since 1970-01-01. -/
def yearStart (year : Int) : Int :=
  365 * (year - 1970) + (year - 1) / 4 - (year - 1) / 100 + (year - 1) / 400 - 477

theorem yearStart_succ (year : Int) :
    yearStart (year + 1) = yearStart year + if IsLeap year then 366 else 365 := by
  by_cases h : IsLeap year
  · rw [if_pos h]
    rw [IsLeap] at h
    simp only [yearStart]
    omega
  · rw [if_neg h]
    rw [IsLeap] at h
    simp only [yearStart]
    omega

theorem yearStart_lt {year year' : Int} (h : year < year') :
    yearStart (year + 1) ≤ yearStart year' := by
  simp only [yearStart]
  omega

/-- The year of a day: 400 years have 146097 days. -/
def yearOf (day : Int) : Int :=
  let year := 400 * (day + 719162) / 146097 + 1
  if day < yearStart year then year - 1
  else if yearStart (year + 1) ≤ day then year + 1
  else year

theorem yearOf_spec (day : Int) :
    yearStart (yearOf day) ≤ day ∧ day < yearStart (yearOf day + 1) := by
  rw [yearOf]
  split
  · simp only [yearStart] at *
    omega
  · split
    · simp only [yearStart] at *
      omega
    · simp only [yearStart] at *
      omega

theorem yearOf_eq {day year : Int} (h : yearStart year ≤ day) (h' : day < yearStart (year + 1)) :
    yearOf day = year := by
  obtain ⟨hle, hlt⟩ := yearOf_spec day
  rcases lt_trichotomy (yearOf day) year with hyear | hyear | hyear
  · have hstart := yearStart_lt hyear
    omega
  · exact hyear
  · have hstart := yearStart_lt hyear
    omega

/-- A month, of a year and of a number from 1. -/
structure Month where
  year : Int
  number : Int
  valid : 1 ≤ number ∧ number ≤ 12
  deriving DecidableEq

namespace Month

/-- The number of days. -/
def length (m : Month) : Int :=
  if m.number = 2 then if IsLeap m.year then 29 else 28
  else if m.number = 4 ∨ m.number = 6 ∨ m.number = 9 ∨ m.number = 11 then 30
  else 31

def next (m : Month) : Month :=
  if h : m.number = 12 then ⟨m.year + 1, 1, by decide⟩
  else ⟨m.year, m.number + 1, by have := m.valid; omega⟩

/-- The day of the year on which March begins, from 0. -/
def march (year : Int) : Int := if IsLeap year then 60 else 59

/-- The first day, in days since 1970-01-01. -/
def start (m : Month) : Int :=
  if m.number ≤ 2 then yearStart m.year + 31 * (m.number - 1)
  else yearStart m.year + march m.year + (153 * m.number - 457) / 5

theorem length_pos (m : Month) : 0 < m.length := by
  rw [length]
  split
  · split <;> decide
  · split <;> decide

theorem next_december {m : Month} (h : m.number = 12) : m.next.start = m.start + 31 := by
  have hnext : m.next.start = yearStart (m.year + 1) := by
    rw [next, dif_pos h]
    exact Int.add_zero _
  rw [hnext, yearStart_succ, start, h, march]
  by_cases hleap : IsLeap m.year
  · rw [if_pos hleap, if_pos hleap]
    omega
  · rw [if_neg hleap, if_neg hleap]
    omega

theorem next_start {m : Month} (h : m.number ≠ 12) : m.next.start =
    if m.number = 1 then yearStart m.year + 31
    else yearStart m.year + march m.year + (153 * (m.number + 1) - 457) / 5 := by
  have hvalid := m.valid
  rw [next, dif_neg h, start]
  by_cases hfirst : m.number = 1
  · rw [if_pos hfirst, if_pos (by dsimp only; omega)]
    dsimp only
    omega
  · rw [if_neg hfirst, if_neg (by dsimp only; omega)]

theorem start_next (m : Month) : m.next.start = m.start + m.length := by
  have hvalid := m.valid
  by_cases hlast : m.number = 12
  · rw [next_december hlast, length, hlast]
    rfl
  · have hnumber : m.number = 1 ∨ m.number = 2 ∨ m.number = 3 ∨ m.number = 4 ∨ m.number = 5 ∨
        m.number = 6 ∨ m.number = 7 ∨ m.number = 8 ∨ m.number = 9 ∨ m.number = 10 ∨
        m.number = 11 := by omega
    rw [next_start hlast, start, length, march]
    by_cases hleap : IsLeap m.year
    · simp only [if_pos hleap]
      rcases hnumber with h | h | h | h | h | h | h | h | h | h | h <;> rw [h] <;> omega
    · simp only [if_neg hleap]
      rcases hnumber with h | h | h | h | h | h | h | h | h | h | h <;> rw [h] <;> omega

theorem yearStart_le_start (m : Month) : yearStart m.year ≤ m.start := by
  have hvalid := m.valid
  rw [start, march]
  split
  · omega
  · split <;> omega

theorem next_le_year (m : Month) : m.next.start ≤ yearStart (m.year + 1) := by
  have hvalid := m.valid
  by_cases hlast : m.number = 12
  · rw [next, dif_pos hlast]
    exact le_of_eq (Int.add_zero _)
  · rw [next_start hlast, yearStart_succ, march]
    by_cases hleap : IsLeap m.year
    · simp only [if_pos hleap]
      split <;> omega
    · simp only [if_neg hleap]
      split <;> omega

theorem next_le_start {m m' : Month} (hyear : m.year = m'.year) (h : m.number < m'.number) :
    m.next.start ≤ m'.start := by
  have hvalid := m.valid
  have hvalid' := m'.valid
  rw [next_start (by omega), start, hyear, march]
  by_cases hleap : IsLeap m'.year
  · simp only [if_pos hleap]
    split <;> split <;> omega
  · simp only [if_neg hleap]
    split <;> split <;> omega

theorem yearOf_of_mem {m : Month} {day : Int} (h : m.start ≤ day) (h' : day < m.next.start) :
    yearOf day = m.year :=
  yearOf_eq (le_trans m.yearStart_le_start h) (lt_of_lt_of_le h' m.next_le_year)

theorem ext_of_number {m m' : Month} (hyear : m.year = m'.year) (h : m.number = m'.number) :
    m = m' := by
  cases m
  cases m'
  cases hyear
  cases h
  rfl

theorem unique {m m' : Month} {day : Int} (h : m.start ≤ day ∧ day < m.next.start)
    (h' : m'.start ≤ day ∧ day < m'.next.start) : m = m' := by
  have hyear : m.year = m'.year :=
    (yearOf_of_mem h.1 h.2).symm.trans (yearOf_of_mem h'.1 h'.2)
  rcases lt_trichotomy m.number m'.number with hlt | heq | hlt
  · have hnext := next_le_start hyear hlt
    omega
  · exact ext_of_number hyear heq
  · have hnext := next_le_start hyear.symm hlt
    omega

/-- The months from March, by the days from the first of March. -/
theorem march_number {day : Int} (h : 0 ≤ day) (h' : day < 306) :
    1 ≤ (5 * day + 2) / 153 + 3 ∧ (5 * day + 2) / 153 + 3 ≤ 12 := by
  omega

theorem yearStart_march (year : Int) :
    yearStart (year + 1) = yearStart year + march year + 306 := by
  rw [yearStart_succ, march]
  split <;> omega

/-- The month of a day. -/
def containing (day : Int) : Month :=
  if day < yearStart (yearOf day) + 31 then ⟨yearOf day, 1, by decide⟩
  else if h : day < yearStart (yearOf day) + march (yearOf day) then ⟨yearOf day, 2, by decide⟩
  else {
    year := yearOf day
    number := (5 * (day - yearStart (yearOf day) - march (yearOf day)) + 2) / 153 + 3
    valid := by
      have hlt := (yearOf_spec day).2
      rw [yearStart_march] at hlt
      exact march_number (by omega) (by omega) }

theorem containing_spec (day : Int) :
    (containing day).start ≤ day ∧ day < (containing day).next.start := by
  obtain ⟨hle, hlt⟩ := yearOf_spec day
  rw [yearStart_march] at hlt
  rw [start_next, containing]
  split
  · next hfirst =>
    rw [start, if_pos (by dsimp only; omega)]
    change _ ≤ day ∧ day < _ + 31
    dsimp only
    omega
  · split
    · next hsecond =>
      have hlength : (⟨yearOf day, 2, by decide⟩ : Month).length = march (yearOf day) - 31 := by
        rw [length, if_pos rfl, march]
        split <;> rfl
      rw [hlength, start, if_pos (by dsimp only; omega)]
      dsimp only
      omega
    · next hlater =>
      rw [← start_next]
      constructor
      · rw [start, if_neg (by dsimp only; omega)]
        dsimp only
        omega
      · by_cases hlast :
            (5 * (day - yearStart (yearOf day) - march (yearOf day)) + 2) / 153 + 3 = 12
        · rw [next, dif_pos hlast]
          change day < yearStart (yearOf day + 1) + 0
          rw [yearStart_march]
          omega
        · rw [next_start hlast, if_neg (by dsimp only; omega)]
          dsimp only
          omega

theorem containing_iff {day : Int} {m : Month} :
    m.start ≤ day ∧ day < m.next.start ↔ containing day = m := by
  constructor
  · exact unique (containing_spec day)
  · rintro rfl
    exact containing_spec day

end Month

/-- The day one month later, or the last of that month if it has no such day. -/
def monthLater (day : Int) : Int :=
  (Month.containing day).next.start +
    min (day - (Month.containing day).start) ((Month.containing day).next.length - 1)

theorem monthLater_start (m : Month) : monthLater m.start = m.next.start := by
  have hm : Month.containing m.start = m := by
    have hlength := m.length_pos
    rw [← Month.containing_iff, Month.start_next]
    omega
  have hlength := m.next.length_pos
  rw [monthLater, hm]
  omega

end Calendar
