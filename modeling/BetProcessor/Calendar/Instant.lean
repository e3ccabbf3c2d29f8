import Mathlib.Data.Nat.Digits.Defs
import BetProcessor.Calendar.Gregorian

namespace Calendar
set_option autoImplicit true

theorem Month.length_le (m : Month) : m.length ≤ 31 := by
  rw [length]
  split
  · split <;> decide
  · split <;> decide

/-- A moment of a day in UTC, to the millisecond. -/
structure DateTime where
  month : Month
  day : Nat
  hour : Nat
  minute : Nat
  second : Nat
  milli : Nat
  valid_day : 1 ≤ day ∧ (day : Int) ≤ month.length
  valid_time : hour < 24 ∧ minute < 60 ∧ second < 60 ∧ milli < 1000
  deriving DecidableEq

namespace DateTime

/-- The milliseconds since 1970-01-01. -/
def millis (d : DateTime) : Int :=
  (((d.month.start + d.day - 1) * 24 + d.hour) * 60 + d.minute) * 60000 + d.second * 1000 + d.milli

def ofMillis (t : Int) : DateTime where
  month := .containing (t / 86400000)
  day := (t / 86400000 - (Month.containing (t / 86400000)).start).toNat + 1
  hour := (t % 86400000 / 3600000).toNat
  minute := (t % 3600000 / 60000).toNat
  second := (t % 60000 / 1000).toNat
  milli := (t % 1000).toNat
  valid_day := by
    obtain ⟨hle, hlt⟩ := Month.containing_spec (t / 86400000)
    rw [Month.start_next] at hlt
    omega
  valid_time := by omega

theorem millis_ofMillis (t : Int) : (ofMillis t).millis = t := by
  obtain ⟨hle, _⟩ := Month.containing_spec (t / 86400000)
  simp only [millis, ofMillis]
  generalize (Month.containing (t / 86400000)).start = start at hle
  omega

/-- The last `k` decimal digits of a number. -/
def digits : Nat → Nat → List Char
  | 0, _ => []
  | k + 1, n => digits k (n / 10) ++ [Nat.digitChar (n % 10)]

/-- The text of ISO 8601, with four digits for the year. -/
def text (d : DateTime) : List Char :=
  digits 4 d.month.year.toNat ++ '-' :: digits 2 d.month.number.toNat ++ '-' :: digits 2 d.day ++
    'T' :: digits 2 d.hour ++ ':' :: digits 2 d.minute ++ ':' :: digits 2 d.second ++
    '.' :: digits 3 d.milli ++ [ 'Z']

/-- The year has at most four digits and is of the common era. -/
def IsCommon (d : DateTime) : Prop := 1 ≤ d.month.year ∧ d.month.year ≤ 9999

instance (d : DateTime) : Decidable d.IsCommon := inferInstanceAs (Decidable (_ ∧ _))

/-- A reader of instants, in microseconds since 1970-01-01, knows the texts of ISO 8601. -/
def IsReader (read : List Char → Option Int) : Prop :=
  ∀ d : DateTime, d.IsCommon → read d.text = some (1000 * d.millis)

/-- The number that some digits stand for. -/
def number (cs : List Char) : Option Nat :=
  if cs.all Char.isDigit then some (Nat.ofDigitChars 10 cs 0) else none

/-- The instant of some fields, when there is such a date and time. -/
def ofFields (year month day hour minute second milli : Nat) : Option DateTime :=
  if hmonth : 1 ≤ (month : Int) ∧ (month : Int) ≤ 12 then
    if hday : 1 ≤ day ∧ (day : Int) ≤ (Month.mk year month hmonth).length then
      if htime : hour < 24 ∧ minute < 60 ∧ second < 60 ∧ milli < 1000 then
        some ⟨⟨year, month, hmonth⟩, day, hour, minute, second, milli, hday, htime⟩
      else none
    else none
  else none

def readText : List Char → Option Int
  | [y₁, y₂, y₃, y₄, '-', m₁, m₂, '-', d₁, d₂, 'T', h₁, h₂, ':', i₁, i₂, ':', s₁, s₂, '.', f₁, f₂,
      f₃, 'Z'] => do
    let d ← ofFields (← number [y₁, y₂, y₃, y₄]) (← number [m₁, m₂]) (← number [d₁, d₂])
      (← number [h₁, h₂]) (← number [i₁, i₂]) (← number [s₁, s₂]) (← number [f₁, f₂, f₃])
    return 1000 * d.millis
  | _ => none

theorem digits_isDigit (k n : Nat) : (digits k n).all Char.isDigit := by
  induction k generalizing n with
  | zero => rfl
  | succ k ih =>
    have hdigit : ∀ d < 10, (Nat.digitChar d).isDigit = true := by decide
    rw [digits, List.all_append, ih, List.all_cons, hdigit _ (Nat.mod_lt _ (by decide))]
    rfl

theorem number_digits {k n : Nat} (h : n < 10 ^ k) : number (digits k n) = some n := by
  rw [number, if_pos (digits_isDigit k n)]
  congr 1
  induction k generalizing n with
  | zero =>
    rw [Nat.pow_zero, Nat.lt_one_iff] at h
    rw [h]
    rfl
  | succ k ih =>
    have hchar : ∀ d < 10, (Nat.digitChar d).toNat - '0'.toNat = d := by decide
    have hhigh : n / 10 < 10 ^ k := by
      rw [Nat.pow_succ] at h
      omega
    rw [digits, Nat.ofDigitChars_append, ih hhigh, Nat.ofDigitChars_cons, Nat.ofDigitChars_nil,
      hchar _ (Nat.mod_lt _ (by decide))]
    omega

theorem number_toDigits (n : Nat) : number (Nat.toDigits 10 n) = some n := by
  have hdigits : (Nat.toDigits 10 n).all Char.isDigit := by
    rw [List.all_eq_true]
    intro c hc
    exact Nat.isDigit_of_mem_toDigits (by decide) (by decide) hc
  rw [number, if_pos hdigits, Nat.ofDigitChars_toDigits (by decide) (by decide)]

theorem ofFields_fields (d : DateTime) (h : d.IsCommon) :
    ofFields d.month.year.toNat d.month.number.toNat d.day d.hour d.minute d.second d.milli =
      some d := by
  obtain ⟨month, day, hour, minute, second, milli, hday, htime⟩ := d
  obtain ⟨year, number, hnumber⟩ := month
  obtain ⟨y, rfl⟩ := Int.eq_ofNat_of_zero_le (Int.le_trans (by decide) h.1)
  obtain ⟨m, rfl⟩ := Int.eq_ofNat_of_zero_le (Int.le_trans (by decide) hnumber.1)
  simp only [ofFields, Int.toNat_natCast]
  rw [dif_pos hnumber, dif_pos hday, dif_pos htime]

theorem readText_isReader : IsReader readText := by
  intro d h
  have hyear : d.month.year.toNat < 10 ^ 4 := by
    have := h.2
    omega
  have hnumber : d.month.number.toNat < 10 ^ 2 := by
    have := d.month.valid
    omega
  have hday : d.day < 10 ^ 2 := by
    have := d.valid_day
    have := d.month.length_le
    omega
  obtain ⟨hhour, hminute, hsecond, hmilli⟩ := d.valid_time
  change (do
    let d ← ofFields (← number (digits 4 d.month.year.toNat))
      (← number (digits 2 d.month.number.toNat)) (← number (digits 2 d.day))
      (← number (digits 2 d.hour)) (← number (digits 2 d.minute)) (← number (digits 2 d.second))
      (← number (digits 3 d.milli))
    return 1000 * d.millis) = _
  rw [number_digits hyear, number_digits hnumber, number_digits hday, number_digits (by omega),
    number_digits (by omega), number_digits (by omega), number_digits (by omega)]
  simp only [Option.bind_eq_bind, Option.bind_some, ofFields_fields d h]
  rfl

end DateTime
end Calendar
