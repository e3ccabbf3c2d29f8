import BetProcessor.Calendar.Gregorian
import BetProcessor.Sql.Partitions
import BetProcessor.Schema

namespace BetProcessor
set_option autoImplicit true
open Calendar
open Sql

/-- A day in the microseconds of a `timestamptz`. -/
abbrev dayLength : Int := 86400000000

/-- The instant is a `timestamptz`: from 4714-11-24 BC to the end of the year 294276. -/
def IsTimestamp (at_ : Int) : Prop := -2440588 * dayLength ≤ at_ ∧ at_ < 106762940 * dayLength

instance (at_ : Int) : Decidable (IsTimestamp at_) :=
  inferInstanceAs (Decidable (-2440588 * dayLength ≤ at_ ∧ at_ < 106762940 * dayLength))

example : (Month.mk 294277 1 (by decide)).start = 106762940 := by decide

/-- The month of an instant, in UTC. -/
def monthOf (at_ : Int) : Month := Month.containing (at_ / dayLength)

/-- `date_trunc('month', at_)` -/
def dateTrunc (at_ : Int) : Int := (monthOf at_).start * dayLength

/-- `at_ + interval '1 month'` -/
def plusMonth (at_ : Int) : Int := monthLater (at_ / dayLength) * dayLength + at_ % dayLength

/-- A number with zeros in front of it, up to a width. -/
def zeroPadded (width n : Nat) : List Char :=
  List.replicate (width - (Nat.toDigits 10 n).length) '0' ++ Nat.toDigits 10 n

/-- The year without its era. -/
def yearNumber (year : Int) : Nat := (if year ≤ 0 then 1 - year else year).toNat

/-- `YYYY_MM` of a month. -/
def yearMonth (m : Month) : List Char :=
  zeroPadded 4 (yearNumber m.year) ++ '_' :: zeroPadded 2 m.number.toNat

/-- `to_char(at_, 'YYYY_MM')` -/
def toChar (at_ : Int) : String := String.ofList (yearMonth (monthOf at_))

/-- What stops `ensure_actions_month_partition`. -/
inductive PartitionError where
  | timestampOutOfRange
  | refused (refusal : Refusal)
  deriving DecidableEq, Repr

/-- `ensure_actions_month_partition` on the ledger: the partition that comes to it, if any. -/
def ensureActionsMonthPartition (actions : Partitioned Int ActionRow) (partitionTs : Int) :
    Except PartitionError (Option (Partition Int ActionRow)) :=
  let partitionStart := dateTrunc partitionTs
  let partitionEnd := plusMonth (dateTrunc partitionTs)
  let partitionName := "actions_" ++ toChar partitionStart
  if ¬IsTimestamp partitionStart ∨ ¬IsTimestamp partitionEnd then .error .timestampOutOfRange
  else if ∃ p ∈ actions.partitions, p.name = partitionName then .ok none
  else
    match actions.create (·.createdAt) partitionName partitionStart partitionEnd with
    | .ok new => .ok new
    | .error refusal => .error (.refused refusal)

/-- The other month of the same number that has the same `YYYY`. -/
def Mirrored (m m' : Month) : Prop := m.year + m'.year = 1 ∧ m.number = m'.number

theorem ofDigitChars_zeroPadded (width n : Nat) :
    Nat.ofDigitChars 10 (zeroPadded width n) 0 = n := by
  rw [zeroPadded, Nat.ofDigitChars_append, Nat.ofDigitChars_replicate_zero, Nat.mul_zero,
    Nat.ofDigitChars_ten_toDigits]

theorem zeroPadded_inj {width n n' : Nat} (h : zeroPadded width n = zeroPadded width n') :
    n = n' := by
  rw [← ofDigitChars_zeroPadded width n, h, ofDigitChars_zeroPadded]

theorem underscore_zeroPadded (width n : Nat) : '_' ∉ zeroPadded width n := by
  rw [zeroPadded, List.mem_append, not_or]
  constructor
  · intro h
    cases (List.mem_replicate.1 h).2
  · exact Nat.underscore_not_in_toDigits

theorem yearNumber_eq {year year' : Int} :
    yearNumber year = yearNumber year' ↔ year = year' ∨ year + year' = 1 := by
  rw [yearNumber, yearNumber]
  split <;> split <;> omega

/-- `YYYY_MM` gives the month but for the era. -/
theorem yearMonth_eq {m m' : Month} : yearMonth m = yearMonth m' ↔ m = m' ∨ Mirrored m m' := by
  have hvalid := m.valid
  have hvalid' := m'.valid
  rw [yearMonth, yearMonth, List.append_cons_inj_of_notMem (underscore_zeroPadded 4 _)
    (underscore_zeroPadded 2 _), Mirrored]
  constructor
  · rintro ⟨hyear, _, hnumber⟩
    have heq : m.number = m'.number := by
      have h := zeroPadded_inj hnumber
      omega
    rcases yearNumber_eq.1 (zeroPadded_inj hyear) with h | h
    · exact Or.inl (Month.ext_of_number h heq)
    · exact Or.inr ⟨h, heq⟩
  · rintro (rfl | ⟨hyear, hnumber⟩)
    · exact ⟨rfl, rfl, rfl⟩
    · rw [yearNumber_eq.2 (Or.inr hyear), hnumber]
      exact ⟨rfl, rfl, rfl⟩

theorem monthOf_iff {at_ : Int} {m : Month} :
    m.start * dayLength ≤ at_ ∧ at_ < m.next.start * dayLength ↔ monthOf at_ = m := by
  rw [monthOf, ← Month.containing_iff, Int.le_ediv_iff_mul_le (by decide),
    Int.ediv_lt_iff_lt_mul (by decide)]

theorem start_lt_next (m : Month) : m.start * dayLength < m.next.start * dayLength := by
  have hlength := m.length_pos
  apply Int.mul_lt_mul_of_pos_right
  · rw [Month.start_next]
    omega
  · decide

theorem monthOf_start (m : Month) : monthOf (m.start * dayLength) = m :=
  monthOf_iff.1 ⟨le_refl _, start_lt_next m⟩

/-- The partitions of the ledger: the months, half-open, each under its own name. -/
def months : Ranges Int Month where
  range := monthOf
  lower m := m.start * dayLength
  upper m := m.next.start * dayLength
  name m := "actions_" ++ String.ofList (yearMonth m)
  lower_lt := start_lt_next
  range_iff := monthOf_iff

theorem months_name_eq {m m' : Month} :
    months.name m = months.name m' ↔ m = m' ∨ Mirrored m m' := by
  rw [← yearMonth_eq]
  constructor
  · intro h
    have hlist := congrArg String.toList h
    simp only [months, String.toList_append, String.toList_ofList] at hlist
    exact List.append_cancel_left hlist
  · intro h
    simp only [months, h]

example : months.name ⟨2026, 6, by decide⟩ = "actions_2026_06" := by decide +kernel

theorem plusMonth_dateTrunc (at_ : Int) :
    plusMonth (dateTrunc at_) = (monthOf at_).next.start * dayLength := by
  rw [plusMonth, dateTrunc, Int.mul_ediv_cancel _ (by decide), Int.mul_emod_left, Int.add_zero,
    monthLater_start]

theorem toChar_dateTrunc (at_ : Int) :
    "actions_" ++ toChar (dateTrunc at_) = months.name (monthOf at_) := by
  rw [toChar, dateTrunc, monthOf_start]
  rfl

/-- The month of the instant begins and ends within the `timestamptz` values. -/
def Representable (at_ : Int) : Prop :=
  IsTimestamp (months.lower (monthOf at_)) ∧ IsTimestamp (months.upper (monthOf at_))

theorem ensure_eq (actions : Partitioned Int ActionRow) {at_ : Int} (h : Representable at_) :
    ensureActionsMonthPartition actions at_ =
      match actions.create (·.createdAt) (months.name (monthOf at_)) (months.lower (monthOf at_))
        (months.upper (monthOf at_)) with
      | .ok new => .ok new
      | .error refusal => .error (.refused refusal) := by
  have hstart : dateTrunc at_ = months.lower (monthOf at_) := rfl
  have hend : plusMonth (dateTrunc at_) = months.upper (monthOf at_) := plusMonth_dateTrunc at_
  rw [ensureActionsMonthPartition]
  rw [toChar_dateTrunc, hend, hstart, if_neg]
  · by_cases hname : ∃ p ∈ actions.partitions, p.name = months.name (monthOf at_)
    · rw [if_pos hname, Partitioned.create, if_pos hname]
    · rw [if_neg hname]
  · rw [not_or, not_not, not_not]
    exact h

theorem ensure_unrepresentable (actions : Partitioned Int ActionRow) {at_ : Int}
    (h : ¬Representable at_) :
    ensureActionsMonthPartition actions at_ = .error .timestampOutOfRange := by
  apply if_pos
  rw [plusMonth_dateTrunc]
  exact not_and_or.1 h

/-- No two instants lie in months of the same name in different eras. -/
def OneEra (instants : Set Int) : Prop :=
  ∀ at_ ∈ instants, ∀ at' ∈ instants, ¬Mirrored (monthOf at_) (monthOf at')

theorem OneEra.injOn {instants : Set Int} (h : OneEra instants) :
    Set.InjOn months.name (monthOf '' instants) := by
  rintro _ ⟨at_, hat, rfl⟩ _ ⟨at', hat', rfl⟩ hname
  exact (months_name_eq.1 hname).resolve_right (h at_ hat at' hat')

theorem oneEra_of_le {instants : Set Int} (h : ∀ at_ ∈ instants, -719162 * dayLength ≤ at_) :
    OneEra instants := by
  have hyear : ∀ at_ ∈ instants, 1 ≤ (monthOf at_).year := by
    intro at_ hat
    obtain ⟨_, hlt⟩ := (monthOf_iff (m := monthOf at_)).2 rfl
    have hle := Month.next_le_year (monthOf at_)
    have hday := h at_ hat
    simp only [yearStart, dayLength] at hle hlt hday
    omega
  rintro at_ hat at' hat' ⟨hsum, _⟩
  have h₁ := hyear at_ hat
  have h₂ := hyear at' hat'
  omega

section
variable {actions : Partitioned Int ActionRow} {instants : Set Int} {at_ : Int}

/-- The ledger's partitions are months of some instants, and the default partition is empty. -/
abbrev SoundPartitions (instants : Set Int) (actions : Partitioned Int ActionRow) : Prop :=
  actions.Sound months (·.createdAt) (monthOf '' instants)

/-- On sound partitions nothing is refused, and the instant has the partition of its month. -/
theorem SoundPartitions.ensure (h : SoundPartitions instants actions) (hone : OneEra instants)
    (hat : at_ ∈ instants) (hrep : Representable at_) :
    ∃ new, ensureActionsMonthPartition actions at_ = .ok new ∧
      SoundPartitions instants (actions.attach new) ∧ (actions.attach new).rows = actions.rows ∧
      ∃ p ∈ (actions.attach new).partitions, p.IsOf months (·.createdAt) (monthOf at_) := by
  obtain ⟨new, hnew, hsound, hp⟩ := Partitioned.Sound.create h hone.injOn ⟨at_, hat, rfl⟩
  refine ⟨new, ?_, hsound, Partitioned.rows_attach_create hnew, hp⟩
  rw [ensure_eq actions hrep, hnew]

end
end BetProcessor
