import Mathlib.Order.Lattice
import Mathlib.Data.Set.Function

namespace Sql
set_option autoImplicit true

/-- A partition of a table, for the keys from `lower` to below `upper`. -/
structure Partition (κ ρ : Type) where
  name : String
  lower : κ
  upper : κ
  rows : List ρ
  deriving DecidableEq, Repr

/-- A table that is partitioned by ranges of a key, with a default partition. -/
structure Partitioned (κ ρ : Type) where
  partitions : List (Partition κ ρ)
  default : List ρ
  deriving DecidableEq, Repr

/-- Why a partition is not created. -/
inductive Refusal where
  | emptyRange
  | overlap
  | defaultRows
  deriving DecidableEq, Repr

section
variable {κ ρ ι : Type} [LinearOrder κ]

def Partition.Covers (p : Partition κ ρ) (k : κ) : Prop := p.lower ≤ k ∧ k < p.upper

instance (p : Partition κ ρ) (k : κ) : Decidable (p.Covers k) :=
  inferInstanceAs (Decidable (p.lower ≤ k ∧ k < p.upper))

namespace Partitioned

def rows (t : Partitioned κ ρ) : List ρ := t.partitions.flatMap (·.rows) ++ t.default

/-- Some partition takes the key. -/
def Covers (t : Partitioned κ ρ) (k : κ) : Prop := ∃ p ∈ t.partitions, p.Covers k

section
variable (key : ρ → κ)

/-- `CREATE TABLE IF NOT EXISTS name PARTITION OF t FOR VALUES FROM (lower) TO (upper)`: the
partition that comes to the table, if any. -/
def create (t : Partitioned κ ρ) (name : String) (lower upper : κ) :
    Except Refusal (Option (Partition κ ρ)) :=
  if ∃ p ∈ t.partitions, p.name = name then .ok none
  else if upper ≤ lower then .error .emptyRange
  else if ∃ p ∈ t.partitions, lower < p.upper ∧ p.lower < upper then .error .overlap
  else if ∃ row ∈ t.default, lower ≤ key row ∧ key row < upper then .error .defaultRows
  else .ok (some ⟨name, lower, upper, []⟩)

def attach (t : Partitioned κ ρ) : Option (Partition κ ρ) → Partitioned κ ρ
  | none => t
  | some p => { t with partitions := t.partitions ++ [p] }

/-- The row goes to the partition that takes its key. -/
def route (row : ρ) : List (Partition κ ρ) → Option (List (Partition κ ρ))
  | [] => none
  | p :: rest =>
    if p.Covers (key row) then some ({ p with rows := p.rows ++ [row] } :: rest)
    else (route row rest).map (p :: ·)

/-- `INSERT` -/
def insert (t : Partitioned κ ρ) (row : ρ) : Partitioned κ ρ :=
  match route key row t.partitions with
  | some partitions => { t with partitions }
  | none => { t with default := t.default ++ [row] }

/-- `UPDATE` of other columns than the key. -/
def update (t : Partitioned κ ρ) (f : ρ → ρ) : Partitioned κ ρ where
  partitions := t.partitions.map fun p => { p with rows := p.rows.map f }
  default := t.default.map f

end
end Partitioned

/-- Ranges with names that divide the keys. -/
structure Ranges (κ ι : Type) [LinearOrder κ] where
  range : κ → ι
  lower : ι → κ
  upper : ι → κ
  name : ι → String
  lower_lt : ∀ i, lower i < upper i
  range_iff : ∀ {k i}, lower i ≤ k ∧ k < upper i ↔ range k = i

section
variable (R : Ranges κ ι) (key : ρ → κ)

/-- The partition of a range. -/
structure Partition.IsOf (p : Partition κ ρ) (i : ι) : Prop where
  name : p.name = R.name i
  lower : p.lower = R.lower i
  upper : p.upper = R.upper i
  rows : ∀ row ∈ p.rows, R.range (key row) = i

/-- Every partition is the one of a range in `S`, and the default partition is empty. -/
structure Partitioned.Sound (S : Set ι) (t : Partitioned κ ρ) : Prop where
  isOf : ∀ p ∈ t.partitions, ∃ i ∈ S, p.IsOf R key i
  disjoint : t.partitions.Pairwise fun p q => ∀ k, ¬(p.Covers k ∧ q.Covers k)
  default : t.default = []

end

section
variable {R : Ranges κ ι} {key : ρ → κ} {S : Set ι} {t : Partitioned κ ρ} {i j : ι} {k : κ}
  {row : ρ} {p q : Partition κ ρ}

theorem Ranges.eq_of_overlap (h : R.lower i < R.upper j) (h' : R.lower j < R.upper i) : i = j := by
  have hi : R.range (max (R.lower i) (R.lower j)) = i :=
    R.range_iff.1 ⟨le_max_left _ _, max_lt (R.lower_lt i) h'⟩
  have hj : R.range (max (R.lower i) (R.lower j)) = j :=
    R.range_iff.1 ⟨le_max_right _ _, max_lt h (R.lower_lt j)⟩
  exact hi.symm.trans hj

theorem Partition.IsOf.covers (h : p.IsOf R key i) : p.Covers k ↔ R.range k = i := by
  rw [Covers, h.lower, h.upper, R.range_iff]

theorem Partition.IsOf.disjoint (h : p.IsOf R key i) (h' : q.IsOf R key j) (hne : i ≠ j) (k : κ) :
    ¬(p.Covers k ∧ q.Covers k) := by
  rintro ⟨hp, hq⟩
  exact hne ((h.covers.1 hp).symm.trans (h'.covers.1 hq))

namespace Partitioned

theorem covers_attach (new : Option (Partition κ ρ)) (h : t.Covers k) :
    (t.attach new).Covers k := by
  cases new with
  | none => exact h
  | some p =>
    obtain ⟨q, hq, hcovers⟩ := h
    exact ⟨q, List.mem_append_left _ hq, hcovers⟩

theorem rows_attach_create {name : String} {lower upper : κ} {new : Option (Partition κ ρ)}
    (h : t.create key name lower upper = .ok new) : (t.attach new).rows = t.rows := by
  rw [create] at h
  split at h
  · cases h
    rfl
  · split at h
    · cases h
    · split at h
      · cases h
      · split at h
        · cases h
        · cases h
          simp [rows, attach]

/-- A table whose ranges have different names takes the partition of a further range, or has it. -/
theorem Sound.create (h : t.Sound R key S) (hinj : Set.InjOn R.name S) (hi : i ∈ S) :
    ∃ new, t.create key (R.name i) (R.lower i) (R.upper i) = .ok new ∧
      (t.attach new).Sound R key S ∧ ∃ p ∈ (t.attach new).partitions, p.IsOf R key i := by
  by_cases hname : ∃ p ∈ t.partitions, p.name = R.name i
  · refine ⟨none, if_pos hname, h, ?_⟩
    obtain ⟨p, hp, hpname⟩ := hname
    obtain ⟨j, hj, hof⟩ := h.isOf p hp
    have hji : j = i := hinj hj hi (hof.name.symm.trans hpname)
    exact ⟨p, hp, hji ▸ hof⟩
  · have hother : ∀ p ∈ t.partitions, ∀ j, p.IsOf R key j → j ≠ i := by
      rintro p hp j hof rfl
      exact hname ⟨p, hp, hof.name⟩
    have hnew : (⟨R.name i, R.lower i, R.upper i, []⟩ : Partition κ ρ).IsOf R key i :=
      ⟨rfl, rfl, rfl, fun _ hrow => by cases hrow⟩
    refine ⟨some ⟨R.name i, R.lower i, R.upper i, []⟩, ?_, ?_, _, List.mem_append_right _
      (List.mem_singleton.2 rfl), hnew⟩
    · rw [Partitioned.create, if_neg hname, if_neg (not_le.2 (R.lower_lt i)), if_neg, if_neg]
      · rw [h.default]
        rintro ⟨row, hrow, _⟩
        cases hrow
      · rintro ⟨p, hp, hlower, hupper⟩
        obtain ⟨j, _, hof⟩ := h.isOf p hp
        rw [hof.upper] at hlower
        rw [hof.lower] at hupper
        exact hother p hp j hof (R.eq_of_overlap hupper hlower)
    · constructor
      · intro p hp
        rcases List.mem_append.1 hp with hp | hp
        · exact h.isOf p hp
        · cases List.mem_singleton.1 hp
          exact ⟨i, hi, hnew⟩
      · apply List.pairwise_append.2
        refine ⟨h.disjoint, List.pairwise_singleton _ _, ?_⟩
        intro p hp q hq
        cases List.mem_singleton.1 hq
        obtain ⟨j, _, hof⟩ := h.isOf p hp
        exact hof.disjoint hnew (hother p hp j hof)
      · exact h.default

theorem exists_route {partitions : List (Partition κ ρ)}
    (h : ∃ p ∈ partitions, p.Covers (key row)) : ∃ pre p post, partitions = pre ++ p :: post ∧
      p.Covers (key row) ∧
      route key row partitions = some (pre ++ { p with rows := p.rows ++ [row] } :: post) := by
  induction partitions with
  | nil =>
    obtain ⟨p, hp, _⟩ := h
    cases hp
  | cons q rest ih =>
    by_cases hq : q.Covers (key row)
    · exact ⟨[], q, rest, rfl, hq, if_pos hq⟩
    · obtain ⟨p, hp, hcovers⟩ := h
      rcases List.mem_cons.1 hp with rfl | hp
      · exact absurd hcovers hq
      · obtain ⟨pre, p, post, rfl, hcovers, hroute⟩ := ih ⟨p, hp, hcovers⟩
        refine ⟨q :: pre, p, post, rfl, hcovers, ?_⟩
        rw [route, if_neg hq, hroute]
        rfl

theorem route_eq_none {partitions : List (Partition κ ρ)}
    (h : ¬∃ p ∈ partitions, p.Covers (key row)) : route key row partitions = none := by
  induction partitions with
  | nil => rfl
  | cons q rest ih =>
    rw [route, if_neg fun hq => h ⟨q, List.mem_cons_self .., hq⟩, ih]
    · rfl
    · rintro ⟨p, hp, hcovers⟩
      exact h ⟨p, List.mem_cons_of_mem _ hp, hcovers⟩

theorem insert_cases (key : ρ → κ) (t : Partitioned κ ρ) (row : ρ) :
    (∃ pre p post, t.partitions = pre ++ p :: post ∧ p.Covers (key row) ∧ t.insert key row =
        { t with partitions := pre ++ { p with rows := p.rows ++ [row] } :: post }) ∨
      ¬t.Covers (key row) ∧ t.insert key row = { t with default := t.default ++ [row] } := by
  by_cases h : t.Covers (key row)
  · obtain ⟨pre, p, post, hsplit, hcovers, hroute⟩ := exists_route h
    left
    refine ⟨pre, p, post, hsplit, hcovers, ?_⟩
    rw [insert, hroute]
  · right
    refine ⟨h, ?_⟩
    rw [insert, route_eq_none h]

theorem covers_insert : (t.insert key row).Covers k ↔ t.Covers k := by
  rcases insert_cases key t row with ⟨pre, p, post, hsplit, _, hinsert⟩ | ⟨_, hinsert⟩
  · simp only [Covers, hinsert, hsplit, List.mem_append, List.mem_cons, or_and_right, exists_or,
      exists_eq_left]
    exact Iff.rfl
  · rw [hinsert]
    exact Iff.rfl

theorem rows_insert (key : ρ → κ) (t : Partitioned κ ρ) (row : ρ) :
    (t.insert key row).rows.Perm (t.rows ++ [row]) := by
  rcases insert_cases key t row with ⟨pre, p, post, hsplit, _, hinsert⟩ | ⟨_, hinsert⟩
  · simp only [hinsert, rows, hsplit, List.flatMap_append, List.flatMap_cons, List.append_assoc]
    apply List.Perm.append_left
    apply List.Perm.append_left
    rw [← List.append_assoc (List.flatMap _ post)]
    exact List.perm_append_comm
  · rw [hinsert, rows, rows, List.append_assoc]

/-- A row for which there is a partition does not go to the default partition. -/
theorem Sound.insert (h : t.Sound R key S) (hcovers : t.Covers (key row)) :
    (t.insert key row).Sound R key S := by
  rcases insert_cases key t row with ⟨pre, p, post, hsplit, hp, hinsert⟩ | ⟨hnot, _⟩
  · rw [hinsert]
    have hmem : ∀ q, q ∈ pre ∨ q = p ∨ q ∈ post → q ∈ t.partitions := by
      intro q hq
      rw [hsplit, List.mem_append, List.mem_cons]
      exact hq
    constructor
    · intro q hq
      rw [List.mem_append, List.mem_cons] at hq
      rcases hq with hq | rfl | hq
      · exact h.isOf q (hmem q (Or.inl hq))
      · obtain ⟨i, hi, hof⟩ := h.isOf p (hmem p (Or.inr (Or.inl rfl)))
        refine ⟨i, hi, hof.name, hof.lower, hof.upper, ?_⟩
        intro row' hrow
        rcases List.mem_append.1 hrow with hrow | hrow
        · exact hof.rows row' hrow
        · cases List.mem_singleton.1 hrow
          exact hof.covers.1 hp
      · exact h.isOf q (hmem q (Or.inr (Or.inr hq)))
    · have hdisjoint := h.disjoint
      rw [hsplit] at hdisjoint
      rw [List.pairwise_append, List.pairwise_cons] at hdisjoint ⊢
      obtain ⟨hpre, ⟨hp', hpost⟩, hacross⟩ := hdisjoint
      refine ⟨hpre, ⟨hp', hpost⟩, ?_⟩
      intro q hq q' hq'
      rcases List.mem_cons.1 hq' with rfl | hq'
      · exact hacross q hq p (List.mem_cons_self ..)
      · exact hacross q hq q' (List.mem_cons_of_mem _ hq')
    · exact h.default
  · exact absurd hcovers hnot

omit [LinearOrder κ] in
theorem rows_update (f : ρ → ρ) : (t.update f).rows = t.rows.map f := by
  simp [rows, update, List.map_flatMap, List.flatMap_map]

theorem covers_update {f : ρ → ρ} : (t.update f).Covers k ↔ t.Covers k := by
  simp only [Covers, update, List.mem_map, exists_exists_and_eq_and]
  exact Iff.rfl

theorem Sound.update {f : ρ → ρ} (h : t.Sound R key S) (hf : ∀ row, key (f row) = key row) :
    (t.update f).Sound R key S := by
  constructor
  · intro q hq
    obtain ⟨p, hp, rfl⟩ := List.mem_map.1 hq
    obtain ⟨i, hi, hof⟩ := h.isOf p hp
    refine ⟨i, hi, hof.name, hof.lower, hof.upper, ?_⟩
    intro row hrow
    obtain ⟨row', hrow', rfl⟩ := List.mem_map.1 hrow
    rw [hf]
    exact hof.rows row' hrow'
  · exact List.pairwise_map.2 h.disjoint
  · change t.default.map f = []
    rw [h.default]
    rfl

/-- Every row is in the partition of its range. -/
theorem Sound.mem_rows (h : t.Sound R key S) (hrow : row ∈ t.rows) :
    ∃ p ∈ t.partitions, p.IsOf R key (R.range (key row)) ∧ row ∈ p.rows := by
  rw [rows, h.default, List.append_nil, List.mem_flatMap] at hrow
  obtain ⟨p, hp, hrow⟩ := hrow
  obtain ⟨i, _, hof⟩ := h.isOf p hp
  rw [hof.rows row hrow]
  exact ⟨p, hp, hof, hrow⟩

end Partitioned
end
end
end Sql
