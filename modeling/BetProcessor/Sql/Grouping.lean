import Mathlib.Algebra.BigOperators.Group.List.Basic
import Mathlib.Data.List.Sort
import Mathlib.Data.List.Dedup
import Mathlib.Tactic.Ring

namespace Sql
set_option autoImplicit true

section
variable {α κ : Type} [DecidableEq κ]

/-- The groups of `GROUP BY key ORDER BY key`. -/
def keys (r : κ → κ → Prop) [DecidableRel r] (key : α → κ) (rows : List α) : List κ :=
  (rows.map key).dedup.insertionSort r

/-- `sum(f)` over the group of a key. -/
def sumAt (key : α → κ) (rows : List α) (f : α → Int) (k : κ) : Int :=
  ((rows.filter (key · = k)).map f).sum

variable {r : κ → κ → Prop} [DecidableRel r] {key : α → κ} {rows rows' : List α} {f : α → Int}

theorem mem_keys {k : κ} : k ∈ keys r key rows ↔ ∃ row ∈ rows, key row = k := by
  rw [keys, List.mem_insertionSort, List.mem_dedup, List.mem_map]

theorem keys_nodup : (keys r key rows).Nodup :=
  (List.perm_insertionSort r _).nodup_iff.2 (List.nodup_dedup _)

theorem keys_pairwise [Std.Total r] [IsTrans κ r] :
    (keys r key rows).Pairwise fun k k' => r k k' ∧ k ≠ k' :=
  (List.pairwise_insertionSort r _).and keys_nodup

theorem keys_length_le : (keys r key rows).length ≤ rows.length := by
  rw [keys, List.length_insertionSort]
  exact ((List.dedup_sublist _).length_le).trans (List.length_map ..).le

theorem sumAt_cons (row : α) (k : κ) :
    sumAt key (row :: rows) f k = (if key row = k then f row else 0) + sumAt key rows f k := by
  rw [sumAt, List.filter_cons]
  by_cases hk : key row = k
  · simp [sumAt, hk]
  · simp [sumAt, hk]

theorem sumAt_append (k : κ) :
    sumAt key (rows ++ rows') f k = sumAt key rows f k + sumAt key rows' f k := by
  rw [sumAt, List.filter_append, List.map_append, List.sum_append]
  rfl

theorem sumAt_perm (h : rows.Perm rows') (k : κ) : sumAt key rows f k = sumAt key rows' f k :=
  ((h.filter _).map f).sum_eq

theorem sumAt_eq_zero {k : κ} (h : ∀ row ∈ rows, key row ≠ k) : sumAt key rows f k = 0 := by
  rw [sumAt, List.filter_eq_nil_iff.2 (by simpa using h)]
  rfl

theorem sumAt_map {ks : List κ} (hks : ks.Nodup) {g : κ → α} (hg : ∀ k, key (g k) = k) (k : κ) :
    sumAt key (ks.map g) f k = if k ∈ ks then f (g k) else 0 := by
  induction ks with
  | nil => rfl
  | cons k' ks ih =>
    have hks := List.nodup_cons.1 hks
    rw [List.map_cons, sumAt_cons, hg, ih hks.2]
    by_cases hk : k' = k
    · subst hk
      simp [hks.1]
    · simp [hk, Ne.symm hk]

theorem sum_sumAt {ks : List κ} (hks : ks.Nodup) (h : ∀ row ∈ rows, key row ∈ ks) :
    (ks.map (sumAt key rows f)).sum = (rows.map f).sum := by
  induction rows with
  | nil =>
    apply List.sum_eq_zero
    intro x hx
    obtain ⟨k, _, rfl⟩ := List.mem_map.1 hx
    rfl
  | cons row rows ih =>
    have hsplit : ks.map (sumAt key (row :: rows) f) = ks.map fun k =>
        (if key row = k then f row else 0) + sumAt key rows f k := by
      apply List.map_congr_left
      intro k _
      exact sumAt_cons row k
    have hone : (ks.map fun k => if key row = k then f row else 0).sum = f row := by
      rw [List.sum_map_eq_nsmul_single (key row) _ fun k hk _ => if_neg hk.symm,
        List.count_eq_one_of_mem hks (h row (List.mem_cons_self ..)), one_nsmul, if_pos rfl]
    rw [hsplit, List.sum_map_add, hone, ih fun row hrow => h row (List.mem_cons_of_mem _ hrow),
      List.map_cons, List.sum_cons]

/-- The groups neither lose nor double a row. -/
theorem sum_groups : ((keys r key rows).map (sumAt key rows f)).sum = (rows.map f).sum :=
  sum_sumAt keys_nodup fun row hrow => mem_keys.2 ⟨row, hrow, rfl⟩

end

section
variable {β : Type} {l : List β} {limit : Nat}

/-- `LIMIT limit OFFSET offset`. -/
def page (limit offset : Nat) (l : List β) : List β := (l.drop offset).take limit

/-- Pages fetched one after the other from an offset until an empty one. -/
inductive Pages (fetch : Nat → Option (List β)) (limit : Nat) : Nat → List β → Prop
  | last {offset : Nat} : fetch offset = some [] → Pages fetch limit offset []
  | next {offset : Nat} {items rest : List β} : fetch offset = some items → items ≠ [] →
      Pages fetch limit (offset + limit) rest → Pages fetch limit offset (items ++ rest)

/-- The pages of a list are the list, when every page up to its end can be fetched. -/
theorem pages_drop {fetch : Nat → Option (List β)} (hlimit : 0 < limit) {offset : Nat}
    (h : ∀ o < l.length + limit, fetch o = some (page limit o l))
    (hoffset : offset < l.length + limit) : Pages fetch limit offset (l.drop offset) := by
  induction hn : l.length - offset using Nat.strong_induction_on generalizing offset with
  | h n ih =>
    subst hn
    by_cases hend : l.length ≤ offset
    · rw [List.drop_eq_nil_of_le hend]
      apply Pages.last
      rw [h offset hoffset, page, List.drop_eq_nil_of_le hend, List.take_nil]
    · have hsplit : page limit offset l ++ l.drop (offset + limit) = l.drop offset := by
        rw [page, ← List.drop_drop, List.take_append_drop]
      rw [← hsplit]
      apply Pages.next (h offset hoffset)
      · rw [page, ne_eq, List.take_eq_nil_iff, List.drop_eq_nil_iff]
        omega
      · apply ih (l.length - (offset + limit))
        · omega
        · omega
        · rfl

end
end Sql
