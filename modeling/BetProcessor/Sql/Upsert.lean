import Mathlib.Data.List.Nodup

namespace Sql
set_option autoImplicit true

section
variable {α κ : Type} [DecidableEq κ] (key : α → κ)

/-- `INSERT … ON CONFLICT (key) DO UPDATE` on a table with this key, when the update sets every
column outside of it: the row takes the place of the one with its key. -/
def upsert (new : α) : List α → List α
  | [] => [new]
  | row :: rows => if key row = key new then new :: rows else row :: upsert new rows

def upsertAll (news rows : List α) : List α := news.foldl (fun rows new => upsert key new rows) rows

variable {key} {rows news : List α} {new : α} {k : κ}

theorem mem_upsert_keys : k ∈ (upsert key new rows).map key ↔ k = key new ∨ k ∈ rows.map key := by
  induction rows with
  | nil => simp [upsert]
  | cons row rows ih =>
    rw [upsert]
    split
    · next heq => simp [heq]
    · rw [List.map_cons, List.mem_cons, ih, List.map_cons, List.mem_cons]
      exact or_left_comm

theorem mem_upsert {row : α} (h : row ∈ upsert key new rows) : row = new ∨ row ∈ rows := by
  induction rows with
  | nil => exact Or.inl (List.mem_singleton.1 h)
  | cons row' rows ih =>
    rw [upsert] at h
    split at h
    · exact (List.mem_cons.1 h).imp_right (List.mem_cons_of_mem _)
    · rcases List.mem_cons.1 h with rfl | h
      · exact Or.inr (List.mem_cons_self ..)
      · exact (ih h).imp_right (List.mem_cons_of_mem _)

theorem upsert_nodup (h : (rows.map key).Nodup) : ((upsert key new rows).map key).Nodup := by
  induction rows with
  | nil => exact List.nodup_singleton _
  | cons row rows ih =>
    obtain ⟨hrow, hrows⟩ := List.nodup_cons.1 h
    rw [upsert]
    split
    · next heq =>
      rw [List.map_cons, ← heq]
      exact h
    · next hne =>
      rw [List.map_cons, List.nodup_cons, mem_upsert_keys]
      exact ⟨not_or.2 ⟨hne, hrow⟩, ih hrows⟩

theorem find?_upsert : (upsert key new rows).find? (key · = k) =
    if key new = k then some new else rows.find? (key · = k) := by
  induction rows with
  | nil =>
    rw [upsert, List.find?_singleton]
    simp only [decide_eq_true_eq]
    rfl
  | cons row rows ih =>
    rw [upsert]
    by_cases heq : key row = key new
    · rw [if_pos heq]
      by_cases hk : key new = k
      · simp [hk]
      · simp [heq, hk]
    · rw [if_neg heq, List.find?_cons, List.find?_cons, ih]
      by_cases hk : key new = k
      · have hne : ¬ key row = k := fun hk' => heq (hk'.trans hk.symm)
        simp [hk, hne]
      · simp [hk]

theorem upsert_self (h : rows.find? (key · = key new) = some new) : upsert key new rows = rows := by
  induction rows with
  | nil => cases h
  | cons row rows ih =>
    rw [List.find?_cons] at h
    rw [upsert]
    by_cases heq : key row = key new
    · rw [decide_eq_true heq] at h
      rw [if_pos heq, Option.some.inj h]
    · rw [decide_eq_false heq] at h
      rw [if_neg heq, ih h]

theorem upsertAll_cons :
    upsertAll key (new :: news) rows = upsertAll key news (upsert key new rows) := rfl

theorem upsertAll_append {news' : List α} :
    upsertAll key (news ++ news') rows = upsertAll key news' (upsertAll key news rows) :=
  List.foldl_append

theorem mem_upsertAll {row : α} (h : row ∈ upsertAll key news rows) :
    row ∈ news ∨ row ∈ rows := by
  induction news generalizing rows with
  | nil => exact Or.inr h
  | cons new news ih =>
    rcases ih h with h | h
    · exact Or.inl (List.mem_cons_of_mem _ h)
    · rcases mem_upsert h with rfl | h
      · exact Or.inl (List.mem_cons_self ..)
      · exact Or.inr h

theorem upsertAll_nodup (h : (rows.map key).Nodup) : ((upsertAll key news rows).map key).Nodup := by
  induction news generalizing rows with
  | nil => exact h
  | cons new news ih => exact ih (upsert_nodup h)

theorem find?_upsertAll (h : (news.map key).Nodup) : (upsertAll key news rows).find? (key · = k) =
    (news.find? (key · = k)).or (rows.find? (key · = k)) := by
  induction news generalizing rows with
  | nil => rfl
  | cons new news ih =>
    obtain ⟨hnew, hnews⟩ := List.nodup_cons.1 h
    rw [upsertAll_cons, ih hnews, find?_upsert, List.find?_cons]
    by_cases hk : key new = k
    · have hnone : news.find? (key · = k) = none := by
        simp only [List.find?_eq_none, decide_eq_true_eq]
        exact fun row hrow heq => hnew (List.mem_map.2 ⟨row, hrow, heq.trans hk.symm⟩)
      simp [hk, hnone]
    · simp [hk]

theorem find?_of_mem (h : (rows.map key).Nodup) {row : α} (hrow : row ∈ rows) :
    rows.find? (key · = key row) = some row := by
  have hsome : (rows.find? (key · = key row)).isSome := List.find?_isSome.2 ⟨row, hrow, by simp⟩
  obtain ⟨row', hrow'⟩ := Option.isSome_iff_exists.1 hsome
  have heq : key row' = key row := by simpa using List.find?_some hrow'
  rw [hrow', List.inj_on_of_nodup_map h (List.mem_of_find?_eq_some hrow') hrow heq]

theorem find?_upsertAll_of_mem (h : (news.map key).Nodup) (hnew : new ∈ news) :
    (upsertAll key news rows).find? (key · = key new) = some new := by
  rw [find?_upsertAll h, find?_of_mem h hnew]
  rfl

theorem upsertAll_self (h : ∀ new ∈ news, rows.find? (key · = key new) = some new) :
    upsertAll key news rows = rows := by
  induction news with
  | nil => rfl
  | cons new news ih =>
    rw [upsertAll_cons, upsert_self (h new (List.mem_cons_self ..))]
    exact ih fun new' hnew' => h new' (List.mem_cons_of_mem _ hnew')

/-- The same rows a second time change nothing. -/
theorem upsertAll_idem (h : (news.map key).Nodup) :
    upsertAll key news (upsertAll key news rows) = upsertAll key news rows := by
  apply upsertAll_self
  intro new hnew
  exact find?_upsertAll_of_mem h hnew

end
end Sql
