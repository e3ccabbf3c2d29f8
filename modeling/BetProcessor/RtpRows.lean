import BetProcessor.RtpSystem

namespace BetProcessor
set_option autoImplicit true
open Txn

theorem sumOf_map (l : List α) (g : α → β) (sel : β → Bool) (f : β → Int) :
    sumOf (l.map g) sel f = sumOf l (fun x => sel (g x)) fun x => f (g x) := by
  simp [sumOf, List.filter_map, Function.comp_def]

theorem sumOf_filter (l : List α) (p sel : α → Bool) (f : α → Int) :
    sumOf (l.filter p) sel f = sumOf l (fun x => p x && sel x) f := by
  simp [sumOf, List.filter_filter, Bool.and_comm]

theorem sumOf_sel_congr {l : List α} {sel sel' : α → Bool} {f : α → Int}
    (h : ∀ x ∈ l, sel x = sel' x) : sumOf l sel f = sumOf l sel' f := by
  rw [sumOf, List.filter_congr h]
  rfl

theorem sumOf_eq_zero {l : List α} {sel : α → Bool} {f : α → Int}
    (h : ∀ x ∈ l, sel x = false) : sumOf l sel f = 0 := by
  rw [sumOf_sel_congr h]
  simp [sumOf]

theorem sumOf_or {l : List α} {p q : α → Bool} {f : α → Int}
    (h : ∀ x ∈ l, p x = true → q x = false) :
    sumOf l (fun x => p x || q x) f = sumOf l p f + sumOf l q f := by
  induction l with
  | nil => rfl
  | cons x l ih =>
    have ih := ih fun y hy => h y (List.mem_cons_of_mem _ hy)
    have hx := h x (List.mem_cons_self ..)
    have hcons : ∀ sel : α → Bool,
        sumOf (x :: l) sel f = (if sel x then f x else 0) + sumOf l sel f := by
      intro sel
      rw [← List.singleton_append, sumOf_append, sumOf_single]
    rw [hcons, hcons, hcons, ih]
    cases hp : p x
    · simp [add_left_comm]
    · simp [hx hp, add_assoc]

/-- What never changes in a row of the outbox. -/
def RtpOutboxRow.core (row : RtpOutboxRow) : Nat × OutboxRow := (row.id, row.delta)

/-- What a write does to a row of the outbox. -/
def RtpWrite.on : RtpWrite → RtpOutboxRow → RtpOutboxRow
  | .claim id now => (·.update (fun row =>
      { row with status := .processing, attempts := row.attempts + 1, lockedAt := some now }) id)
  | .markProcessed id now => (·.update (fun row =>
      { row with status := .processed, processedAt := some now }) id)
  | .recover id => (·.update (fun row => { row with status := .pending, lockedAt := none }) id)
  | .putMinute _ => id

def onRow (ws : List RtpWrite) (row : RtpOutboxRow) : RtpOutboxRow :=
  ws.foldl (fun row w => w.on row) row

@[simp] theorem onRow_nil (row : RtpOutboxRow) : onRow [] row = row := rfl

@[simp] theorem onRow_cons (w : RtpWrite) (ws : List RtpWrite) (row : RtpOutboxRow) :
    onRow (w :: ws) row = onRow ws (w.on row) := rfl

@[simp] theorem onRow_append (ws ws' : List RtpWrite) (row : RtpOutboxRow) :
    onRow (ws ++ ws') row = onRow ws' (onRow ws row) := List.foldl_append

@[simp] theorem RtpWrite.on_core (w : RtpWrite) (row : RtpOutboxRow) :
    (w.on row).core = row.core := by
  cases w with
  | putMinute => rfl
  | _ =>
    simp only [on, RtpOutboxRow.update]
    split <;> rfl

@[simp] theorem onRow_core (ws : List RtpWrite) (row : RtpOutboxRow) :
    (onRow ws row).core = row.core := by
  induction ws generalizing row with
  | nil => rfl
  | cons w ws ih => rw [onRow_cons, ih, RtpWrite.on_core]

@[simp] theorem onRow_id (ws : List RtpWrite) (row : RtpOutboxRow) :
    (onRow ws row).id = row.id := congrArg Prod.fst (onRow_core ws row)

@[simp] theorem onRow_delta (ws : List RtpWrite) (row : RtpOutboxRow) :
    (onRow ws row).delta = row.delta := congrArg Prod.snd (onRow_core ws row)

theorem RtpWrite.on_other {w : RtpWrite} {row : RtpOutboxRow} (h : .outbox row.id ∉ w.keys) :
    w.on row = row := by
  cases w with
  | putMinute => rfl
  | _ =>
    simp only [keys, List.mem_singleton, RtpLock.outbox.injEq] at h
    exact if_neg h

theorem onRow_other {ws : List RtpWrite} {row : RtpOutboxRow}
    (h : ∀ w ∈ ws, .outbox row.id ∉ w.keys) : onRow ws row = row := by
  induction ws with
  | nil => rfl
  | cons w ws ih =>
    rw [onRow_cons, RtpWrite.on_other (h w (List.mem_cons_self ..)),
      ih fun w' hw' => h w' (List.mem_cons_of_mem _ hw')]

theorem onRow_puts (news : List RtpUserMinuteRow) (row : RtpOutboxRow) :
    onRow (news.map .putMinute) row = row := by
  induction news with
  | nil => rfl
  | cons new news ih => exact ih

theorem onRow_marks_status (ids : List Nat) (now : Int) (row : RtpOutboxRow) :
    (onRow (ids.map (.markProcessed · now)) row).status =
      if row.id ∈ ids then .processed else row.status := by
  induction ids generalizing row with
  | nil => rfl
  | cons id ids ih =>
    rw [List.map_cons, onRow_cons, ih]
    by_cases hid : row.id = id
    · simp [RtpWrite.on, RtpOutboxRow.update, hid]
    · simp [RtpWrite.on, RtpOutboxRow.update, hid]

theorem onRow_claims_other {ids : List Nat} {now : Int} {row : RtpOutboxRow}
    (h : row.id ∉ ids) : onRow (ids.map (.claim · now)) row = row := by
  apply onRow_other
  intro w hw
  obtain ⟨id, hid, rfl⟩ := List.mem_map.1 hw
  rw [RtpWrite.keys, List.mem_singleton, RtpLock.outbox.injEq]
  intro he
  exact h (he ▸ hid)

section
variable {db db' : RtpDb} {key : RtpKey} {col : Column} {ids : List Nat}

theorem RtpDb.apply_rtpOutbox (w : RtpWrite) :
    (db.apply w).rtpOutbox = db.rtpOutbox.map w.on := by
  cases w with
  | putMinute new =>
    rw [RtpDb.apply, RtpWrite.on, List.map_id]
    split <;> rfl
  | _ => rfl

theorem rtpOutbox_view (ws : List RtpWrite) :
    (postgresRtp.view db ws).rtpOutbox = db.rtpOutbox.map (onRow ws) := by
  induction ws generalizing db with
  | nil => exact (List.map_id _).symm
  | cons w ws ih =>
    rw [SkipEngine.view_cons, ih]
    change List.map (onRow ws) (db.apply w).rtpOutbox = _
    rw [RtpDb.apply_rtpOutbox, List.map_map]
    rfl

/-- The row of a key after a write. -/
def RtpWrite.onMinute (w : RtpWrite) (key : RtpKey) (row : Option RtpUserMinuteRow) :
    Option RtpUserMinuteRow :=
  match w with
  | .putMinute new => if new.key = key then some new else row
  | _ => row

theorem RtpUserMinuteRow.put_key (new row : RtpUserMinuteRow) : (new.put row).key = row.key := by
  rw [put]
  split
  · exact (‹row.key = new.key›).symm
  · rfl

theorem RtpDb.minute?_apply (w : RtpWrite) (key : RtpKey) :
    (db.apply w).minute? key = w.onMinute key (db.minute? key) := by
  cases w with
  | putMinute new =>
    rw [RtpDb.apply, RtpWrite.onMinute]
    split
    · rename_i hsome
      rw [RtpDb.minute?, List.find?_map]
      simp only [Function.comp_def, RtpUserMinuteRow.put_key]
      by_cases hk : new.key = key
      · subst hk
        rw [if_pos rfl]
        obtain ⟨row, hrow⟩ := Option.isSome_iff_exists.1 hsome
        have hkey : row.key = new.key := by simpa using List.find?_some hrow
        rw [RtpDb.minute?] at hrow
        rw [hrow, Option.map_some, RtpUserMinuteRow.put, if_pos hkey]
      · rw [if_neg hk]
        change Option.map new.put (db.minute? key) = _
        cases hrow : db.minute? key with
        | none => rfl
        | some row =>
          have hkey : row.key = key := by simpa using List.find?_some hrow
          rw [Option.map_some, RtpUserMinuteRow.put, if_neg fun h => hk (h.symm.trans hkey)]
    · rename_i hnone
      rw [RtpDb.minute?, List.find?_append]
      change (db.minute? key).or _ = _
      by_cases hk : new.key = key
      · subst hk
        rw [Option.not_isSome_iff_eq_none.1 hnone]
        simp
      · simp [hk]
  | _ => rfl

theorem minute?_view (ws : List RtpWrite) (key : RtpKey) :
    (postgresRtp.view db ws).minute? key =
      ws.foldl (fun row w => w.onMinute key row) (db.minute? key) := by
  induction ws generalizing db with
  | nil => rfl
  | cons w ws ih =>
    rw [SkipEngine.view_cons, ih]
    change List.foldl _ ((db.apply w).minute? key) ws = _
    rw [RtpDb.minute?_apply]
    rfl

theorem minute?_other {ws : List RtpWrite} (h : ∀ w ∈ ws, .minute key ∉ w.keys) :
    (postgresRtp.view db ws).minute? key = db.minute? key := by
  rw [minute?_view]
  induction ws with
  | nil => rfl
  | cons w ws ih =>
    have hw : w.onMinute key (db.minute? key) = db.minute? key := by
      have hk := h w (List.mem_cons_self ..)
      cases w with
      | putMinute new =>
        rw [RtpWrite.keys, List.mem_singleton, RtpLock.minute.injEq] at hk
        exact if_neg fun he => hk he.symm
      | _ => rfl
    rw [List.foldl_cons, hw]
    exact ih fun w' hw' => h w' (List.mem_cons_of_mem _ hw')

theorem minute?_puts {news : List RtpUserMinuteRow} (hnodup : (news.map (·.key)).Nodup)
    (key : RtpKey) : (postgresRtp.view db (news.map .putMinute)).minute? key =
      (news.find? (·.key = key)).or (db.minute? key) := by
  rw [minute?_view]
  generalize db.minute? key = row
  induction news generalizing row with
  | nil => rfl
  | cons new news ih =>
    obtain ⟨hnew, hnodup⟩ := List.nodup_cons.1 hnodup
    rw [List.map_cons, List.foldl_cons, ih hnodup, List.find?_cons, RtpWrite.onMinute]
    by_cases hk : new.key = key
    · subst hk
      have hnone : news.find? (·.key = new.key) = none := by
        rw [List.find?_eq_none]
        intro row hrow he
        exact hnew (List.mem_map.2 ⟨row, hrow, by simpa using he⟩)
      simp [hnone]
    · simp [hk]

theorem apply_minute_keys (w : RtpWrite) (h : (db.rtpUserMinute.map (·.key)).Nodup) :
    ((db.apply w).rtpUserMinute.map (·.key)).Nodup := by
  cases w with
  | putMinute new =>
    rw [RtpDb.apply]
    split
    · rw [List.map_map]
      simpa only [Function.comp_def, RtpUserMinuteRow.put_key] using h
    · rename_i hnone
      apply nodup_map_snoc h
      intro row hrow he
      apply hnone
      rw [RtpDb.minute?, List.find?_isSome]
      exact ⟨row, hrow, by simpa using he⟩
  | _ => exact h

theorem view_minute_keys (ws : List RtpWrite) (h : (db.rtpUserMinute.map (·.key)).Nodup) :
    ((postgresRtp.view db ws).rtpUserMinute.map (·.key)).Nodup := by
  induction ws generalizing db with
  | nil => exact h
  | cons w ws ih => exact ih (apply_minute_keys w h)

end
end BetProcessor
