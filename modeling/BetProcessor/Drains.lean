import Mathlib.Algebra.BigOperators.Group.List.Basic
import BetProcessor.EarlyRollbacks
import BetProcessor.SerialStore

namespace BetProcessor
set_option autoImplicit true
open Txn

/-- An id that `pg` reads as a Number and prints for the next statement. -/
def readId (id : Nat) : Nat := showNat (roundNat id)

/-- `drainRtpOutbox` with the ids that it gets. -/
def drainReadIds (batchSize now : Int) : RtpTx Nat := do
  let claimed ← rtpQuery (.claimPending batchSize now)
  let ids := claimed.map readId
  if ids.length = 0 then pure 0
  else if ∃ id ∈ ids, ¬ IsBigint id then .throw .outOfRange
  else
    rtpQuery (.upsertAggregated ids)
    rtpQuery (.markProcessed ids now)
    pure ids.length

/-- The same with no other transaction next to it. -/
def Indexes.drain (ix : Indexes) (batchSize now : Int) (db : RtpDb) : Except RtpErr Nat × RtpDb :=
  ix.postgresRtpAlone.transact (drainReadIds batchSize now) db

namespace RtpDb

def pending (db : RtpDb) : List RtpOutboxRow := db.rtpOutbox.filter (·.status = .pending)

/-- The ids of the pending rows in their order. -/
def pendingIds (db : RtpDb) : List Nat := (db.pending.map (·.id)).insertionSort (· ≤ ·)

/-- Add one row of the outbox to the report. -/
def addRow (db : RtpDb) (row : RtpOutboxRow) : RtpDb :=
  if (db.minute? row.delta.key).isSome then
    { db with rtpUserMinute := db.rtpUserMinute.map fun minute =>
        if minute.key = row.delta.key then
          .ofColumns minute.key fun col => minute.column col + row.delta.column col
        else minute }
  else { db with rtpUserMinute := db.rtpUserMinute ++ [.ofColumns row.delta.key row.delta.column] }

/-- The ids of the pending rows are read as they are. -/
def ReadsBack (db : RtpDb) : Prop := ∀ id ∈ db.pendingIds, readId id = id ∧ IsBigint id

end RtpDb

/-- What a drain leaves of a row that was pending. -/
def RtpOutboxRow.drained (row : RtpOutboxRow) (now : Int) : RtpOutboxRow :=
  { row with
    status := .processed
    attempts := row.attempts + 1
    lockedAt := some now
    processedAt := some now }

section
variable {db : RtpDb} {rows rows' : List RtpOutboxRow}
variable {key : RtpKey} {col : Column}

/-- The report with some rows of the outbox added. -/
def RtpDb.plus (db : RtpDb) (rows : List RtpOutboxRow) (key : RtpKey) : Option RtpUserMinuteRow :=
  if ∃ row ∈ rows, row.delta.key = key then
    some (.ofColumns key fun col => db.rolledUp key col +
      sumOf rows (·.delta.key = key) (·.delta.column col))
  else db.minute? key

theorem sumOf_perm {l l' : List α} (h : l.Perm l') (sel : α → Bool) (f : α → Int) :
    sumOf l sel f = sumOf l' sel f :=
  ((h.filter sel).map f).sum_eq

theorem RtpDb.plus_perm (h : rows.Perm rows') : db.plus rows key = db.plus rows' key := by
  rw [plus, plus]
  simp only [sumOf_perm h, h.mem_iff]

theorem RtpDb.rolledUp_plus {db' : RtpDb} (h : db'.minute? key = db.plus rows key) :
    db'.rolledUp key col = db.rolledUp key col +
      sumOf rows (·.delta.key = key) (·.delta.column col) := by
  rw [rolledUp, h, plus]
  split
  · rw [Option.elim_some, RtpUserMinuteRow.ofColumns_column]
  · rename_i hnone
    rw [sumOf_eq_zero, add_zero, rolledUp]
    intro row hrow
    exact decide_eq_false fun hkey => hnone ⟨row, hrow, hkey⟩

theorem RtpDb.plus_append {db' : RtpDb} (h : db'.minute? key = db.plus rows key) :
    db'.plus rows' key = db.plus (rows ++ rows') key := by
  have hsum : ∀ col, db'.rolledUp key col = db.rolledUp key col +
      sumOf rows (·.delta.key = key) (·.delta.column col) := fun col => rolledUp_plus h
  rw [plus]
  simp only [hsum]
  rw [plus]
  by_cases hrows' : ∃ row ∈ rows', row.delta.key = key
  · have happend : ∃ row ∈ rows ++ rows', row.delta.key = key := by
      obtain ⟨row, hrow, hkey⟩ := hrows'
      exact ⟨row, List.mem_append_right _ hrow, hkey⟩
    rw [if_pos hrows', if_pos happend]
    simp only [sumOf_append, add_assoc]
  · rw [if_neg hrows', h, plus]
    have hmem : (∃ row ∈ rows ++ rows', row.delta.key = key) ↔
        ∃ row ∈ rows, row.delta.key = key := by
      simp only [List.mem_append]
      constructor
      · rintro ⟨row, hrow | hrow, hkey⟩
        · exact ⟨row, hrow, hkey⟩
        · exact absurd ⟨row, hrow, hkey⟩ hrows'
      · rintro ⟨row, hrow, hkey⟩
        exact ⟨row, Or.inl hrow, hkey⟩
    have hzero : ∀ col, sumOf rows' (·.delta.key = key) (·.delta.column col) = 0 := by
      intro col
      apply sumOf_eq_zero
      intro row hrow
      exact decide_eq_false fun hkey => hrows' ⟨row, hrow, hkey⟩
    simp only [hmem, sumOf_append, hzero, add_zero]

end

section
variable {db : RtpDb} {ids : List Nat} {key : RtpKey} {col : Column} {now : Int}

theorem RtpDb.mem_pendingIds {id : Nat} : id ∈ db.pendingIds ↔ ∃ row ∈ db.pending, row.id = id := by
  rw [pendingIds, List.mem_insertionSort, List.mem_map]

section
variable {ix : Indexes}

theorem drainReadIds_eq (batchSize now : Int) : drainReadIds batchSize now =
    .exec (.claimPending batchSize now) fun claimed =>
      if (claimed.map readId).length = 0 then .pure 0
      else if ∃ id ∈ claimed.map readId, ¬ IsBigint id then .throw .outOfRange
      else rollUp (claimed.map readId) now := rfl

variable {batchSize : Int} (hb : 1 ≤ batchSize)
include hb

end

theorem onRow_claims {ids : List Nat} (hnodup : ids.Nodup) (now : Int) (row : RtpOutboxRow) :
    onRow (claims ids now) row = if row.id ∈ ids then
      { row with status := .processing, attempts := row.attempts + 1, lockedAt := some now }
    else row := by
  induction ids generalizing row with
  | nil => rfl
  | cons id ids ih =>
    obtain ⟨hid, hnodup⟩ := List.nodup_cons.1 hnodup
    rw [claims, List.map_cons, onRow_cons]
    change onRow (claims ids now) _ = _
    rw [ih hnodup]
    by_cases h : row.id = id
    · subst h
      simp [RtpWrite.on, RtpOutboxRow.update, hid]
    · simp [RtpWrite.on, RtpOutboxRow.update, h]

theorem onRow_marks (ids : List Nat) (now : Int) (row : RtpOutboxRow) :
    onRow (ids.map (.markProcessed · now)) row = if row.id ∈ ids then
      { row with status := .processed, processedAt := some now } else row := by
  induction ids generalizing row with
  | nil => rfl
  | cons id ids ih =>
    rw [List.map_cons, onRow_cons, ih]
    by_cases h : row.id = id
    · subst h
      simp [RtpWrite.on, RtpOutboxRow.update]
    · simp [RtpWrite.on, RtpOutboxRow.update, h]

theorem mem_batch_ids {row : RtpOutboxRow} (hrow : row ∈ db.rtpOutbox) :
    row.id ∈ (db.batch ids).map (·.id) ↔ row.id ∈ ids := by
  constructor
  · intro h
    obtain ⟨row', hrow', he⟩ := List.mem_map.1 h
    rw [← he]
    simpa using (List.mem_filter.1 hrow').2
  · intro h
    exact List.mem_map.2 ⟨row, List.mem_filter.2 ⟨hrow, by simpa using h⟩, rfl⟩

theorem onRow_drained (hnodup : ids.Nodup) {row : RtpOutboxRow} (hrow : row ∈ db.rtpOutbox) :
    onRow (db.drained ids now) row = if row.id ∈ ids then row.drained now else row := by
  rw [RtpDb.drained, onRow_append, onRow_append, upserts, onRow_puts, marks, onRow_marks, onRow_id]
  simp only [mem_batch_ids hrow]
  rw [onRow_claims hnodup]
  split
  · rfl
  · rfl

theorem RtpDb.drained_rtpOutbox (hnodup : ids.Nodup) :
    (postgresRtp.view db (db.drained ids now)).rtpOutbox = db.rtpOutbox.map fun row =>
      if row.id ∈ ids then row.drained now else row := by
  rw [rtpOutbox_view]
  apply List.map_congr_left
  intro row hrow
  exact onRow_drained hnodup hrow

theorem find?_upserted (db : RtpDb) (ids : List Nat) (key : RtpKey) :
    (db.upserted db ids).find? (·.key = key) =
      if ∃ row ∈ db.batch ids, row.delta.key = key then
        some (.ofColumns key fun col => db.rolledUp key col + db.batchSum ids key col)
      else none := by
  have hkeys : ∀ key, key ∈ (db.aggregated ids).map (·.key) ↔
      ∃ row ∈ db.batch ids, row.delta.key = key := by
    intro key
    rw [aggregated_keys, List.mem_dedup, List.mem_map]
  split
  · rename_i hrow
    obtain ⟨new, hnew, rfl⟩ := List.mem_map.1 ((hkeys key).2 hrow)
    apply find?_of_unique
    · refine List.mem_map.2 ⟨new, hnew, ?_⟩
      congr 1
      funext col
      rw [mem_aggregated hnew]
    · exact decide_eq_true rfl
    · intro row hrow hkey
      obtain ⟨new', hnew', rfl⟩ := List.mem_map.1 hrow
      have hsame : new'.key = new.key := of_decide_eq_true hkey
      rw [hsame]
      congr 1
      funext col
      rw [mem_aggregated hnew', hsame]
  · rename_i hnone
    rw [List.find?_eq_none]
    intro row hrow hkey
    apply hnone
    rw [← hkeys, ← upserted_keys db db]
    exact List.mem_map.2 ⟨row, hrow, of_decide_eq_true hkey⟩

theorem RtpDb.drained_minute? (db : RtpDb) (ids : List Nat) (now : Int) (key : RtpKey) :
    (postgresRtp.view db (db.drained ids now)).minute? key = db.plus (db.batch ids) key := by
  have hnodup : ((db.upserted db ids).map (·.key)).Nodup := by
    rw [upserted_keys]
    exact aggregated_nodup db ids
  rw [drained, SkipEngine.view_append, SkipEngine.view_append, minute?_marks, upserts,
    minute?_puts hnodup, minute?_claims, find?_upserted, plus]
  split
  · rw [Option.some_or]
    rfl
  · rw [Option.none_or]

end

end BetProcessor
