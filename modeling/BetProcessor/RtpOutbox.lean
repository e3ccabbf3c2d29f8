import Mathlib.Data.List.Sort
import Mathlib.Data.List.Dedup
import BetProcessor.Txn.SkipLocked
import BetProcessor.Reporting

namespace BetProcessor
set_option autoImplicit true
open Txn

inductive OutboxStatus where
  | pending
  | processing
  | processed
  deriving DecidableEq, Repr

/-- The columns `bucket_minute`, `user_id` and `currency`. -/
structure RtpKey where
  bucketMinute : Int
  account : Account
  deriving DecidableEq, Repr

def OutboxRow.key (row : OutboxRow) : RtpKey := ⟨row.bucketMinute, row.account⟩

/-- A row of `rtp_outbox` with its id and the columns of the worker. -/
structure RtpOutboxRow where
  id : Nat
  delta : OutboxRow
  status : OutboxStatus := .pending
  attempts : Int := 0
  lockedAt : Option Int := none
  processedAt : Option Int := none
  deriving DecidableEq, Repr

/-- A row of `rtp_user_minute`. -/
structure RtpUserMinuteRow where
  key : RtpKey
  totalBet : Int
  totalWin : Int
  rounds : Int
  rollbackCount : Int
  rolledBackBet : Int
  rolledBackWin : Int
  deriving DecidableEq, Repr

/-- The tables of the report. -/
structure RtpDb where
  rtpOutbox : List RtpOutboxRow
  rtpUserMinute : List RtpUserMinuteRow
  deriving DecidableEq, Repr

namespace RtpUserMinuteRow

def column (row : RtpUserMinuteRow) : Column → Int
  | .totalBet => row.totalBet
  | .totalWin => row.totalWin
  | .rounds => row.rounds
  | .rollbackCount => row.rollbackCount
  | .rolledBackBet => row.rolledBackBet
  | .rolledBackWin => row.rolledBackWin

def ofColumns (key : RtpKey) (f : Column → Int) : RtpUserMinuteRow :=
  ⟨key, f .totalBet, f .totalWin, f .rounds, f .rollbackCount, f .rolledBackBet,
    f .rolledBackWin⟩

@[simp] theorem ofColumns_key (key : RtpKey) (f : Column → Int) : (ofColumns key f).key = key := rfl

@[simp] theorem ofColumns_column (key : RtpKey) (f : Column → Int) (col : Column) :
    (ofColumns key f).column col = f col := by
  cases col <;> rfl

/-- Every column holds a `bigint`. -/
def InRange (row : RtpUserMinuteRow) : Prop := ∀ col, IsBigint (row.column col)

theorem inRange_iff (row : RtpUserMinuteRow) : (IsBigint row.totalBet ∧ IsBigint row.totalWin ∧
    IsBigint row.rounds ∧ IsBigint row.rollbackCount ∧ IsBigint row.rolledBackBet ∧
    IsBigint row.rolledBackWin) ↔ row.InRange := by
  constructor
  · intro h col
    cases col
    · exact h.1
    · exact h.2.1
    · exact h.2.2.1
    · exact h.2.2.2.1
    · exact h.2.2.2.2.1
    · exact h.2.2.2.2.2
  · intro h
    exact ⟨h .totalBet, h .totalWin, h .rounds, h .rollbackCount, h .rolledBackBet,
      h .rolledBackWin⟩

instance (row : RtpUserMinuteRow) : Decidable row.InRange := decidable_of_iff _ row.inRange_iff

end RtpUserMinuteRow

namespace RtpDb

def minute? (db : RtpDb) (key : RtpKey) : Option RtpUserMinuteRow :=
  db.rtpUserMinute.find? (·.key = key)

/-- What the report shows for a key; all zeros without a row. -/
def rolledUp (db : RtpDb) (key : RtpKey) (col : Column) : Int :=
  (db.minute? key).elim 0 (·.column col)

/-- The sum of the deltas of a key that have been processed. -/
def processed (db : RtpDb) (key : RtpKey) (col : Column) : Int :=
  sumOf db.rtpOutbox (fun row => row.status = .processed ∧ row.delta.key = key)
    (·.delta.column col)

/-- The groups of the outbox rows with the given ids. -/
def aggregated (db : RtpDb) (ids : List Nat) : List RtpUserMinuteRow :=
  let rows := db.rtpOutbox.filter (·.id ∈ ids)
  (rows.map (·.delta.key)).dedup.map fun key =>
    .ofColumns key fun col => sumOf rows (·.delta.key = key) (·.delta.column col)

/-- The rows that a request has committed. -/
def enqueue (db : RtpDb) (rows : List RtpOutboxRow) : RtpDb :=
  { db with rtpOutbox := db.rtpOutbox ++ rows }

end RtpDb

/-- A change of one row. -/
inductive RtpWrite where
  | claim (id : Nat) (now : Int)
  | markProcessed (id : Nat) (now : Int)
  | recover (id : Nat)
  | putMinute (row : RtpUserMinuteRow)
  deriving DecidableEq, Repr

def RtpOutboxRow.update (f : RtpOutboxRow → RtpOutboxRow) (id : Nat) (row : RtpOutboxRow) :
    RtpOutboxRow := if row.id = id then f row else row

def RtpUserMinuteRow.put (new row : RtpUserMinuteRow) : RtpUserMinuteRow :=
  if row.key = new.key then new else row

def RtpDb.apply (db : RtpDb) : RtpWrite → RtpDb
  | .claim id now => { db with rtpOutbox := db.rtpOutbox.map (·.update (fun row =>
      { row with status := .processing, attempts := row.attempts + 1, lockedAt := some now }) id) }
  | .markProcessed id now => { db with rtpOutbox := db.rtpOutbox.map (·.update (fun row =>
      { row with status := .processed, processedAt := some now }) id) }
  | .recover id => { db with rtpOutbox := db.rtpOutbox.map (·.update (fun row =>
      { row with status := .pending, lockedAt := none }) id) }
  | .putMinute new =>
    if (db.minute? new.key).isSome then
      { db with rtpUserMinute := db.rtpUserMinute.map new.put }
    else { db with rtpUserMinute := db.rtpUserMinute ++ [new] }

inductive RtpErr where
  | negativeLimit
  | outOfRange
  /-- One upsert would touch a row twice. -/
  | cardinalityViolation
  /-- A text with a NUL, or that an index has no room for. -/
  | textRefused
  | aborted
  deriving DecidableEq, Repr

/-- The SQL statements of the worker. -/
inductive RtpStmt where
  | claimPending (batchSize now : Int)
  | upsertAggregated (ids : List Nat)
  | markProcessed (ids : List Nat) (now : Int)
  | recoverStale (staleAfterMs now : Int)
  deriving DecidableEq, Repr

@[reducible] def RtpStmt.Reply : RtpStmt → Type
  | .claimPending _ _ => List Nat
  | .recoverStale _ _ => Nat
  | _ => Unit

inductive RtpLock where
  | outbox (id : Nat)
  | minute (key : RtpKey)
  deriving DecidableEq, Repr

/-- The latest version of the row satisfies the condition. -/
def RtpDb.rechecks (cur : RtpDb) (id : Nat) (p : RtpOutboxRow → Bool) : Bool :=
  cur.rtpOutbox.any fun row => row.id = id ∧ p row

/-- The ids that the claim finds: pending in the snapshot, in the order of the ids, not locked by
others and still pending in the latest version. -/
def RtpDb.claimable (locked : RtpLock → Bool) (snap cur : RtpDb) (batchSize : Int) : List Nat :=
  ((((snap.rtpOutbox.filter (·.status = .pending)).map (·.id)).insertionSort (· ≤ ·)).filter
    fun id => locked (.outbox id) = false ∧ cur.rechecks id (·.status = .pending)).take
      batchSize.toNat

/-- The ids that are processing since before the threshold, in milliseconds. -/
def RtpDb.stale (snap cur : RtpDb) (staleAfterMs now : Int) : List Nat :=
  let isStale := fun row : RtpOutboxRow => row.status = .processing ∧
    ∃ t ∈ row.lockedAt, t < now - staleAfterMs * 1000
  ((snap.rtpOutbox.filter fun row => isStale row).map (·.id)).filter fun id =>
    cur.rechecks id fun row => isStale row

/-- The rows that the upsert leaves: the groups on top of the latest versions. -/
def RtpDb.upserted (snap cur : RtpDb) (ids : List Nat) : List RtpUserMinuteRow :=
  (snap.aggregated ids).map fun new =>
    .ofColumns new.key fun col => cur.rolledUp new.key col + new.column col

def RtpStmt.eval (locked : RtpLock → Bool) :
    (s : RtpStmt) → (snap cur : RtpDb) → Except RtpErr (s.Reply × List RtpWrite)
  | .claimPending batchSize now, snap, cur =>
    if batchSize < 0 then .error .negativeLimit
    else .ok (snap.claimable locked cur batchSize,
      (snap.claimable locked cur batchSize).map (.claim · now))
  | .upsertAggregated ids, snap, cur =>
    if ∃ row ∈ snap.aggregated ids, ¬ row.InRange then .error .outOfRange
    else if ¬ ((snap.aggregated ids).map (·.key)).Nodup then .error .cardinalityViolation
    else if ∃ row ∈ snap.upserted cur ids, ¬ row.InRange then .error .outOfRange
    else .ok ((), (snap.upserted cur ids).map .putMinute)
  | .markProcessed ids now, snap, _ =>
    .ok ((), ((snap.rtpOutbox.map (·.id)).filter (· ∈ ids)).map (.markProcessed · now))
  | .recoverStale staleAfterMs now, snap, cur =>
    .ok ((snap.stale cur staleAfterMs now).length,
      (snap.stale cur staleAfterMs now).map .recover)

def RtpStmt.locks (locked : RtpLock → Bool) : RtpStmt → (snap cur : RtpDb) → List RtpLock
  | .claimPending batchSize _, snap, cur => (snap.claimable locked cur batchSize).map .outbox
  | .upsertAggregated ids, snap, _ => (snap.aggregated ids).map fun row => .minute row.key
  | .markProcessed ids _, snap, _ => ((snap.rtpOutbox.map (·.id)).filter (· ∈ ids)).map .outbox
  | .recoverStale staleAfterMs now, snap, cur =>
    (snap.stale cur staleAfterMs now).map .outbox

def RtpWrite.keys : RtpWrite → List RtpLock
  | .claim id _ | .markProcessed id _ | .recover id => [.outbox id]
  | .putMinute row => [.minute row.key]

theorem RtpStmt.covered {locked : RtpLock → Bool} {s : RtpStmt} {snap cur : RtpDb} {r : s.Reply}
    {ws : List RtpWrite} (h : s.eval locked snap cur = .ok (r, ws)) :
    ∀ w ∈ ws, ∀ k ∈ w.keys, k ∈ s.locks locked snap cur := by
  intro w hw k hk
  cases s with
  | claimPending batchSize now =>
    rw [eval] at h
    split at h
    · cases h
    · cases h
      obtain ⟨id, hid, rfl⟩ := List.mem_map.1 hw
      rw [List.mem_singleton.1 hk]
      exact List.mem_map_of_mem hid
  | upsertAggregated ids =>
    rw [eval] at h
    split at h
    · cases h
    split at h
    · cases h
    split at h
    · cases h
    · cases h
      obtain ⟨row, hrow, rfl⟩ := List.mem_map.1 hw
      obtain ⟨new, hnew, rfl⟩ := List.mem_map.1 hrow
      rw [List.mem_singleton.1 hk]
      exact List.mem_map.2 ⟨new, hnew, rfl⟩
  | markProcessed ids now =>
    cases h
    obtain ⟨id, hid, rfl⟩ := List.mem_map.1 hw
    rw [List.mem_singleton.1 hk]
    exact List.mem_map_of_mem hid
  | recoverStale staleAfterMs now =>
    cases h
    obtain ⟨id, hid, rfl⟩ := List.mem_map.1 hw
    rw [List.mem_singleton.1 hk]
    exact List.mem_map_of_mem hid

/-- PostgreSQL under READ COMMITTED with `FOR UPDATE SKIP LOCKED`, as far as the worker needs
it. -/
def postgresRtp : SkipEngine RtpStmt RtpStmt.Reply RtpErr RtpDb RtpWrite RtpLock where
  engine locked := {
    eval := RtpStmt.eval locked
    locks := RtpStmt.locks locked
    apply := RtpDb.apply
    keys := RtpWrite.keys
    covered := RtpStmt.covered }
  apply := RtpDb.apply
  keys := RtpWrite.keys
  apply_eq _ := rfl
  keys_eq _ := rfl

/-- A transaction body of the worker. -/
abbrev RtpTx := Prog RtpStmt RtpStmt.Reply RtpErr

def rtpQuery (s : RtpStmt) : RtpTx s.Reply := Prog.call s

def drainRtpOutbox (batchSize now : Int) : RtpTx Nat := do
  let ids ← rtpQuery (.claimPending batchSize now)
  if ids.length = 0 then pure 0
  else
    rtpQuery (.upsertAggregated ids)
    rtpQuery (.markProcessed ids now)
    pure ids.length

def recoverStaleRtpOutbox (staleAfterMs now : Int) : RtpTx Nat :=
  rtpQuery (.recoverStale staleAfterMs now)

/-- A call of the worker, with the database clock at its transaction. -/
inductive RtpJob where
  | drain (batchSize now : Int)
  | recover (staleAfterMs now : Int)
  deriving DecidableEq, Repr

def RtpJob.body : RtpJob → RtpTx Nat
  | .drain batchSize now => drainRtpOutbox batchSize now
  | .recover staleAfterMs now => recoverStaleRtpOutbox staleAfterMs now

abbrev Reports (κ : Type) := Config κ RtpStmt RtpStmt.Reply RtpErr RtpDb RtpWrite RtpLock Nat

end BetProcessor
