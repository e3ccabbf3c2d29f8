import BetProcessor.Txn.Program
import BetProcessor.Schema
import BetProcessor.Service

namespace BetProcessor
set_option autoImplicit true
open Txn

/-- Why a request fails. -/
inductive Err where
  | insufficientFunds
  | badRequest
  /-- `rows[0]` of an empty result is used, or `fetch_one` finds no row. -/
  | rowMissing
  | outOfRange
  | uniqueViolation
  | foreignKeyViolation
  | checkViolation
  /-- A text with a NUL, or one that leaves an index row no room on its page. -/
  | textRefused
  | aborted
  deriving DecidableEq, Repr

/-- The `input` of the claim statement, with the `tx_id` that `gen_random_uuid()` would give. -/
structure ClaimInput where
  actionId : Uuid
  account : Account
  ledgerCreatedAt : Int
  accountHash : Int
  txId : Uuid
  deriving DecidableEq, Repr

def ClaimInput.registryRow (input : ClaimInput) : RegistryRow :=
  ⟨input.actionId, input.txId, input.account, input.ledgerCreatedAt⟩

structure ClaimRow where
  txId : Uuid
  ledgerCreatedAt : Int
  accountHash : Int
  claimed : Bool
  deriving DecidableEq, Repr

/-- The columns that the lookup of an original selects. -/
structure ExistingAction where
  actionId : Uuid
  txId : Uuid
  account : Account
  actionType : ActionType
  amount : Option Int
  balanceDelta : Int
  status : Status
  createdAt : Int
  deriving DecidableEq, Repr

def ActionRow.existing (r : ActionRow) : ExistingAction :=
  ⟨r.actionId, r.txId, r.account, r.actionType, r.amount, r.balanceDelta, r.status, r.createdAt⟩

/-- The SQL statements of a request. -/
inductive Stmt where
  | insertAccount (account : Account)
  | selectAccountForUpdate (account : Account)
  | claim (input : ClaimInput)
  | selectIntent (originalActionId : Uuid)
  | selectActionForUpdate (actionId : Uuid)
  | ensureActionsMonthPartition (at_ : Int)
  | insertAction (row : ActionRow)
  | insertIntent (row : IntentRow)
  | updateRolledBack (actionId : Uuid) (createdAt : Int) (rollbackId : Uuid) (now : Int)
  | insertOutbox (row : OutboxRow)
  | updateBalance (account : Account) (balance : Int)
  deriving DecidableEq, Repr

/-- The rows that a statement returns. -/
@[reducible] def Stmt.Reply : Stmt → Type
  | .selectAccountForUpdate _ => Option Int
  | .claim _ => List ClaimRow
  | .selectIntent _ => List Uuid
  | .selectActionForUpdate _ => Option ExistingAction
  | .insertAction _ => Int
  | _ => Unit

/-- What a statement answers and writes.  `snap` is the database at the start of the statement
and `cur` the latest committed one, both with the writes of the own transaction. -/
def Stmt.eval : (s : Stmt) → (snap cur : Db) → Except Err (s.Reply × List Write)
  | .insertAccount a, _, cur =>
    if (cur.account? a).isSome then .ok ((), []) else .ok ((), [.insertAccount ⟨a, 0⟩])
  | .selectAccountForUpdate a, snap, cur =>
    -- a row that the snapshot shows is locked and read again
    if (snap.account? a).isSome then .ok ((cur.account? a).map (·.balance), [])
    else .ok (none, [])
  | .claim input, snap, cur =>
    -- the conflict is found in the latest version, the fallback row only in the snapshot
    if cur.Registered input.actionId then
      .ok ((snap.actionRegistry.filter (·.actionId = input.actionId)).map fun g =>
        ⟨g.txId, g.ledgerCreatedAt, input.accountHash, false⟩, [])
    else
      .ok ([⟨input.txId, input.ledgerCreatedAt, input.accountHash, true⟩],
        [.insertRegistry input.registryRow])
  | .selectIntent o, snap, _ =>
    .ok ((snap.rollbackIntents.filter (·.originalActionId = o)).map (·.rollbackActionId), [])
  | .selectActionForUpdate x, snap, cur =>
    if (snap.action? x).isSome then .ok ((cur.action? x).map (·.existing), [])
    else .ok (none, [])
  | .ensureActionsMonthPartition _, _, _ => .ok ((), [])
  | .insertAction row, _, cur =>
    if ¬ cur.Registered row.actionId then .error .foreignKeyViolation
    else if ¬ row.Check then .error .checkViolation
    else .ok (row.createdAt, [.insertAction row])
  | .insertIntent row, _, cur =>
    if cur.HasIntent row.originalActionId ∨ cur.HasIntentBy row.rollbackActionId then
      .error .uniqueViolation
    else if ¬ cur.Registered row.rollbackActionId then .error .foreignKeyViolation
    else .ok ((), [.insertIntent row])
  | .updateRolledBack x t r now, snap, _ =>
    if ∃ row ∈ snap.actions, row.actionId = x ∧ row.createdAt = t then
      .ok ((), [.updateRolledBack x t r now])
    else .ok ((), [])
  | .insertOutbox row, _, _ => .ok ((), [.insertOutbox row])
  | .updateBalance a b, snap, _ =>
    if (snap.account? a).isSome then
      if b < 0 then .error .checkViolation else .ok ((), [.updateBalance a b])
    else .ok ((), [])

/-- Row locks and unique keys. -/
inductive Key where
  | account (account : Account)
  | registry (actionId : Uuid)
  | action (actionId : Uuid)
  | intent (originalActionId : Uuid)
  | intentBy (rollbackActionId : Uuid)
  deriving DecidableEq, Repr

/-- The locks that a statement takes: the rows it selects for update or updates, and the keys
it inserts.  It waits while another open transaction holds one of them. -/
def Stmt.locks : Stmt → (snap cur : Db) → List Key
  | .insertAccount a, _, cur => if (cur.account? a).isSome then [] else [.account a]
  | .selectAccountForUpdate a, snap, _ => if (snap.account? a).isSome then [.account a] else []
  | .claim input, _, cur =>
    if cur.Registered input.actionId then [] else [.registry input.actionId]
  | .selectActionForUpdate x, snap, _ => if (snap.action? x).isSome then [.action x] else []
  | .insertIntent row, _, cur =>
    if cur.HasIntent row.originalActionId ∨ cur.HasIntentBy row.rollbackActionId then []
    else [.intent row.originalActionId, .intentBy row.rollbackActionId]
  | .updateRolledBack x t _ _, snap, _ =>
    if ∃ row ∈ snap.actions, row.actionId = x ∧ row.createdAt = t then [.action x] else []
  | .updateBalance a _, snap, _ => if (snap.account? a).isSome then [.account a] else []
  | _, _, _ => []

def Write.keys : Write → List Key
  | .insertAccount row => [.account row.account]
  | .insertRegistry row => [.registry row.actionId]
  | .insertIntent row => [.intent row.originalActionId, .intentBy row.rollbackActionId]
  | .updateBalance a _ => [.account a]
  | .updateRolledBack x _ _ _ => [.action x]
  | _ => []

theorem Stmt.covered {s : Stmt} {snap cur : Db} {r : s.Reply} {ws : List Write}
    (h : s.eval snap cur = .ok (r, ws)) :
    ∀ w ∈ ws, ∀ k ∈ w.keys, k ∈ s.locks snap cur := by
  cases s <;> simp only [Stmt.eval] at h <;> (try split at h) <;> (try split at h) <;>
    cases h <;>
    simp_all [Stmt.locks, Write.keys, ClaimInput.registryRow]

/-- PostgreSQL under READ COMMITTED, as far as the statements of a request need it. -/
def postgres : Engine Stmt Stmt.Reply Err Db Write Key where
  eval := Stmt.eval
  locks := Stmt.locks
  apply := Db.apply
  keys := Write.keys
  covered := Stmt.covered

@[simp] theorem postgres_eval (s : Stmt) (snap cur : Db) :
    postgres.eval s snap cur = s.eval snap cur := rfl
@[simp] theorem postgres_locks (s : Stmt) (snap cur : Db) :
    postgres.locks s snap cur = s.locks snap cur := rfl
@[simp] theorem postgres_apply (db : Db) (w : Write) : postgres.apply db w = db.apply w := rfl
@[simp] theorem postgres_keys (w : Write) : postgres.keys w = w.keys := rfl

/-- A transaction body of the processor. -/
abbrev Tx := Prog Stmt Stmt.Reply Err

def query (s : Stmt) : Tx s.Reply := Prog.call s

end BetProcessor
