import Mathlib.Data.List.Basic

namespace BetProcessor
set_option autoImplicit true

/-- `uuid` values are only compared for equality. -/
abbrev Uuid := Nat

/-- The pair of columns `user_id`, `currency`. -/
structure Account where
  userId : String
  currency : String
  deriving DecidableEq, Repr

inductive ActionType where
  | bet
  | win
  | rollback
  deriving DecidableEq, Repr

inductive Status where
  | applied
  | noopPrerolled
  | noopTombstone
  | noopAlreadyRolledBack
  | noopOriginalNotApplied
  deriving DecidableEq, Repr

/-- A row of `accounts`. -/
structure AccountRow where
  account : Account
  balance : Int
  deriving DecidableEq, Repr

/-- A row of `action_registry`. -/
structure RegistryRow where
  actionId : Uuid
  txId : Uuid
  account : Account
  ledgerCreatedAt : Int
  deriving DecidableEq, Repr

/-- A row of `actions`, the ledger. -/
structure ActionRow where
  actionId : Uuid
  txId : Uuid
  accountHash : Int
  account : Account
  game : String
  gameId : Option String
  actionType : ActionType
  amount : Option Int
  originalActionId : Option Uuid
  balanceDelta : Int
  status : Status
  rolledBackBy : Option Uuid := none
  rolledBackAt : Option Int := none
  createdAt : Int
  deriving DecidableEq, Repr

/-- A row of `rollback_intents`. -/
structure IntentRow where
  originalActionId : Uuid
  rollbackActionId : Uuid
  account : Account
  deriving DecidableEq, Repr

/-- A row of `rtp_outbox`. -/
structure OutboxRow where
  bucketMinute : Int
  account : Account
  totalBetDelta : Int
  totalWinDelta : Int
  roundsDelta : Int
  rollbackCountDelta : Int
  rolledBackBetDelta : Int
  rolledBackWinDelta : Int
  deriving DecidableEq, Repr

/-- The tables that a request reads or writes. -/
structure Db where
  accounts : List AccountRow
  actionRegistry : List RegistryRow
  actions : List ActionRow
  rollbackIntents : List IntentRow
  rtpOutbox : List OutboxRow
  deriving DecidableEq, Repr

/-- The `CHECK` of `actions` on `action_type`, `amount` and `original_action_id`. -/
def ActionRow.Check (r : ActionRow) : Prop :=
  match r.actionType, r.amount, r.originalActionId with
  | .bet, some amount, none | .win, some amount, none => 0 < amount
  | .rollback, none, some _ => True
  | _, _, _ => False

instance (r : ActionRow) : Decidable r.Check := by
  rw [ActionRow.Check]
  split <;> infer_instance

namespace Db

def account? (db : Db) (a : Account) : Option AccountRow :=
  db.accounts.find? (·.account = a)

/-- The id has been claimed. -/
def Registered (db : Db) (x : Uuid) : Prop := ∃ g ∈ db.actionRegistry, g.actionId = x

/-- A rollback of the id has been recorded. -/
def HasIntent (db : Db) (o : Uuid) : Prop := ∃ t ∈ db.rollbackIntents, t.originalActionId = o

def HasIntentBy (db : Db) (r : Uuid) : Prop := ∃ t ∈ db.rollbackIntents, t.rollbackActionId = r

instance (db : Db) (x : Uuid) : Decidable (db.Registered x) :=
  inferInstanceAs (Decidable (∃ g ∈ db.actionRegistry, g.actionId = x))

instance (db : Db) (o : Uuid) : Decidable (db.HasIntent o) :=
  inferInstanceAs (Decidable (∃ t ∈ db.rollbackIntents, t.originalActionId = o))

instance (db : Db) (r : Uuid) : Decidable (db.HasIntentBy r) :=
  inferInstanceAs (Decidable (∃ t ∈ db.rollbackIntents, t.rollbackActionId = r))

/-- The ledger row of an id at the instant that its registry row gives. -/
def action? (db : Db) (x : Uuid) : Option ActionRow :=
  (db.actionRegistry.find? (·.actionId = x)).bind fun g =>
    db.actions.find? fun r => r.actionId = x ∧ r.createdAt = g.ledgerCreatedAt

/-- The balance of an account, zero before its row exists. -/
def balance (db : Db) (a : Account) : Int := (db.account? a).elim 0 (·.balance)

end Db

/-- A change of one row. -/
inductive Write where
  | insertAccount (row : AccountRow)
  | insertRegistry (row : RegistryRow)
  | insertAction (row : ActionRow)
  | insertIntent (row : IntentRow)
  | insertOutbox (row : OutboxRow)
  | updateBalance (account : Account) (balance : Int)
  | updateRolledBack (actionId : Uuid) (createdAt : Int) (rollbackId : Uuid) (at_ : Int)
  deriving DecidableEq, Repr

def AccountRow.setBalance (a : Account) (b : Int) (row : AccountRow) : AccountRow :=
  if row.account = a then { row with balance := b } else row

def ActionRow.setRolledBack (x : Uuid) (t : Int) (r : Uuid) (at_ : Int) (row : ActionRow) :
    ActionRow :=
  if row.actionId = x ∧ row.createdAt = t then
    { row with rolledBackBy := some r, rolledBackAt := some at_ }
  else row

def Db.apply (db : Db) : Write → Db
  | .insertAccount row => { db with accounts := db.accounts ++ [row] }
  | .insertRegistry row => { db with actionRegistry := db.actionRegistry ++ [row] }
  | .insertAction row => { db with actions := db.actions ++ [row] }
  | .insertIntent row => { db with rollbackIntents := db.rollbackIntents ++ [row] }
  | .insertOutbox row => { db with rtpOutbox := db.rtpOutbox ++ [row] }
  | .updateBalance a b => { db with accounts := db.accounts.map (·.setBalance a b) }
  | .updateRolledBack x t r at_ =>
    { db with actions := db.actions.map (·.setRolledBack x t r at_) }

end BetProcessor
