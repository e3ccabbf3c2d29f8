import BetProcessor.Statements

namespace BetProcessor
set_option autoImplicit true
open Txn

/-- A ledger row without the two columns that a later rollback fills in. -/
def ActionRow.core (r : ActionRow) : ActionRow :=
  { r with rolledBackBy := none, rolledBackAt := none }

namespace ActionRow
variable (r : ActionRow)

@[simp] theorem core_actionId : r.core.actionId = r.actionId := rfl
@[simp] theorem core_txId : r.core.txId = r.txId := rfl
@[simp] theorem core_account : r.core.account = r.account := rfl
@[simp] theorem core_actionType : r.core.actionType = r.actionType := rfl
@[simp] theorem core_amount : r.core.amount = r.amount := rfl
@[simp] theorem core_originalActionId : r.core.originalActionId = r.originalActionId := rfl
@[simp] theorem core_balanceDelta : r.core.balanceDelta = r.balanceDelta := rfl
@[simp] theorem core_status : r.core.status = r.status := rfl
@[simp] theorem core_createdAt : r.core.createdAt = r.createdAt := rfl
@[simp] theorem core_existing : r.core.existing = r.existing := rfl
@[simp] theorem core_core : r.core.core = r.core := rfl

@[simp] theorem setRolledBack_core (x : Uuid) (t : Int) (by_ : Uuid) (at_ : Int) :
    (r.setRolledBack x t by_ at_).core = r.core := by
  rw [setRolledBack]
  split <;> rfl

end ActionRow

/-- The ledger as it was written. -/
def Db.ledger (db : Db) : List ActionRow := db.actions.map ActionRow.core

/-- The ledger row that a rollback of the id finds. -/
def Db.original? (db : Db) (x : Uuid) : Option ActionRow :=
  (db.actionRegistry.find? (·.actionId = x)).bind fun g =>
    db.ledger.find? fun r => r.actionId = x ∧ r.createdAt = g.ledgerCreatedAt

namespace Write

def registryRows : Write → List RegistryRow
  | .insertRegistry row => [row]
  | _ => []

def ledgerRows : Write → List ActionRow
  | .insertAction row => [row.core]
  | _ => []

def intentRows : Write → List IntentRow
  | .insertIntent row => [row]
  | _ => []

def outboxRows : Write → List OutboxRow
  | .insertOutbox row => [row]
  | _ => []

def newAccounts : Write → List Account
  | .insertAccount row => [row.account]
  | _ => []

/-- The row of an account after the write. -/
def onAccount (a : Account) : Write → Option AccountRow → Option AccountRow
  | .insertAccount row, old => old.or (if row.account = a then some row else none)
  | .updateBalance b v, old => old.map (·.setBalance b v)
  | _, old => old

end Write

namespace Db
variable (db : Db) (w : Write)

@[simp] theorem apply_actionRegistry :
    (db.apply w).actionRegistry = db.actionRegistry ++ w.registryRows := by
  cases w <;> simp [Db.apply, Write.registryRows]

@[simp] theorem apply_ledger : (db.apply w).ledger = db.ledger ++ w.ledgerRows := by
  cases w <;> simp [Db.apply, Db.ledger, Write.ledgerRows]

@[simp] theorem apply_rollbackIntents :
    (db.apply w).rollbackIntents = db.rollbackIntents ++ w.intentRows := by
  cases w <;> simp [Db.apply, Write.intentRows]

@[simp] theorem apply_rtpOutbox :
    (db.apply w).rtpOutbox = db.rtpOutbox ++ w.outboxRows := by
  cases w <;> simp [Db.apply, Write.outboxRows]

theorem setBalance_account (a : Account) (v : Int) (row : AccountRow) :
    (row.setBalance a v).account = row.account := by
  rw [AccountRow.setBalance]
  split <;> rfl

@[simp] theorem apply_accounts : (db.apply w).accounts.map (·.account) =
    db.accounts.map (·.account) ++ w.newAccounts := by
  cases w <;> simp [Db.apply, Write.newAccounts, setBalance_account]

@[simp] theorem apply_account? (a : Account) :
    (db.apply w).account? a = w.onAccount a (db.account? a) := by
  cases w with
  | insertAccount row =>
    simp only [Db.apply, Db.account?, List.find?_append, Write.onAccount]
    congr 1
    by_cases h : row.account = a <;> simp [h]
  | updateBalance b v =>
    simp only [Db.apply, Db.account?, List.find?_map, Write.onAccount, Function.comp_def,
      setBalance_account]
  | _ => rfl

theorem view_actionRegistry (ws : List Write) : (postgres.view db ws).actionRegistry =
    db.actionRegistry ++ ws.flatMap Write.registryRows := by
  induction ws generalizing db with
  | nil => simp
  | cons w ws ih => simp [ih]

theorem view_ledger (ws : List Write) :
    (postgres.view db ws).ledger = db.ledger ++ ws.flatMap Write.ledgerRows := by
  induction ws generalizing db with
  | nil => simp
  | cons w ws ih => simp [ih]

theorem view_rollbackIntents (ws : List Write) : (postgres.view db ws).rollbackIntents =
    db.rollbackIntents ++ ws.flatMap Write.intentRows := by
  induction ws generalizing db with
  | nil => simp
  | cons w ws ih => simp [ih]

theorem view_rtpOutbox (ws : List Write) : (postgres.view db ws).rtpOutbox =
    db.rtpOutbox ++ ws.flatMap Write.outboxRows := by
  induction ws generalizing db with
  | nil => simp
  | cons w ws ih => simp [ih]

theorem account?_eq_none {db : Db} {a : Account} :
    db.account? a = none ↔ ∀ row ∈ db.accounts, row.account ≠ a := by
  simp [account?]

theorem view_accounts (ws : List Write) : (postgres.view db ws).accounts.map (·.account) =
    db.accounts.map (·.account) ++ ws.flatMap Write.newAccounts := by
  induction ws generalizing db with
  | nil => simp
  | cons w ws ih => simp [ih]

theorem account?_isSome_apply {a : Account} (h : (db.account? a).isSome) :
    ((db.apply w).account? a).isSome := by
  rw [apply_account?]
  cases w <;> simp_all [Write.onAccount]

theorem account?_isSome_view {db : Db} {a : Account} (ws : List Write)
    (h : (db.account? a).isSome) : ((postgres.view db ws).account? a).isSome := by
  induction ws generalizing db with
  | nil => exact h
  | cons w ws ih => exact ih (account?_isSome_apply db w h)

theorem action?_core (x : Uuid) : (db.action? x).map ActionRow.core = db.original? x := by
  unfold action? original? ledger
  cases db.actionRegistry.find? (·.actionId = x) with
  | none => rfl
  | some g => simp only [Option.bind_some, List.find?_map]; rfl

theorem action?_existing (x : Uuid) :
    (db.action? x).map (·.existing) = (db.original? x).map (·.existing) := by
  rw [← action?_core, Option.map_map]
  rfl

theorem action?_isSome (x : Uuid) : (db.action? x).isSome = (db.original? x).isSome := by
  rw [← action?_core, Option.isSome_map]

theorem mem_ledger {r : ActionRow} (h : r ∈ db.actions) : r.core ∈ db.ledger :=
  List.mem_map_of_mem h

theorem exists_of_mem_ledger {r : ActionRow} (h : r ∈ db.ledger) :
    ∃ row ∈ db.actions, row.core = r := List.mem_map.1 h

end Db
end BetProcessor
