import BetProcessor.Processor

namespace BetProcessor
set_option autoImplicit true
open Txn

namespace Rust

/-- A claimed action, as the Rust service keeps it. -/
structure ClaimedAction where
  txId : Uuid
  createdAt : Int
  accountHash : Int
  deriving DecidableEq, Repr

inductive ClaimResult where
  | claimed (claimed : ClaimedAction)
  | duplicate (txId : Uuid)
  deriving DecidableEq, Repr

/-- The columns that the Rust lookup of an original selects. -/
structure ExistingAction where
  actionId : Uuid
  account : Account
  actionType : ActionType
  amount : Option Int
  balanceDelta : Int
  status : Status
  createdAt : Int
  deriving DecidableEq, Repr

/-- An `i64` bound to a `bigint` parameter. -/
def bindI64 (x : Int) : Tx Int :=
  match bindBigint x with
  | some v => pure v
  | none => .throw .outOfRange

def lockAccount (account : Account) : Tx Int := do
  query (.insertAccount account)
  match ← query (.selectAccountForUpdate account) with
  | some balance => pure balance
  | none => .throw .rowMissing

variable (draws : Draws) (request : ProcessRequest)

def claimAction (actionId : Uuid) (account : Account) : Tx ClaimResult := do
  let rows ← query (.claim {
    actionId, account
    ledgerCreatedAt := draws.clock actionId / 1000
    accountHash := draws.hashtext (account.userId ++ ":" ++ account.currency)
    txId := draws.txId actionId })
  match rows.head? with
  | none => .throw .rowMissing
  | some row =>
    if row.claimed then pure (.claimed ⟨row.txId, row.ledgerCreatedAt, row.accountHash⟩)
    else pure (.duplicate row.txId)

def enqueueRtpDelta (createdAt : Int) (account : Account) (totalBet totalWin rounds
    rollbackCount rolledBackBet rolledBackWin : Int) : Tx Unit := do
  let totalBetDelta ← bindI64 totalBet
  let totalWinDelta ← bindI64 totalWin
  let roundsDelta ← bindI64 rounds
  let rollbackCountDelta ← bindI64 rollbackCount
  let rolledBackBetDelta ← bindI64 rolledBackBet
  let rolledBackWinDelta ← bindI64 rolledBackWin
  query (.insertOutbox {
    bucketMinute := minute createdAt
    account, totalBetDelta, totalWinDelta, roundsDelta
    rollbackCountDelta, rolledBackBetDelta, rolledBackWinDelta })

def addAppliedOriginalToRollup (createdAt : Int) (account : Account) (actionType : ActionType)
    (amount : Int) : Tx Unit :=
  enqueueRtpDelta createdAt account (if actionType = .bet then amount else 0)
    (if actionType = .win then amount else 0) (if actionType = .bet then 1 else 0) 0 0 0

def removeAppliedOriginalFromRollup (createdAt : Int) (account : Account)
    (actionType : ActionType) (amount : Int) : Tx Unit :=
  if actionType = .rollback then pure ()
  else enqueueRtpDelta createdAt account (if actionType = .bet then wrapI64 (-amount) else 0)
    (if actionType = .win then wrapI64 (-amount) else 0) (if actionType = .bet then -1 else 0) 0
    (if actionType = .bet then amount else 0) (if actionType = .win then amount else 0)

def addRolledBackOriginalToRollup (createdAt : Int) (account : Account)
    (actionType : ActionType) (amount : Int) : Tx Unit :=
  enqueueRtpDelta createdAt account 0 0 0 0 (if actionType = .bet then amount else 0)
    (if actionType = .win then amount else 0)

def addRollbackCountToRollup (createdAt : Int) (account : Account) : Tx Unit :=
  enqueueRtpDelta createdAt account 0 0 0 1 0 0

def ensureAtcionPartition (createdAt : Int) : Tx Unit :=
  query (.ensureActionsMonthPartition createdAt)

def insertRollbackIntent (originalActionId rollbackActionId : Uuid) (account : Account) :
    Tx Unit :=
  query (.insertIntent ⟨originalActionId, rollbackActionId, account⟩)

def processBetOrWin (actionId : Uuid) (actionType : ActionType) (amount : Int)
    (claimed : ClaimedAction) (balance : Int) : Tx ProcessedAction :=
  if amount ≤ 0 then .throw .badRequest
  else do
    let intent ← query (.selectIntent actionId)
    let isNoop := intent.head?.isSome
    let delta := if isNoop then 0 else if actionType = .bet then wrapI64 (-amount) else amount
    let nextBalance := wrapI64 (balance + delta)
    if nextBalance < 0 then .throw .insufficientFunds
    else do
      ensureAtcionPartition claimed.createdAt
      let amountParam ← bindI64 amount
      let deltaParam ← bindI64 delta
      let createdAt ← query (.insertAction {
        actionId, actionType
        txId := claimed.txId
        accountHash := claimed.accountHash
        account := request.account
        game := request.game
        gameId := request.gameId
        amount := some amountParam
        originalActionId := none
        balanceDelta := deltaParam
        status := if isNoop then .noopPrerolled else .applied
        createdAt := claimed.createdAt })
      if isNoop then addRolledBackOriginalToRollup createdAt request.account actionType amount
      else addAppliedOriginalToRollup createdAt request.account actionType amount
      pure ⟨nextBalance, claimed.txId⟩

def insertRollbackAction (actionId originalActionId : Uuid) (claimed : ClaimedAction)
    (delta : Int) (status : Status) : Tx InsertedRollback := do
  ensureAtcionPartition claimed.createdAt
  let deltaParam ← bindI64 delta
  let createdAt ← query (.insertAction {
    actionId
    txId := claimed.txId
    accountHash := claimed.accountHash
    account := request.account
    game := request.game
    gameId := request.gameId
    actionType := .rollback
    amount := none
    originalActionId := some originalActionId
    balanceDelta := deltaParam
    status
    createdAt := claimed.createdAt })
  pure ⟨claimed.txId, createdAt⟩

def findActionForUpdate (actionId : Uuid) : Tx (Option ExistingAction) := do
  match ← query (.selectActionForUpdate actionId) with
  | none => pure none
  | some row => pure (some ⟨row.actionId, row.account, row.actionType, row.amount,
      row.balanceDelta, row.status, row.createdAt⟩)

def processRollback (actionId originalActionId : Uuid) (claimed : ClaimedAction)
    (balance : Int) : Tx ProcessedAction := do
  let existingIntent ← query (.selectIntent originalActionId)
  if existingIntent.head?.isSome then
    let inserted ← insertRollbackAction request actionId originalActionId claimed 0
      .noopAlreadyRolledBack
    pure ⟨balance, inserted.txId⟩
  else
    match ← findActionForUpdate originalActionId with
    | none =>
      let inserted ← insertRollbackAction request actionId originalActionId claimed 0
        .noopTombstone
      insertRollbackIntent originalActionId actionId request.account
      addRollbackCountToRollup inserted.createdAt request.account
      pure ⟨balance, inserted.txId⟩
    | some original =>
      if original.status ≠ .applied ∨ original.balanceDelta = 0 then
        let inserted ← insertRollbackAction request actionId originalActionId claimed 0
          .noopOriginalNotApplied
        insertRollbackIntent originalActionId actionId request.account
        addRollbackCountToRollup inserted.createdAt request.account
        pure ⟨balance, inserted.txId⟩
      else
        let rollbackDelta := wrapI64 (-original.balanceDelta)
        let nextBalance := wrapI64 (balance + rollbackDelta)
        if nextBalance < 0 then .throw .insufficientFunds
        else
          let inserted ← insertRollbackAction request actionId originalActionId claimed
            rollbackDelta .applied
          insertRollbackIntent originalActionId actionId request.account
          query (.updateRolledBack original.actionId original.createdAt actionId draws.now)
          removeAppliedOriginalFromRollup original.createdAt original.account
            original.actionType (original.amount.getD 0)
          addRollbackCountToRollup inserted.createdAt request.account
          pure ⟨nextBalance, inserted.txId⟩

/-- The loop over the actions of a request. -/
def processActions : List ProcessAction → Int → List Transaction → Tx (Int × List Transaction)
  | [], balance, transactions => pure (balance, transactions)
  | action :: rest, balance, transactions => do
    match ← claimAction draws action.actionId request.account with
    | .duplicate txId =>
      processActions rest balance (transactions ++ [⟨action.actionId, txId⟩])
    | .claimed claimed =>
      let result ← match action with
        | .bet actionId amount => processBetOrWin request actionId .bet amount claimed balance
        | .win actionId amount => processBetOrWin request actionId .win amount claimed balance
        | .rollback actionId originalActionId =>
          processRollback draws request actionId originalActionId claimed balance
      processActions rest result.balance (transactions ++ [⟨action.actionId, result.txId⟩])

def procesRequest : Tx ProcessResponse := do
  let balance ← lockAccount request.account
  let actions := request.actions.getD []
  if actions.isEmpty then pure (.balance balance)
  else
    let (balance, transactions) ← processActions draws request actions balance []
    let stored ← bindI64 balance
    query (.updateBalance request.account stored)
    pure (.actions request.gameId transactions balance)

/-- The claimed action as the other service has it. -/
def ClaimedAction.withId (claimed : ClaimedAction) (x : Uuid) : BetProcessor.ClaimedAction :=
  ⟨x, claimed.txId, claimed.createdAt, claimed.accountHash⟩

def ClaimResult.withId (x : Uuid) : ClaimResult → BetProcessor.ClaimResult
  | .claimed action => .claimed (action.withId x)
  | .duplicate txId => .duplicate txId

section
variable {draws request} {actionId originalActionId : Uuid} {claimed : ClaimedAction}
variable {account : Account} {balance amount createdAt : Int} {actionType : ActionType}

theorem lockAccount_eq : BetProcessor.lockAccount rust account = lockAccount account := rfl

theorem claimAction_eq : claimAtcion rust draws actionId account =
    claimAction draws actionId account >>= fun result => pure (result.withId actionId) := by
  unfold claimAtcion claimAction
  simp only [query, Prog.call_bind, Prog.exec_bind]
  refine congrArg (Prog.exec _) (funext fun rows => ?_)
  cases rows with
  | nil => rfl
  | cons row rest =>
    simp only [List.head?_cons]
    by_cases h : row.claimed = true
    · rw [if_pos h, if_pos h]
      rfl
    · rw [if_neg h, if_neg h]
      rfl

theorem processBetOrWin_eq : BetProcessor.processBetOrWin rust request actionId actionType amount
    (claimed.withId actionId) balance =
    processBetOrWin request actionId actionType amount claimed balance := by
  unfold BetProcessor.processBetOrWin processBetOrWin
  have hrefuses : rust.refuses amount = true ↔ amount ≤ 0 := decide_eq_true_iff
  simp only [hrefuses]
  split
  · rfl
  · refine congrArg (Prog.exec _) (funext fun rows => ?_)
    cases rows with
    | nil => rfl
    | cons row rest => rfl

theorem processRollback_eq : processRolback rust draws request actionId originalActionId
    (claimed.withId actionId) balance =
    processRollback draws request actionId originalActionId claimed balance := by
  unfold processRolback processRollback
  refine congrArg (Prog.exec _) (funext fun rows => ?_)
  cases rows with
  | nil =>
    refine congrArg (Prog.exec _) (funext fun found => ?_)
    cases found with
    | none => rfl
    | some row =>
      obtain ⟨_, _, _, _, amount, _, _, _⟩ := row
      cases amount with
      | none => rfl
      | some amount => rfl
  | cons row rest => rfl

theorem processActions_eq {actions : List ProcessAction} {transactions : List Transaction} :
    BetProcessor.processActions rust draws request actions balance transactions =
      processActions draws request actions balance transactions := by
  induction actions generalizing balance transactions with
  | nil => rfl
  | cons action rest ih =>
    unfold BetProcessor.processActions processActions
    rw [claimAction_eq, Prog.bind_assoc]
    refine congrArg (Prog.bind _) (funext fun result => ?_)
    cases result with
    | duplicate txId => exact ih
    | claimed claimed =>
      cases action with
      | bet actionId amount =>
        change BetProcessor.processBetOrWin rust request actionId .bet amount
          (claimed.withId actionId) balance >>= _ = _
        rw [processBetOrWin_eq]
        exact congrArg (Prog.bind _) (funext fun result => ih)
      | win actionId amount =>
        change BetProcessor.processBetOrWin rust request actionId .win amount
          (claimed.withId actionId) balance >>= _ = _
        rw [processBetOrWin_eq]
        exact congrArg (Prog.bind _) (funext fun result => ih)
      | rollback actionId originalActionId =>
        change processRolback rust draws request actionId originalActionId
          (claimed.withId actionId) balance >>= _ = _
        rw [processRollback_eq]
        exact congrArg (Prog.bind _) (funext fun result => ih)

/-- The Rust service runs the same program as the other one, over `i64`. -/
theorem procesRequest_eq : processAggregatorRequest rust draws request =
    procesRequest draws request := by
  unfold processAggregatorRequest procesRequest
  rw [lockAccount_eq]
  refine congrArg (Prog.bind _) (funext fun balance => ?_)
  simp only [List.length_eq_zero_iff, List.isEmpty_iff]
  split
  · rfl
  · rw [processActions_eq]
    rfl

end
end Rust

theorem Call.body_rust {c : Call} (h : c.svc = rust) :
    c.body = Rust.procesRequest c.draws c.request := by
  rw [Call.body, h]
  exact Rust.procesRequest_eq

end BetProcessor
