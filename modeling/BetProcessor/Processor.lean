import BetProcessor.Statements

namespace BetProcessor
set_option autoImplicit true
open Txn

inductive ProcessAction where
  | bet (actionId : Uuid) (amount : Int)
  | win (actionId : Uuid) (amount : Int)
  | rollback (actionId originalActionId : Uuid)
  deriving DecidableEq, Repr

def ProcessAction.actionId : ProcessAction → Uuid
  | .bet x _ | .win x _ | .rollback x _ => x

def ProcessAction.target? : ProcessAction → Option Uuid
  | .rollback _ o => some o
  | _ => none

structure ProcessRequest where
  userId : String
  currency : String
  game : String
  gameId : Option String := none
  actions : Option (List ProcessAction) := none
  deriving DecidableEq, Repr

def ProcessRequest.account (request : ProcessRequest) : Account :=
  ⟨request.userId, request.currency⟩

structure Transaction where
  actionId : Uuid
  txId : Uuid
  deriving DecidableEq, Repr

inductive ProcessResponse where
  | balance (balance : Int)
  | actions (gameId : Option String) (transactions : List Transaction) (balance : Int)
  deriving DecidableEq, Repr

structure ClaimedAction where
  actionId : Uuid
  txId : Uuid
  createdAt : Int
  accountHash : Int
  deriving DecidableEq, Repr

inductive ClaimResult where
  | claimed (claimed : ClaimedAction)
  | duplicate (txId : Uuid)
  deriving DecidableEq, Repr

/-- What the outside world gives to one request: the clock reading and the generated `tx_id`
at the claim of each action id, the hash function of the database and its `now()`. -/
structure Draws where
  clock : Uuid → Int
  txId : Uuid → Uuid
  hashtext : String → Int
  now : Int

structure ProcessedAction where
  balance : Int
  txId : Uuid
  deriving DecidableEq, Repr

structure InsertedRollback where
  txId : Uuid
  createdAt : Int
  deriving DecidableEq, Repr

structure RtpOutboxDelta where
  bucketAt : Int
  account : Account
  totalBet : Int := 0
  totalWin : Int := 0
  rounds : Int := 0
  rollbackCount : Int := 0
  rolledBackBet : Int := 0
  rolledBackWin : Int := 0
  deriving DecidableEq, Repr

section
variable (svc : Service)

/-- A number bound to a `bigint` parameter. -/
def bigint (x : Int) : Tx Int :=
  match svc.bind x with
  | some v => pure v
  | none => .throw .outOfRange

def lockAccount (account : Account) : Tx Int := do
  query (.insertAccount account)
  match ← query (.selectAccountForUpdate account) with
  | some balance => pure (svc.load balance)
  | none => .throw .rowMissing

def claimAtcion (draws : Draws) (actionId : Uuid) (account : Account) : Tx ClaimResult := do
  let rows ← query (.claim {
    actionId, account
    ledgerCreatedAt := svc.stamp (draws.clock actionId)
    accountHash := draws.hashtext (account.userId ++ ":" ++ account.currency)
    txId := draws.txId actionId })
  match rows.head? with
  | none => .throw .rowMissing
  | some row =>
    if row.claimed then
      pure (.claimed ⟨actionId, row.txId, svc.date row.ledgerCreatedAt, row.accountHash⟩)
    else pure (.duplicate row.txId)

def enqueueRtpDelta (delta : RtpOutboxDelta) : Tx Unit := do
  let totalBetDelta ← bigint svc delta.totalBet
  let totalWinDelta ← bigint svc delta.totalWin
  let roundsDelta ← bigint svc delta.rounds
  let rollbackCountDelta ← bigint svc delta.rollbackCount
  let rolledBackBetDelta ← bigint svc delta.rolledBackBet
  let rolledBackWinDelta ← bigint svc delta.rolledBackWin
  query (.insertOutbox {
    bucketMinute := minute delta.bucketAt
    account := delta.account
    totalBetDelta, totalWinDelta, roundsDelta
    rollbackCountDelta, rolledBackBetDelta, rolledBackWinDelta })

def enqueueAppliedOriginal (createdAt : Int) (account : Account) (actionType : ActionType)
    (amount : Int) : Tx Unit :=
  enqueueRtpDelta svc {
    bucketAt := createdAt, account
    totalBet := if actionType = .bet then amount else 0
    totalWin := if actionType = .win then amount else 0
    rounds := if actionType = .bet then 1 else 0 }

def enqueueRemoveAppliedOriginal (createdAt : Int) (account : Account) (actionType : ActionType)
    (amount : Int) : Tx Unit :=
  if actionType = .rollback then pure ()
  else enqueueRtpDelta svc {
    bucketAt := createdAt, account
    totalBet := if actionType = .bet then svc.neg amount else 0
    totalWin := if actionType = .win then svc.neg amount else 0
    rounds := if actionType = .bet then -1 else 0
    rolledBackBet := if actionType = .bet then amount else 0
    rolledBackWin := if actionType = .win then amount else 0 }

def enqueueRolledBackOriginal (createdAt : Int) (account : Account) (actionType : ActionType)
    (amount : Int) : Tx Unit :=
  enqueueRtpDelta svc {
    bucketAt := createdAt, account
    rolledBackBet := if actionType = .bet then amount else 0
    rolledBackWin := if actionType = .win then amount else 0 }

def enqueueRollbackCount (createdAt : Int) (account : Account) : Tx Unit :=
  enqueueRtpDelta svc { bucketAt := createdAt, account, rollbackCount := 1 }

def ensureActionPartition (createdAt : Int) : Tx Unit :=
  query (.ensureActionsMonthPartition createdAt)

def insertRollbackIntent (originalActionId rollbackActionId : Uuid) (account : Account) :
    Tx Unit :=
  query (.insertIntent ⟨originalActionId, rollbackActionId, account⟩)

/-- What an applied bet or win adds to the balance. -/
def originalDelta (actionType : ActionType) (amount : Int) : Int :=
  if actionType = .bet then svc.neg amount else amount

variable (draws : Draws) (request : ProcessRequest)

def processBetOrWin (actionId : Uuid) (actionType : ActionType) (amount : Int)
    (claimed : ClaimedAction) (balance : Int) : Tx ProcessedAction :=
  if svc.refuses amount then .throw .badRequest
  else do
    let hasPreRollback ← query (.selectIntent actionId)
    let isNoop := 0 < hasPreRollback.length
    let delta := if isNoop then 0 else originalDelta svc actionType amount
    let nextBalance := svc.add balance delta
    if nextBalance < 0 then .throw .insufficientFunds
    else do
      ensureActionPartition claimed.createdAt
      let amountParam ← bigint svc amount
      let deltaParam ← bigint svc delta
      let insertedAt ← query (.insertAction {
        actionId, actionType
        txId := claimed.txId
        accountHash := claimed.accountHash
        account := request.account
        game := request.game
        gameId := request.gameId
        amount := some amountParam
        originalActionId := none
        balanceDelta := deltaParam
        status := if isNoop then .noopPrerolled else .applied
        createdAt := claimed.createdAt })
      let createdAt := svc.date insertedAt
      if isNoop then
        enqueueRolledBackOriginal svc createdAt request.account actionType amount
      else enqueueAppliedOriginal svc createdAt request.account actionType amount
      pure ⟨nextBalance, claimed.txId⟩

def insertRolbackAction (actionId originalActionId : Uuid) (claimed : ClaimedAction)
    (delta : Int) (status : Status) : Tx InsertedRollback := do
  ensureActionPartition claimed.createdAt
  let deltaParam ← bigint svc delta
  let insertedAt ← query (.insertAction {
    actionId
    txId := claimed.txId
    accountHash := claimed.accountHash
    account := request.account
    game := request.game
    gameId := request.gameId
    actionType := .rollback
    amount := none
    originalActionId := some originalActionId
    balanceDelta := deltaParam
    status
    createdAt := claimed.createdAt })
  pure ⟨claimed.txId, svc.date insertedAt⟩

def findActionForUpdate (actionId : Uuid) : Tx (Option ExistingAction) := do
  match ← query (.selectActionForUpdate actionId) with
  | none => pure none
  | some row => pure (some { row with
      amount := row.amount.map svc.load
      balanceDelta := svc.load row.balanceDelta
      createdAt := svc.date row.createdAt })

def processRolback (actionId originalActionId : Uuid) (claimed : ClaimedAction)
    (balance : Int) : Tx ProcessedAction := do
  let existingIntent ← query (.selectIntent originalActionId)
  if 0 < existingIntent.length then
    let inserted ← insertRolbackAction svc request actionId originalActionId claimed 0
      .noopAlreadyRolledBack
    pure ⟨balance, inserted.txId⟩
  else
    match ← findActionForUpdate svc originalActionId with
    | none =>
      let inserted ← insertRolbackAction svc request actionId originalActionId claimed 0
        .noopTombstone
      insertRollbackIntent originalActionId actionId request.account
      enqueueRollbackCount svc inserted.createdAt request.account
      pure ⟨balance, inserted.txId⟩
    | some original =>
      if original.status ≠ .applied ∨ original.balanceDelta = 0 then
        let inserted ← insertRolbackAction svc request actionId originalActionId claimed 0
          .noopOriginalNotApplied
        insertRollbackIntent originalActionId actionId request.account
        enqueueRollbackCount svc inserted.createdAt request.account
        pure ⟨balance, inserted.txId⟩
      else
        let rollbackDelta := svc.neg original.balanceDelta
        let nextBalance := svc.add balance rollbackDelta
        if nextBalance < 0 then .throw .insufficientFunds
        else
          let inserted ← insertRolbackAction svc request actionId originalActionId claimed
            rollbackDelta .applied
          insertRollbackIntent originalActionId actionId request.account
          query (.updateRolledBack original.actionId original.createdAt actionId draws.now)
          enqueueRemoveAppliedOriginal svc original.createdAt original.account
            original.actionType (original.amount.getD 0)
          enqueueRollbackCount svc inserted.createdAt request.account
          pure ⟨nextBalance, inserted.txId⟩

/-- The dispatch on the kind of a claimed action. -/
def processAction (action : ProcessAction) (claimed : ClaimedAction) (balance : Int) :
    Tx ProcessedAction :=
  match action with
  | .bet actionId amount => processBetOrWin svc request actionId .bet amount claimed balance
  | .win actionId amount => processBetOrWin svc request actionId .win amount claimed balance
  | .rollback actionId originalActionId =>
    processRolback svc draws request actionId originalActionId claimed balance

/-- The loop over the actions of a request, with its balance and its transactions so far. -/
def processActions : List ProcessAction → Int → List Transaction → Tx (Int × List Transaction)
  | [], balance, transactions => pure (balance, transactions)
  | action :: rest, balance, transactions => do
    match ← claimAtcion svc draws action.actionId request.account with
    | .duplicate txId =>
      processActions rest balance (transactions ++ [⟨action.actionId, txId⟩])
    | .claimed claimed =>
      let result ← processAction svc draws request action claimed balance
      processActions rest result.balance (transactions ++ [⟨action.actionId, result.txId⟩])

def processAggregatorRequest : Tx ProcessResponse := do
  let balance ← lockAccount svc request.account
  let actions := request.actions.getD []
  if actions.length = 0 then pure (.balance balance)
  else
    let (balance, transactions) ← processActions svc draws request actions balance []
    let stored ← bigint svc balance
    query (.updateBalance request.account stored)
    pure (.actions request.gameId transactions balance)

end

/-- A request, the service that gets it and what the outside world gives to it. -/
structure Call where
  svc : Service
  draws : Draws
  request : ProcessRequest

namespace Call
variable (c : Call)

def account : Account := c.request.account

def actions : List ProcessAction := c.request.actions.getD []

/-- The request has a rollback of the id. -/
def RollsBack (originalActionId : Uuid) : Prop :=
  ∃ action ∈ c.actions, action.target? = some originalActionId

instance (originalActionId : Uuid) : Decidable (c.RollsBack originalActionId) :=
  inferInstanceAs (Decidable (∃ action ∈ c.actions, _))

def body : Tx ProcessResponse := processAggregatorRequest c.svc c.draws c.request

/-- `inTransaction` around the handler, alone on the database. -/
def serve (db : Db) : Except Err ProcessResponse × Db := postgres.transact c.body db

end Call

/-- The requests one after the other. -/
def Db.after (db : Db) (calls : List Call) : Db := calls.foldl (fun db c => (c.serve db).2) db

@[simp] theorem Db.after_nil (db : Db) : db.after [] = db := rfl

@[simp] theorem Db.after_cons (db : Db) (c : Call) (calls : List Call) :
    db.after (c :: calls) = ((c.serve db).2).after calls := rfl

@[simp] theorem Db.after_append (db : Db) (calls calls' : List Call) :
    db.after (calls ++ calls') = (db.after calls).after calls' := List.foldl_append

def plainDraws : Draws := ⟨fun x => x, fun x => x + 1000, fun _ => 0, 0⟩

/-- A rollback before its bet, and the late bet. -/
example :
    let call := fun svc actions => (⟨svc, plainDraws,
      ⟨"8|USDT|USD", "USD", "acceptance:test", none, some actions⟩⟩ : Call)
    let db₀ : Db := ⟨[⟨⟨"8|USDT|USD", "USD"⟩, 74321821⟩], [], [], [], []⟩
    ((call rust [.bet 1 100]).serve (db₀.after [call typescript [.rollback 2 1]])).1 =
      .ok (.actions none [⟨1, 1001⟩] 74321821) := by decide +kernel

end BetProcessor
