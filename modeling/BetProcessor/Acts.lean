import BetProcessor.RegistryLedger

namespace BetProcessor
set_option autoImplicit true
open Txn

/-- What a newly claimed action adds to the tables and the balance after it. -/
structure Act where
  row : ActionRow
  intent : Option IntentRow
  /-- The key under which an original is marked as rolled back. -/
  mark : Option (Uuid × Int)
  outs : List OutboxRow
  balance : Int

def Act.writes (act : Act) (now : Int) : List Write :=
  .insertAction act.row :: (act.intent.toList.map .insertIntent ++
    act.mark.toList.map (fun key => .updateRolledBack key.1 key.2 act.row.actionId now) ++
    act.outs.map .insertOutbox)

/-- A number as a parameter of a `bigint` column. -/
def Service.param (svc : Service) (x : Int) : Except Err Int :=
  match svc.bind x with
  | some v => .ok v
  | none => .error .outOfRange

namespace Db
variable (V : Db) (c : Call) (b : Int)

/-- A bet or a win in the tables `V`. -/
def actOriginal (type : ActionType) (x : Uuid) (amount : Int) : Except Err Act :=
  let delta := if V.HasIntent x then 0 else originalDelta c.svc type amount
  if c.svc.refuses amount then .error .badRequest
  else if c.svc.add b delta < 0 then .error .insufficientFunds
  else do
    let v ← c.svc.param amount
    let d ← c.svc.param delta
    if 0 < v then
      .ok {
        row := c.originalRow type x v d (if V.HasIntent x then .noopPrerolled else .applied)
        intent := none
        mark := none
        outs := [if V.HasIntent x then rolledBackDelta (c.claimedAt x) c.account type v
          else appliedDelta (c.claimedAt x) c.account type v]
        balance := c.svc.add b delta }
    else .error .checkViolation

/-- What the reversal of a row takes out of the report. -/
def removal (svc : Service) (row : ActionRow) : Except Err (List OutboxRow) :=
  if row.actionType = .rollback then .ok []
  else do
    let n ← svc.param (svc.neg ((row.amount.map svc.load).getD 0))
    let v ← svc.param ((row.amount.map svc.load).getD 0)
    .ok [removedDelta row.createdAt row.account row.actionType n v]

/-- A rollback `r` of the action `o` in the tables `V`. -/
def actRollback (r o : Uuid) : Except Err Act :=
  if V.HasIntent o then .ok ⟨c.rollbackRow r o 0 .noopAlreadyRolledBack, none, none, [], b⟩
  else
    match V.original? o with
    | none => .ok ⟨c.rollbackRow r o 0 .noopTombstone, some ⟨o, r, c.account⟩, none,
        [rollbackCountDelta (c.claimedAt r) c.account], b⟩
    | some row =>
      if row.status ≠ .applied ∨ c.svc.load row.balanceDelta = 0 then
        .ok ⟨c.rollbackRow r o 0 .noopOriginalNotApplied, some ⟨o, r, c.account⟩, none,
          [rollbackCountDelta (c.claimedAt r) c.account], b⟩
      else if c.svc.add b (c.svc.neg (c.svc.load row.balanceDelta)) < 0 then
        .error .insufficientFunds
      else do
        let d ← c.svc.param (c.svc.neg (c.svc.load row.balanceDelta))
        let outs ← removal c.svc row
        .ok ⟨c.rollbackRow r o d .applied, some ⟨o, r, c.account⟩,
          some (o, c.svc.date row.createdAt),
          outs ++ [rollbackCountDelta (c.claimedAt r) c.account],
          c.svc.add b (c.svc.neg (c.svc.load row.balanceDelta))⟩

def act : ProcessAction → Except Err Act
  | .bet x amount => V.actOriginal c b .bet x amount
  | .win x amount => V.actOriginal c b .win x amount
  | .rollback r o => V.actRollback c b r o

/-- The tables with a new action. -/
def performed (act : Act) : Db :=
  postgres.view V (.insertRegistry (c.registryRow act.row.actionId) ::
    act.writes c.draws.now)

end Db

section
variable {c : Call} {V : Db} {b : Int} {α : Type}

theorem exec_bigint (x : Int) (f : Int → Tx α) :
    postgres.exec (bigint c.svc x >>= f) V = c.svc.param x >>= fun v => postgres.exec (f v) V := by
  unfold bigint Service.param
  cases c.svc.bind x with
  | none => rfl
  | some v => rfl

/-- The row that a delta becomes. -/
def RtpOutboxDelta.row (svc : Service) (delta : RtpOutboxDelta) : Except Err OutboxRow := do
  let totalBetDelta ← svc.param delta.totalBet
  let totalWinDelta ← svc.param delta.totalWin
  let roundsDelta ← svc.param delta.rounds
  let rollbackCountDelta ← svc.param delta.rollbackCount
  let rolledBackBetDelta ← svc.param delta.rolledBackBet
  let rolledBackWinDelta ← svc.param delta.rolledBackWin
  .ok ⟨minute delta.bucketAt, delta.account, totalBetDelta, totalWinDelta, roundsDelta,
    rollbackCountDelta, rolledBackBetDelta, rolledBackWinDelta⟩

theorem exec_enqueueRtpDelta (delta : RtpOutboxDelta) (f : Unit → Tx α) :
    postgres.exec (enqueueRtpDelta c.svc delta >>= f) V =
      delta.row c.svc >>= fun row =>
        postgres.exec (f ()) (postgres.view V [.insertOutbox row]) := by
  unfold enqueueRtpDelta RtpOutboxDelta.row
  simp only [Prog.bind_assoc, exec_bigint, bind_assoc]
  rfl

theorem exec_ensureActionPartition (t : Int) (f : Unit → Tx α) :
    postgres.exec (ensureActionPartition t >>= f) V = postgres.exec (f ()) V := by
  have heval : (Stmt.ensureActionsMonthPartition t).eval V V = .ok ((), []) := rfl
  exact exec_query heval

theorem length_selectIntent {o : Uuid} :
    0 < ((V.rollbackIntents.filter (·.originalActionId = o)).map (·.rollbackActionId)).length ↔
      V.HasIntent o := by
  rw [List.length_map, List.length_pos_iff_exists_mem]
  simp only [List.mem_filter, decide_eq_true_eq]
  rfl

theorem exec_insertAction {row : ActionRow} (hreg : V.Registered row.actionId)
    (hcheck : row.Check) (f : Int → Tx α) :
    postgres.exec (query (.insertAction row) >>= f) V =
      postgres.exec (f row.createdAt) (postgres.view V [.insertAction row]) :=
  exec_query (by rw [Stmt.eval, if_neg (not_not.2 hreg), if_neg (not_not.2 hcheck)])

theorem exec_insertAction_error {row : ActionRow} (hreg : V.Registered row.actionId)
    (hcheck : ¬ row.Check) (f : Int → Tx α) :
    postgres.exec (query (.insertAction row) >>= f) V = .error .checkViolation :=
  postgres.exec_error (by
    rw [postgres_eval, Stmt.eval, if_neg (not_not.2 hreg), if_pos hcheck])

theorem exec_insertRollbackIntent {o r : Uuid} {a : Account} (hno : ¬ V.HasIntent o)
    (hby : ¬ V.HasIntentBy r) (hreg : V.Registered r) (f : Unit → Tx α) :
    postgres.exec (insertRollbackIntent o r a >>= f) V =
      postgres.exec (f ()) (postgres.view V [.insertIntent ⟨o, r, a⟩]) :=
  exec_query (by rw [Stmt.eval, if_neg (not_or.2 ⟨hno, hby⟩), if_neg (not_not.2 hreg)])

theorem Db.apply_updateRolledBack_none {x r : Uuid} {t now : Int}
    (h : ¬ ∃ row ∈ V.actions, row.actionId = x ∧ row.createdAt = t) :
    V.apply (.updateRolledBack x t r now) = V := by
  have hmap : V.actions.map (·.setRolledBack x t r now) = V.actions := by
    conv_rhs => rw [← List.map_id V.actions]
    apply List.map_congr_left
    intro row hrow
    rw [ActionRow.setRolledBack, if_neg fun hkey => h ⟨row, hrow, hkey⟩]
    rfl
  rw [Db.apply, hmap]

theorem exec_updateRolledBack (x : Uuid) (t : Int) (r : Uuid) (now : Int) (f : Unit → Tx α) :
    postgres.exec (query (.updateRolledBack x t r now) >>= f) V =
      postgres.exec (f ()) (postgres.view V [.updateRolledBack x t r now]) := by
  by_cases h : ∃ row ∈ V.actions, row.actionId = x ∧ row.createdAt = t
  · exact exec_query (if_pos h)
  · have hsame : postgres.view V [.updateRolledBack x t r now] = V :=
      Db.apply_updateRolledBack_none h
    have heval : (Stmt.updateRolledBack x t r now).eval V V = .ok ((), []) := if_neg h
    rw [hsame]
    exact exec_query heval

theorem exec_findActionForUpdate_bind (x : Uuid) (f : Option ExistingAction → Tx α) :
    postgres.exec (findActionForUpdate c.svc x >>= f) V =
      postgres.exec (f ((V.original? x).map fun row => row.existing.read c.svc)) V := by
  have hfound : (V.action? x).map (fun row => row.existing.read c.svc) =
      (V.original? x).map fun row => row.existing.read c.svc := by
    have hmap := congrArg (Option.map (ExistingAction.read c.svc)) (V.action?_existing x)
    rwa [Option.map_map, Option.map_map] at hmap
  rw [postgres.exec_bind, exec_findActionForUpdate, hfound]
  rfl

theorem Service.param_zero (svc : Service) : svc.param 0 = .ok 0 := by
  rw [Service.param, svc.bind_zero]

theorem Service.param_one (svc : Service) : svc.param 1 = .ok 1 := by
  rw [Service.param, svc.bind_one]

theorem Service.param_neg_one (svc : Service) : svc.param (-1) = .ok (-1) := by
  rw [Service.param, svc.bind_neg_one]

section
variable {svc : Service} {t amount n v : Int} {a : Account} {type : ActionType}

theorem appliedOriginal_row (hv : svc.param amount = .ok v) : RtpOutboxDelta.row svc {
      bucketAt := t, account := a
      totalBet := if type = .bet then amount else 0
      totalWin := if type = .win then amount else 0
      rounds := if type = .bet then 1 else 0 } = .ok (appliedDelta t a type v) := by
  unfold RtpOutboxDelta.row
  cases type <;> simp [svc.param_zero, svc.param_one, hv, appliedDelta] <;> rfl

theorem rolledBackOriginal_row (hv : svc.param amount = .ok v) : RtpOutboxDelta.row svc {
      bucketAt := t, account := a
      rolledBackBet := if type = .bet then amount else 0
      rolledBackWin := if type = .win then amount else 0 } = .ok (rolledBackDelta t a type v) := by
  unfold RtpOutboxDelta.row
  cases type <;> simp [svc.param_zero, hv, rolledBackDelta] <;> rfl

theorem rollbackCount_row : RtpOutboxDelta.row svc {
      bucketAt := t, account := a, rollbackCount := 1 } = .ok (rollbackCountDelta t a) := by
  unfold RtpOutboxDelta.row
  simp only [svc.param_zero, svc.param_one]
  rfl

theorem removedOriginal_row (htype : type ≠ .rollback) : RtpOutboxDelta.row svc {
      bucketAt := svc.date t, account := a
      totalBet := if type = .bet then svc.neg amount else 0
      totalWin := if type = .win then svc.neg amount else 0
      rounds := if type = .bet then -1 else 0
      rolledBackBet := if type = .bet then amount else 0
      rolledBackWin := if type = .win then amount else 0 } = (do
        let n ← svc.param (svc.neg amount)
        let v ← svc.param amount
        .ok (removedDelta t a type n v)) := by
  unfold RtpOutboxDelta.row
  rw [svc.minute_date]
  cases type with
  | rollback => exact absurd rfl htype
  | bet =>
    simp only [reduceCtorEq, if_true, if_false, svc.param_zero, svc.param_neg_one]
    rfl
  | win =>
    simp only [reduceCtorEq, if_true, if_false, svc.param_zero]
    rfl

end

theorem originalRow_check {type : ActionType} {x : Uuid} {v d : Int} {status : Status}
    (htype : type ≠ .rollback) : (c.originalRow type x v d status).Check ↔ 0 < v := by
  cases type with
  | rollback => exact absurd rfl htype
  | bet => exact Iff.rfl
  | win => exact Iff.rfl

theorem exec_insertOriginal {type : ActionType} {x : Uuid} {amount delta next : Int}
    {status : Status} (out : Int → OutboxRow) (enqueue : Int → Tx Unit)
    (htype : type ≠ .rollback) (hreg : V.Registered x)
    (hout : ∀ {v V}, c.svc.param amount = .ok v → postgres.exec (enqueue (c.claimedAt x) >>=
      fun _ => (pure ⟨next, c.draws.txId x⟩ : Tx ProcessedAction)) V =
        .ok (⟨next, c.draws.txId x⟩, postgres.view V [.insertOutbox (out v)])) :
    postgres.exec (do
      let v ← bigint c.svc amount
      let d ← bigint c.svc delta
      let insertedAt ← query (.insertAction (c.originalRow type x v d status))
      enqueue insertedAt
      pure (⟨next, c.draws.txId x⟩ : ProcessedAction)) V = ((do
        let v ← c.svc.param amount
        let d ← c.svc.param delta
        if 0 < v then
          .ok ⟨c.originalRow type x v d status, none, none, [out v], next⟩
        else .error .checkViolation : Except Err Act).map fun act =>
          (⟨act.balance, c.draws.txId x⟩, postgres.view V (act.writes c.draws.now))) := by
  rw [exec_bigint]
  cases hv : c.svc.param amount with
  | error e => rfl
  | ok v =>
    change postgres.exec (bigint c.svc delta >>= _) V = _
    rw [exec_bigint]
    cases hd : c.svc.param delta with
    | error e => rfl
    | ok d =>
      change postgres.exec (query (.insertAction (c.originalRow type x v d status)) >>= _) V = _
      by_cases hpos : 0 < v
      · rw [exec_insertAction hreg ((originalRow_check htype).2 hpos)]
        apply (hout hv).trans
        change _ = Except.map _ (if 0 < v then _ else _)
        rw [if_pos hpos]
        rfl
      · rw [exec_insertAction_error hreg ((originalRow_check htype).not.2 hpos)]
        change _ = Except.map _ (if 0 < v then _ else _)
        rw [if_neg hpos]
        rfl

theorem exec_processBetOrWin {type : ActionType} {x : Uuid} (amount : Int)
    (htype : type ≠ .rollback) (hreg : V.Registered x) :
    postgres.exec (processBetOrWin c.svc c.request x type amount (c.claimed x) b) V =
      (V.actOriginal c b type x amount).map fun act =>
        (⟨act.balance, c.draws.txId x⟩, postgres.view V (act.writes c.draws.now)) := by
  have hdate : c.svc.date (c.claimedAt x) = c.claimedAt x := c.svc.date_stamp _
  have hselect : (Stmt.selectIntent x).eval V V = .ok ((V.rollbackIntents.filter
      (·.originalActionId = x)).map (·.rollbackActionId), []) := rfl
  rw [processBetOrWin, Db.actOriginal]
  dsimp only
  split
  · rfl
  · have hlength := length_selectIntent (V := V) (o := x)
    rw [exec_query hselect, Engine.view_nil]
    generalize (V.rollbackIntents.filter (·.originalActionId = x)).map (·.rollbackActionId) = rows
      at hlength ⊢
    cases rows with
    | nil =>
      have hseen : ¬ V.HasIntent x := hlength.not.1 (Nat.lt_irrefl 0)
      simp only [if_neg hseen]
      change postgres.exec
        (if c.svc.add b (originalDelta c.svc type amount) < 0 then _ else _) V = _
      split
      · rfl
      · rw [exec_ensureActionPartition]
        apply exec_insertOriginal (appliedDelta (c.claimedAt x) c.account type)
          (fun t => enqueueAppliedOriginal c.svc (c.svc.date t) c.account type amount) htype hreg
        intro v V hv
        rw [hdate]
        apply (exec_enqueueRtpDelta _ _).trans
        rw [appliedOriginal_row hv]
        rfl
    | cons r rest =>
      have hseen : V.HasIntent x := hlength.1 (Nat.succ_pos _)
      simp only [if_pos hseen]
      change postgres.exec (if c.svc.add b 0 < 0 then _ else _) V = _
      split
      · rfl
      · rw [exec_ensureActionPartition]
        apply exec_insertOriginal (rolledBackDelta (c.claimedAt x) c.account type)
          (fun t => enqueueRolledBackOriginal c.svc (c.svc.date t) c.account type amount) htype hreg
        intro v V hv
        rw [hdate]
        apply (exec_enqueueRtpDelta _ _).trans
        rw [rolledBackOriginal_row hv]
        rfl

theorem exec_insertRolbackAction {r o : Uuid} {delta : Int} {status : Status}
    (hreg : V.Registered r) (f : InsertedRollback → Tx α) :
    postgres.exec (insertRolbackAction c.svc c.request r o (c.claimed r) delta status >>= f) V =
      c.svc.param delta >>= fun d => postgres.exec (f ⟨c.draws.txId r, c.claimedAt r⟩)
        (postgres.view V [.insertAction (c.rollbackRow r o d status)]) := by
  have hdate : c.svc.date (c.claimedAt r) = c.claimedAt r := c.svc.date_stamp _
  rw [insertRolbackAction]
  simp only [Prog.bind_assoc]
  rw [exec_ensureActionPartition, exec_bigint]
  cases c.svc.param delta with
  | error e => rfl
  | ok d =>
    have hcheck : (c.rollbackRow r o d status).Check := trivial
    apply (exec_insertAction hreg hcheck _).trans
    change postgres.exec (f ⟨c.draws.txId r, c.svc.date (c.claimedAt r)⟩) _ = _
    rw [hdate]
    rfl

theorem exec_enqueueRollbackCount (t : Int) (f : Unit → Tx α) :
    postgres.exec (enqueueRollbackCount c.svc t c.account >>= f) V =
      postgres.exec (f ()) (postgres.view V [.insertOutbox (rollbackCountDelta t c.account)]) := by
  apply (exec_enqueueRtpDelta _ _).trans
  rw [rollbackCount_row]
  rfl

theorem exec_enqueueRemoveAppliedOriginal (row : ActionRow) (f : Unit → Tx α) :
    postgres.exec (enqueueRemoveAppliedOriginal c.svc (c.svc.date row.createdAt) row.account
      row.actionType ((row.amount.map c.svc.load).getD 0) >>= f) V =
      Db.removal c.svc row >>= fun outs =>
        postgres.exec (f ()) (postgres.view V (outs.map .insertOutbox)) := by
  rw [enqueueRemoveAppliedOriginal, Db.removal]
  split
  · rfl
  · rename_i htype
    apply (exec_enqueueRtpDelta _ _).trans
    rw [removedOriginal_row htype]
    cases c.svc.param (c.svc.neg ((row.amount.map c.svc.load).getD 0)) with
    | error e => rfl
    | ok n =>
      cases c.svc.param ((row.amount.map c.svc.load).getD 0) with
      | error e => rfl
      | ok v => rfl

theorem exec_recordedNoop {r o : Uuid} {status : Status} (hreg : V.Registered r)
    (hno : ¬ V.HasIntent o) (hby : ¬ V.HasIntentBy r) :
    postgres.exec (do
      let inserted ← insertRolbackAction c.svc c.request r o (c.claimed r) 0 status
      insertRollbackIntent o r c.request.account
      enqueueRollbackCount c.svc inserted.createdAt c.request.account
      pure (⟨b, inserted.txId⟩ : ProcessedAction)) V =
      .ok (⟨b, c.draws.txId r⟩, postgres.view V [.insertAction (c.rollbackRow r o 0 status),
        .insertIntent ⟨o, r, c.account⟩,
        .insertOutbox (rollbackCountDelta (c.claimedAt r) c.account)]) := by
  rw [exec_insertRolbackAction hreg, c.svc.param_zero]
  apply (exec_insertRollbackIntent
    (V := postgres.view V [.insertAction (c.rollbackRow r o 0 status)]) hno hby hreg _).trans
  exact exec_enqueueRollbackCount (c.claimedAt r) _

theorem exec_processRolback {r o : Uuid} (hreg : V.Registered r) (hby : ¬ V.HasIntentBy r) :
    postgres.exec (processRolback c.svc c.draws c.request r o (c.claimed r) b) V =
      (V.actRollback c b r o).map fun act =>
        (⟨act.balance, c.draws.txId r⟩, postgres.view V (act.writes c.draws.now)) := by
  have hselect : (Stmt.selectIntent o).eval V V = .ok ((V.rollbackIntents.filter
      (·.originalActionId = o)).map (·.rollbackActionId), []) := rfl
  have hlength := length_selectIntent (V := V) (o := o)
  rw [processRolback, Db.actRollback, exec_query hselect, Engine.view_nil]
  generalize (V.rollbackIntents.filter (·.originalActionId = o)).map (·.rollbackActionId) = rows
    at hlength ⊢
  by_cases hseen : V.HasIntent o
  · rw [if_pos (hlength.2 hseen), if_pos hseen, exec_insertRolbackAction hreg, c.svc.param_zero]
    rfl
  · rw [if_neg (hlength.not.2 hseen), if_neg hseen, exec_findActionForUpdate_bind]
    cases horiginal : V.original? o with
    | none => exact exec_recordedNoop hreg hseen hby
    | some row =>
      obtain ⟨rfl, _⟩ := Db.original?_registry horiginal
      dsimp only [Option.map_some, ExistingAction.read, ActionRow.existing]
      split
      · exact exec_recordedNoop hreg hseen hby
      · split
        · rfl
        · rw [exec_insertRolbackAction hreg]
          cases c.svc.param (c.svc.neg (c.svc.load row.balanceDelta)) with
          | error e => rfl
          | ok d =>
            apply (exec_insertRollbackIntent
              (V := postgres.view V [.insertAction (c.rollbackRow r row.actionId d .applied)])
              hseen hby hreg _).trans
            apply (exec_updateRolledBack _ _ _ _ _).trans
            apply (exec_enqueueRemoveAppliedOriginal row _).trans
            cases Db.removal c.svc row with
            | error e => rfl
            | ok outs =>
              apply (exec_enqueueRollbackCount (c.claimedAt r) _).trans
              change Except.ok _ = Except.ok _
              simp only [Act.writes, Option.toList_some, List.map_cons, List.map_nil,
                List.map_append, List.cons_append, List.nil_append, Engine.view_cons,
                Engine.view_append, Engine.view_nil]
              rfl

end

end BetProcessor
