import BetProcessor.Txn.RelyGuarantee
import BetProcessor.Rows
import BetProcessor.Processor

namespace BetProcessor
set_option autoImplicit true
open Txn

/-- A moment of a transaction: what it has done and the committed database. -/
abbrev Moment := Sess Stmt Write Key → Db → Prop

/-- What an applied bet or win adds to the balance. -/
def signed (type : ActionType) (v : Int) : Int := if type = .bet then -v else v

/-- The deltas of an applied bet or win. -/
def appliedDelta (t : Int) (a : Account) (type : ActionType) (v : Int) : OutboxRow :=
  ⟨minute t, a, if type = .bet then v else 0, if type = .win then v else 0,
    if type = .bet then 1 else 0, 0, 0, 0⟩

/-- The deltas of a bet or win that was rolled back before it came. -/
def rolledBackDelta (t : Int) (a : Account) (type : ActionType) (v : Int) : OutboxRow :=
  ⟨minute t, a, 0, 0, 0, 0, if type = .bet then v else 0, if type = .win then v else 0⟩

/-- The deltas that take an applied bet or win out again. -/
def removedDelta (t : Int) (a : Account) (type : ActionType) (n v : Int) : OutboxRow :=
  ⟨minute t, a, if type = .bet then n else 0, if type = .win then n else 0,
    if type = .bet then -1 else 0, 0, if type = .bet then v else 0,
    if type = .win then v else 0⟩

def rollbackCountDelta (t : Int) (a : Account) : OutboxRow := ⟨minute t, a, 0, 0, 0, 1, 0, 0⟩

/-- The action is a bet or a win. -/
inductive ProcessAction.IsOriginal : ProcessAction → ActionType → Uuid → Int → Prop where
  | bet {x amount} : IsOriginal (.bet x amount) .bet x amount
  | win {x amount} : IsOriginal (.win x amount) .win x amount

theorem ProcessAction.IsOriginal.type_ne {action : ProcessAction} {type : ActionType}
    {x : Uuid} {amount : Int} (h : action.IsOriginal type x amount) : type ≠ .rollback := by
  cases h <;> simp

theorem ProcessAction.IsOriginal.actionId_eq {action : ProcessAction} {type : ActionType}
    {x : Uuid} {amount : Int} (h : action.IsOriginal type x amount) : action.actionId = x := by
  cases h <;> rfl

/-- The bookkeeping columns of an original that has been rolled back. -/
def Write.IsMark : Write → Prop
  | .updateRolledBack _ _ _ _ => True
  | _ => False

namespace Call
variable (c : Call)

/-- The instant at which an id is claimed. -/
def claimedAt (x : Uuid) : Int := c.svc.stamp (c.draws.clock x)

def registryRow (x : Uuid) : RegistryRow := ⟨x, c.draws.txId x, c.account, c.claimedAt x⟩

def accountHash : Int := c.draws.hashtext (c.request.userId ++ ":" ++ c.request.currency)

def claimed (x : Uuid) : ClaimedAction := ⟨x, c.draws.txId x, c.claimedAt x, c.accountHash⟩

def originalRow (type : ActionType) (x : Uuid) (v d : Int) (status : Status) : ActionRow where
  actionId := x
  txId := c.draws.txId x
  accountHash := c.accountHash
  account := c.account
  game := c.request.game
  gameId := c.request.gameId
  actionType := type
  amount := some v
  originalActionId := none
  balanceDelta := d
  status := status
  createdAt := c.claimedAt x

def rollbackRow (r o : Uuid) (d : Int) (status : Status) : ActionRow where
  actionId := r
  txId := c.draws.txId r
  accountHash := c.accountHash
  account := c.account
  game := c.request.game
  gameId := c.request.gameId
  actionType := .rollback
  amount := none
  originalActionId := some o
  balanceDelta := d
  status := status
  createdAt := c.claimedAt r

end Call

/-- What the reversal of a ledger row takes out of the report: nothing when the row is itself a
rollback. -/
inductive Removal (svc : Service) (row : ActionRow) : List OutboxRow → Prop where
  | rollback (h : row.actionType = .rollback) : Removal svc row []
  | original {n v} (h : row.actionType ≠ .rollback)
    (hn : svc.bind (svc.neg ((row.amount.map svc.load).getD 0)) = some n)
    (hv : svc.bind ((row.amount.map svc.load).getD 0) = some v) :
    Removal svc row [removedDelta row.createdAt row.account row.actionType n v]

section
variable (past : Moment → Prop) (c : Call)

/-- No rollback of `o` is recorded, nor any recorded by `r`, and no other transaction can
record one any more. -/
def Unrecorded (ws : List Write) (r o : Uuid) : Prop :=
  past fun st db => (¬ (postgres.view db ws).HasIntent o ∧
    ¬ (postgres.view db ws).HasIntentBy r) ∧ .intent o ∈ st.held ∧ .intentBy r ∈ st.held

/-- The lookup of an original found a row. -/
def FoundOriginal (ws : List Write) (o : Uuid) (row : ActionRow) : Prop :=
  past fun _ db => (postgres.view db ws).original? o = some row

/-- What a claimed action writes and the balance after it. `ws` is what the transaction has
written before, and `past` tells what it saw while it was running. -/
inductive Outcome (ws : List Write) (b : Int) :
    ProcessAction → List Write → Int → Prop where
  | applied {action type x amount v} (ha : ProcessAction.IsOriginal action type x amount)
    (hlook : past fun st db => Stmt.selectIntent x ∈ st.hist ∧ Key.registry x ∈ st.held ∧
      Key.account c.account ∈ st.held ∧ ¬ (postgres.view db ws).HasIntent x)
    (hv : c.svc.bind amount = some v) (hpos : 0 < v)
    (hb : 0 ≤ c.svc.add b (originalDelta c.svc type amount)) :
    Outcome ws b action
      [.insertAction (c.originalRow type x v (signed type v) .applied),
        .insertOutbox (appliedDelta (c.claimedAt x) c.account type v)]
      (c.svc.add b (originalDelta c.svc type amount))
  | prerolled {action type x amount v} (ha : ProcessAction.IsOriginal action type x amount)
    (hlook : past fun _ db => (postgres.view db ws).HasIntent x)
    (hv : c.svc.bind amount = some v) (hpos : 0 < v) (hb : 0 ≤ c.svc.add b 0) :
    Outcome ws b action
      [.insertAction (c.originalRow type x v 0 .noopPrerolled),
        .insertOutbox (rolledBackDelta (c.claimedAt x) c.account type v)] (c.svc.add b 0)
  | already {r o} (hlook : past fun _ db => (postgres.view db ws).HasIntent o) :
    Outcome ws b (.rollback r o)
      [.insertAction (c.rollbackRow r o 0 .noopAlreadyRolledBack)] b
  | tombstone {r o} (hlook : past fun st db => Stmt.selectActionForUpdate o ∈ st.hist ∧
      Key.account c.account ∈ st.held ∧ (postgres.view db ws).original? o = none)
    (hfree : Unrecorded past ws r o) :
    Outcome ws b (.rollback r o)
      [.insertAction (c.rollbackRow r o 0 .noopTombstone),
        .insertIntent ⟨o, r, c.account⟩,
        .insertOutbox (rollbackCountDelta (c.claimedAt r) c.account)] b
  | notApplied {r o row} (hrow : FoundOriginal past ws o row)
    (hna : row.status ≠ .applied ∨ c.svc.load row.balanceDelta = 0)
    (hfree : Unrecorded past ws r o) :
    Outcome ws b (.rollback r o)
      [.insertAction (c.rollbackRow r o 0 .noopOriginalNotApplied),
        .insertIntent ⟨o, r, c.account⟩,
        .insertOutbox (rollbackCountDelta (c.claimedAt r) c.account)] b
  | reversed {r o row d marks outs} (hrow : FoundOriginal past ws o row)
    (hst : row.status = .applied) (hne : c.svc.load row.balanceDelta ≠ 0)
    (hb : 0 ≤ c.svc.add b (c.svc.neg (c.svc.load row.balanceDelta)))
    (hd : c.svc.bind (c.svc.neg (c.svc.load row.balanceDelta)) = some d)
    (hfree : Unrecorded past ws r o) (hmarks : ∀ w ∈ marks, w.IsMark)
    (hremoval : Removal c.svc row outs) :
    Outcome ws b (.rollback r o)
      (.insertAction (c.rollbackRow r o d .applied) :: .insertIntent ⟨o, r, c.account⟩ ::
        (marks ++ outs.map .insertOutbox ++
          [.insertOutbox (rollbackCountDelta (c.claimedAt r) c.account)]))
      (c.svc.add b (c.svc.neg (c.svc.load row.balanceDelta)))

/-- What one action of a request writes, the balance after it and its `tx_id`. -/
inductive Step (ws : List Write) (b : Int) (action : ProcessAction) :
    List Write → Int → Uuid → Prop where
  | duplicate {g} (hid : g.actionId = action.actionId)
    (h : past fun _ db => g ∈ (postgres.view db ws).actionRegistry) :
    Step ws b action [] b g.txId
  | fresh {new b'} (h : past fun st db =>
      ¬ (postgres.view db ws).Registered action.actionId ∧
        Key.registry action.actionId ∈ st.held)
    (ho : Outcome past c (ws ++ [.insertRegistry (c.registryRow action.actionId)]) b action
      new b') :
    Step ws b action (.insertRegistry (c.registryRow action.actionId) :: new) b'
      (c.draws.txId action.actionId)

/-- The steps of the actions of a request, one after the other. -/
inductive Steps : List Write → Int → List ProcessAction → List Write → Int →
    List Transaction → Prop where
  | nil {ws b} : Steps ws b [] ws b []
  | cons {ws b action rest new b' txId ws' b'' txs} (h : Step past c ws b action new b' txId)
    (hs : Steps (ws ++ new) b' rest ws' b'' txs) :
    Steps ws b (action :: rest) ws' b'' (⟨action.actionId, txId⟩ :: txs)

/-- `lockAccount` has read the balance `v`, after it may have inserted the account. -/
structure Opened (ws : List Write) (v : Int) : Prop where
  insert : ws = [] ∨ (ws = [.insertAccount ⟨c.account, 0⟩] ∧
    past fun st db => db.account? c.account = none ∧ Key.account c.account ∈ st.held)
  balance : past fun st db => Key.account c.account ∈ st.held ∧
    ((postgres.view db ws).account? c.account).map (·.balance) = some v

/-- All that a request has written when it commits, and its response. -/
inductive Committed : List Write → ProcessResponse → Prop where
  | balance {ws v} (ha : c.actions = []) (ho : Opened past c ws v) :
    Committed ws (.balance (c.svc.load v))
  | actions {ws v ws' b txs stored} (ha : c.actions ≠ []) (ho : Opened past c ws v)
    (hs : Steps past c ws (c.svc.load v) c.actions ws' b txs) (hb : c.svc.bind b = some stored)
    (hpos : 0 ≤ stored) :
    Committed (ws' ++ [.updateBalance c.account stored]) (.actions c.request.gameId txs b)

end

section
variable {past past' : Moment → Prop} {c : Call}

theorem Outcome.mono (hp : ∀ P, past P → past' P) {ws b action new b'}
    (h : Outcome past c ws b action new b') : Outcome past' c ws b action new b' := by
  cases h with
  | applied ha hlook hv hpos hb => exact .applied ha (hp _ hlook) hv hpos hb
  | prerolled ha hlook hv hpos hb => exact .prerolled ha (hp _ hlook) hv hpos hb
  | already hlook => exact .already (hp _ hlook)
  | tombstone hlook hfree => exact .tombstone (hp _ hlook) (hp _ hfree)
  | notApplied hrow hna hfree => exact .notApplied (hp _ hrow) hna (hp _ hfree)
  | reversed hrow hst hne hb hd hfree hmarks hremoval =>
    exact .reversed (hp _ hrow) hst hne hb hd (hp _ hfree) hmarks hremoval

theorem Step.mono (hp : ∀ P, past P → past' P) {ws b action new b' txId}
    (h : Step past c ws b action new b' txId) : Step past' c ws b action new b' txId := by
  cases h with
  | duplicate hid h => exact .duplicate hid (hp _ h)
  | fresh h ho => exact .fresh (hp _ h) (ho.mono hp)

theorem Steps.mono (hp : ∀ P, past P → past' P) {ws b actions ws' b' txs}
    (h : Steps past c ws b actions ws' b' txs) : Steps past' c ws b actions ws' b' txs := by
  induction h with
  | nil => exact .nil
  | cons h _ ih => exact .cons (h.mono hp) ih

theorem Opened.mono (hp : ∀ P, past P → past' P) {ws v} (h : Opened past c ws v) :
    Opened past' c ws v := by
  refine ⟨?_, hp _ h.balance⟩
  rcases h.insert with h | ⟨h, hnone⟩
  · exact Or.inl h
  · exact Or.inr ⟨h, hp _ hnone⟩

theorem Committed.mono (hp : ∀ P, past P → past' P) {ws resp}
    (h : Committed past c ws resp) : Committed past' c ws resp := by
  cases h with
  | balance ha ho => exact .balance ha (ho.mono hp)
  | actions ha ho hs hb hpos => exact .actions ha (ho.mono hp) (hs.mono hp) hb hpos

theorem Steps.extends_writes {ws b actions ws' b' txs}
    (h : Steps past c ws b actions ws' b' txs) : ws <+: ws' := by
  induction h with
  | nil => exact List.prefix_rfl
  | cons _ _ ih => exact (List.prefix_append _ _).trans ih

/-- What every step of a request keeps, with the actions done so far, holds after them all. -/
theorem Steps.history {P : List ProcessAction → List Write → Int → Prop}
    {ws b actions ws' b' txs} (h : Steps past c ws b actions ws' b' txs) (h₀ : P [] ws b)
    (hs : ∀ {pre action post ws b new b' txId}, actions = pre ++ action :: post →
      ws ++ new <+: ws' → P pre ws b → Step past c ws b action new b' txId →
      P (pre ++ [action]) (ws ++ new) b') :
    P actions ws' b' := by
  induction h generalizing P with
  | nil => exact h₀
  | cons h hrest ih =>
    apply ih (P := fun pre => P (_ :: pre)) (@hs [] _ _ _ _ _ _ _ rfl hrest.extends_writes h₀ h)
    intro pre action post _ _ _ _ _ heq hws hP hstep
    exact @hs (_ :: pre) action post _ _ _ _ _ (by rw [heq]; rfl) hws hP hstep

end
end BetProcessor
