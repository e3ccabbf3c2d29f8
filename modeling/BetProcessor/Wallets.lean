import BetProcessor.Wallet.State
import BetProcessor.CleanRequests
import BetProcessor.Balances
import BetProcessor.OrderIndependence
import BetProcessor.TwoServices

namespace BetProcessor
set_option autoImplicit true
open Txn

abbrev AccountWallet := Wallet.State Account Uuid Uuid Int

/-- What an action means for the money. -/
def ProcessAction.op : ProcessAction → Wallet.Op Uuid Int
  | .bet x amount => .move x (-amount)
  | .win x amount => .move x amount
  | .rollback r o => .undo r o

@[simp] theorem ProcessAction.op_id (action : ProcessAction) : action.op.id = action.actionId := by
  cases action <;> rfl

/-- The money that the tables hold. -/
def Db.wallet (db : Db) : AccountWallet where
  balance := db.balance
  settled x := (db.original? x).map fun row => (row.txId, row.balanceDelta)
  undone o := (db.rollbackIntents.find? (·.originalActionId = o)).map (·.rollbackActionId)

/-- The money while a request keeps the balance of its account in memory. -/
def Db.walletAt (V : Db) (a : Account) (b : Int) : AccountWallet :=
  { V.wallet with balance := Function.update V.balance a b }

namespace Db
variable {V V' : Db} {a : Account} {b : Int}

@[simp] theorem walletAt_balance : (V.walletAt a b).balance a = b := Function.update_self ..

theorem walletAt_balance_other {a' : Account} (h : a' ≠ a) :
    (V.walletAt a b).balance a' = V.balance a' := Function.update_of_ne h ..

@[simp] theorem walletAt_settled (x : Uuid) :
    (V.walletAt a b).settled x = (V.original? x).map fun row => (row.txId, row.balanceDelta) := rfl

theorem walletAt_self : V.walletAt a (V.balance a) = V.wallet :=
  Wallet.State.ext (Function.update_eq_self a V.balance) rfl rfl

theorem undone_isSome (o : Uuid) : ((V.walletAt a b).undone o).isSome ↔ V.HasIntent o := by
  rw [walletAt, wallet, Option.isSome_map, List.find?_isSome]
  simp [HasIntent]

theorem Consistent.original?_iff (h : V.Consistent) {x : Uuid} {row : ActionRow} :
    V.original? x = some row ↔ row ∈ V.ledger ∧ row.actionId = x := by
  constructor
  · intro hrow
    obtain ⟨hid, hmem, _⟩ := original?_registry hrow
    exact ⟨hmem, hid⟩
  · rintro ⟨hmem, rfl⟩
    exact (original?_insertRegistry h row.registry row.actionId).symm.trans
      (h.original?_of_mem hmem row.registry)

theorem Consistent.settled_eq_none (h : V.Consistent) {x : Uuid} :
    (V.walletAt a b).settled x = none ↔ ¬ V.Registered x := by
  rw [walletAt_settled, Option.map_eq_none_iff]
  constructor
  · rintro hnone ⟨g, hg, rfl⟩
    obtain ⟨row, hrow, rfl⟩ := h.recorded g hg
    cases hnone.symm.trans (h.original?_iff.2 ⟨hrow, rfl⟩)
  · intro hnew
    rw [Option.eq_none_iff_forall_ne_some]
    intro row hrow
    obtain ⟨hmem, rfl⟩ := h.original?_iff.1 hrow
    exact hnew ⟨row.registry, h.registered row hmem, rfl⟩

/-- A new row is found under its id, and nothing else changes. -/
theorem Consistent.original?_adds {row : ActionRow} {intent : Option IntentRow}
    {outs : List OutboxRow} (h : V.Consistent) (h' : V'.Consistent)
    (ha : Adds V V' row intent outs) :
    V'.original? = Function.update V.original? row.actionId (some row) := by
  funext x
  apply Option.ext
  intro r
  rw [h'.original?_iff, ha.ledger, List.mem_append, List.mem_singleton]
  by_cases hx : x = row.actionId
  · subst hx
    rw [Function.update_self, Option.some.injEq]
    constructor
    · rintro ⟨hr, hid⟩
      apply h'.ledger_inj _ _ hid.symm
      · rw [ha.ledger]
        exact List.mem_append_right _ (List.mem_singleton.2 rfl)
      · rw [ha.ledger]
        exact List.mem_append.2 (hr.imp_right List.mem_singleton.2)
    · rintro rfl
      exact ⟨Or.inr rfl, rfl⟩
  · rw [Function.update_of_ne hx, h.original?_iff]
    constructor
    · rintro ⟨hr, rfl⟩
      exact ⟨hr.resolve_right fun he => hx (congrArg ActionRow.actionId he), rfl⟩
    · exact fun hr => ⟨Or.inl hr.1, hr.2⟩

end Db

section
variable {V V' : Db} {c : Call} {b b' m N : Int} {action : ProcessAction} {row : ActionRow}
variable {intent : Option IntentRow} {outs : List OutboxRow}

theorem ProcessAction.IsOriginal.op_eq {type : ActionType} {x : Uuid} {amount : Int}
    (h : action.IsOriginal type x amount) : action.op = .move x (signed type amount) := by
  cases h <;> rfl

theorem Effect.marked (he : Effect .now V c b action row intent outs b')
    (ha : Adds V V' row intent outs) :
    V'.wallet.undone = (V.walletAt c.account b).marked action.op := by
  have hsame : ∀ o, intent = none → (V.walletAt c.account b).undone o = V'.wallet.undone o := by
    rintro o rfl
    change _ = (V'.rollbackIntents.find? _).map _
    rw [ha.rollbackIntents, Option.toList_none, List.append_nil]
    rfl
  have hnew : ∀ {r o : Uuid}, ¬ V.HasIntent o → intent = some ⟨o, r, c.account⟩ →
      action.op = .undo r o → V'.wallet.undone = (V.walletAt c.account b).marked action.op := by
    rintro r o hno rfl hop
    rw [hop, Wallet.State.marked, if_neg (by rwa [Db.undone_isSome])]
    funext x
    change (V'.rollbackIntents.find? _).map _ = _
    rw [ha.rollbackIntents, List.find?_append, Option.toList_some]
    by_cases hx : x = o
    · subst hx
      have hnone : V.rollbackIntents.find? (·.originalActionId = x) = none := by
        simpa [Db.HasIntent] using hno
      rw [Function.update_self, hnone]
      simp
    · have hfind : ([⟨o, r, c.account⟩] : List IntentRow).find?
          (·.originalActionId = x) = none := by
        simp [Ne.symm hx]
      rw [Function.update_of_ne hx, hfind, Option.or_none]
      rfl
  cases he with
  | applied hact => rw [hact.op_eq]; exact funext fun o => (hsame o rfl).symm
  | prerolled hact => rw [hact.op_eq]; exact funext fun o => (hsame o rfl).symm
  | already hseen =>
    rw [ProcessAction.op, Wallet.State.marked, if_pos ((Db.undone_isSome _).2 hseen)]
    exact funext fun o => (hsame o rfl).symm
  | tombstone hno => exact hnew hno rfl rfl
  | notApplied hno => exact hnew hno rfl rfl
  | reversed hno => exact hnew hno rfl rfl

theorem Effect.settled (hV : V.Consistent) (hnew : ¬ V.Registered action.actionId)
    (he : Effect .now V c b action row intent outs b') (ha : Adds V V' row intent outs) :
    V'.wallet.settled = Function.update V.wallet.settled action.op.id
      (some (c.draws.txId action.actionId, row.balanceDelta)) := by
  have hV' : V'.Consistent := hV.stepped (.fresh hnew he ha)
  have htx : row.txId = c.draws.txId action.actionId := by
    rw [← he.actionId]
    exact congrArg RegistryRow.txId he.registry
  funext x
  change (V'.original? x).map (fun row => (row.txId, row.balanceDelta)) = _
  rw [hV.original?_adds hV' ha, ProcessAction.op_id, ← he.actionId]
  by_cases hx : x = row.actionId
  · subst hx
    rw [Function.update_self, Function.update_self, Option.map_some, htx, he.actionId]
  · rw [Function.update_of_ne hx, Function.update_of_ne hx]
    rfl

/-- What a performed action does to the money. -/
theorem Effect.settle (hV : V.Consistent) (hnew : ¬ V.Registered action.actionId)
    (he : Effect .now V c b action row intent outs b') (ha : Adds V V' row intent outs)
    (hm : row.balanceDelta = m) (hb : b' = b + m) :
    V'.walletAt c.account b' =
      (V.walletAt c.account b).settle c.account (c.draws.txId action.actionId) action.op m := by
  apply Wallet.State.ext
  · change Function.update V'.balance c.account b' =
      Function.update (Function.update V.balance c.account b) c.account
        ((V.walletAt c.account b).balance c.account + m)
    have hsame : V'.balance = V.balance := by
      funext a
      rw [Db.balance, Db.balance, Db.account?, Db.account?, ha.accounts]
    rw [hsame, Db.walletAt_balance, Function.update_idem, hb]
  · exact hm ▸ he.settled hV hnew ha
  · exact he.marked ha

/-- What an action moves is what its row says, unless the account cannot pay. -/
def Db.ActMoves (V : Db) (c : Call) (b m : Int) (action : ProcessAction) : Prop :=
  (b + m < 0 → V.act c b action = .error .insufficientFunds) ∧
    (0 ≤ b + m → ∃ new : Act, V.act c b action = .ok new ∧ new.row.balanceDelta = m ∧
      new.balance = b + m)

theorem Service.ExactTo.param {svc : Service} {x : Int} (h : svc.ExactTo N) (hx : |x| ≤ N) :
    svc.param x = .ok x := Service.param_eq_ok.2 (h.bind hx)

theorem signed_pos {type : ActionType} {v : Int} (h : |signed type v| ≤ N) : |v| ≤ N := by
  rwa [abs_signed] at h

theorem Db.moves_move {a : Account} {x : Uuid} {d : Int} :
    (V.walletAt a b).moves (.move x d) = if V.HasIntent x then 0 else d := by
  rw [Wallet.State.moves]
  by_cases h : V.HasIntent x
  · rw [if_pos h, if_pos ((undone_isSome x).2 h)]
  · rw [if_neg h, if_neg ((undone_isSome x).not.2 h)]

theorem Db.actOriginal_moves (hexact : c.svc.ExactTo N) (type : ActionType) {x : Uuid}
    {amount : Int} (hpos : 0 < amount) (haccepts : c.svc.refuses amount = false)
    (hamount : |signed type amount| ≤ N)
    (hm : m = if V.HasIntent x then 0 else signed type amount) (hnext : |b + m| ≤ N)
    (hact : V.act c b action = V.actOriginal c b type x amount) : V.ActMoves c b m action := by
  have hv := signed_pos hamount
  have hdelta : (if V.HasIntent x then 0 else originalDelta c.svc type amount) = m := by
    rw [hm, hexact.originalDelta hv]
  have hm' : |m| ≤ N := by
    rw [hm]
    split
    · exact le_trans (abs_nonneg _) hamount
    · exact hamount
  have hrefuses : ¬ c.svc.refuses amount = true := by rw [haccepts]; nofun
  rw [ActMoves, hact, actOriginal, hdelta]
  rw [if_neg hrefuses, hexact.add hnext, hexact.param hv, hexact.param hm']
  constructor
  · intro hneg
    rw [if_pos hneg]
  · intro hpays
    rw [if_neg (not_lt.2 hpays)]
    refine ⟨_, if_pos hpos, rfl, rfl⟩

theorem ActionRow.Shape.delta_eq_zero (h : row.Shape) (hna : row.status ≠ .applied) :
    row.balanceDelta = 0 := by
  cases h with
  | original _ _ _ _ hstatus =>
    rcases hstatus with ⟨happlied, _⟩ | ⟨_, hzero⟩
    · exact absurd happlied hna
    · exact hzero
  | rollback _ _ _ hstatus =>
    rcases hstatus with happlied | ⟨_, _, hzero⟩
    · exact absurd happlied hna
    · exact hzero

/-- The reversal of an applied row can be taken out of the report. -/
theorem Service.ExactTo.removal {svc : Service} (hexact : svc.ExactTo N) (h : row.Shape)
    (happlied : row.status = .applied) (hdelta : |row.balanceDelta| ≤ N) :
    ∃ outs, Db.removal svc row = .ok outs := by
  cases h with
  | rollback htype => exact ⟨[], if_pos htype⟩
  | @original v htype _ _ hamount hstatus =>
    have hsigned : row.balanceDelta = signed row.actionType v := by
      rcases hstatus with ⟨_, hsigned⟩ | ⟨hnoop, _⟩
      · exact hsigned
      · rw [happlied] at hnoop
        cases hnoop
    have hv : |v| ≤ N := signed_pos (hsigned ▸ hdelta)
    rw [Db.removal, if_neg htype, hamount, Option.map_some, Option.getD_some, hexact.load hv,
      hexact.neg hv, hexact.param (by rwa [abs_neg]), hexact.param hv]
    exact ⟨_, rfl⟩

theorem Db.actRollback_moves (hexact : c.svc.ExactTo N) (hV : V.Consistent) (hb : 0 ≤ b)
    {r o : Uuid} (hm : m = (V.walletAt c.account b).moves (.undo r o)) (hm' : |m| ≤ N)
    (hnext : |b + m| ≤ N) : V.ActMoves c b m (.rollback r o) := by
  have hkept : ∀ new : Act, V.act c b (.rollback r o) = .ok new → m = 0 →
      new.row.balanceDelta = 0 → new.balance = b → V.ActMoves c b m (.rollback r o) := by
    rintro new hact rfl hdelta hbalance
    rw [ActMoves, add_zero]
    exact ⟨fun hneg => absurd hneg (not_lt.2 hb), fun _ => ⟨new, hact, hdelta, hbalance⟩⟩
  rw [Wallet.State.moves] at hm
  by_cases hseen : V.HasIntent o
  · rw [if_pos ((undone_isSome o).2 hseen)] at hm
    exact hkept _ (if_pos hseen) hm rfl rfl
  · rw [if_neg ((undone_isSome o).not.2 hseen), walletAt_settled] at hm
    cases hrow : V.original? o with
    | none =>
      rw [hrow] at hm
      refine hkept ⟨c.rollbackRow r o 0 .noopTombstone, some ⟨o, r, c.account⟩, none,
        [rollbackCountDelta (c.claimedAt r) c.account], b⟩ ?_ hm rfl rfl
      change V.actRollback c b r o = _
      rw [actRollback, if_neg hseen, hrow]
    | some row =>
      obtain ⟨hmem, rfl⟩ := hV.original?_iff.1 hrow
      rw [hrow] at hm
      have hdelta : m = -row.balanceDelta := hm
      rw [hdelta, abs_neg] at hm'
      have hload : c.svc.load row.balanceDelta = row.balanceDelta := hexact.load hm'
      by_cases hna : row.status ≠ .applied ∨ row.balanceDelta = 0
      · have hzero : row.balanceDelta = 0 := hna.elim (hV.shape row hmem).delta_eq_zero id
        refine hkept ⟨c.rollbackRow r row.actionId 0 .noopOriginalNotApplied,
          some ⟨row.actionId, r, c.account⟩, none,
          [rollbackCountDelta (c.claimedAt r) c.account], b⟩ ?_ ?_ rfl rfl
        · change V.actRollback c b r row.actionId = _
          rw [actRollback, if_neg hseen, hrow]
          exact if_pos (hna.imp_right hload.trans)
        · rw [hdelta, hzero, neg_zero]
      · obtain ⟨outs, houts⟩ := hexact.removal (hV.shape row hmem)
          (not_not.1 (not_or.1 hna).1) hm'
        have hact : V.act c b (.rollback r row.actionId) =
            if b + m < 0 then .error .insufficientFunds
            else .ok ⟨c.rollbackRow r row.actionId m .applied,
              some ⟨row.actionId, r, c.account⟩,
              some (row.actionId, c.svc.date row.createdAt),
              outs ++ [rollbackCountDelta (c.claimedAt r) c.account], b + m⟩ := by
          have hneg : c.svc.neg row.balanceDelta = m := (hexact.neg hm').trans hdelta.symm
          have hparam : c.svc.param m = .ok m := hexact.param (by rwa [hdelta, abs_neg])
          change V.actRollback c b r row.actionId = _
          rw [actRollback, if_neg hseen, hrow]
          dsimp only
          rw [hload, if_neg hna, hneg, hexact.add hnext, hparam, houts]
          rfl
        rw [ActMoves, hact]
        constructor
        · intro hneg
          exact if_pos hneg
        · intro hpays
          exact ⟨_, if_neg (not_lt.2 hpays), rfl, rfl⟩

theorem Db.act_moves (hexact : c.svc.ExactTo N)
    (haccepts : ∀ {amount}, 0 < amount → c.svc.refuses amount = false) (hV : V.Consistent)
    (hb : 0 ≤ b) (hacc : action.Accepted) (hamount : |action.op.amount| ≤ N)
    (hm : |(V.walletAt c.account b).moves action.op| ≤ N)
    (hnext : |b + (V.walletAt c.account b).moves action.op| ≤ N) :
    V.ActMoves c b ((V.walletAt c.account b).moves action.op) action := by
  cases action with
  | bet x amount =>
    exact actOriginal_moves hexact .bet hacc (haccepts hacc) hamount moves_move hnext rfl
  | win x amount =>
    exact actOriginal_moves hexact .win hacc (haccepts hacc) hamount moves_move hnext rfl
  | rollback r o => exact actRollback_moves hexact hV hb rfl hm hnext

/-- The transactions of a response. -/
def transactionsOf (receipts : List (Uuid × Uuid)) : List Transaction :=
  receipts.map fun receipt => ⟨receipt.1, receipt.2⟩

/-- On these actions the loop and the wallet fail alike for lack of funds, or answer alike and leave
the same money. -/
structure Db.FollowsWallet (V : Db) (c : Call) (N b : Int) (txs : List Transaction)
    (actions : List ProcessAction) : Prop where
  fails : (V.walletAt c.account b).serve c.account c.draws.txId (actions.map ProcessAction.op) =
    none → V.perform c b txs actions = .error .insufficientFunds
  serves : ∀ {rs w}, (V.walletAt c.account b).serve c.account c.draws.txId
    (actions.map ProcessAction.op) = some (rs, w) → 0 ≤ w.balance c.account ∧
      |w.balance c.account| ≤ N ∧ ∃ V', V'.Consistent ∧
        V.perform c b txs actions = .ok ((w.balance c.account, txs ++ transactionsOf rs), V') ∧
        V'.walletAt c.account (w.balance c.account) = w

section
variable {txs : List Transaction} {rest : List ProcessAction} {tx : Uuid}

theorem Db.FollowsWallet.cons (hstep : (V.walletAt c.account b).step c.account c.draws.txId
      action.op = some (V'.walletAt c.account b'))
    (hreply : (V.walletAt c.account b).reply c.draws.txId action.op = tx)
    (hperform : V.perform c b txs (action :: rest) =
      V'.perform c b' (txs ++ [⟨action.actionId, tx⟩]) rest)
    (h : V'.FollowsWallet c N b' (txs ++ [⟨action.actionId, tx⟩]) rest) :
    V.FollowsWallet c N b txs (action :: rest) := by
  constructor
  · intro hnone
    rw [List.map_cons, Wallet.State.serve, hstep, Option.bind_some, Option.map_eq_none_iff]
      at hnone
    exact hperform.trans (h.fails hnone)
  · intro rs w hsome
    rw [List.map_cons, Wallet.State.serve, hstep, Option.bind_some, hreply] at hsome
    obtain ⟨⟨rs', w'⟩, hserve, heq⟩ := Option.map_eq_some_iff.1 hsome
    cases heq
    obtain ⟨hpos, hN, V'', hV'', hrest, hw⟩ := h.serves hserve
    refine ⟨hpos, hN, V'', hV'', (hperform.trans hrest).trans ?_, hw⟩
    rw [List.append_assoc, ProcessAction.op_id]
    rfl

theorem Db.FollowsWallet.known {g : RegistryRow} (hV : V.Consistent)
    (hfind : V.actionRegistry.find? (·.actionId = action.actionId) = some g)
    (h : V.FollowsWallet c N b (txs ++ [⟨action.actionId, g.txId⟩]) rest) :
    V.FollowsWallet c N b txs (action :: rest) := by
  obtain ⟨row, hrow, hregistry⟩ := hV.recorded g (List.mem_of_find?_eq_some hfind)
  have hid : row.actionId = action.actionId := by
    rw [← show g.actionId = action.actionId by simpa using List.find?_some hfind, ← hregistry]
    rfl
  have hsettled : (V.walletAt c.account b).settled action.op.id =
      some (row.txId, row.balanceDelta) := by
    rw [Db.walletAt_settled, ProcessAction.op_id, hV.original?_iff.2 ⟨hrow, hid⟩]
    rfl
  apply cons (Wallet.State.step_known (Option.isSome_iff_exists.2 ⟨_, hsettled⟩)) _ _ h
  · rw [Wallet.State.reply, hsettled, ← hregistry]
    rfl
  · rw [Db.perform, hfind]

theorem Db.FollowsWallet.poor
    (hstep : (V.walletAt c.account b).step c.account c.draws.txId action.op = none)
    (hperform : V.perform c b txs (action :: rest) = .error .insufficientFunds) :
    V.FollowsWallet c N b txs (action :: rest) := by
  constructor
  · exact fun _ => hperform
  · intro rs w h
    rw [List.map_cons, Wallet.State.serve, hstep] at h
    cases h

theorem Db.FollowsWallet.fresh {new : Act} (hV : V.Consistent)
    (hfind : V.actionRegistry.find? (·.actionId = action.actionId) = none)
    (hact : V.act c b action = .ok new)
    (hdelta : new.row.balanceDelta = (V.walletAt c.account b).moves action.op)
    (hbalance : new.balance = b + (V.walletAt c.account b).moves action.op)
    (hpays : 0 ≤ b + (V.walletAt c.account b).moves action.op)
    (h : (V.performed c new).FollowsWallet c N new.balance
      (txs ++ [⟨action.actionId, c.draws.txId action.actionId⟩]) rest) :
    V.FollowsWallet c N b txs (action :: rest) := by
  have hnew := Db.find?_eq_none.1 hfind
  have hsettled : (V.walletAt c.account b).settled action.op.id = none := by
    rw [ProcessAction.op_id]
    exact hV.settled_eq_none.2 hnew
  obtain ⟨he, _⟩ := Db.act_effect hV hact
  apply cons _ _ _ h
  · rw [Wallet.State.step_new hsettled, Db.walletAt_balance, if_neg (not_lt.2 hpays),
      he.settle hV hnew (Act.writes_performed he) hdelta hbalance, ProcessAction.op_id]
  · rw [Wallet.State.reply, hsettled, ProcessAction.op_id]
    rfl
  · rw [Db.perform, hfind, hact]
    rfl

end

/-- The loop over the actions of a request is the one of the wallet. -/
theorem Db.perform_wallet (hexact : c.svc.ExactTo N)
    (haccepts : ∀ {amount}, 0 < amount → c.svc.refuses amount = false)
    {actions : List ProcessAction} (txs : List Transaction) (hV : V.Consistent) (hb : 0 ≤ b)
    (hacc : ∀ action ∈ actions, action.Accepted)
    (hwithin : (V.walletAt c.account b).Within N c.account c.draws.txId
      (actions.map ProcessAction.op)) :
    V.FollowsWallet c N b txs actions := by
  induction actions generalizing V b txs with
  | nil =>
    rw [List.map_nil, Wallet.State.Within, Db.walletAt_balance] at hwithin
    constructor
    · intro h
      cases h
    · intro rs w h
      cases h
      rw [Db.walletAt_balance]
      exact ⟨hb, hwithin, V, hV, by rw [transactionsOf, List.map_nil, List.append_nil]; rfl, rfl⟩
  | cons action rest ih =>
    obtain ⟨_, hnumbers, hrest⟩ := hwithin
    have hacc' : ∀ action ∈ rest, action.Accepted :=
      fun action' h => hacc action' (List.mem_cons_of_mem _ h)
    cases hfind : V.actionRegistry.find? (·.actionId = action.actionId) with
    | some g =>
      refine .known hV hfind (ih _ hV hb hacc' (hrest _ (Wallet.State.step_known ?_)))
      rw [ProcessAction.op_id, Option.isSome_iff_ne_none, ne_eq, hV.settled_eq_none, not_not]
      exact ⟨g, List.mem_of_find?_eq_some hfind, by simpa using List.find?_some hfind⟩
    | none =>
      have hnew := Db.find?_eq_none.1 hfind
      have hsettled : (V.walletAt c.account b).settled action.op.id = none := by
        rw [ProcessAction.op_id]
        exact hV.settled_eq_none.2 hnew
      obtain ⟨hamount, hm, hnext⟩ := hnumbers hsettled
      rw [Db.walletAt_balance] at hnext
      obtain ⟨hpoor, hpays⟩ := Db.act_moves hexact haccepts hV hb
        (hacc action (List.mem_cons_self ..)) hamount hm hnext
      have hstep := @Wallet.State.step_new _ _ _ _ _ _ _ _ c.account c.draws.txId _ _ hsettled
      rw [Db.walletAt_balance] at hstep
      by_cases hneg : b + (V.walletAt c.account b).moves action.op < 0
      · apply Db.FollowsWallet.poor (hstep.trans (if_pos hneg))
        rw [Db.perform, hfind, hpoor hneg]
        rfl
      · obtain ⟨new, hact, hdelta, hbalance⟩ := hpays (not_lt.1 hneg)
        obtain ⟨he, _⟩ := Db.act_effect hV hact
        refine .fresh hV hfind hact hdelta hbalance (not_lt.1 hneg)
          (ih _ (hV.stepped (.fresh hnew he (Act.writes_performed he)))
            (hbalance ▸ not_lt.1 hneg) hacc' (hrest _ (hstep.trans ?_)))
        rw [if_neg hneg, he.settle hV hnew (Act.writes_performed he) hdelta hbalance,
          ProcessAction.op_id]

end

/-- What a request does to the money. -/
def Call.answer (c : Call) (w : AccountWallet) : Except Err ProcessResponse × AccountWallet :=
  match w.serve c.account c.draws.txId (c.actions.map ProcessAction.op) with
  | none => (.error .insufficientFunds, w)
  | some (receipts, w') =>
    (.ok (if c.actions.length = 0 then .balance (w'.balance c.account)
      else .actions c.request.gameId (transactionsOf receipts) (w'.balance c.account)), w')

section
variable {db : Db} {c : Call} {N : Int}

theorem Db.wallet_opened (a : Account) : (db.opened a).walletAt a (db.balance a) = db.wallet := by
  apply Wallet.State.ext
  · funext a'
    by_cases ha : a' = a
    · rw [ha, walletAt_balance]
      rfl
    · rw [walletAt_balance_other ha, opened]
      split
      · rfl
      · change (db.apply _).balance a' = db.balance a'
        rw [balance, balance, apply_account?, Write.onAccount, if_neg (Ne.symm ha), Option.or_none]
  · rw [opened]
    split <;> rfl
  · rw [opened]
    split <;> rfl

theorem Db.wallet_updateBalance {V : Db} {a : Account} (h : (V.account? a).isSome) (v : Int) :
    (V.apply (.updateBalance a v)).wallet = V.walletAt a v := by
  apply Wallet.State.ext
  · funext a'
    by_cases ha : a' = a
    · rw [ha, walletAt_balance]
      exact balance_updateBalance h
    · rw [walletAt_balance_other ha]
      change (V.apply (.updateBalance a v)).balance a' = V.balance a'
      rw [balance, balance, apply_account?, Write.onAccount]
      cases hrow : V.account? a' with
      | none => rfl
      | some row =>
        have hacc : row.account = a' := by simpa using List.find?_some hrow
        rw [Option.map_some, AccountRow.setBalance, if_neg (by rwa [hacc])]
  · rfl
  · rfl

/-- A request answers and moves money as it does in the wallet. -/
theorem Call.serve_wallet (hexact : c.svc.ExactTo N)
    (haccepts : ∀ {amount}, 0 < amount → c.svc.refuses amount = false) (h : db.Consistent)
    (hb : 0 ≤ db.balance c.account) (hacc : ∀ action ∈ c.actions, action.Accepted)
    (hwithin : db.wallet.Within N c.account c.draws.txId (c.actions.map ProcessAction.op)) :
    (c.serve db).1 = (c.answer db.wallet).1 ∧ (c.serve db).2.wallet = (c.answer db.wallet).2 := by
  have hopened : (db.opened c.account).walletAt c.account (db.balance c.account) = db.wallet :=
    Db.wallet_opened c.account
  have hsmall : |db.balance c.account| ≤ N := by
    cases hops : c.actions.map ProcessAction.op with
    | nil =>
      rw [hops] at hwithin
      exact hwithin
    | cons op ops =>
      rw [hops] at hwithin
      exact hwithin.1
  have hload : c.svc.load (db.balance c.account) = db.balance c.account := hexact.load hsmall
  by_cases hnil : c.actions = []
  · have hanswer : c.answer db.wallet = (.ok (.balance (db.balance c.account)), db.wallet) := by
      rw [answer, hnil]
      rfl
    rw [hanswer, serve, Engine.transact, exec_body_empty hnil, hload]
    refine ⟨rfl, ?_⟩
    rw [← hopened, ← db.opened_balance c.account, Db.walletAt_self]
  · have hlength : c.actions.length ≠ 0 := fun h => hnil (List.length_eq_zero_iff.1 h)
    have hcons := h.opened_account c.account
    rw [← hopened] at hwithin
    obtain ⟨hfails, hserves⟩ := Db.perform_wallet hexact haccepts [] hcons hb hacc hwithin
    rw [hopened] at hfails hserves
    rw [answer]
    cases hserve : db.wallet.serve c.account c.draws.txId (c.actions.map ProcessAction.op) with
    | none =>
      rw [serve, Engine.transact, exec_body h hnil, hload, hfails hserve]
      exact ⟨rfl, rfl⟩
    | some r =>
      obtain ⟨hpos, hN, V', hV', hperform, hw⟩ := hserves hserve
      have hsome : (V'.account? c.account).isSome := by
        rw [Db.account?, Db.perform_accounts hcons hperform]
        exact Option.isSome_iff_exists.2 ⟨_, Db.opened_account? c.account⟩
      have hexec : postgres.exec c.body db = .ok (.actions c.request.gameId
          (transactionsOf r.1) (r.2.balance c.account),
          V'.apply (.updateBalance c.account (r.2.balance c.account))) := by
        rw [exec_body h hnil, hload, hperform]
        change (c.svc.param (r.2.balance c.account) >>= _) = _
        rw [hexact.param hN]
        exact if_neg (not_lt.2 hpos)
      rw [serve, Engine.transact, hexec]
      dsimp only
      rw [if_neg hlength, Db.wallet_updateBalance hsome, hw]
      exact ⟨rfl, rfl⟩

/-- The requests one after the other, on the money alone. -/
def walletAfter (w : AccountWallet) (calls : List Call) : AccountWallet :=
  calls.foldl (fun w c => (c.answer w).2) w

@[simp] theorem walletAfter_cons (w : AccountWallet) (c : Call) (calls : List Call) :
    walletAfter w (c :: calls) = walletAfter (c.answer w).2 calls := rfl

@[simp] theorem walletAfter_append (w : AccountWallet) (calls calls' : List Call) :
    walletAfter w (calls ++ calls') = walletAfter (walletAfter w calls) calls' :=
  List.foldl_append

/-- A well-formed request to a service that computes exactly with the numbers that come up. -/
structure Call.Exactly (c : Call) (w : AccountWallet) : Prop where
  runs : c.svc.Runs
  accepted : ∀ action ∈ c.actions, action.Accepted
  within : ∃ N, c.svc.ExactTo N ∧
    w.Within N c.account c.draws.txId (c.actions.map ProcessAction.op)

/-- With exact integers every number is fine. -/
theorem Call.Exactly.of_exact (hruns : c.svc.Runs) (hexact : ∀ N, c.svc.ExactTo N)
    (hacc : ∀ action ∈ c.actions, action.Accepted) (w : AccountWallet) : c.Exactly w := by
  obtain ⟨N, hN⟩ := w.exists_within c.account c.draws.txId (c.actions.map ProcessAction.op)
  exact ⟨hruns, hacc, N, hexact N, hN⟩

/-- Consistent tables and no debts: what the requests keep of any database. -/
structure Db.Solvent (db : Db) : Prop where
  consistent : db.Consistent
  balance_nonneg : ∀ a, 0 ≤ db.balance a

theorem Db.Initial.solvent (h : db.Initial) : db.Solvent := ⟨h.consistent, h.balance_at_nonneg⟩

theorem Db.Solvent.after (h : db.Solvent) (calls : List Call) : (db.after calls).Solvent := by
  apply Db.after_invariant db calls h
  intro V c ws resp _ hV hcommit
  refine ⟨hV.consistent.commit (stable_now V) hcommit, fun a => ?_⟩
  rcases hcommit.balance_cases (stable_now V) hV.consistent a with heq | ⟨_, _, hpos⟩
  · rw [heq]
    exact hV.balance_nonneg a
  · exact hpos

theorem Call.Exactly.serve_wallet (hc : c.Exactly db.wallet) (h : db.Solvent) :
    (c.serve db).1 = (c.answer db.wallet).1 ∧ (c.serve db).2.wallet = (c.answer db.wallet).2 := by
  obtain ⟨N, hexact, hwithin⟩ := hc.within
  exact Call.serve_wallet hexact hc.runs.accepts h.consistent (h.balance_nonneg _) hc.accepted
    hwithin

/-- Every request of a run is one that its service computes exactly. -/
def ExactRun : AccountWallet → List Call → Prop
  | _, [] => True
  | w, c :: calls => c.Exactly w ∧ ExactRun (c.answer w).2 calls

theorem ExactRun.append {w : AccountWallet} {calls calls' : List Call}
    (h : ExactRun w (calls ++ calls')) :
    ExactRun w calls ∧ ExactRun (walletAfter w calls) calls' := by
  induction calls generalizing w with
  | nil => exact ⟨trivial, h⟩
  | cons c calls ih => exact ⟨⟨h.1, (ih h.2).1⟩, (ih h.2).2⟩

theorem exactRun_of_exact (w : AccountWallet) {calls : List Call}
    (h : ∀ c ∈ calls, c.svc.Runs ∧ (∀ N, c.svc.ExactTo N) ∧ ∀ action ∈ c.actions, action.Accepted) :
    ExactRun w calls := by
  induction calls generalizing w with
  | nil => trivial
  | cons c calls ih =>
    obtain ⟨hruns, hexact, hacc⟩ := h c (List.mem_cons_self ..)
    exact ⟨.of_exact hruns hexact hacc w, ih _ fun c' hc' => h c' (List.mem_cons_of_mem _ hc')⟩

theorem Db.wallet_after {db₀ : Db} (h₀ : db₀.Solvent) {calls : List Call}
    (h : ExactRun db₀.wallet calls) : (db₀.after calls).wallet = walletAfter db₀.wallet calls := by
  induction calls using List.reverseRecOn with
  | nil => rfl
  | append_singleton calls c ih =>
    obtain ⟨hcalls, hc, _⟩ := h.append
    rw [after_append, walletAfter_append, ← ih hcalls]
    rw [← ih hcalls] at hc
    exact (hc.serve_wallet (h₀.after calls)).2

theorem Db.serve_answer {db₀ : Db} (h₀ : db₀.Solvent) {pre : List Call} {c : Call}
    {post : List Call} (h : ExactRun db₀.wallet (pre ++ c :: post)) :
    (c.serve (db₀.after pre)).1 = (c.answer (walletAfter db₀.wallet pre)).1 := by
  obtain ⟨hpre, hc, _⟩ := h.append
  rw [← wallet_after h₀ hpre] at hc ⊢
  exact (hc.serve_wallet (h₀.after pre)).1

/-- The services refine the wallet: over every serial run whose numbers are exact, as all numbers of
a service with exact integers are, the answers and the money are those of the wallet, which has no
ledger, no statuses and no report. -/
theorem wallet_refined {db₀ : Db} (h₀ : db₀.Solvent) (calls : List Call)
    (h : ExactRun db₀.wallet calls ∨ ∀ c ∈ calls, c.svc.Runs ∧ (∀ N, c.svc.ExactTo N) ∧
      ∀ action ∈ c.actions, action.Accepted) :
    (db₀.after calls).wallet = walletAfter db₀.wallet calls ∧
      ∀ pre c post, calls = pre ++ c :: post →
        (c.serve (db₀.after pre)).1 = (c.answer (walletAfter db₀.wallet pre)).1 := by
  have h : ExactRun db₀.wallet calls := h.elim id (exactRun_of_exact _)
  refine ⟨Db.wallet_after h₀ h, ?_⟩
  rintro pre c post rfl
  exact Db.serve_answer h₀ h

/-- A rollback before its bet, the bet, a second rollback of it and a bet that cannot be paid. -/
def walletRun : List Call :=
  [dollars rust "a" [.rollback 2 1], dollars typescript "a" [.bet 1 60, .rollback 3 1],
    dollars rust "a" [.bet 4 70, .bet 5 70], dollars typescript "b" [.rollback 6 4]]

theorem walletRun_refined :
    (twoUsers.after walletRun).wallet = walletAfter twoUsers.wallet walletRun ∧
      ∀ pre c post, walletRun = pre ++ c :: post →
        (c.serve (twoUsers.after pre)).1 = (c.answer (walletAfter twoUsers.wallet pre)).1 := by
  apply wallet_refined twoUsers_initial.solvent
  left
  have hsmall : ∀ {svc : Service}, svc.Runs → ∀ {user : String} {actions : List ProcessAction}
      {w : AccountWallet}, (∀ action ∈ actions, action.Accepted) →
      w.Within (2 ^ 53) ⟨user, "USD"⟩ plainDraws.txId (actions.map ProcessAction.op) →
      (dollars svc user actions).Exactly w :=
    fun hruns _ _ _ hacc hwithin => ⟨hruns, hacc, 2 ^ 53, Service.exactTo_small _, hwithin⟩
  have hrust : rust.Runs := Or.inl (Or.inr rfl)
  have htypescript : typescript.Runs := Or.inl (Or.inl rfl)
  refine ⟨hsmall hrust ?_ ?_, hsmall htypescript ?_ ?_, hsmall hrust ?_ ?_,
    hsmall htypescript ?_ ?_, trivial⟩
  · simp [ProcessAction.Accepted]
  · decide +kernel
  · simp [ProcessAction.Accepted]
  · decide +kernel
  · simp [ProcessAction.Accepted]
  · decide +kernel
  · simp [ProcessAction.Accepted]
  · decide +kernel

end
end BetProcessor
