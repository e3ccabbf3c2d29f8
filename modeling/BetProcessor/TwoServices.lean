import BetProcessor.Batches
import BetProcessor.RustProcessor

namespace BetProcessor
set_option autoImplicit true
open Txn

/-- The tables without the marks on rolled back rows. -/
def Db.unmarked (db : Db) : Db := { db with actions := db.ledger }

def Act.unmarked (new : Act) : Act := { new with mark := none }

/-- No number of the ledger reaches `2 ^ 53`. -/
def Db.SmallLedger (db : Db) : Prop := ∀ row ∈ db.ledger, |row.balanceDelta| < 2 ^ 53 ∧
  ∀ amount ∈ row.amount, |amount| < 2 ^ 53

instance (db : Db) : Decidable db.SmallLedger :=
  inferInstanceAs (Decidable (∀ row ∈ db.ledger, _ ∧ ∀ amount ∈ row.amount, _))

/-- The amount of a bet or a win is positive and does not reach `2 ^ 53`. -/
def ProcessAction.Small : ProcessAction → Prop
  | .bet _ amount | .win _ amount => 0 < amount ∧ amount < 2 ^ 53
  | .rollback _ _ => True

/-- One request with the same clock readings and ids, sent to the TypeScript service and to the
Rust service. -/
structure Call.Twins (c c' : Call) : Prop where
  typescript : c.svc = typescript
  rust : c'.svc = rust
  request : c.request = c'.request
  clock : ∀ x, c.claimedAt x = c'.claimedAt x
  txId : c.draws.txId = c'.draws.txId
  hashtext : c.draws.hashtext = c'.draws.hashtext

namespace Call.Twins
variable {c c' : Call}

theorem account (h : c.Twins c') : c.account = c'.account := by
  rw [Call.account, h.request, Call.account]

theorem accountHash (h : c.Twins c') : c.accountHash = c'.accountHash := by
  rw [Call.accountHash, h.request, h.hashtext, Call.accountHash]

theorem originalRow (h : c.Twins c') : c.originalRow = c'.originalRow := by
  funext type x v d status
  rw [Call.originalRow, Call.originalRow, h.txId, h.accountHash, h.account, h.request, h.clock]

theorem rollbackRow (h : c.Twins c') : c.rollbackRow = c'.rollbackRow := by
  funext r o d status
  rw [Call.rollbackRow, Call.rollbackRow, h.txId, h.accountHash, h.account, h.request, h.clock]

end Call.Twins

section
variable {W : Db} {c : Call} {b amount : Int} {type : ActionType} {x r o : Uuid}

theorem signed_small (h : 0 < amount) (hsmall : amount < 2 ^ 53) :
    |signed type amount| < 2 ^ 53 := by
  rw [signed, abs_lt]
  split <;> omega

/-- A small bet or win, with the numbers as they are. -/
def Db.smallOriginal (W : Db) (c : Call) (b : Int) (type : ActionType) (x : Uuid)
    (amount : Int) : Except Err Act :=
  let delta := if W.HasIntent x then 0 else signed type amount
  if b + delta < 0 then .error .insufficientFunds
  else .ok {
    row := c.originalRow type x amount delta
      (if W.HasIntent x then .noopPrerolled else .applied)
    intent := none
    mark := none
    outs := [if W.HasIntent x then rolledBackDelta (c.claimedAt x) c.account type amount
      else appliedDelta (c.claimedAt x) c.account type amount]
    balance := b + delta }

theorem Db.actOriginal_small (hrefuses : c.svc.refuses amount = false) (hpos : 0 < amount)
    (hsmall : amount < 2 ^ 53)
    (hadd : c.svc.add b (if W.HasIntent x then 0 else signed type amount) =
      b + if W.HasIntent x then 0 else signed type amount) :
    W.actOriginal c b type x amount = W.smallOriginal c b type x amount := by
  have hamount : |amount| ≤ 2 ^ 53 := abs_le.2 (by omega)
  have hdelta : (if W.HasIntent x then 0 else originalDelta c.svc type amount) =
      if W.HasIntent x then 0 else signed type amount := by
    rw [originalDelta, c.svc.neg_small hamount]
    rfl
  have hparam : c.svc.param amount = .ok amount :=
    Service.param_eq_ok.2 (c.svc.bind_small hamount)
  have hparam' : c.svc.param (if W.HasIntent x then 0 else signed type amount) =
      .ok (if W.HasIntent x then 0 else signed type amount) := by
    apply Service.param_eq_ok.2 (c.svc.bind_small _)
    split
    · decide
    · exact (signed_small hpos hsmall).le
  rw [actOriginal, smallOriginal]
  simp only [hrefuses, hdelta, hadd, hparam, hparam']
  by_cases hneg : (b + if W.HasIntent x then 0 else signed type amount) < 0
  · rw [if_pos hneg, if_pos hneg]
    rfl
  · rw [if_neg hneg, if_neg hneg]
    exact if_pos hpos

/-- What the reversal of a row with small numbers takes out of the report. -/
def smallRemoval (row : ActionRow) : List OutboxRow :=
  if row.actionType = .rollback then []
  else [removedDelta row.createdAt row.account row.actionType (-row.amount.getD 0)
    (row.amount.getD 0)]

theorem Db.removal_small (svc : Service) {row : ActionRow}
    (h : ∀ amount ∈ row.amount, |amount| < 2 ^ 53) :
    removal svc row = .ok (smallRemoval row) := by
  have hload : (row.amount.map svc.load).getD 0 = row.amount.getD 0 := by
    cases hamount : row.amount with
    | none => rfl
    | some amount => exact svc.load_small (h amount hamount).le
  have hle : |row.amount.getD 0| ≤ 2 ^ 53 := by
    cases hamount : row.amount with
    | none => decide
    | some amount => exact (h amount hamount).le
  have hparam : svc.param (row.amount.getD 0) = .ok (row.amount.getD 0) :=
    Service.param_eq_ok.2 (svc.bind_small hle)
  have hparam' : svc.param (-row.amount.getD 0) = .ok (-row.amount.getD 0) :=
    Service.param_eq_ok.2 (svc.bind_small (by rwa [abs_neg]))
  rw [removal, smallRemoval, hload, svc.neg_small hle, hparam, hparam']
  split <;> rfl

/-- A rollback of a row with small numbers. -/
def Db.smallRollback (W : Db) (c : Call) (b : Int) (r o : Uuid) : Except Err Act :=
  if W.HasIntent o then .ok ⟨c.rollbackRow r o 0 .noopAlreadyRolledBack, none, none, [], b⟩
  else
    match W.original? o with
    | none => .ok ⟨c.rollbackRow r o 0 .noopTombstone, some ⟨o, r, c.account⟩, none,
        [rollbackCountDelta (c.claimedAt r) c.account], b⟩
    | some row =>
      if row.status ≠ .applied ∨ row.balanceDelta = 0 then
        .ok ⟨c.rollbackRow r o 0 .noopOriginalNotApplied, some ⟨o, r, c.account⟩, none,
          [rollbackCountDelta (c.claimedAt r) c.account], b⟩
      else if b + -row.balanceDelta < 0 then .error .insufficientFunds
      else .ok ⟨c.rollbackRow r o (-row.balanceDelta) .applied, some ⟨o, r, c.account⟩,
        some (o, c.svc.date row.createdAt),
        smallRemoval row ++ [rollbackCountDelta (c.claimedAt r) c.account],
        b + -row.balanceDelta⟩

theorem Db.actRollback_small (hW : W.SmallLedger)
    (hadd : ∀ row, ¬ W.HasIntent o → W.original? o = some row → row.status = .applied →
      row.balanceDelta ≠ 0 → c.svc.add b (-row.balanceDelta) = b + -row.balanceDelta) :
    W.actRollback c b r o = W.smallRollback c b r o := by
  rw [actRollback, smallRollback]
  by_cases hseen : W.HasIntent o
  · rw [if_pos hseen, if_pos hseen]
  · rw [if_neg hseen, if_neg hseen]
    cases hrow : W.original? o with
    | none => rfl
    | some row =>
      obtain ⟨hdelta, hamount⟩ := hW row (original?_registry hrow).2.1
      have hload : c.svc.load row.balanceDelta = row.balanceDelta := c.svc.load_small hdelta.le
      have hparam : c.svc.param (-row.balanceDelta) = .ok (-row.balanceDelta) :=
        Service.param_eq_ok.2 (c.svc.bind_small (by rw [abs_neg]; exact hdelta.le))
      dsimp only
      rw [hload, c.svc.neg_small hdelta.le]
      by_cases hnoop : row.status ≠ .applied ∨ row.balanceDelta = 0
      · rw [if_pos hnoop, if_pos hnoop]
      · obtain ⟨hst, hne⟩ := not_or.1 hnoop
        rw [if_neg hnoop, if_neg hnoop, hadd row hseen hrow (not_not.1 hst) hne, hparam,
          removal_small c.svc hamount]
        rfl

end

section
variable {W V V' : Db} {c c' : Call} {b b' : Int} {action : ProcessAction}

theorem Call.Twins.smallOriginal (h : c.Twins c') (type : ActionType) (x : Uuid) (amount : Int) :
    W.smallOriginal c b type x amount = W.smallOriginal c' b type x amount := by
  rw [Db.smallOriginal, Db.smallOriginal, h.originalRow, h.clock, h.account]

theorem Call.Twins.smallRollback (h : c.Twins c') (r o : Uuid) :
    (W.smallRollback c b r o).map Act.unmarked = (W.smallRollback c' b r o).map Act.unmarked := by
  rw [Db.smallRollback, Db.smallRollback, h.rollbackRow, h.clock, h.account]
  split
  · rfl
  split
  · rfl
  split
  · rfl
  split
  · rfl
  · rfl

theorem Call.Twins.actOriginal (h : c.Twins c') (hb : 0 ≤ b ∧ b < 2 ^ 53) {type : ActionType}
    {x : Uuid} {amount : Int} (hpos : 0 < amount) (hsmall : amount < 2 ^ 53)
    (hnext : ∀ new, W.actOriginal c' b type x amount = .ok new → new.balance < 2 ^ 53) :
    W.actOriginal c b type x amount = W.actOriginal c' b type x amount := by
  have hdelta : |if W.HasIntent x then 0 else signed type amount| < 2 ^ 53 := by
    split
    · decide
    · exact signed_small hpos hsmall
  rw [abs_lt] at hdelta
  have hrust : W.actOriginal c' b type x amount = W.smallOriginal c' b type x amount := by
    apply Db.actOriginal_small _ hpos hsmall
    · rw [h.rust]
      exact rust_exactTo.add (abs_le.2 (by omega))
    · rw [h.rust]
      exact decide_eq_false (not_le.2 hpos)
  rw [hrust] at hnext ⊢
  rw [← h.smallOriginal]
  apply Db.actOriginal_small _ hpos hsmall
  · apply c.svc.add_small
    by_cases hneg : (b + if W.HasIntent x then 0 else signed type amount) < 0
    · exact abs_le.2 (by omega)
    · have hlt := hnext _ (if_neg hneg)
      exact abs_le.2 ⟨by omega, hlt.le⟩
  · rw [h.typescript]
    rfl

/-- A rollback does the same in both services, up to the mark on its original. -/
theorem Call.Twins.actRollback (h : c.Twins c') (hW : W.SmallLedger)
    (hb : 0 ≤ b ∧ b < 2 ^ 53) {r o : Uuid}
    (hnext : ∀ new, W.actRollback c' b r o = .ok new → new.balance < 2 ^ 53) :
    (W.actRollback c b r o).map Act.unmarked = (W.actRollback c' b r o).map Act.unmarked := by
  have hdelta : ∀ row, W.original? o = some row → |row.balanceDelta| < 2 ^ 53 :=
    fun row hrow => (hW row (Db.original?_registry hrow).2.1).1
  have hrust : W.actRollback c' b r o = W.smallRollback c' b r o := by
    apply Db.actRollback_small hW
    intro row _ hrow _ _
    have hsmall := abs_lt.1 (hdelta row hrow)
    rw [h.rust]
    exact rust_exactTo.add (abs_le.2 (by omega))
  rw [hrust] at hnext ⊢
  rw [← h.smallRollback]
  apply congrArg (Except.map Act.unmarked)
  apply Db.actRollback_small hW
  intro row hseen hrow hst hne
  have hsmall := abs_lt.1 (hdelta row hrow)
  apply c.svc.add_small
  by_cases hneg : b + -row.balanceDelta < 0
  · exact abs_le.2 (by omega)
  · have hnoop : ¬ (row.status ≠ .applied ∨ row.balanceDelta = 0) :=
      not_or.2 ⟨not_not.2 hst, hne⟩
    have hlt : b + -row.balanceDelta < 2 ^ 53 := by
      rw [Db.smallRollback, if_neg hseen, hrow] at hnext
      dsimp only at hnext
      rw [if_neg hnoop, if_neg hneg] at hnext
      exact hnext _ rfl
    exact abs_le.2 ⟨by omega, hlt.le⟩

theorem Call.Twins.act (h : c.Twins c') (hW : W.SmallLedger) (hb : 0 ≤ b ∧ b < 2 ^ 53)
    (haction : action.Small)
    (hnext : ∀ new, W.act c' b action = .ok new → new.balance < 2 ^ 53) :
    (W.act c b action).map Act.unmarked = (W.act c' b action).map Act.unmarked := by
  cases action with
  | bet x amount =>
    exact congrArg _ (h.actOriginal hb haction.1 haction.2 hnext)
  | win x amount =>
    exact congrArg _ (h.actOriginal hb haction.1 haction.2 hnext)
  | rollback r o => exact h.actRollback hW hb hnext

theorem Db.unmarked_ledger : V.unmarked.ledger = V.ledger := by
  rw [ledger, unmarked, ledger, List.map_map]
  rfl

theorem Db.act_unmarked : V.unmarked.act c b action = V.act c b action := by
  cases action with
  | bet x amount => rfl
  | win x amount => rfl
  | rollback r o =>
    have horiginal : V.unmarked.original? o = V.original? o := by
      rw [original?, original?, unmarked_ledger]
      rfl
    change V.unmarked.actRollback c b r o = V.actRollback c b r o
    rw [actRollback, actRollback, horiginal]
    rfl

theorem Db.unmarked_inj (h : V.unmarked = V'.unmarked) : V.accounts = V'.accounts ∧
    V.actionRegistry = V'.actionRegistry ∧ V.ledger = V'.ledger ∧
    V.rollbackIntents = V'.rollbackIntents ∧ V.rtpOutbox = V'.rtpOutbox := by
  cases V
  cases V'
  rw [unmarked, unmarked] at h
  obtain ⟨haccounts, hregistry, hledger, hintents, houtbox⟩ := Db.mk.inj h
  exact ⟨haccounts, hregistry, hledger, hintents, houtbox⟩

theorem Effect.performed_unmarked {L : Lookups} {new : Act}
    (he : Effect L V c b action new.row new.intent new.outs b') :
    (V.performed c new).unmarked = ⟨V.accounts, V.actionRegistry ++ [new.row.registry],
      V.ledger ++ [new.row], V.rollbackIntents ++ new.intent.toList, V.rtpOutbox ++ new.outs⟩ := by
  have ha : Adds V (V.performed c new) new.row new.intent new.outs := by
    rw [Db.performed, ← he.registry]
    apply Adds.of_writes new.row new.intent new.outs _ he.core
    intro w hw
    obtain ⟨key, _, rfl⟩ := List.mem_map.1 hw
    exact True.intro
  rw [Db.unmarked, ha.ledger, ha.actionRegistry, ha.rollbackIntents, ha.rtpOutbox, ha.accounts]

theorem ActionRow.small_of_bind {svc : Service} {v : Int} (hsmall : |b| < 2 ^ 53)
    (hv : svc.bind b = some v) : v = b :=
  Option.some.inj (hv.symm.trans (svc.bind_small hsmall.le))

theorem Effect.small {L : Lookups} {row : ActionRow} {intent : Option IntentRow}
    {outs : List OutboxRow} (hV : V.SmallLedger) (haction : action.Small)
    (he : Effect L V c b action row intent outs b') : |row.balanceDelta| < 2 ^ 53 ∧
      ∀ amount ∈ row.amount, |amount| < 2 ^ 53 := by
  have hnone : ∀ amount ∈ (none : Option Int), |amount| < 2 ^ 53 := nofun
  have hzero : |(0 : Int)| < 2 ^ 53 := by decide
  have horiginal : ∀ {type x amount v}, action.IsOriginal type x amount →
      c.svc.bind amount = some v → 0 < v → |v| < 2 ^ 53 := by
    intro type x amount v ha hv hpos
    have hsmall : 0 < amount ∧ amount < 2 ^ 53 := by cases ha <;> exact haction
    have habs : |amount| < 2 ^ 53 := abs_lt.2 (by omega)
    rw [ActionRow.small_of_bind habs hv]
    exact habs
  cases he with
  | applied ha _ hv hpos =>
    have hsmall := horiginal ha hv hpos
    refine ⟨signed_small hpos (abs_lt.1 hsmall).2, fun amount hamount => ?_⟩
    cases hamount
    exact hsmall
  | prerolled ha _ hv hpos =>
    refine ⟨hzero, fun amount hamount => ?_⟩
    cases hamount
    exact horiginal ha hv hpos
  | already => exact ⟨hzero, hnone⟩
  | tombstone => exact ⟨hzero, hnone⟩
  | notApplied => exact ⟨hzero, hnone⟩
  | @reversed r o row d outs _ hrow _ _ _ _ hd =>
    have hsmall := (hV row hrow).1
    rw [c.svc.load_small hsmall.le, c.svc.neg_small hsmall.le] at hd
    have hneg : |-row.balanceDelta| < 2 ^ 53 := by rwa [abs_neg]
    refine ⟨?_, hnone⟩
    change |d| < 2 ^ 53
    rw [ActionRow.small_of_bind hneg hd]
    exact hneg

theorem Db.SmallLedger.performs {txId : Uuid} (hV : V.Consistent) (hsmall : V.SmallLedger)
    (haction : action.Small) (h : V.Performs c b action V' b' txId) : V'.SmallLedger := by
  cases h with
  | duplicate => exact hsmall
  | fresh _ hact =>
    obtain ⟨he, _⟩ := Db.act_effect hV hact
    intro row hrow
    rw [(Act.writes_performed he).ledger] at hrow
    rcases List.mem_append.1 hrow with hrow | hrow
    · exact hsmall row hrow
    · rw [List.mem_singleton.1 hrow]
      exact he.small hsmall haction

/-- A new action fails in both services, or leaves the same tables, up to the marks, and the same
balance. -/
theorem Call.Twins.performed (h : c.Twins c') (hV : V.Consistent) (hV' : V'.Consistent)
    (hsame : V.unmarked = V'.unmarked) (hsmall : V'.SmallLedger) (hb : 0 ≤ b ∧ b < 2 ^ 53)
    (haction : action.Small)
    (hnext : ∀ new, V'.act c' b action = .ok new → new.balance < 2 ^ 53) :
    (∃ e, V.act c b action = .error e ∧ V'.act c' b action = .error e) ∨
      ∃ new new', V.act c b action = .ok new ∧ V'.act c' b action = .ok new' ∧
        new.balance = new'.balance ∧
        (V.performed c new).unmarked = (V'.performed c' new').unmarked := by
  have hact := h.act hsmall hb haction hnext
  have hsameAct : V.act c b action = V'.act c b action := by
    rw [← Db.act_unmarked, hsame, Db.act_unmarked]
  rw [← hsameAct] at hact
  cases hnew : V.act c b action with
  | error e =>
    cases hnew' : V'.act c' b action with
    | error e' =>
      rw [hnew, hnew'] at hact
      cases hact
      exact Or.inl ⟨e, rfl, rfl⟩
    | ok new' =>
      rw [hnew, hnew'] at hact
      cases hact
  | ok new =>
    cases hnew' : V'.act c' b action with
    | error e' =>
      rw [hnew, hnew'] at hact
      cases hact
    | ok new' =>
      rw [hnew, hnew'] at hact
      obtain ⟨he, _⟩ := Db.act_effect hV hnew
      obtain ⟨he', _⟩ := Db.act_effect hV' hnew'
      obtain ⟨hrow, hintent, _, houts, hbalance⟩ := Act.mk.inj (Except.ok.inj hact)
      obtain ⟨haccounts, hregistry, hledger, hintents, houtbox⟩ := Db.unmarked_inj hsame
      refine Or.inr ⟨new, new', rfl, rfl, hbalance, ?_⟩
      rw [he.performed_unmarked, he'.performed_unmarked, haccounts, hregistry, hledger, hintents,
        houtbox, hrow, hintent, houts]

/-- The actions of a request do the same in both services, as long as no balance reaches
`2 ^ 53`. -/
theorem Call.Twins.perform (h : c.Twins c') {actions : List ProcessAction}
    {txs : List Transaction} (hV : V.Consistent) (hV' : V'.Consistent)
    (hsame : V.unmarked = V'.unmarked) (hsmall : V'.SmallLedger) (hb : 0 ≤ b)
    (hactions : ∀ action ∈ actions, action.Small)
    (hbalances : ∀ pre r, pre <+: actions → V'.perform c' b txs pre = .ok r → r.1.1 < 2 ^ 53) :
    (V.perform c b txs actions).map (fun r => (r.1, r.2.unmarked)) =
      (V'.perform c' b txs actions).map fun r => (r.1, r.2.unmarked) := by
  induction actions generalizing V V' b txs with
  | nil => exact congrArg (fun db => Except.ok ((b, txs), db)) hsame
  | cons action rest ih =>
    have hregistry : V.actionRegistry = V'.actionRegistry := (Db.unmarked_inj hsame).2.1
    have hlt : b < 2 ^ 53 := hbalances [] _ (List.nil_prefix) rfl
    have haction := hactions action (List.mem_cons_self ..)
    have hrest : ∀ a ∈ rest, a.Small := fun a ha => hactions a (List.mem_cons_of_mem _ ha)
    have hnext : ∀ {pre}, pre <+: rest → action :: pre <+: action :: rest := fun hpre =>
      List.cons_prefix_cons.2 ⟨rfl, hpre⟩
    rw [Db.perform, Db.perform, hregistry]
    cases hfind : V'.actionRegistry.find? (·.actionId = action.actionId) with
    | some g =>
      apply ih hV hV' hsame hsmall hb hrest
      intro pre r hpre hr
      apply hbalances (action :: pre) r (hnext hpre)
      rw [Db.perform, hfind]
      exact hr
    | none =>
      have hfree := Db.find?_eq_none.1 hfind
      have hfree' : ¬ V.Registered action.actionId := by rwa [Db.Registered, hregistry]
      have hlt' : ∀ new, V'.act c' b action = .ok new → new.balance < 2 ^ 53 := by
        intro new hnew
        apply hbalances [action] ((new.balance, _), _) (hnext List.nil_prefix)
        rw [Db.perform, hfind, hnew]
        rfl
      obtain ⟨e, he, he'⟩ | ⟨new, new', hnew, hnew', hbalance, htables⟩ :=
        h.performed hV hV' hsame hsmall ⟨hb, hlt⟩ haction hlt'
      · rw [he, he']
        rfl
      · have hperf := Db.Performs.fresh hfree hnew'
        rw [hnew, hnew']
        change ((V.performed c new).perform c new.balance _ rest).map _ =
          ((V'.performed c' new').perform c' new'.balance _ rest).map _
        rw [hbalance, h.txId]
        apply ih (hV.stepped ((Db.Performs.fresh hfree' hnew).stepped hV))
          (hV'.stepped (hperf.stepped hV')) htables (hsmall.performs hV' haction hperf)
          ((Db.act_effect hV' hnew').1.balance_nonneg hb) hrest
        intro pre r hpre hr
        apply hbalances (action :: pre) r (hnext hpre)
        rw [Db.perform, hfind, hnew']
        exact hr

end

/-- No balance that the Rust service comes to in a request reaches `N`. -/
def Rust.BalancesBelow (draws : Draws) (request : ProcessRequest) (db : Db) (N : Int) : Prop :=
  ∀ pre ∈ (request.actions.getD []).inits, ∀ r ∈ (postgres.exec (lockAccount request.account >>=
    fun balance => processActions draws request pre balance []) db).toOption, r.1.1 < N

instance (draws : Draws) (request : ProcessRequest) (db : Db) (N : Int) :
    Decidable (Rust.BalancesBelow draws request db N) :=
  inferInstanceAs (Decidable (∀ pre ∈ _, ∀ r ∈ _, _ < _))

/-- The same tables, up to the marks on rolled back rows. -/
structure Db.Agrees (db db' : Db) : Prop where
  accounts : db.accounts = db'.accounts
  actionRegistry : db.actionRegistry = db'.actionRegistry
  ledger : db.ledger = db'.ledger
  rollbackIntents : db.rollbackIntents = db'.rollbackIntents
  rtpOutbox : db.rtpOutbox = db'.rtpOutbox

section
variable {db : Db} {c c' : Call}

theorem exec_body_empty (h : c.actions = []) : postgres.exec c.body db =
    .ok (.balance (c.svc.load (db.balance c.account)), db.opened c.account) := by
  have hlength : (c.request.actions.getD []).length = 0 := List.length_eq_zero_iff.2 h
  rw [Call.body, processAggregatorRequest_eq]
  apply exec_lockAccount.trans
  rw [afterLock, if_pos hlength]
  rfl

/-- A request does the same in both services, as long as no balance reaches `2 ^ 53`. -/
theorem Call.Twins.exec_body (h : c.Twins c') (hdb : db.Consistent)
    (hpos : 0 ≤ db.balance c'.account) (hlt : db.balance c'.account < 2 ^ 53)
    (hsmall : db.SmallLedger) (hactions : ∀ action ∈ c'.actions, action.Small)
    (hbalances : ∀ pre r, pre <+: c'.actions → (db.opened c'.account).perform c'
      (db.balance c'.account) [] pre = .ok r → r.1.1 < 2 ^ 53) :
    (postgres.exec c.body db).map (fun r => (r.1, r.2.unmarked)) =
      (postgres.exec c'.body db).map fun r => (r.1, r.2.unmarked) := by
  have heq : c.actions = c'.actions := by rw [Call.actions, h.request, Call.actions]
  have hload : ∀ svc : Service, svc.load (db.balance c'.account) = db.balance c'.account :=
    fun svc => svc.load_small (abs_le.2 (by omega))
  by_cases hnil : c'.actions = []
  · rw [exec_body_empty (heq.trans hnil), exec_body_empty hnil, h.account, hload, hload]
  · rw [BetProcessor.exec_body hdb (heq ▸ hnil), BetProcessor.exec_body hdb hnil, h.account, heq,
      hload, hload]
    have hopened := hdb.opened_account c'.account
    have hledger : (db.opened c'.account).SmallLedger := by
      rw [Db.opened]
      split
      · exact hsmall
      · exact hsmall
    have hperform := h.perform (b := db.balance c'.account) hopened hopened rfl hledger hpos
      hactions hbalances
    cases hr : (db.opened c'.account).perform c (db.balance c'.account) [] c'.actions with
    | error e =>
      cases hr' : (db.opened c'.account).perform c' (db.balance c'.account) [] c'.actions with
      | error e' =>
        rw [hr, hr'] at hperform
        cases hperform
        rfl
      | ok r' =>
        rw [hr, hr'] at hperform
        cases hperform
    | ok r =>
      cases hr' : (db.opened c'.account).perform c' (db.balance c'.account) [] c'.actions with
      | error e' =>
        rw [hr, hr'] at hperform
        cases hperform
      | ok r' =>
        rw [hr, hr'] at hperform
        obtain ⟨⟨b, txs⟩, V⟩ := r
        obtain ⟨⟨b', txs'⟩, V'⟩ := r'
        obtain ⟨hresult, hsame⟩ := Prod.mk.inj (Except.ok.inj hperform)
        cases hresult
        have hnonneg : 0 ≤ b := Db.perform_balance_nonneg hopened hpos hr'
        have hsmall' : b < 2 ^ 53 := hbalances c'.actions _ List.prefix_rfl hr'
        have hparam : ∀ svc : Service, svc.param b = .ok b :=
          fun svc => Service.param_eq_ok.2 (svc.bind_small (abs_le.2 (by omega)))
        have hstored : (V.stored c'.account b).unmarked = (V'.stored c'.account b).unmarked :=
          congrArg (Db.apply · (.updateBalance c'.account b)) hsame
        change (c.svc.param b >>= _).map _ = (c'.svc.param b >>= _).map _
        rw [hparam, hparam, h.request]
        change (if b < 0 then _ else _ : Except Err _).map _ =
          (if b < 0 then _ else _ : Except Err _).map _
        rw [if_neg (not_lt.2 hnonneg), if_neg (not_lt.2 hnonneg)]
        exact congrArg (fun db => Except.ok (_, db)) hstored

/-- Two transactions with the same result have the same outcome and leave the same tables. -/
theorem Db.Agrees.of_exec {α : Type} {p p' : Tx α}
    (h : (postgres.exec p db).map (fun r => (r.1, r.2.unmarked)) =
      (postgres.exec p' db).map fun r => (r.1, r.2.unmarked)) :
    (postgres.transact p db).1 = (postgres.transact p' db).1 ∧
      (postgres.transact p db).2.Agrees (postgres.transact p' db).2 := by
  have hagrees : (postgres.transact p db).1 = (postgres.transact p' db).1 ∧
      (postgres.transact p db).2.unmarked = (postgres.transact p' db).2.unmarked := by
    rw [Engine.transact, Engine.transact]
    cases hp : postgres.exec p db with
    | error e =>
      cases hp' : postgres.exec p' db with
      | error e' =>
        rw [hp, hp'] at h
        cases h
        exact ⟨rfl, rfl⟩
      | ok r' =>
        rw [hp, hp'] at h
        cases h
    | ok r =>
      cases hp' : postgres.exec p' db with
      | error e' =>
        rw [hp, hp'] at h
        cases h
      | ok r' =>
        rw [hp, hp'] at h
        obtain ⟨hresult, hsame⟩ := Prod.mk.inj (Except.ok.inj h)
        exact ⟨congrArg Except.ok hresult, hsame⟩
  obtain ⟨haccounts, hregistry, hledger, hintents, houtbox⟩ := Db.unmarked_inj hagrees.2
  exact ⟨hagrees.1, haccounts, hregistry, hledger, hintents, houtbox⟩

theorem Db.opened_exec (db : Db) (request : ProcessRequest) (draws : Draws)
    (pre : List ProcessAction) (h : db.Consistent) :
    postgres.exec (Rust.lockAccount request.account >>= fun balance =>
      Rust.processActions draws request pre balance []) db =
      (db.opened request.account).perform ⟨rust, draws, request⟩ (db.balance request.account) []
        pre := by
  have hrust : (fun balance => Rust.processActions draws request pre balance []) =
      fun balance => processActions rust draws request pre balance [] :=
    funext fun balance => Rust.processActions_eq.symm
  rw [hrust, ← Rust.lockAccount_eq, exec_lockAccount]
  exact exec_processActions (c := ⟨rust, draws, request⟩) (h.opened_account request.account)

end

/-- The two services agree on every request to a database that any concurrent requests have
left, as long as no number reaches `2 ^ 53`. -/
theorem services_agree {ι : Type} [Fintype ι] [DecidableEq ι] (calls : ι → Call) {db₀ : Db}
    (h₀ : db₀.Initial) {ls : List (Label ι Stmt Err)} {now : Requests ι}
    (hr : postgres.Run (fun _ _ => True) (.init (fun i => (calls i).body) db₀) ls now)
    {request : ProcessRequest} {draws draws' : Draws}
    (hclock : ∀ x, typescript.stamp (draws.clock x) = rust.stamp (draws'.clock x))
    (htxId : draws.txId = draws'.txId) (hhashtext : draws.hashtext = draws'.hashtext)
    (hactions : ∀ action ∈ request.actions.getD [], action.Small)
    (haccounts : ∀ row ∈ now.db.accounts, row.balance < 2 ^ 53) (hledger : now.db.SmallLedger)
    (hbalances : Rust.BalancesBelow draws' request now.db (2 ^ 53)) :
    (postgres.transact (processAggregatorRequest typescript draws request) now.db).1 =
      (postgres.transact (Rust.procesRequest draws' request) now.db).1 ∧
    (postgres.transact (processAggregatorRequest typescript draws request) now.db).2.Agrees
      (postgres.transact (Rust.procesRequest draws' request) now.db).2 := by
  obtain ⟨hcons, hnonneg⟩ : now.db.Consistent ∧ ∀ a, 0 ≤ now.db.balance a := by
    apply Agreement.keeping_inv (J := fun db => db.Consistent ∧ ∀ a, 0 ≤ db.balance a) _
      ⟨h₀.consistent, h₀.balance_at_nonneg⟩ hr
    intro i past db ws resp h hp hc
    refine ⟨h.1.commit hp hc, fun a => ?_⟩
    rcases hc.balance_cases hp h.1 a with heq | ⟨_, _, hpos⟩
    · rw [heq]
      exact h.2 a
    · exact hpos
  have htwins : Call.Twins ⟨typescript, draws, request⟩ ⟨rust, draws', request⟩ :=
    ⟨rfl, rfl, rfl, hclock, htxId, hhashtext⟩
  have hlt : now.db.balance request.account < 2 ^ 53 := by
    rw [Db.balance]
    cases hrow : now.db.account? request.account with
    | none => decide
    | some row => exact haccounts row (List.mem_of_find?_eq_some hrow)
  apply Db.Agrees.of_exec
  rw [← Rust.procesRequest_eq]
  apply htwins.exec_body hcons (hnonneg _) hlt hledger hactions
  intro pre r hpre hr
  apply hbalances pre ((List.mem_inits _ _).2 hpre) r
  rw [Db.opened_exec _ _ _ _ hcons]
  exact congrArg Except.toOption hr

/-- Clock readings that both services hold: whole milliseconds. -/
def wholeDraws : Draws := ⟨fun x => x * 1000000, fun x => x + 1000, fun _ => 0, 0⟩

/-- A bet, the rollback of the bet of another request and a rollback before its bet. -/
def betAndRollbacks : ProcessRequest :=
  ⟨"a", "USD", "g", none, some [.bet 4 10, .rollback 5 1, .rollback 6 9, .win 9 5]⟩

theorem services_agree_on_rollbacks : ∃ ls now,
    postgres.Run (fun _ _ => True) (.init (fun i => (sharedId i).body) twoUsers) ls now ∧
    (postgres.transact (processAggregatorRequest typescript wholeDraws betAndRollbacks) now.db).1 =
      (postgres.transact (Rust.procesRequest wholeDraws betAndRollbacks) now.db).1 := by
  obtain ⟨ls, now, hr, hnow⟩ := Engine.Run.exists_of_drive postgres
    (c := .init (fun i => (sharedId i).body) twoUsers) (List.replicate 17 0)
    (p := fun r => decide ((∀ row ∈ r.2.db.accounts, row.balance < 2 ^ 53) ∧
      r.2.db.SmallLedger ∧ Rust.BalancesBelow wholeDraws betAndRollbacks r.2.db (2 ^ 53)))
    (by decide +kernel)
  obtain ⟨haccounts, hledger, hbalances⟩ := of_decide_eq_true hnow
  have hclock : ∀ x, typescript.stamp (wholeDraws.clock x) = rust.stamp (wholeDraws.clock x) := by
    intro x
    change (x : Int) * 1000000 / 1000000 * 1000 = (x : Int) * 1000000 / 1000
    omega
  have hactions : ∀ action ∈ betAndRollbacks.actions.getD [], action.Small := by
    simp [betAndRollbacks, ProcessAction.Small]
  exact ⟨ls, now, hr, (services_agree sharedId twoUsers_initial hr hclock rfl rfl hactions
    haccounts hledger hbalances).1⟩

end BetProcessor
