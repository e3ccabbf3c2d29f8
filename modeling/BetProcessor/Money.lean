import BetProcessor.CleanRequests
import BetProcessor.OrderIndependence
import BetProcessor.TwoServices

namespace BetProcessor
set_option autoImplicit true
open Txn

/-- What a newly claimed action moves, as its service computes it. -/
def Db.delta (V : Db) (svc : Service) : ProcessAction → Int
  | .bet x amount => if V.HasIntent x then 0 else originalDelta svc .bet amount
  | .win x amount => if V.HasIntent x then 0 else originalDelta svc .win amount
  | .rollback _ o =>
    if V.HasIntent o then 0
    else (V.original? o).elim 0 fun row =>
      if row.status = .applied then svc.neg (svc.load row.balanceDelta) else 0

/-- No number of the ledger exceeds `N`. -/
def Db.Bounded (N : Int) (V : Db) : Prop :=
  ∀ row ∈ V.ledger, |row.balanceDelta| ≤ N ∧ ∀ amount ∈ row.amount, |amount| ≤ N

/-- The amount of a bet or a win is at most `N`. -/
def ProcessAction.Bounded (N : Int) : ProcessAction → Prop
  | .bet _ amount | .win _ amount => |amount| ≤ N
  | .rollback _ _ => True

/-- The numbers of an action that its service turns down. -/
def ProcessAction.Refused (svc : Service) : ProcessAction → Prop
  | .bet _ amount | .win _ amount => svc.refuses amount = true
  | .rollback _ _ => False

section
variable {V V' : Db} {c : Call} {b b' N : Int} {action : ProcessAction} {act : Act}

theorem Db.Consistent.withAccounts (h : V.Consistent) {rows : List AccountRow}
    (hrows : (rows.map (·.account)).Nodup) : (V.withAccounts rows).Consistent :=
  ⟨hrows, h.registry_nodup, h.ledger_nodup, h.intents_nodup, h.registered, h.recorded,
    h.intent_row, h.row_intent, h.shape⟩

theorem Db.original?_mem {o : Uuid} {row : ActionRow} (h : V.original? o = some row) :
    row ∈ V.ledger := (original?_registry h).2.1

theorem Db.delta_exact {svc : Service} (hexact : svc.ExactTo N) (hV : V.Bounded N)
    (haction : action.Bounded N) : V.delta svc action = V.delta svc.exact action := by
  cases action with
  | bet x amount =>
    rw [delta, delta, hexact.originalDelta haction,
      (svc.exact_exactTo N).originalDelta haction]
  | win x amount =>
    rw [delta, delta, hexact.originalDelta haction,
      (svc.exact_exactTo N).originalDelta haction]
  | rollback r o =>
    rw [delta, delta]
    cases hrow : V.original? o with
    | none => rfl
    | some row =>
      have hdelta := (hV row (original?_mem hrow)).1
      rw [Option.elim_some, Option.elim_some, hexact.load hdelta, hexact.neg hdelta]
      rfl

theorem Db.abs_delta {svc : Service} (hV : V.Bounded N) (hN : 0 ≤ N) (haction : action.Bounded N) :
    |V.delta svc.exact action| ≤ N := by
  have hzero : |(0 : Int)| ≤ N := by rwa [abs_zero]
  cases action with
  | bet x amount =>
    rw [delta, (svc.exact_exactTo N).originalDelta haction]
    split
    · exact hzero
    · rwa [abs_signed]
  | win x amount =>
    rw [delta, (svc.exact_exactTo N).originalDelta haction]
    split
    · exact hzero
    · rwa [abs_signed]
  | rollback r o =>
    rw [delta]
    split
    · exact hzero
    cases hrow : V.original? o with
    | none => exact hzero
    | some row =>
      rw [Option.elim_some]
      split
      · exact (abs_neg _).trans_le (hV row (original?_mem hrow)).1
      · exact hzero

theorem Db.removal_exact {svc : Service} {row : ActionRow} (hexact : svc.ExactTo N)
    (hN : 0 ≤ N) (h : ∀ amount ∈ row.amount, |amount| ≤ N) :
    removal svc row = removal svc.exact row := by
  have hload : (row.amount.map svc.load).getD 0 = row.amount.getD 0 := by
    cases hamount : row.amount with
    | none => rfl
    | some amount => exact hexact.load (h amount hamount)
  have hle : |row.amount.getD 0| ≤ N := by
    cases hamount : row.amount with
    | none => rwa [Option.getD_none, abs_zero]
    | some amount => exact h amount hamount
  have hload' : (row.amount.map svc.exact.load).getD 0 = row.amount.getD 0 := by
    cases row.amount <;> rfl
  have hparam : svc.param (row.amount.getD 0) = svc.exact.param (row.amount.getD 0) :=
    Service.param_eq_ok.2 (hexact.bind hle)
  have hparam' : svc.param (-row.amount.getD 0) = svc.exact.param (-row.amount.getD 0) :=
    Service.param_eq_ok.2 (hexact.bind (by rwa [abs_neg]))
  rw [removal, removal, hload, hload', hexact.neg hle, hparam, hparam']
  rfl

theorem Db.act_exact (hexact : c.svc.ExactTo N) (hN : 0 ≤ N) (hV : V.Bounded N)
    (haction : action.Bounded N) (hnext : |b + V.delta c.svc.exact action| ≤ N) :
    V.act c b action = V.act c.exact b action := by
  have hdelta := delta_exact hexact hV haction
  have hle : |V.delta c.svc.exact action| ≤ N := abs_delta hV hN haction
  have hadd : c.svc.add b (V.delta c.svc.exact action) =
      c.exact.svc.add b (V.delta c.svc.exact action) := hexact.add hnext
  have hparam : c.svc.param (V.delta c.svc.exact action) =
      c.exact.svc.param (V.delta c.svc.exact action) := Service.param_eq_ok.2 (hexact.bind hle)
  have horiginal : ∀ {type x amount}, |amount| ≤ N →
      (if V.HasIntent x then 0 else originalDelta c.svc type amount) = V.delta c.svc action →
      (if V.HasIntent x then 0 else originalDelta c.svc.exact type amount) =
        V.delta c.svc.exact action →
      V.actOriginal c b type x amount = V.actOriginal c.exact b type x amount := by
    intro type x amount hamount heq heq'
    have hparam' : c.svc.param amount = c.exact.svc.param amount :=
      Service.param_eq_ok.2 (hexact.bind hamount)
    rw [actOriginal, actOriginal]
    rw [heq, hdelta, hadd, hparam, hparam']
    rw [show originalDelta c.exact.svc type amount = originalDelta c.svc.exact type amount from rfl,
      heq']
    rfl
  cases action with
  | bet x amount => exact horiginal haction rfl rfl
  | win x amount => exact horiginal haction rfl rfl
  | rollback r o =>
    change V.actRollback c b r o = V.actRollback c.exact b r o
    rw [delta] at hadd hparam
    rw [actRollback, actRollback]
    by_cases hseen : V.HasIntent o
    · rw [if_pos hseen, if_pos hseen]
      rfl
    · rw [if_neg hseen, if_neg hseen]
      rw [if_neg hseen] at hadd hparam
      cases hrow : V.original? o with
      | none => rfl
      | some row =>
        obtain ⟨hdelta', hamount⟩ := hV row (original?_mem hrow)
        rw [hrow, Option.elim_some] at hadd hparam
        dsimp only
        rw [hexact.load hdelta', hexact.neg hdelta', removal_exact hexact hN hamount]
        by_cases hst : row.status = .applied
        · rw [if_pos hst] at hadd hparam
          have hadd' : c.svc.add b (-row.balanceDelta) = b + -row.balanceDelta := hadd
          have hparam' : c.svc.param (-row.balanceDelta) = .ok (-row.balanceDelta) := hparam
          rw [hadd', hparam']
          rfl
        · rw [if_pos (Or.inl hst)]
          exact (if_pos (Or.inl hst)).symm

end
end BetProcessor
