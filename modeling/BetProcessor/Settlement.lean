import Mathlib.Algebra.Order.BigOperators.Group.List
import Mathlib.Data.List.Dedup
import BetProcessor.NetResult

namespace BetProcessor
set_option autoImplicit true

/-- The ids that the rollbacks of a list of actions target. -/
def targets (T : List ProcessAction) : List Uuid := T.filterMap ProcessAction.target?

/-- What a bet or win comes to in the report, targeted by a rollback or not. -/
def ProcessAction.settled (targeted : Bool) : ProcessAction → Column → Int
  | .bet _ v, .totalBet => if targeted then 0 else v
  | .bet _ _, .rounds => if targeted then 0 else 1
  | .bet _ v, .rolledBackBet => if targeted then v else 0
  | .win _ v, .totalWin => if targeted then 0 else v
  | .win _ v, .rolledBackWin => if targeted then v else 0
  | _, _ => 0

/-- What a set of actions comes to in the report, whatever the order in which they arrive. -/
def settlement (T : List ProcessAction) (col : Column) : Int :=
  sumOf T (fun _ => true) (fun a => a.settled (a.actionId ∈ targets T) col) +
    if col = .rollbackCount then ((targets T).dedup.length : Int) else 0

/-- The money that a set of actions moves. -/
def settledNet (T : List ProcessAction) : Int :=
  settlement T .totalWin - settlement T .totalBet

def ProcessAction.amount? : ProcessAction → Option Int
  | .bet _ v | .win _ v => some v
  | .rollback _ _ => none

def ProcessAction.winAmount : ProcessAction → Int
  | .win _ v => v
  | _ => 0

/-- All the wins of a set of actions, targeted or not. -/
def winnings (S : List ProcessAction) : Int := (S.map ProcessAction.winAmount).sum

section
variable {S T : List ProcessAction} {action : ProcessAction} {col : Column} {r o : Uuid}

theorem targets_append (T T' : List ProcessAction) :
    targets (T ++ T') = targets T ++ targets T' := List.filterMap_append

theorem mem_targets : o ∈ targets T ↔ ∃ r, .rollback r o ∈ T := by
  rw [targets, List.mem_filterMap]
  constructor
  · intro h
    obtain ⟨a, ha, hao⟩ := h
    cases a with
    | bet => cases hao
    | win => cases hao
    | rollback r o' =>
      cases hao
      exact ⟨r, ha⟩
  · intro h
    obtain ⟨r, hr⟩ := h
    exact ⟨_, hr, rfl⟩

theorem settled_rollback (r o : Uuid) (targeted : Bool) :
    (ProcessAction.rollback r o).settled targeted col = 0 := by
  cases col <;> rfl

/-- The order of the actions does not matter. -/
theorem settlement_perm (h : T.Perm S) : settlement T = settlement S := by
  funext col
  have htargets : (targets T).Perm (targets S) := h.filterMap _
  have hmem : ∀ x, x ∈ targets T ↔ x ∈ targets S := fun x => htargets.mem_iff
  simp only [settlement, sumOf, hmem, htargets.dedup.length_eq]
  rw [((h.filter _).map _).sum_eq]

theorem settlement_original (h : action.target? = none) :
    settlement (T ++ [action]) col =
      settlement T col + action.settled (action.actionId ∈ targets T) col := by
  have htargets : targets (T ++ [action]) = targets T := by
    rw [targets_append]
    simp [targets, h]
  simp only [settlement, htargets, sumOf_append, sumOf_single, if_true]
  ring

theorem targets_rollback (r o : Uuid) : targets (T ++ [.rollback r o]) = targets T ++ [o] :=
  targets_append ..

theorem settlement_again (h : o ∈ targets T) :
    settlement (T ++ [.rollback r o]) col = settlement T col := by
  have hmem : ∀ x, x ∈ targets T ++ [o] ↔ x ∈ targets T := by
    intro x
    rw [List.mem_append, List.mem_singleton]
    exact ⟨fun hx => hx.elim id fun hx => hx ▸ h, Or.inl⟩
  have hlength : (targets T ++ [o]).dedup.length = (targets T).dedup.length := by
    rw [(List.perm_append_singleton o (targets T)).dedup.length_eq, List.dedup_cons_of_mem h]
  simp only [settlement, targets_rollback, sumOf_append, sumOf_single, settled_rollback, hmem,
    hlength, if_true, add_zero]

theorem settlement_rollback (h : o ∉ targets T) :
    settlement (T ++ [.rollback r o]) col =
      sumOf T (fun _ => true)
          (fun a => a.settled (decide (a.actionId ∈ targets T) || decide (a.actionId = o)) col) +
        (if col = .rollbackCount then ((targets T).dedup.length : Int) else 0) +
        if col = .rollbackCount then 1 else 0 := by
  have hlength : (targets T ++ [o]).dedup.length = (targets T).dedup.length + 1 := by
    rw [(List.perm_append_singleton o (targets T)).dedup.length_eq,
      List.dedup_cons_of_notMem h, List.length_cons]
  have hmem : ∀ x : Uuid, decide (x ∈ targets T ++ [o]) =
      (decide (x ∈ targets T) || decide (x = o)) := by
    intro x
    simp
  simp only [settlement, targets_rollback, sumOf_append, sumOf_single, settled_rollback, hmem,
    hlength, if_true, add_zero, add_assoc]
  congr 1
  split <;> simp

theorem settlement_tombstone (h : o ∉ targets T) (hnone : ∀ a ∈ T, a.actionId ≠ o) :
    settlement (T ++ [.rollback r o]) col =
      settlement T col + if col = .rollbackCount then 1 else 0 := by
  rw [settlement_rollback h, settlement]
  congr 2
  apply sumOf_congr
  intro a ha _
  simp [hnone a ha]

theorem settlement_reversal (hnodup : (T.map ProcessAction.actionId).Nodup)
    (haction : action ∈ T) (h : action.actionId ∉ targets T) :
    settlement (T ++ [.rollback r action.actionId]) col = settlement T col +
      (action.settled true col - action.settled false col) +
      if col = .rollbackCount then 1 else 0 := by
  rw [settlement_rollback h, settlement]
  rw [sumOf_change haction (List.Nodup.of_map _ hnodup) ?_
    (f := fun a => a.settled (a.actionId ∈ targets T) col)]
  · simp only [h, decide_false, decide_true, Bool.or_true, if_true]
    ring
  · intro a ha hne
    have hid : a.actionId ≠ action.actionId := fun hid =>
      hne (List.inj_on_of_nodup_map hnodup ha haction hid)
    simp [hid]

/-- The money is at most the wins of any larger set. -/
theorem settledNet_le (hT : T.Nodup) (hsub : T ⊆ S)
    (hpos : ∀ a ∈ S, ∀ v ∈ a.amount?, 0 < v) : settledNet T ≤ winnings S := by
  have hle : ∀ a ∈ T, ∀ t, a.settled t .totalWin - a.settled t .totalBet ≤ a.winAmount := by
    intro a ha t
    cases a with
    | bet x v =>
      have hv := hpos _ (hsub ha) v rfl
      cases t with
      | false =>
        simp only [ProcessAction.settled, ProcessAction.winAmount, Bool.false_eq_true, if_false]
        omega
      | true => simp [ProcessAction.settled, ProcessAction.winAmount]
    | win x v =>
      have hv := hpos _ (hsub ha) v rfl
      cases t with
      | false => simp [ProcessAction.settled, ProcessAction.winAmount]
      | true =>
        simp only [ProcessAction.settled, ProcessAction.winAmount, if_true]
        omega
    | rollback => simp [ProcessAction.settled, ProcessAction.winAmount]
  have hwin : ∀ a ∈ S, 0 ≤ a.winAmount := by
    intro a ha
    cases a with
    | bet => exact le_refl _
    | win x v => exact le_of_lt (hpos _ ha v rfl)
    | rollback => exact le_refl _
  calc settledNet T
      = (T.map fun a => a.settled (a.actionId ∈ targets T) .totalWin -
          a.settled (a.actionId ∈ targets T) .totalBet).sum := by
        rw [← sumOf_true, sumOf_sub]
        simp [settledNet, settlement]
    _ ≤ (T.map ProcessAction.winAmount).sum := List.sum_le_sum fun a ha => hle a ha _
    _ ≤ winnings S := by
        obtain ⟨T', hperm, hsubl⟩ := hT.subperm hsub
        rw [winnings, ← (hperm.map _).sum_eq]
        exact (hsubl.map _).sum_le_sum fun v hv => by
          obtain ⟨a, ha, rfl⟩ := List.mem_map.1 hv
          exact hwin a ha

end
end BetProcessor
