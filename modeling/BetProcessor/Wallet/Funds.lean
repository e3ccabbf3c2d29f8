import Mathlib.Algebra.Order.BigOperators.Group.List
import Mathlib.Tactic.Linarith
import BetProcessor.Wallet.State

namespace Wallet
set_option autoImplicit true

def Op.IsMove : Op I M → Prop
  | .move _ _ => True
  | .undo _ _ => False

section
variable [CommRing M] [LinearOrder M]

/-- What an operation may take. -/
def Op.stake (op : Op I M) : M := max 0 (-op.amount)

/-- What an operation may bring. -/
def Op.gain (op : Op I M) : M := max 0 op.amount

def stakes (ops : List (Op I M)) : M := (ops.map Op.stake).sum

def gains (ops : List (Op I M)) : M := (ops.map Op.gain).sum

end

namespace State
variable {A I T M : Type} [DecidableEq A] [DecidableEq I]
variable [CommRing M] [LinearOrder M] [IsStrictOrderedRing M]
variable {a : A} {receipt : I → T} {w w' : State A I T M} {op : Op I M} {ops : List (Op I M)}
variable {N : M}

omit [DecidableEq I] [IsStrictOrderedRing M] in
theorem stake_nonneg (op : Op I M) : 0 ≤ op.stake := le_max_left _ _

omit [DecidableEq I] [IsStrictOrderedRing M] in
theorem gain_nonneg (op : Op I M) : 0 ≤ op.gain := le_max_left _ _

omit [DecidableEq I] in
theorem stakes_nonneg (ops : List (Op I M)) : 0 ≤ stakes ops :=
  List.sum_nonneg fun x hx => by
    obtain ⟨op, _, rfl⟩ := List.mem_map.1 hx
    exact stake_nonneg op

omit [DecidableEq I] in
theorem gains_nonneg (ops : List (Op I M)) : 0 ≤ gains ops :=
  List.sum_nonneg fun x hx => by
    obtain ⟨op, _, rfl⟩ := List.mem_map.1 hx
    exact gain_nonneg op

omit [DecidableEq A] [DecidableEq I] in
theorem moves_bounds (w : State A I T M) (h : op.IsMove) :
    -op.stake ≤ w.moves op ∧ w.moves op ≤ op.gain := by
  cases op with
  | undo => exact h.elim
  | move x m =>
    have hstake := le_max_right 0 (-m)
    rw [moves, Op.stake, Op.gain, Op.amount]
    split
    · exact ⟨neg_nonpos.2 (le_max_left _ _), le_max_left _ _⟩
    · exact ⟨by linarith, le_max_right _ _⟩

theorem step_funded (receipt : I → T) (h : op.IsMove) (hfunds : op.stake ≤ w.balance a) :
    ∃ w', w.step a receipt op = some w' ∧ w.balance a - op.stake ≤ w'.balance a ∧
      w'.balance a ≤ w.balance a + op.gain := by
  have hstake := stake_nonneg op
  have hgain := gain_nonneg op
  cases hknown : w.settled op.id with
  | some s =>
    refine ⟨w, step_known (by rw [hknown]; rfl), ?_, ?_⟩
    · linarith
    · linarith
  | none =>
    obtain ⟨hlow, hhigh⟩ := w.moves_bounds h
    refine ⟨_, (step_new hknown).trans (if_neg (not_lt.2 (by linarith))), ?_, ?_⟩
    · rw [settle_balance]
      linarith
    · rw [settle_balance]
      linarith

/-- An account that has all the stakes can pay in any case. -/
theorem serve_funded (h : ∀ op ∈ ops, op.IsMove) (hfunds : stakes ops ≤ w.balance a) :
    ∃ r, w.serve a receipt ops = some r ∧ w.balance a - stakes ops ≤ r.2.balance a ∧
      r.2.balance a ≤ w.balance a + gains ops := by
  induction ops generalizing w with
  | nil => exact ⟨([], w), rfl, by simp [stakes], by simp [gains]⟩
  | cons op ops ih =>
    have hrest := stakes_nonneg ops
    rw [stakes, List.map_cons, List.sum_cons, ← stakes] at hfunds ⊢
    rw [gains, List.map_cons, List.sum_cons, ← gains]
    have hstake : op.stake ≤ w.balance a := by linarith
    obtain ⟨w', hstep, hlow, hhigh⟩ := step_funded receipt
      (h op (List.mem_cons_self ..)) hstake
    have hstakes : stakes ops ≤ w'.balance a := by linarith
    obtain ⟨r, hserve, hlow', hhigh'⟩ :=
      ih (fun op hop => h op (List.mem_cons_of_mem _ hop)) hstakes
    refine ⟨((op.id, w.reply receipt op) :: r.1, r.2), ?_, ?_, ?_⟩
    · rw [serve, hstep, Option.bind_some, hserve, Option.map_some]
    · dsimp only
      linarith
    · dsimp only
      linarith

theorem within_funded (h : ∀ op ∈ ops, op.IsMove) (hfunds : stakes ops ≤ w.balance a)
    (hN : w.balance a + gains ops ≤ N) : w.Within N a receipt ops := by
  induction ops generalizing w with
  | nil =>
    rw [stakes, List.map_nil, List.sum_nil] at hfunds
    rw [gains, List.map_nil, List.sum_nil, add_zero] at hN
    exact abs_le.2 ⟨by linarith, hN⟩
  | cons op ops ih =>
    have hstakes := stakes_nonneg ops
    have hgains := gains_nonneg ops
    have hstake := stake_nonneg op
    have hgain := gain_nonneg op
    rw [stakes, List.map_cons, List.sum_cons, ← stakes] at hfunds
    rw [gains, List.map_cons, List.sum_cons, ← gains] at hN
    have hmove := h op (List.mem_cons_self ..)
    refine ⟨abs_le.2 ⟨by linarith, by linarith⟩, fun _ => ?_, fun w' hstep => ?_⟩
    · obtain ⟨hlow, hhigh⟩ := w.moves_bounds hmove
      have hamount : -op.stake ≤ op.amount ∧ op.amount ≤ op.gain :=
        ⟨neg_le.1 (le_max_right _ _), le_max_right _ _⟩
      exact ⟨abs_le.2 ⟨by linarith, by linarith⟩, abs_le.2 ⟨by linarith, by linarith⟩,
        abs_le.2 ⟨by linarith, by linarith⟩⟩
    · have hpays : op.stake ≤ w.balance a := by linarith
      obtain ⟨w'', hstep', hlow, hhigh⟩ := step_funded receipt hmove hpays
      obtain rfl : w'' = w' := Option.some.inj (hstep'.symm.trans hstep)
      exact ih (fun op hop => h op (List.mem_cons_of_mem _ hop)) (by linarith) (by linarith)

end State
end Wallet
