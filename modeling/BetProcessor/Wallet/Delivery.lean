import Mathlib.Algebra.BigOperators.Group.Finset.Basic
import BetProcessor.Wallet.State

namespace Wallet
set_option autoImplicit true

/-- Operations that are sent together for one account. -/
structure Batch (A I M : Type) where
  account : A
  ops : List (Op I M)

/-- What a batch of moves adds to its account. -/
def Batch.net [AddCommMonoid M] (b : Batch A I M) : M := (b.ops.map Op.amount).sum

namespace State
variable {A I T M κ : Type} [DecidableEq A] [DecidableEq I] [AddCommGroup M] [LinearOrder M]
variable {a : A} {receipt : I → T} {w w₀ : State A I T M} {ops : List (Op I M)}

/-- Moves under ids that are not known yet. -/
structure New (w : State A I T M) (ops : List (Op I M)) : Prop where
  moves : ∀ op ∈ ops, ∃ x m, op = .move x m
  distinct : (ops.map Op.id).Nodup
  unsettled : ∀ op ∈ ops, w.settled op.id = none
  standing : ∀ op ∈ ops, w.undone op.id = none

theorem serve_new {r : List (I × T) × State A I T M} (h : w.serve a receipt ops = some r)
    (hnew : w.New ops) : r.2.balance a = w.balance a + (ops.map Op.amount).sum ∧
      r.2.undone = w.undone ∧ (∀ op ∈ ops, (r.2.settled op.id).isSome) ∧
      ∀ x, x ∉ ops.map Op.id → r.2.settled x = w.settled x := by
  induction ops generalizing w r with
  | nil =>
    cases h
    exact ⟨(add_zero _).symm, rfl, nofun, fun _ _ => rfl⟩
  | cons op ops ih =>
    obtain ⟨w', rs, hstep, hserve, _⟩ := serve_cons h
    obtain ⟨hnotin, hdistinct⟩ := List.nodup_cons.1 hnew.distinct
    have hmem := List.mem_cons_self (a := op) (l := ops)
    rcases step_cases hstep with ⟨hknown, _⟩ | ⟨_, _, rfl⟩
    · rw [hnew.unsettled op hmem] at hknown
      cases hknown
    · obtain ⟨x, m, rfl⟩ := hnew.moves op hmem
      have hm : w.moves (.move x m) = m := by
        rw [State.moves, show w.undone x = none from hnew.standing _ hmem]
        rfl
      rw [hm] at hserve
      obtain ⟨hbalance, hundone, hsettled, hother⟩ := ih hserve {
        moves := fun op' hop => hnew.moves op' (List.mem_cons_of_mem _ hop)
        distinct := hdistinct
        unsettled := by
          intro op' hop
          rw [settle_settled_other]
          · exact hnew.unsettled op' (List.mem_cons_of_mem _ hop)
          · intro heq
            exact hnotin (heq ▸ List.mem_map_of_mem hop)
        standing := fun op' hop => hnew.standing op' (List.mem_cons_of_mem _ hop) }
      refine ⟨?_, hundone, ?_, ?_⟩
      · rw [hbalance, settle_balance, List.map_cons, List.sum_cons, add_assoc]
        rfl
      · intro op' hop
        rcases List.mem_cons.1 hop with rfl | hop
        · exact Option.isSome_iff_exists.2 ⟨_, serve_settled hserve (settle_settled ..)⟩
        · exact hsettled op' hop
      · intro y hy
        rw [List.map_cons, List.mem_cons, not_or] at hy
        rw [hother y hy.2, settle_settled_other _ _ _ _ _ hy.1]

variable [DecidableEq κ]

/-- Batches of new moves that have no id in common. -/
structure Fresh (w₀ : State A I T M) (batches : κ → Batch A I M) : Prop where
  new : ∀ k, w₀.New (batches k).ops
  apart : ∀ k k', k ≠ k' → ∀ op ∈ (batches k).ops, op.id ∉ (batches k').ops.map Op.id

/-- The batches of `S` have been settled once, the others not at all. -/
structure Delivered (w₀ : State A I T M) (batches : κ → Batch A I M) (S : Finset κ)
    (w : State A I T M) : Prop where
  balance : ∀ a, w.balance a = w₀.balance a + ∑ k ∈ S with (batches k).account = a, (batches k).net
  settled : ∀ k ∈ S, ∀ op ∈ (batches k).ops, (w.settled op.id).isSome
  unsettled : ∀ k, k ∉ S → ∀ op ∈ (batches k).ops, w.settled op.id = none
  undone : w.undone = w₀.undone

variable {batches : κ → Batch A I M} {S : Finset κ}

omit [DecidableEq I] [LinearOrder M] [DecidableEq κ] in
theorem Fresh.delivered (h : w₀.Fresh batches) : Delivered w₀ batches ∅ w₀ where
  balance _ := by rw [Finset.filter_empty, Finset.sum_empty, add_zero]
  settled _ hk := absurd hk (Finset.notMem_empty _)
  unsettled k _ := (h.new k).unsettled
  undone := rfl

/-- However often a batch is delivered, it is settled once. -/
theorem Delivered.serve (hw : Delivered w₀ batches S w) (h : w₀.Fresh batches) {k : κ}
    {r : List (I × T) × State A I T M}
    (hserve : w.serve (batches k).account receipt (batches k).ops = some r) :
    Delivered w₀ batches (insert k S) r.2 := by
  by_cases hk : k ∈ S
  · obtain ⟨rs, hknown⟩ : ∃ rs, w.serve (batches k).account receipt (batches k).ops =
        some (rs, w) := serve_known (hw.settled k hk)
    rw [hknown] at hserve
    cases hserve
    rwa [Finset.insert_eq_of_mem hk]
  · have hnew : w.New (batches k).ops := {
      moves := (h.new k).moves
      distinct := (h.new k).distinct
      unsettled := hw.unsettled k hk
      standing := by
        rw [hw.undone]
        exact (h.new k).standing }
    obtain ⟨hbalance, hundone, hsettled, hother⟩ := serve_new hserve hnew
    refine ⟨?_, ?_, ?_, hundone.trans hw.undone⟩
    · intro a
      rw [Finset.filter_insert]
      by_cases ha : (batches k).account = a
      · rw [if_pos ha, Finset.sum_insert (fun hmem => hk (Finset.mem_filter.1 hmem).1), ← ha,
          hbalance, hw.balance, add_assoc, add_comm (Batch.net _)]
        rfl
      · rw [if_neg ha, serve_balance_other hserve (Ne.symm ha), hw.balance]
    · intro k' hk' op hop
      rcases Finset.mem_insert.1 hk' with rfl | hk'
      · exact hsettled op hop
      · obtain ⟨s, hs⟩ := Option.isSome_iff_exists.1 (hw.settled k' hk' op hop)
        exact Option.isSome_iff_exists.2 ⟨s, serve_settled hserve hs⟩
    · intro k' hk' op hop
      rw [Finset.mem_insert, not_or] at hk'
      rw [hother op.id (h.apart k' k hk'.1 op hop)]
      exact hw.unsettled k' hk'.2 op hop

end State
end Wallet
