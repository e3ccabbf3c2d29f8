import BetProcessor.ConcurrentRuns
import BetProcessor.SerialRuns

namespace BetProcessor
set_option autoImplicit true
open Txn

/-- The rollback rows that target an id. -/
def Db.reversals (db : Db) (o : Uuid) : List ActionRow :=
  db.ledger.filter fun r => r.actionType = .rollback ∧ r.originalActionId = some o

/-- The rollback moves back what its original has moved, when no service that rolls it back
rounds it. -/
def Undoes {ι : Type} (calls : ι → Call) (r o : ActionRow) : Prop :=
  (∀ i, (calls i).RollsBack o.actionId → (calls i).svc.Negates o.balanceDelta) →
    r.balanceDelta = -o.balanceDelta

theorem length_le_one_of_unique {l : List α} (hnodup : l.Nodup)
    (h : ∀ x ∈ l, ∀ y ∈ l, x = y) : l.length ≤ 1 := by
  cases l with
  | nil => exact Nat.zero_le _
  | cons x l =>
    cases l with
    | nil => exact le_refl _
    | cons y l =>
      have hxy : x = y := h x (List.mem_cons_self ..) y
        (List.mem_cons_of_mem _ (List.mem_cons_self ..))
      rw [hxy] at hnodup
      exact absurd (List.mem_cons_self ..) (List.nodup_cons.1 hnodup).1

theorem sum_filter_of_zero {l : List α} {p : α → Bool} {f : α → Int}
    (h : ∀ x ∈ l, p x = false → f x = 0) : (l.map f).sum = ((l.filter p).map f).sum := by
  induction l with
  | nil => rfl
  | cons x l ih =>
    have hrest := ih fun y hy => h y (List.mem_cons_of_mem _ hy)
    rw [List.map_cons, List.sum_cons, hrest, List.filter_cons]
    cases hx : p x with
    | false => simp [h x (List.mem_cons_self ..) hx]
    | true => simp

section
variable {ι : Type} {calls : ι → Call} {db : Db} {o r : ActionRow}

theorem mem_reversals {x : Uuid} : r ∈ db.reversals x ↔
    r ∈ db.ledger ∧ r.actionType = .rollback ∧ r.originalActionId = some x := by
  simp [Db.reversals, List.mem_filter]

theorem Db.Consistent.applied_le_one (h : db.Consistent) (x : Uuid) :
    ((db.reversals x).filter (·.status = .applied)).length ≤ 1 := by
  apply length_le_one_of_unique
  · exact ((List.Nodup.of_map _ h.ledger_nodup).filter _).filter _
  · intro r hr r' hr'
    obtain ⟨hr, hst⟩ := List.mem_filter.1 hr
    obtain ⟨hr', hst'⟩ := List.mem_filter.1 hr'
    obtain ⟨hmem, htype, ho⟩ := mem_reversals.1 hr
    obtain ⟨hmem', htype', ho'⟩ := mem_reversals.1 hr'
    have hst := of_decide_eq_true hst
    have hst' := of_decide_eq_true hst'
    exact h.reversal_unique hmem htype (by simp [hst]) ho hmem' htype' (by simp [hst']) ho'

/-- The rollbacks of a row move nothing, or what the one that is applied moves. -/
theorem Linked.reversals_sum (h : Linked (Undoes calls) db) (hcons : db.Consistent)
    (ho : o ∈ db.ledger)
    (hneg : ∀ i, (calls i).RollsBack o.actionId → (calls i).svc.Negates o.balanceDelta) :
    ((db.reversals o.actionId).map (·.balanceDelta)).sum = 0 ∨
      ((db.reversals o.actionId).map (·.balanceDelta)).sum = -o.balanceDelta := by
  have hzero : ∀ r ∈ db.reversals o.actionId, decide (r.status = .applied) = false →
      r.balanceDelta = 0 := by
    intro r hr hst
    obtain ⟨hmem, htype, _⟩ := mem_reversals.1 hr
    cases hcons.shape r hmem with
    | original htype' => exact absurd htype htype'
    | rollback _ _ _ hstatus =>
      rcases hstatus with hst' | ⟨_, _, hdelta⟩
      · exact absurd hst' (of_decide_eq_false hst)
      · exact hdelta
  have hlength := hcons.applied_le_one o.actionId
  rw [sum_filter_of_zero hzero]
  cases happlied : (db.reversals o.actionId).filter (·.status = .applied) with
  | nil => exact Or.inl rfl
  | cons r rest =>
    rw [happlied, List.length_cons] at hlength
    obtain rfl : rest = [] := List.length_eq_zero_iff.1 (by omega)
    obtain ⟨hr, hst⟩ := List.mem_filter.1 (happlied ▸ List.mem_cons_self ..)
    obtain ⟨hmem, htype, hro⟩ := mem_reversals.1 hr
    have hundo := (h.of_mem hcons hmem htype (of_decide_eq_true hst) ho hro).2 hneg
    apply Or.inr
    rw [List.map_singleton, List.sum_singleton, hundo]

theorem Linked.undoes_commit {i : ι} {past : Moment → Prop} {ws : List Write}
    {resp : ProcessResponse} (h : Linked (Undoes calls) db) (hcons : db.Consistent)
    (hp : Stable past db) (hc : Committed past (calls i) ws resp) :
    (postgres.view db ws).Consistent ∧ Linked (Undoes calls) (postgres.view db ws) := by
  apply hc.tables (P := fun _ => Linked (Undoes calls)) hp Sees.stale hcons h fun h => h
  intro pre action post V V' b b' txId heq _ _ _ hlinked hst
  apply hlinked.stepped hst
  intro r o row d haction _ _ _ hid _ _ hd hneg
  have hmem : action ∈ (calls i).actions := heq ▸ List.mem_append_right _ (List.mem_cons_self ..)
  exact Option.some.inj (hd.symm.trans (hneg i ⟨action, hmem, by rw [haction, hid]; rfl⟩))

end

/-- No original is reversed twice, in every committed state of any concurrent requests: at most
one rollback of a row is applied, and all of them together move nothing or move it back. -/
theorem reversed_once {ι : Type} [Fintype ι] [DecidableEq ι] (calls : ι → Call) {db₀ : Db}
    (h₀ : db₀.Initial) {ls : List (Label ι Stmt Err)} {c : Requests ι}
    (hr : postgres.Run (fun _ _ => True) (.init (fun i => (calls i).body) db₀) ls c)
    {o : ActionRow} (ho : o ∈ c.db.ledger) :
    ((c.db.reversals o.actionId).filter (·.status = .applied)).length ≤ 1 ∧
      ((∀ i, (calls i).RollsBack o.actionId → (calls i).svc.Negates o.balanceDelta) →
        ((c.db.reversals o.actionId).map (·.balanceDelta)).sum = 0 ∨
        ((c.db.reversals o.actionId).map (·.balanceDelta)).sum = -o.balanceDelta) := by
  have hinv : c.db.Consistent ∧ Linked (Undoes calls) c.db := by
    apply Agreement.keeping_inv (J := fun db => db.Consistent ∧ Linked (Undoes calls) db) _
      ⟨h₀.consistent, Linked.initial h₀⟩ hr
    intro i past db ws resp hJ hp hc
    exact hJ.2.undoes_commit hJ.1 hp hc
  exact ⟨hinv.1.applied_le_one o.actionId, hinv.2.reversals_sum hinv.1 ho⟩

/-- A bet of one service and its rollback by the other. -/
def betAndRollback (amount : Int) (i : Fin 2) : Call :=
  if i.val = 0 then dollars rust "a" [.bet 1 amount] else dollars typescript "a" [.rollback 2 1]

/-- A rounded reversal does not move back what the bet has moved. -/
theorem reversal_rounded : ∃ db₀ ls c o, db₀.Initial ∧
    postgres.Run (fun _ _ => True)
      (.init (fun i => (betAndRollback (2 ^ 53 + 1) i).body) db₀) ls c ∧ o ∈ c.db.ledger ∧
    ((c.db.reversals o.actionId).map (·.balanceDelta)).sum ≠ 0 ∧
    ((c.db.reversals o.actionId).map (·.balanceDelta)).sum ≠ -o.balanceDelta := by
  obtain ⟨ls, c, hr, hc⟩ := Engine.Run.exists_of_drive postgres
    (c := .init (fun i => (betAndRollback (2 ^ 53 + 1) i).body)
      ⟨[⟨⟨"a", "USD"⟩, 2 ^ 54⟩], [], [], [], []⟩)
    (List.replicate 17 0 ++ List.replicate 25 1)
    (p := fun r => decide (∃ o ∈ r.2.db.ledger,
      ((r.2.db.reversals o.actionId).map (·.balanceDelta)).sum ≠ 0 ∧
      ((r.2.db.reversals o.actionId).map (·.balanceDelta)).sum ≠ -o.balanceDelta))
    (by decide +kernel)
  obtain ⟨o, ho, hsum⟩ := of_decide_eq_true hc
  exact ⟨_, ls, c, o, ⟨by decide, by decide, rfl, rfl, rfl, rfl⟩, hr, ho, hsum⟩

theorem reversed_once_of_both : ∃ ls c,
    postgres.Run (fun _ _ => True) (.init (fun i => (betAndRollback 60 i).body) twoUsers) ls c ∧
    ∃ o ∈ c.db.ledger, ((c.db.reversals o.actionId).filter (·.status = .applied)).length ≤ 1 ∧
      (((c.db.reversals o.actionId).map (·.balanceDelta)).sum = 0 ∨
        ((c.db.reversals o.actionId).map (·.balanceDelta)).sum = 60) := by
  obtain ⟨ls, c, hr, hc⟩ := Engine.Run.exists_of_drive postgres
    (c := .init (fun i => (betAndRollback 60 i).body) twoUsers)
    (List.replicate 17 0 ++ List.replicate 25 1)
    (p := fun r => decide (∃ o ∈ r.2.db.ledger, o.balanceDelta = -60)) (by decide +kernel)
  obtain ⟨o, ho, hdelta⟩ := of_decide_eq_true hc
  obtain ⟨hone, hsum⟩ := reversed_once (betAndRollback 60) twoUsers_initial hr ho
  have hneg : ∀ i, (betAndRollback 60 i).RollsBack o.actionId →
      (betAndRollback 60 i).svc.Negates o.balanceDelta := by
    intro i _
    rw [hdelta]
    exact Service.negates_small _ (by decide)
  refine ⟨ls, c, hr, o, ho, hone, ?_⟩
  rw [hdelta] at hsum
  exact hsum (hdelta ▸ hneg)

end BetProcessor
