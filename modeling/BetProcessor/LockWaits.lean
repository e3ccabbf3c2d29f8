import BetProcessor.Txn.Progress
import BetProcessor.Serializable
import BetProcessor.ConcurrentRuns
import BetProcessor.SerialRuns

namespace BetProcessor
set_option autoImplicit true
open Txn

/-- A lock of the account row or of rows and keys under the ids. -/
def Key.Within (a : Account) (X : List Uuid) : Key → Prop
  | .account b => b = a
  | .registry x | .action x | .intent x | .intentBy x => x ∈ X

theorem Stmt.locks_within {a : Account} {X : List Uuid} {s : Stmt} {snap cur : Db}
    (h : s.Within a X) : ∀ k ∈ s.locks snap cur, k.Within a X := by
  intro k hk
  cases s with
  | insertAccount b =>
    rw [locks] at hk
    split at hk
    · cases hk
    · rw [List.mem_singleton.1 hk]
      exact h
  | selectAccountForUpdate b =>
    rw [locks] at hk
    split at hk
    · rw [List.mem_singleton.1 hk]
      exact h
    · cases hk
  | claim input =>
    rw [locks] at hk
    split at hk
    · cases hk
    · rw [List.mem_singleton.1 hk]
      exact h
  | selectActionForUpdate x =>
    rw [locks] at hk
    split at hk
    · rw [List.mem_singleton.1 hk]
      exact h
    · cases hk
  | insertIntent row =>
    rw [locks] at hk
    split at hk
    · cases hk
    · rcases List.mem_cons.1 hk with rfl | hk
      · exact h.1
      · rw [List.mem_singleton.1 hk]
        exact h.2
  | updateRolledBack x t r now =>
    rw [locks] at hk
    split at hk
    · rw [List.mem_singleton.1 hk]
      exact h
    · cases hk
  | updateBalance b v =>
    rw [locks] at hk
    split at hk
    · rw [List.mem_singleton.1 hk]
      exact h
    · cases hk
  | selectIntent | ensureActionsMonthPartition | insertAction | insertOutbox => cases hk

section
variable {svc : Service} {draws : Draws} {request : ProcessRequest}

theorem Waiting.locks {s : Stmt} {k : s.Reply → Tx ProcessResponse} {snap cur : Db}
    (h : Waiting svc draws request (.exec s k) snap) :
    ∀ l ∈ s.locks snap cur, l = .account request.account := by
  generalize hp : Prog.exec s k = p at h
  intro l hl
  cases h with
  | insert =>
    rw [processAggregatorRequest_insert] at hp
    cases hp
    rw [Stmt.locks] at hl
    split at hl
    · cases hl
    · exact List.mem_singleton.1 hl
  | select hsome =>
    cases hp
    rw [Stmt.locks, if_pos hsome] at hl
    exact List.mem_singleton.1 hl

end

section
variable {ι : Type} {calls : ι → Call}

/-- Requests on different accounts have no lock in common. -/
def accountTerritories (hids : ∀ i j, (calls i).account ≠ (calls j).account →
    ∀ x ∈ (calls i).request.ids, x ∉ (calls j).request.ids) :
    (accountDiscipline calls hids).Territories where
  owns i := Key.Within (calls i).account (calls i).request.ids
  owned := by
    intro i j k hi hj
    have hshared : ∀ x ∈ (calls i).request.ids, x ∈ (calls j).request.ids →
        Key.account (calls i).account = .account (calls j).account := by
      intro x hx hx'
      by_contra hne
      exact hids i j (fun h => hne (congrArg Key.account h)) x hx hx'
    cases k with
    | account a => exact congrArg Key.account (hi.symm.trans hj)
    | registry x => exact hshared x hi hj
    | action x => exact hshared x hi hj
    | intent x => exact hshared x hi hj
    | intentBy x => exact hshared x hi hj
  own_lock _ := rfl
  locks h := Stmt.locks_within h
  waiting h _ := h.locks

variable [Fintype ι] [DecidableEq ι]

/-- Concurrent requests never deadlock: a request waits only for the one that holds its account
row, which does not wait; a run that cannot go on has answered every request; no run goes on
forever; and from every state all requests can be answered without an abort. -/
theorem requests_complete (hids : ∀ i j, (calls i).account ≠ (calls j).account →
    ∀ x ∈ (calls i).request.ids, x ∉ (calls j).request.ids) (db₀ : Db)
    {ls : List (Label ι Stmt Err)} {c : Requests ι}
    (hr : postgres.Run (fun _ _ => True) (.init (fun i => (calls i).body) db₀) ls c) :
    (∀ i, postgres.Blocked c i → ∃ j, (calls j).account = (calls i).account ∧
      Key.account (calls i).account ∈ (c.sess j).held ∧ ¬ postgres.Blocked c j) ∧
    ((∀ l, ¬ l.IsAbort → postgres.step c l = none) → ∀ i, ∃ r, c.sess i = .done r) ∧
    (¬ ∃ run : Nat → Requests ι, run 0 = c ∧ ∀ n, postgres.OneStep (run (n + 1)) (run n)) ∧
    ∃ ls' c', postgres.Run (fun _ l => ¬ l.IsAbort) c ls' c' ∧
      ∀ i, ∃ r, c'.sess i = .done r := by
  have horderly : (accountTerritories hids).Orderly c :=
    Discipline.Territories.orderly_run (P := accountDiscipline calls hids) hr
  refine ⟨?_, horderly.ended_of_stuck, ?_, horderly.completes⟩
  · intro i hi
    obtain ⟨j, _, hlock, hheld⟩ := horderly.holder hi
    refine ⟨j, Key.account.inj hlock, hheld, ?_⟩
    apply horderly.not_blocked
    rw [hlock]
    exact hheld
  · rintro ⟨run, _, hrun⟩
    exact (wellFounded_iff_isEmpty_descending_chain.1 postgres.oneStep_wellFounded).false
      ⟨run, hrun⟩

end

theorem two_bets_complete : ∃ ls c ls' c',
    postgres.Run (fun _ _ => True) (.init (fun i => (twoBets i).body)
      ⟨[⟨⟨"u", "USD"⟩, 100⟩], [], [], [], []⟩) ls c ∧ (c.sess 1).snapshot?.isSome ∧
    postgres.Run (fun _ l => ¬ l.IsAbort) c ls' c' ∧ ∀ i, ∃ r, c'.sess i = .done r := by
  obtain ⟨ls, c, hr, hstarted⟩ := Engine.Run.exists_of_drive postgres
    (c := .init (fun i => (twoBets i).body) ⟨[⟨⟨"u", "USD"⟩, 100⟩], [], [], [], []⟩)
    [0, 0, 0, 0, 1, 1, 1] (p := fun r => (r.2.sess 1).snapshot?.isSome) (by decide +kernel)
  obtain ⟨ls', c', hr', hdone⟩ := (requests_complete (fun i j hij => absurd rfl hij) _ hr).2.2.2
  exact ⟨ls, c, ls', c', hr, hstarted, hr', hdone⟩

/-- Two accounts whose requests claim the same ids in opposite orders. -/
def crossedClaims (i : Fin 2) : Call :=
  dollars typescript (if i = 0 then "a" else "b")
    (if i = 0 then [.bet 1 5, .bet 2 5] else [.win 2 5, .win 1 5])

/-- Each of them waits for the id that the other one has claimed. -/
example : (postgres.drive (.init (fun i => (crossedClaims i).body) twoUsers)
    (List.replicate 15 0 ++ List.replicate 15 1)).any (fun r => decide (∀ i : Fin 2,
      (Engine.next r.2 i).any fun l => (postgres.step r.2 l).isNone)) = true := by
  decide +kernel

end BetProcessor
