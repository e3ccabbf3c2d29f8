import BetProcessor.Txn.Pool
import BetProcessor.LockWaits

namespace BetProcessor
set_option autoImplicit true
open Txn

/-- Requests in one or more processes, each with a pool of clients of the database. -/
abbrev PooledRequests (ι : Type) := Pooled ι Stmt Stmt.Reply Err Db Write Key ProcessResponse

section
variable {ι π : Type} {calls : ι → Call} [Fintype ι] [DecidableEq ι] [DecidableEq π]
variable {pool : ι → π} {size : π → Nat}

theorem answered_of_returned {db₀ : Db} {ok : PoolEvent ι Stmt Err → Prop}
    {es es' : List (PoolEvent ι Stmt Err)} {s s' : PooledRequests ι}
    (hr : Pooled.Run postgres pool size ok (.start (fun i => (calls i).body) db₀) es s)
    (hr' : Pooled.Run postgres pool size (fun e => ¬ e.IsFailure) s es' s') {i : ι}
    (hi : s'.client i = .returned) : .giveUp i ∈ es ∨ ∃ r, s'.config.sess i = .done r := by
  have hall : Pooled.Run postgres pool size (fun _ => True) (.start (fun i => (calls i).body) db₀)
      (es ++ es') s' := .trans (hr.mono fun _ => trivial) (hr'.mono fun _ => trivial)
  have hstage := hall.inv.stage i
  rw [hi] at hstage
  rcases hstage with ⟨hmem, _⟩ | hdone
  · rcases List.mem_append.1 hmem with hmem | hmem
    · exact Or.inl hmem
    · exact absurd trivial (hr'.forall _ hmem)
  · exact Or.inr hdone

/-- However small the pools of the processes are, requests do not deadlock on them: a request that
has a lock has a client, when nothing but a failure can happen every request has been answered or
has given up waiting for a client, no run goes on forever, and from every state all that have not
given up can be answered. -/
theorem pooled_requests_complete (hids : ∀ i j, (calls i).account ≠ (calls j).account →
    ∀ x ∈ (calls i).request.ids, x ∉ (calls j).request.ids) (hsize : ∀ p, 1 ≤ size p) (db₀ : Db)
    {es : List (PoolEvent ι Stmt Err)} {s : PooledRequests ι}
    (hr : Pooled.Run postgres pool size (fun _ => True) (.start (fun i => (calls i).body) db₀)
      es s) :
    postgres.Run (fun _ _ => True) (.init (fun i => (calls i).body) db₀)
      (es.filterMap PoolEvent.label?) s.config ∧
    (∀ p, s.lentBy pool p ≤ size p) ∧
    (∀ i, ∀ k ∈ (s.config.sess i).held, s.client i = .lent) ∧
    ((∀ e, ¬ e.IsFailure → s.step postgres pool size e = none) →
      ∀ i, .giveUp i ∈ es ∨ ∃ r, s.config.sess i = .done r) ∧
    (¬ ∃ run : Nat → PooledRequests ι, run 0 = s ∧
      ∀ n, Pooled.OneStep postgres pool size (run (n + 1)) (run n)) ∧
    ∃ es' s', Pooled.Run postgres pool size (fun e => ¬ e.IsFailure) s es' s' ∧
      ∀ i, s'.client i = .returned ∧ (.giveUp i ∈ es ∨ ∃ r, s'.config.sess i = .done r) := by
  have horderly : (accountTerritories hids).Orderly s.config :=
    Pooled.orderly_run (P := accountDiscipline calls hids) hr
  have hinv := hr.inv
  refine ⟨hr.config, hinv.size, fun i k hk => hinv.lent_of_held hk, ?_, ?_, ?_⟩
  · intro hstuck i
    exact answered_of_returned hr .nil (hinv.returned_of_stuck horderly hsize hstuck i)
  · rintro ⟨run, _, hrun⟩
    have hwf : WellFounded (Pooled.OneStep postgres pool size :
        PooledRequests ι → PooledRequests ι → Prop) := Pooled.oneStep_wellFounded
    exact (wellFounded_iff_isEmpty_descending_chain.1 hwf).false ⟨run, hrun⟩
  · obtain ⟨es', s', hr', hback⟩ := Pooled.Run.completes (accountTerritories hids) hsize hr
    exact ⟨es', s', hr', fun i => ⟨hback i, answered_of_returned hr hr' (hback i)⟩⟩

end

/-- One client for two bets: the second one waits while the first one has the client. -/
theorem one_client_completes : ∃ es s es' s',
    Pooled.Run postgres (fun _ : Fin 2 => ()) (fun _ => 1) (fun _ => True)
      (.start (fun i => (twoBets i).body) ⟨[⟨⟨"u", "USD"⟩, 100⟩], [], [], [], []⟩) es s ∧
    s.client 1 = .waiting ∧ s.client 0 = .lent ∧
    Pooled.Run postgres (fun _ => ()) (fun _ => 1) (fun e => ¬ e.IsFailure) s es' s' ∧
    ∀ i, ∃ r, s'.config.sess i = .done r := by
  obtain ⟨s, hr, hclients⟩ : ∃ s : PooledRequests (Fin 2), Pooled.Run postgres (fun _ => ())
      (fun _ => 1) (fun _ => True) (.start (fun i => (twoBets i).body)
        ⟨[⟨⟨"u", "USD"⟩, 100⟩], [], [], [], []⟩) [.ask 0, .ask 1, .lend 0, .run (.start 0)] s ∧
      decide (s.client 1 = .waiting ∧ s.client 0 = .lent) = true :=
    Pooled.Run.exists_of_drive _ (by decide +kernel)
  obtain ⟨hwaiting, hlent⟩ := of_decide_eq_true hclients
  obtain ⟨_, _, _, _, _, es', s', hr', hdone⟩ := pooled_requests_complete
    (fun i j hij => absurd rfl hij) (fun _ => le_rfl) _ hr
  refine ⟨_, s, es', s', hr, hwaiting, hlent, hr', fun i => (hdone i).2.resolve_left (by simp)⟩

end BetProcessor
