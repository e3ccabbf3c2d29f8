import BetProcessor.Wallets
import BetProcessor.LockWaits

namespace BetProcessor
set_option autoImplicit true
open Txn

section
variable {ι : Type} {calls : ι → Call} [Fintype ι] [DecidableEq ι]

/-- A request that starts a statement after another one has ended ends after it. -/
theorem ended_before_start {P : Discipline postgres ι ProcessResponse} {db₀ : Db}
    {ls : List (Label ι Stmt Err)} {c : Requests ι}
    (hr : postgres.Run (fun _ _ => True) (.init P.progs db₀) ls c) {i j : ι}
    {l : Label ι Stmt Err} (hl : l.ended? = some i) (hsub : [l, Label.start j].Sublist ls)
    (hj : j ∈ ended ls) : [i, j].Sublist (ended ls) := by
  obtain ⟨l₁, l₂, rfl, h₁, h₂⟩ := List.cons_sublist_iff.1 hsub
  obtain ⟨l₂, l₃, rfl⟩ := List.append_of_mem (List.singleton_sublist.1 h₂)
  rw [show l₁ ++ (l₂ ++ Label.start j :: l₃) = l₁ ++ l₂ ++ (Label.start j :: l₃) by simp] at hr hj ⊢
  obtain ⟨c₁, hr₁, hr₂⟩ := hr.split postgres
  rw [show Label.start j :: l₃ = [Label.start j] ++ l₃ from rfl] at hr₂
  obtain ⟨c₂, hstart, _⟩ := hr₂.split postgres
  have hfirst : i ∈ ended (l₁ ++ l₂) := by
    rw [ended, List.mem_filterMap]
    exact ⟨l, List.mem_append_left _ h₁, hl⟩
  have hlater : j ∉ ended (l₁ ++ l₂) := by
    intro hmem
    cases hstart.single postgres with
    | start hactive => exact (Discipline.replayed hr₁).not_ended hactive hmem
  rw [ended, List.filterMap_append] at hj ⊢
  exact (List.singleton_sublist.2 hfirst).append
    (List.singleton_sublist.2 ((List.mem_append.1 hj).resolve_left hlater))

/-- The money and the answers are those of the requests in the order in which they ended. -/
theorem ended_wallet (hids : ∀ i j, (calls i).account ≠ (calls j).account →
    ∀ x ∈ (calls i).request.ids, x ∉ (calls j).request.ids) {db₀ : Db} (h₀ : db₀.Solvent)
    (hexact : ∀ order : List ι, order.Nodup → ExactRun db₀.wallet (order.map calls))
    {ls : List (Label ι Stmt Err)} {c : Requests ι}
    (hr : postgres.Run (fun _ _ => True) (.init (fun i => (calls i).body) db₀) ls c) :
    c.db.wallet = walletAfter db₀.wallet ((ended ls).map calls) ∧
      ∀ pre i post, ended ls = pre ++ i :: post →
        c.sess i = .done ((calls i).answer (walletAfter db₀.wallet (pre.map calls))).1 := by
  have hrep := Discipline.replayed (P := accountDiscipline calls hids) hr
  have hserial : ∀ order, (accountDiscipline calls hids).serial order db₀ =
      db₀.after (order.map calls) := by
    intro order
    rw [Db.after, List.foldl_map]
    rfl
  have hrun := hexact _ hrep.nodup
  constructor
  · rw [hrep.db, hserial]
    exact Db.wallet_after h₀ hrun
  · intro pre i post heq
    rw [hrep.result pre i post heq, hserial]
    rw [heq, List.map_append, List.map_cons] at hrun
    exact congrArg Session.done (Db.serve_answer h₀ hrun)

/-- Concurrent requests are linearizable: in every state of every run the committed money and the
answers so far are those of the wallet when it serves the requests that have ended by themselves one
after the other, in the order in which they ended, which respects real time. -/
theorem requests_linearizable (hids : ∀ i j, (calls i).account ≠ (calls j).account →
    ∀ x ∈ (calls i).request.ids, x ∉ (calls j).request.ids) {db₀ : Db} (h₀ : db₀.Solvent)
    (hexact : ∀ order : List ι, order.Nodup → ExactRun db₀.wallet (order.map calls))
    {ls : List (Label ι Stmt Err)} {c : Requests ι}
    (hr : postgres.Run (fun _ _ => True) (.init (fun i => (calls i).body) db₀) ls c) :
    ∃ order : List ι, order.Nodup ∧
      (∀ i r, c.sess i = .done r → i ∈ order ∨ ∃ e, Label.abort i e ∈ ls) ∧
      (∀ i e, Label.abort i e ∈ ls → i ∉ order) ∧
      c.db.wallet = walletAfter db₀.wallet (order.map calls) ∧
      (∀ pre i post, order = pre ++ i :: post →
        c.sess i = .done ((calls i).answer (walletAfter db₀.wallet (pre.map calls))).1) ∧
      ∀ i j l, l.ended? = some i → [l, Label.start j].Sublist ls → j ∈ order →
        [i, j].Sublist order := by
  have hrep := Discipline.replayed (P := accountDiscipline calls hids) hr
  obtain ⟨hmoney, hresult⟩ := ended_wallet hids h₀ hexact hr
  refine ⟨ended ls, hrep.nodup, hrep.done, fun i e h => (hrep.aborted i e h).1, hmoney, hresult, ?_⟩
  intro i j l hl hsub hj
  exact ended_before_start (P := accountDiscipline calls hids) hr hl hsub hj

end

theorem two_bets_linearizable : ∃ ls c, ∃ order : List (Fin 2),
    postgres.Run (fun _ _ => True) (.init (fun i => (twoBets i).body)
      ⟨[⟨⟨"u", "USD"⟩, 100⟩], [], [], [], []⟩) ls c ∧ order.Nodup ∧
    c.db.wallet = walletAfter (Db.wallet ⟨[⟨⟨"u", "USD"⟩, 100⟩], [], [], [], []⟩)
      (order.map twoBets) := by
  obtain ⟨ls, c, hr, _⟩ := Engine.Run.exists_of_drive postgres
    (c := .init (fun i => (twoBets i).body) ⟨[⟨⟨"u", "USD"⟩, 100⟩], [], [], [], []⟩)
    ([0, 0, 1, 1, 0, 0, 1] ++ List.replicate 13 0 ++ List.replicate 6 1)
    (p := fun _ => true) (by decide +kernel)
  have hone : ∀ i w, w.Within (2 ^ 53) ⟨"u", "USD"⟩ plainDraws.txId
      ((twoBets i).actions.map ProcessAction.op) → (twoBets i).Exactly w := by
    intro i w hwithin
    refine ⟨Or.inl (Or.inl rfl), ?_, 2 ^ 53, Service.exactTo_small _, hwithin⟩
    simp [Call.actions, twoBets, ProcessAction.Accepted]
  have hexact : ∀ order : List (Fin 2), order.Nodup →
      ExactRun (Db.wallet ⟨[⟨⟨"u", "USD"⟩, 100⟩], [], [], [], []⟩) (order.map twoBets) := by
    intro order hnodup
    rcases order with _ | ⟨i, _ | ⟨j, _ | ⟨k, rest⟩⟩⟩
    · trivial
    · exact ⟨hone i _ (by clear hnodup; revert i; decide +kernel), trivial⟩
    · refine ⟨hone i _ ?_, hone j _ ?_, trivial⟩
      · clear hnodup
        revert i
        decide +kernel
      · clear hnodup
        revert i j
        decide +kernel
    · exact absurd hnodup.length_le_card (by simp)
  have h₀ : Db.Solvent ⟨[⟨⟨"u", "USD"⟩, 100⟩], [], [], [], []⟩ :=
    Db.Initial.solvent ⟨by decide, by decide, rfl, rfl, rfl, rfl⟩
  obtain ⟨order, hnodup, _, _, hmoney, _⟩ := @requests_linearizable _ twoBets _ _
    (fun _ _ hij => absurd rfl hij) _ h₀ hexact _ _ hr
  exact ⟨ls, c, order, hr, hnodup, hmoney⟩

end BetProcessor
