import BetProcessor.Sql.Grouping
import BetProcessor.Wallet.Funds
import BetProcessor.Seed
import BetProcessor.Linearizable
import BetProcessor.RunnerReports

namespace BetProcessor
set_option autoImplicit true
open Txn

namespace Call

def ops (c : Call) : List (Wallet.Op Uuid Int) := c.actions.map ProcessAction.op

/-- What a call may take from its account. -/
def stakes (c : Call) : Int := Wallet.stakes c.ops

/-- What a call may bring to its account. -/
def gains (c : Call) : Int := Wallet.gains c.ops

theorem stakes_nonneg (c : Call) : 0 ≤ c.stakes := Wallet.State.stakes_nonneg _

theorem gains_nonneg (c : Call) : 0 ≤ c.gains := Wallet.State.gains_nonneg _

end Call

/-- Bets and wins only, for which the accounts have the stakes of all of them, and which cannot take
a balance above `N`. -/
structure Funded (N : Int) (w : AccountWallet) (calls : List Call) : Prop where
  moves : ∀ c ∈ calls, ∀ op ∈ c.ops, op.IsMove
  funds : ∀ c ∈ calls, Sql.sumAt Call.account calls Call.stakes c.account ≤ w.balance c.account
  small : ∀ c ∈ calls,
    w.balance c.account + Sql.sumAt Call.account calls Call.gains c.account ≤ N

section
variable {N : Int} {w : AccountWallet} {c : Call} {calls : List Call}

theorem sumAt_nonneg (calls : List Call) {f : Call → Int} (hf : ∀ c, 0 ≤ f c) (a : Account) :
    0 ≤ Sql.sumAt Call.account calls f a := by
  apply List.sum_nonneg
  intro x hx
  obtain ⟨c, _, rfl⟩ := List.mem_map.1 hx
  exact hf c

theorem Funded.first (h : Funded N w (c :: calls)) :
    c.stakes ≤ w.balance c.account ∧ w.balance c.account + c.gains ≤ N := by
  have hfunds := h.funds c (List.mem_cons_self ..)
  have hsmall := h.small c (List.mem_cons_self ..)
  have hstakes := sumAt_nonneg calls Call.stakes_nonneg c.account
  have hgains := sumAt_nonneg calls Call.gains_nonneg c.account
  rw [Sql.sumAt_cons, if_pos rfl] at hfunds hsmall
  constructor
  · linarith
  · linarith

theorem Funded.next (h : Funded N w (c :: calls)) :
    (∃ resp, (c.answer w).1 = .ok resp) ∧ Funded N (c.answer w).2 calls := by
  obtain ⟨r, hserve, hlow, hhigh⟩ := Wallet.State.serve_funded
    (h.moves c (List.mem_cons_self ..)) h.first.1
  have hanswer : (c.answer w).2 = r.2 := by
    rw [Call.answer, show c.actions.map ProcessAction.op = c.ops from rfl, hserve]
  refine ⟨⟨_, by rw [Call.answer, show c.actions.map ProcessAction.op = c.ops from rfl, hserve]⟩,
    fun c' hc' => h.moves c' (List.mem_cons_of_mem _ hc'), ?_, ?_⟩
  · intro c' hc'
    have hfunds := h.funds c' (List.mem_cons_of_mem _ hc')
    rw [Sql.sumAt_cons] at hfunds
    rw [hanswer]
    by_cases heq : c.account = c'.account
    · rw [if_pos heq, ← heq] at hfunds
      rw [← heq]
      change _ - c.stakes ≤ _ at hlow
      linarith
    · rw [if_neg heq, zero_add] at hfunds
      rwa [Wallet.State.serve_balance_other hserve (Ne.symm heq)]
  · intro c' hc'
    have hsmall := h.small c' (List.mem_cons_of_mem _ hc')
    rw [Sql.sumAt_cons] at hsmall
    rw [hanswer]
    by_cases heq : c.account = c'.account
    · rw [if_pos heq, ← heq] at hsmall
      rw [← heq]
      change _ ≤ _ + c.gains at hhigh
      linarith
    · rw [if_neg heq, zero_add] at hsmall
      rwa [Wallet.State.serve_balance_other hserve (Ne.symm heq)]

theorem Funded.exactRun (h : Funded N w calls) (hruns : ∀ c ∈ calls, c.svc.Runs)
    (hexact : ∀ c ∈ calls, c.svc.ExactTo N)
    (haccepted : ∀ c ∈ calls, ∀ action ∈ c.actions, action.Accepted) : ExactRun w calls := by
  induction calls generalizing w with
  | nil => trivial
  | cons c calls ih =>
    have hself : c ∈ c :: calls := List.mem_cons_self ..
    refine ⟨⟨hruns c hself, haccepted c hself, N, hexact c hself, ?_⟩, ?_⟩
    · exact Wallet.State.within_funded (h.moves c hself) h.first.1 h.first.2
    · exact ih h.next.2 (fun c' hc' => hruns c' (List.mem_cons_of_mem _ hc'))
        (fun c' hc' => hexact c' (List.mem_cons_of_mem _ hc'))
        fun c' hc' => haccepted c' (List.mem_cons_of_mem _ hc')

theorem Funded.answered {pre post : List Call} (h : Funded N w (pre ++ c :: post)) :
    ∃ resp, (c.answer (walletAfter w pre)).1 = .ok resp := by
  induction pre generalizing w with
  | nil => exact h.next.1
  | cons c' pre ih => exact ih h.next.2

end

section
variable {ι : Type} {calls : ι → Call} [Fintype ι] [DecidableEq ι]

theorem sumAt_order_le (calls : ι → Call) {f : Call → Int} (hf : ∀ c, 0 ≤ f c) {order : List ι}
    (horder : order.Nodup) (a : Account) :
    Sql.sumAt Call.account (order.map calls) f a ≤ ∑ i with (calls i).account = a, f (calls i) := by
  rw [Sql.sumAt, List.filter_map, List.map_map, ← List.sum_toFinset _ (horder.filter _)]
  apply Finset.sum_le_sum_of_subset_of_nonneg
  · intro i hi
    rw [List.mem_toFinset, List.mem_filter] at hi
    exact Finset.mem_filter.2 ⟨Finset.mem_univ i, of_decide_eq_true hi.2⟩
  · exact fun i _ _ => hf (calls i)

/-- Accounts with the stakes of all calls can pay them in any order. -/
theorem Funded.of_order {N : Int} {w : AccountWallet}
    (hmoves : ∀ i, ∀ op ∈ (calls i).ops, op.IsMove)
    (hfunds : ∀ i, ∑ j with (calls j).account = (calls i).account, (calls j).stakes ≤
      w.balance (calls i).account)
    (hsmall : ∀ i, w.balance (calls i).account +
      ∑ j with (calls j).account = (calls i).account, (calls j).gains ≤ N)
    {order : List ι} (horder : order.Nodup) : Funded N w (order.map calls) where
  moves := by
    rintro _ hc
    obtain ⟨i, _, rfl⟩ := List.mem_map.1 hc
    exact hmoves i
  funds := by
    rintro _ hc
    obtain ⟨i, _, rfl⟩ := List.mem_map.1 hc
    exact (sumAt_order_le calls Call.stakes_nonneg horder _).trans (hfunds i)
  small := by
    rintro _ hc
    obtain ⟨i, _, rfl⟩ := List.mem_map.1 hc
    have hle := sumAt_order_le calls Call.gains_nonneg horder (calls i).account
    have hN := hsmall i
    linarith

/-- Funded calls to services that compute exactly are answered, whatever runs beside them. -/
theorem funded_answered (hids : ∀ i j, (calls i).account ≠ (calls j).account →
    ∀ x ∈ (calls i).request.ids, x ∉ (calls j).request.ids) {N : Int}
    (hruns : ∀ i, (calls i).svc.Runs) (hexact : ∀ i, (calls i).svc.ExactTo N)
    (haccepted : ∀ i, ∀ action ∈ (calls i).actions, action.Accepted) {db₀ : Db}
    (h₀ : db₀.Solvent)
    (hfunded : ∀ order : List ι, order.Nodup → Funded N db₀.wallet (order.map calls))
    {ls : List (Label ι Stmt Err)} {c : Requests ι}
    (hr : postgres.Run (fun _ _ => True) (.init (fun i => (calls i).body) db₀) ls c) {i : ι}
    {r : Except Err ProcessResponse} (hi : c.sess i = .done r) :
    (∃ resp, r = .ok resp) ∨ ∃ e, Label.abort i e ∈ ls := by
  have hall : ∀ order : List ι, order.Nodup → ExactRun db₀.wallet (order.map calls) := by
    intro order horder
    apply (hfunded order horder).exactRun
    · rintro _ hc
      obtain ⟨i, _, rfl⟩ := List.mem_map.1 hc
      exact hruns i
    · rintro _ hc
      obtain ⟨i, _, rfl⟩ := List.mem_map.1 hc
      exact hexact i
    · rintro _ hc
      obtain ⟨i, _, rfl⟩ := List.mem_map.1 hc
      exact haccepted i
  have hrep := Discipline.replayed (P := accountDiscipline calls hids) hr
  rcases hrep.done i r hi with hmem | habort
  · obtain ⟨pre, post, heq⟩ := List.append_of_mem hmem
    have hfunds := hfunded _ hrep.nodup
    rw [heq, List.map_append, List.map_cons] at hfunds
    have hresult := (ended_wallet hids h₀ hall hr).2 pre i post heq
    rw [hi] at hresult
    obtain ⟨resp, hresp⟩ := hfunds.answered
    exact Or.inl ⟨resp, (Session.done.inj hresult).trans hresp⟩
  · exact Or.inr habort

end

namespace Runner
variable {runner : Runner} {ids : Nat → Uuid × Uuid} {c : Call} {n : Nat}

theorem round_ops (hc : c.request = runner.round ids n) :
    c.ops = .move (ids n).1 (-runner.betAmount) ::
      if runner.won (runner.seedAt n) then [.move (ids n).2 runner.winPayout] else [] := by
  rw [Call.ops, Call.actions, hc, round, body, Option.getD_some, actions, List.map_cons]
  split <;> rfl

theorem round_moves (hc : c.request = runner.round ids n) : ∀ op ∈ c.ops, op.IsMove := by
  rw [round_ops hc]
  intro op hop
  rcases List.mem_cons.1 hop with rfl | hop
  · trivial
  · split at hop
    · rw [List.mem_singleton.1 hop]
      trivial
    · cases hop

theorem round_stakes (hbet : 0 < runner.betAmount) (hwin : 0 < runner.winPayout)
    (hc : c.request = runner.round ids n) : c.stakes = runner.betAmount := by
  rw [Call.stakes, round_ops hc]
  split
  · simp [Wallet.stakes, Wallet.Op.stake, Wallet.Op.amount, hbet.le, hwin.le]
  · simp [Wallet.stakes, Wallet.Op.stake, Wallet.Op.amount, hbet.le]

theorem round_gains (hbet : 0 < runner.betAmount) (hwin : 0 < runner.winPayout)
    (hc : c.request = runner.round ids n) : c.gains ≤ runner.winPayout := by
  rw [Call.gains, round_ops hc]
  split
  · simp [Wallet.gains, Wallet.Op.gain, Wallet.Op.amount, hbet.le, hwin.le]
  · simp [Wallet.gains, Wallet.Op.gain, Wallet.Op.amount, hbet.le, hwin.le]

theorem round_accepted (hbet : 0 < runner.betAmount) (hwin : 0 < runner.winPayout)
    (hc : c.request = runner.round ids n) : ∀ action ∈ c.actions, action.Accepted := by
  intro action haction
  rw [Call.actions, hc] at haction
  rcases runner.mem_actions haction with rfl | rfl
  · exact hbet
  · exact hwin

theorem round_account (hc : c.request = runner.round ids n) :
    c.account = ⟨"runner-user-" ++ toString (runner.user (runner.seedAt n)), runner.currency⟩ := by
  rw [Call.account, hc]
  rfl

end Runner

section
variable {seed : Seed} {runner : Runner} {ids : Nat → Uuid × Uuid}

theorem sum_rounds_le {n : Nat} {f : Fin n → Int} {bound : Int} (hbound : 0 ≤ bound)
    (hf : ∀ k, f k ≤ bound) (p : Fin n → Prop) [DecidablePred p] :
    ∑ k with p k, f k ≤ n * bound := by
  refine (Finset.sum_le_card_nsmul _ f bound fun k _ => hf k).trans ?_
  rw [nsmul_eq_mul]
  apply mul_le_mul_of_nonneg_right _ hbound
  have hcard := Finset.card_filter_le (Finset.univ : Finset (Fin n)) p
  rw [Finset.card_univ, Fintype.card_fin] at hcard
  exact_mod_cast hcard

theorem seeded_initial {accounts seeded : List AccountRow}
    (hkeys : (accounts.map (·.account)).Nodup) (hbalance : ∀ row ∈ accounts, 0 ≤ row.balance)
    (hseed : seed.main accounts = (.ok (), seeded)) :
    Db.Initial ⟨seeded, [], [], [], []⟩ ∧
      ∀ n < seed.users, Db.balance ⟨seeded, [], [], [], []⟩ (seed.user n) =
        seed.boundBalance := by
  obtain ⟨hfits, rfl⟩ := Seed.main_eq_ok hseed
  refine ⟨⟨Sql.upsertAll_nodup hkeys, ?_, rfl, rfl, rfl, rfl⟩, ?_⟩
  · intro row hrow
    rcases Sql.mem_upsertAll hrow with hrow | hrow
    · rcases List.mem_append.1 hrow with hrow | hrow
      · obtain ⟨n, hn, rfl⟩ := List.mem_map.1 hrow
        rcases hfits with hzero | hfits
        · rw [hzero] at hn
          cases hn
        · exact hfits.1
      · rw [List.mem_singleton.1 hrow]
        decide
    · exact hbalance row hrow
  · intro n hn
    rw [Db.balance, Db.account?, Seed.find?_user hn]
    rfl

/-- Accounts that can pay all bets can pay them in any order of the rounds. -/
theorem rounds_funded (hbet : 0 < runner.betAmount) (hwin : 0 < runner.winPayout)
    {calls : Fin runner.rounds → Call} (hcalls : ∀ k, (calls k).request = runner.round ids k)
    {db : Db} {balance : Int} (haccount : ∀ k, db.balance (calls k).account = balance)
    (hstakes : runner.rounds * runner.betAmount ≤ balance)
    (hgains : balance + runner.rounds * runner.winPayout ≤ 2 ^ 53)
    {order : List (Fin runner.rounds)} (horder : order.Nodup) :
    Funded (2 ^ 53) db.wallet (order.map calls) := by
  apply Funded.of_order (fun k => Runner.round_moves (hcalls k)) _ _ horder
  · intro k
    change _ ≤ db.balance _
    rw [haccount]
    refine le_trans (sum_rounds_le hbet.le (fun k => ?_) _) hstakes
    exact (Runner.round_stakes hbet hwin (hcalls k)).le
  · intro k
    change db.balance _ + _ ≤ _
    rw [haccount]
    have hle : ∑ j with (calls j).account = (calls k).account, (calls j).gains ≤
        runner.rounds * runner.winPayout :=
      sum_rounds_le hwin.le (fun j => Runner.round_gains hbet hwin (hcalls j)) _
    linarith

/-- After the seed script no round of the runner is refused, however the requests interleave and
whichever service takes them: a round that has ended without an abort by the database has been
answered, and from every state all rounds can be. -/
theorem seeded_rounds_answered (hcurrency : runner.currency = seed.currency)
    (hpos : 0 < runner.users) (husers : runner.users ≤ seed.users) (hdraws : runner.users ≤ 2 ^ 21)
    (hbet : 0 < runner.betAmount) (hwin : 0 < runner.winPayout)
    (hstakes : runner.rounds * runner.betAmount ≤ seed.balance)
    (hgains : seed.balance + runner.rounds * runner.winPayout ≤ 2 ^ 53)
    (hids : Runner.DistinctIds ids) {accounts seeded : List AccountRow}
    (hkeys : (accounts.map (·.account)).Nodup) (hbalance : ∀ row ∈ accounts, 0 ≤ row.balance)
    (hseed : seed.main accounts = (.ok (), seeded)) {calls : Fin runner.rounds → Call}
    (hsvc : ∀ k, (calls k).svc.Deployed) (hcalls : ∀ k, (calls k).request = runner.round ids k)
    {ls : List (Label (Fin runner.rounds) Stmt Err)} {c : Requests (Fin runner.rounds)}
    (hr : postgres.Run (fun _ _ => True)
      (.init (fun k => (calls k).body) ⟨seeded, [], [], [], []⟩) ls c) :
    (∀ k r, c.sess k = .done r → (∃ resp, r = .ok resp) ∨ ∃ e, Label.abort k e ∈ ls) ∧
    ∃ ls' c', postgres.Run (fun _ l => ¬ l.IsAbort) c ls' c' ∧
      ∀ k, (∃ resp, c'.sess k = .done (.ok resp)) ∨ ∃ e, Label.abort k e ∈ ls := by
  obtain ⟨h₀, hbalances⟩ := seeded_initial hkeys hbalance hseed
  have hbound : seed.boundBalance = seed.balance := by
    have hlow : 0 ≤ runner.rounds * runner.betAmount := mul_nonneg (Int.natCast_nonneg _) hbet.le
    have hwon : 0 ≤ runner.rounds * runner.winPayout := mul_nonneg (Int.natCast_nonneg _) hwin.le
    apply Seed.boundBalance_small
    rw [abs_of_nonneg (hlow.trans hstakes)]
    linarith
  have hsmall : 0 < runner.rounds → |runner.betAmount| ≤ 2 ^ 53 ∧ |runner.winPayout| ≤ 2 ^ 53 := by
    intro hrounds
    have hone : (1 : Int) ≤ runner.rounds := by exact_mod_cast hrounds
    rw [abs_of_pos hbet, abs_of_pos hwin]
    constructor
    · nlinarith
    · nlinarith
  have hplays : ∀ k, ∀ action ∈ (calls k).actions, action.IsPlay := by
    intro k
    obtain ⟨hbet', hwin'⟩ := hsmall k.pos
    exact Runner.rounds_isPlay hcalls hbet' hwin' k
  have hnoIds := plays_ids hplays (Runner.rounds_apart hcalls hids)
  have haccount : ∀ k, Db.balance ⟨seeded, [], [], [], []⟩ (calls k).account = seed.balance := by
    intro k
    rw [Runner.round_account (hcalls k), hcurrency]
    exact (hbalances _ ((runner.user_lt hpos hdraws _).trans_le husers)).trans hbound
  have hfunded : ∀ order : List (Fin runner.rounds), order.Nodup →
      Funded (2 ^ 53) (Db.wallet ⟨seeded, [], [], [], []⟩) (order.map calls) := fun order horder =>
    rounds_funded hbet hwin hcalls haccount hstakes hgains horder
  have hended : ∀ {ls c}, postgres.Run (fun _ _ => True)
      (.init (fun k => (calls k).body) ⟨seeded, [], [], [], []⟩) ls c → ∀ k r, c.sess k = .done r →
      (∃ resp, r = .ok resp) ∨ ∃ e, Label.abort k e ∈ ls := by
    intro ls c hr k r hk
    exact funded_answered hnoIds (fun k => Or.inl (hsvc k)) (fun _ => Service.exactTo_small _)
      (fun k => Runner.round_accepted hbet hwin (hcalls k)) h₀.solvent hfunded hr hk
  refine ⟨hended hr, ?_⟩
  have horderly : (accountTerritories hnoIds).Orderly c :=
    Discipline.Territories.orderly_run (P := accountDiscipline calls hnoIds) hr
  obtain ⟨ls', c', hr', hdone⟩ := horderly.completes
  refine ⟨ls', c', hr', fun k => ?_⟩
  obtain ⟨r, hk⟩ := hdone k
  have hall := hr.trans postgres (hr'.mono postgres fun _ => trivial)
  rcases hended hall k r hk with ⟨resp, rfl⟩ | ⟨e, he⟩
  · exact Or.inl ⟨resp, hk⟩
  · rcases List.mem_append.1 he with he | he
    · exact Or.inr ⟨e, he⟩
    · exact absurd trivial (hr'.labels postgres _ he)

end
/-- Two rounds of one user, of which the second one starts before the first one has ended. -/
theorem oneSeeded_answered : ∃ seeded ls c ls' c',
    Seed.main ⟨1, 1000, "USD"⟩ [] = (.ok (), seeded) ∧
    postgres.Run (fun _ _ => True)
      (.init (fun k => (twoRoundCalls k).body) ⟨seeded, [], [], [], []⟩) ls c ∧
    (c.sess ⟨1, by decide⟩).snapshot?.isSome ∧
    postgres.Run (fun _ l => ¬ l.IsAbort) c ls' c' ∧
    ∀ k, ∃ resp, c'.sess k = .done (.ok resp) := by
  have hseed : Seed.main ⟨1, 1000, "USD"⟩ [] = _ := Seed.main_ok (Or.inr (by decide))
  let k₀ : Fin twoRounds.rounds := ⟨0, by decide⟩
  let k₁ : Fin twoRounds.rounds := ⟨1, by decide⟩
  obtain ⟨ls, c, hr, hstarted⟩ := Engine.Run.exists_of_drive postgres
    (c := .init (fun k => (twoRoundCalls k).body)
      ⟨Sql.upsertAll (·.account) (Seed.rows ⟨1, 1000, "USD"⟩) [], [], [], [], []⟩)
    [k₀, k₀, k₀, k₀, k₁, k₁, k₁] (p := fun r => (r.2.sess k₁).snapshot?.isSome ∧
      ∀ l ∈ r.1, ¬ l.IsAbort) (by decide +kernel)
  obtain ⟨hstarted, hnot⟩ := of_decide_eq_true hstarted
  have hcalls : ∀ k, (twoRoundCalls k).request = twoRounds.round roundIds k := by
    decide +kernel
  have hkeys : (([] : List AccountRow).map (·.account)).Nodup := List.nodup_nil
  have hbalance : ∀ row ∈ ([] : List AccountRow), 0 ≤ row.balance := nofun
  obtain ⟨_, ls', c', hr', hdone⟩ := seeded_rounds_answered rfl (by decide) (by decide) (by decide)
    (by decide) (by decide) (by decide) (by decide) roundIds_distinct hkeys hbalance hseed
    (fun _ => Or.inr rfl) hcalls hr
  refine ⟨_, ls, c, ls', c', hseed, hr, hstarted, hr', fun k => (hdone k).resolve_right ?_⟩
  rintro ⟨e, he⟩
  exact hnot _ he trivial

end BetProcessor
