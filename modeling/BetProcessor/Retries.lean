import BetProcessor.Wallet.Delivery
import BetProcessor.Linearizable
import BetProcessor.Routes

namespace BetProcessor
set_option autoImplicit true
open Txn Wallet

/-- What `postRound` returns, less the times. -/
structure RoundResult where
  status : Option Nat
  attempts : Nat
  deriving DecidableEq, Repr

/-- The loop of `postRound` from some attempt on; `postRaw` gives no status when it rejects. -/
def postRoundFrom (postRaw : Nat → Option Nat) (attempt : Nat) : Nat → RoundResult
  | 0 => ⟨none, attempt⟩
  | left + 1 =>
    match postRaw attempt with
    | some status => ⟨some status, attempt + 1⟩
    | none => postRoundFrom postRaw (attempt + 1) left

def postRound (retries : Nat) (postRaw : Nat → Option Nat) : RoundResult :=
  postRoundFrom postRaw 0 (retries + 1)

theorem postRoundFrom_status {postRaw : Nat → Option Nat} {attempt left code : Nat}
    (h : (postRoundFrom postRaw attempt left).status = some code) :
    ∃ n, attempt ≤ n ∧ postRaw n = some code ∧
      (postRoundFrom postRaw attempt left).attempts = n + 1 := by
  induction left generalizing attempt with
  | zero => cases h
  | succ left ih =>
    rw [postRoundFrom] at h ⊢
    cases hraw : postRaw attempt with
    | some status =>
      rw [hraw] at h
      exact ⟨attempt, le_refl _, hraw.trans h, rfl⟩
    | none =>
      rw [hraw] at h
      obtain ⟨n, hn, hpost, hattempts⟩ := ih h
      exact ⟨n, Nat.le_of_succ_le hn, hpost, hattempts⟩

/-- The status line of an answer. -/
def statusOf (status : Err → Nat) : Except Err ProcessResponse → Nat
  | .ok _ => 200
  | .error e => status e

/-- A request as one batch of operations on its wallet. -/
def ProcessRequest.batch (request : ProcessRequest) : Batch Account Uuid Int :=
  ⟨request.account, (request.actions.getD []).map ProcessAction.op⟩

theorem statusOf_eq_ok {status : Err → Nat}
    (h : status = errorHandler ∨ status = Rust.intoResponse ∘ Rust.appError)
    {r : Except Err ProcessResponse} : statusOf status r = 200 ↔ ∃ resp, r = .ok resp := by
  cases r with
  | ok resp => exact ⟨fun _ => ⟨resp, rfl⟩, fun _ => rfl⟩
  | error e =>
    refine ⟨fun hcode => ?_, nofun⟩
    rw [statusOf] at hcode
    rcases h with rfl | rfl
    · cases e <;> cases hcode
    · cases e <;> cases hcode

theorem Call.answer_cases (c : Call) (w : AccountWallet) :
    (∃ rs w' resp, w.serve c.account c.draws.txId (c.actions.map ProcessAction.op) =
      some (rs, w') ∧ c.answer w = (.ok resp, w')) ∨
    c.answer w = (.error .insufficientFunds, w) := by
  rw [answer]
  cases hserve : w.serve c.account c.draws.txId (c.actions.map ProcessAction.op) with
  | none => exact Or.inr rfl
  | some r => exact Or.inl ⟨r.1, r.2, _, rfl, rfl⟩

section
variable {ι κ : Type} [DecidableEq κ] {rounds : κ → ProcessRequest} {calls : ι → Call}
variable {round : ι → κ}

/-- Some attempt of the round is answered with success when the calls are served in this order. -/
def Succeeds (calls : ι → Call) (round : ι → κ) (w : AccountWallet) (order : List ι) (k : κ) :
    Prop :=
  ∃ pre i resp, pre ++ [i] <+: order ∧ round i = k ∧
    ((calls i).answer (walletAfter w (pre.map calls))).1 = .ok resp

omit [DecidableEq κ] in
theorem succeeds_concat {w : AccountWallet} {order : List ι} {i : ι} {k : κ} :
    Succeeds calls round w (order ++ [i]) k ↔ Succeeds calls round w order k ∨
      (round i = k ∧
        ∃ resp, ((calls i).answer (walletAfter w (order.map calls))).1 = .ok resp) := by
  constructor
  · rintro ⟨pre, j, resp, hpre, hj, hok⟩
    rcases List.prefix_concat_iff.1 hpre with heq | hpre
    · obtain ⟨rfl, hlast⟩ := List.append_inj' heq rfl
      obtain rfl := List.singleton_inj.1 hlast
      exact Or.inr ⟨hj, resp, hok⟩
    · exact Or.inl ⟨pre, j, resp, hpre, hj, hok⟩
  · rintro (⟨pre, j, resp, hpre, hj, hok⟩ | ⟨hi, resp, hok⟩)
    · exact ⟨pre, j, resp, List.prefix_concat_iff.2 (Or.inr hpre), hj, hok⟩
    · exact ⟨order, i, resp, List.prefix_rfl, hi, hok⟩

/-- In whatever order the attempts are served, the rounds that succeed are settled once. -/
theorem delivered_after {w₀ : AccountWallet} (hfresh : w₀.Fresh fun k => (rounds k).batch)
    (hrequest : ∀ i, (calls i).request = rounds (round i)) (order : List ι) :
    ∃ S : Finset κ, (∀ k, k ∈ S ↔ Succeeds calls round w₀ order k) ∧
      State.Delivered w₀ (fun k => (rounds k).batch) S (walletAfter w₀ (order.map calls)) := by
  induction order using List.reverseRecOn with
  | nil =>
    refine ⟨∅, ?_, hfresh.delivered⟩
    intro k
    constructor
    · nofun
    · rintro ⟨pre, i, _, hpre, _⟩
      simp at hpre
  | append_singleton order i ih =>
    obtain ⟨S, hS, hw⟩ := ih
    rw [List.map_append, walletAfter_append]
    rcases Call.answer_cases (calls i) (walletAfter w₀ (order.map calls)) with
      ⟨rs, w', resp, hserve, hanswer⟩ | hanswer
    · refine ⟨insert (round i) S, ?_, ?_⟩
      · intro k
        rw [succeeds_concat, Finset.mem_insert, hS, hanswer, or_comm]
        simp [eq_comm]
      · have hbatch : (rounds (round i)).batch = ⟨(calls i).account,
            (calls i).actions.map ProcessAction.op⟩ := by
          rw [← hrequest]
          rfl
        rw [List.map_singleton, walletAfter_cons, hanswer]
        apply State.Delivered.serve (r := (rs, w')) hw hfresh
        rw [hbatch]
        exact hserve
    · refine ⟨S, ?_, ?_⟩
      · intro k
        rw [succeeds_concat, hS, hanswer]
        simp
      · rw [List.map_singleton, walletAfter_cons, hanswer]
        exact hw

theorem ProcessRequest.batch_ids {request : ProcessRequest}
    (h : ∀ op ∈ request.batch.ops, ∃ x m, op = .move x m) :
    request.ids = request.batch.ops.map Op.id := by
  rw [ids, batch, List.map_map]
  rw [batch] at h
  generalize request.actions.getD [] = actions at h
  induction actions with
  | nil => rfl
  | cons action rest ih =>
    rw [List.flatMap_cons, List.map_cons,
      ih fun op hop => h op (List.mem_cons_of_mem _ hop)]
    cases action with
    | bet => rfl
    | win => rfl
    | rollback =>
      obtain ⟨_, _, heq⟩ := h _ (List.mem_cons_self ..)
      cases heq

end

section
variable {ι κ : Type} [Fintype ι] [DecidableEq ι] [DecidableEq κ]
variable {rounds : κ → ProcessRequest} {calls : ι → Call} {round : ι → κ} {db₀ : Db}

omit [Fintype ι] [DecidableEq ι] [DecidableEq κ] in
theorem fresh_ids (hrequest : ∀ i, (calls i).request = rounds (round i))
    (hfresh : db₀.wallet.Fresh fun k => (rounds k).batch) (i j : ι)
    (hij : (calls i).account ≠ (calls j).account) :
    ∀ x ∈ (calls i).request.ids, x ∉ (calls j).request.ids := by
  have hne : round i ≠ round j := by
    intro heq
    apply hij
    rw [Call.account, Call.account, hrequest, hrequest, heq]
  intro x hx
  rw [hrequest, ProcessRequest.batch_ids (hfresh.new _).moves] at hx ⊢
  obtain ⟨op, hop, rfl⟩ := List.mem_map.1 hx
  exact hfresh.apart _ _ hne op hop

omit [DecidableEq κ] in
theorem succeeds_ended (hids : ∀ i j, (calls i).account ≠ (calls j).account →
    ∀ x ∈ (calls i).request.ids, x ∉ (calls j).request.ids) (h₀ : db₀.Solvent)
    (hexact : ∀ order : List ι, order.Nodup → ExactRun db₀.wallet (order.map calls))
    {ls : List (Label ι Stmt Err)} {c : Requests ι}
    (hr : postgres.Run (fun _ _ => True) (.init (fun i => (calls i).body) db₀) ls c) {k : κ} :
    Succeeds calls round db₀.wallet (ended ls) k ↔
      ∃ i resp, round i = k ∧ c.sess i = .done (.ok resp) := by
  have hrep := Discipline.replayed (P := accountDiscipline calls hids) hr
  obtain ⟨_, hresult⟩ := ended_wallet hids h₀ hexact hr
  constructor
  · rintro ⟨pre, i, resp, ⟨post, heq⟩, hi, hok⟩
    rw [List.append_assoc] at heq
    exact ⟨i, resp, hi, (hresult pre i post heq.symm).trans (congrArg Session.done hok)⟩
  · rintro ⟨i, resp, hi, hdone⟩
    rcases hrep.done i _ hdone with hmem | ⟨e, habort⟩
    · obtain ⟨pre, post, heq⟩ := List.append_of_mem hmem
      rw [hresult pre i post heq] at hdone
      refine ⟨pre, i, resp, ⟨post, ?_⟩, hi, Session.done.inj hdone⟩
      rw [heq, List.append_assoc]
      rfl
    · obtain ⟨e', he'⟩ := hr.aborted postgres habort
      rw [hdone] at he'
      cases he'

/-- A client that sends its rounds again until they are answered: whatever the network loses and
however the attempts interleave, in every state the rounds of which some attempt has succeeded have
moved their money once and the others not at all, a round reported with 200 is one of the former,
and so the report is exact for a round of which one attempt has reached a service. -/
theorem rounds_settled_once (hrequest : ∀ i, (calls i).request = rounds (round i))
    (h₀ : db₀.Solvent) (hfresh : db₀.wallet.Fresh fun k => (rounds k).batch)
    (hexact : ∀ order : List ι, order.Nodup → ExactRun db₀.wallet (order.map calls))
    {ls : List (Label ι Stmt Err)} {c : Requests ι}
    (hr : postgres.Run (fun _ _ => True) (.init (fun i => (calls i).body) db₀) ls c)
    {status : ι → Err → Nat}
    (hstatus : ∀ i, status i = errorHandler ∨ status i = Rust.intoResponse ∘ Rust.appError)
    {answers : κ → Nat → Option Nat}
    (hanswers : ∀ k n code, answers k n = some code →
      ∃ i r, round i = k ∧ c.sess i = .done r ∧ code = statusOf (status i) r) :
    ∃ settled : Finset κ,
      (∀ k, k ∈ settled ↔ ∃ i resp, round i = k ∧ c.sess i = .done (.ok resp)) ∧
      (∀ a, c.db.balance a = db₀.balance a +
        ∑ k ∈ settled with (rounds k).account = a, (rounds k).batch.net) ∧
      (∀ k, ∀ x ∈ (rounds k).ids, (c.db.original? x).isSome ↔ k ∈ settled) ∧
      ∀ k retries code, (postRound retries (answers k)).status = some code →
        (code = 200 → k ∈ settled) ∧
        ((∀ i j, round i = k → round j = k → i = j) → (code = 200 ↔ k ∈ settled)) := by
  have hids := fresh_ids hrequest hfresh
  obtain ⟨S, hS, hw⟩ := delivered_after hfresh hrequest (ended ls)
  rw [← (ended_wallet hids h₀ hexact hr).1] at hw
  have hsettled : ∀ k, k ∈ S ↔ ∃ i resp, round i = k ∧ c.sess i = .done (.ok resp) :=
    fun k => (hS k).trans (succeeds_ended hids h₀ hexact hr)
  refine ⟨S, hsettled, hw.balance, ?_, ?_⟩
  · intro k x hx
    have hrow : (c.db.original? x).isSome ↔ (c.db.wallet.settled x).isSome := by
      rw [show c.db.wallet.settled x =
        (c.db.original? x).map fun row => (row.txId, row.balanceDelta) from rfl, Option.isSome_map]
    rw [ProcessRequest.batch_ids (hfresh.new k).moves] at hx
    obtain ⟨op, hop, rfl⟩ := List.mem_map.1 hx
    rw [hrow]
    constructor
    · intro hsome
      by_contra hk
      rw [hw.unsettled k hk op hop] at hsome
      cases hsome
    · intro hk
      exact hw.settled k hk op hop
  · intro k retries code hpost
    obtain ⟨n, _, hraw, _⟩ := postRoundFrom_status hpost
    obtain ⟨i, r, hi, hdone, rfl⟩ := hanswers k n code hraw
    rw [statusOf_eq_ok (hstatus i)]
    have hok : (∃ resp, r = .ok resp) → k ∈ S := by
      rintro ⟨resp, rfl⟩
      exact (hsettled k).2 ⟨i, resp, hi, hdone⟩
    refine ⟨hok, fun hone => ⟨hok, ?_⟩⟩
    intro hk
    obtain ⟨j, resp, hj, hdone'⟩ := (hsettled k).1 hk
    rw [hone j i hj hi, hdone] at hdone'
    exact ⟨resp, Session.done.inj hdone'⟩

end

/-- A bet of 60 and a bet of 70 of a user with 100. -/
def benchmarkRounds (k : Fin 2) : ProcessRequest :=
  ⟨"u", "USD", "benchmark:slots", none, some [.bet k.val (60 + 10 * k.val)]⟩

/-- Two attempts of the first round, of which the first loses its answer, and one of the second. -/
def attemptOf (i : Fin 3) : Fin 2 := ⟨i.val / 2, by omega⟩

def attempts (i : Fin 3) : Call := ⟨typescript, plainDraws, benchmarkRounds (attemptOf i)⟩

def arrived : Fin 2 → Nat → Option Nat
  | 0, 1 => some 200
  | 1, 0 => some 422
  | _, _ => none

theorem attempts_exact (order : List (Fin 3)) (hnodup : order.Nodup) :
    ExactRun (Db.wallet ⟨[⟨⟨"u", "USD"⟩, 100⟩], [], [], [], []⟩) (order.map attempts) := by
  have hone : ∀ i w, w.Within (2 ^ 53) ⟨"u", "USD"⟩ plainDraws.txId
      ((attempts i).actions.map ProcessAction.op) → (attempts i).Exactly w := by
    intro i w hwithin
    refine ⟨Or.inl (Or.inl rfl), ?_, 2 ^ 53, Service.exactTo_small _, hwithin⟩
    intro action haction
    rw [show (attempts i).actions = [.bet (attemptOf i).val (60 + 10 * (attemptOf i).val)] from rfl,
      List.mem_singleton] at haction
    rw [haction, ProcessAction.Accepted]
    omega
  rcases order with _ | ⟨i, _ | ⟨j, _ | ⟨k, _ | ⟨l, rest⟩⟩⟩⟩
  · trivial
  · exact ⟨hone i _ (by clear hnodup; revert i; decide +kernel), trivial⟩
  · refine ⟨hone i _ ?_, hone j _ ?_, trivial⟩ <;> clear hnodup
    · revert i; decide +kernel
    · revert i j; decide +kernel
  · refine ⟨hone i _ ?_, hone j _ ?_, hone k _ ?_, trivial⟩ <;> clear hnodup
    · revert i; decide +kernel
    · revert i j; decide +kernel
    · revert i j k; decide +kernel
  · exact absurd hnodup.length_le_card (by simp)

theorem lost_answer_settled_once : ∃ ls c, ∃ settled : Finset (Fin 2),
    postgres.Run (fun _ _ => True) (.init (fun i => (attempts i).body)
      ⟨[⟨⟨"u", "USD"⟩, 100⟩], [], [], [], []⟩) ls c ∧
    postRound 2 (arrived 0) = ⟨some 200, 2⟩ ∧ 0 ∈ settled ∧
    postRound 2 (arrived 1) = ⟨some 422, 1⟩ ∧ 1 ∉ settled ∧
    c.db.balance ⟨"u", "USD"⟩ = 100 + ∑ k ∈ settled with
      (benchmarkRounds k).account = ⟨"u", "USD"⟩, (benchmarkRounds k).batch.net := by
  obtain ⟨ls, c, hr, hends⟩ := Engine.Run.exists_of_drive postgres
    (c := .init (fun i => (attempts i).body) ⟨[⟨⟨"u", "USD"⟩, 100⟩], [], [], [], []⟩)
    ([0, 0, 1, 1, 0, 0, 1] ++ List.replicate 13 0 ++ List.replicate 6 1 ++ List.replicate 9 2)
    (p := fun r => decide ((r.2.sess 1).result?.map (statusOf errorHandler) = some 200 ∧
      (r.2.sess 2).result?.map (statusOf errorHandler) = some 422)) (by decide +kernel)
  obtain ⟨hfirst, hsecond⟩ := of_decide_eq_true hends
  obtain ⟨r, hr₁, hcode₁⟩ := Option.map_eq_some_iff.1 hfirst
  obtain ⟨r', hr₂, hcode₂⟩ := Option.map_eq_some_iff.1 hsecond
  have h₀ : Db.Solvent ⟨[⟨⟨"u", "USD"⟩, 100⟩], [], [], [], []⟩ :=
    Db.Initial.solvent ⟨by decide, by decide, rfl, rfl, rfl, rfl⟩
  have hfresh : (Db.wallet ⟨[⟨⟨"u", "USD"⟩, 100⟩], [], [], [], []⟩).Fresh
      fun k => (benchmarkRounds k).batch := by
    refine ⟨fun k => ⟨fun op hop => ?_, List.nodup_singleton _, fun _ _ => rfl, fun _ _ => rfl⟩,
      by decide +kernel⟩
    exact ⟨_, _, List.mem_singleton.1 hop⟩
  obtain ⟨settled, _, hbalance, _, hreport⟩ := @rounds_settled_once _ _ _ _ _ benchmarkRounds
    attempts attemptOf _ (fun _ => rfl) h₀ hfresh attempts_exact _ _ hr (fun _ => errorHandler)
    (fun _ => Or.inl rfl) arrived (by
      intro k n code h
      match k, n, h with
      | 0, 1, h =>
        exact ⟨1, r, rfl, Session.eq_done hr₁, (Option.some.inj h).symm.trans hcode₁.symm⟩
      | 1, 0, h =>
        exact ⟨2, r', rfl, Session.eq_done hr₂, (Option.some.inj h).symm.trans hcode₂.symm⟩
      | 0, 0, h => cases h
      | 0, _ + 2, h => cases h
      | 1, _ + 1, h => cases h)
  refine ⟨ls, c, settled, hr, rfl, (hreport 0 2 200 rfl).1 rfl, rfl, ?_, hbalance _⟩
  intro hmem
  have hiff := (hreport 1 2 422 rfl).2 (by decide)
  exact absurd (hiff.2 hmem) (by decide)

end BetProcessor
