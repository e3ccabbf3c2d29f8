import BetProcessor.ConcurrentRuns
import BetProcessor.NetResult

namespace BetProcessor
set_option autoImplicit true
open Txn

/-- The same request to the same service computing with exact integers. -/
def Call.exact (c : Call) : Call := { c with svc := c.svc.exact }

/-- Every balance is its first value and what the ledger rows of the account have moved. -/
def Db.Derived (first : Account → Int) (db : Db) : Prop :=
  ∀ a, db.balance a = first a + db.moved a ∧ 0 ≤ db.balance a

section
variable {V V' : Db} {c : Call} {b b' : Int} {L : Lookups} {action : ProcessAction}
variable {txId : Uuid} {row : ActionRow} {intent : Option IntentRow} {outs : List OutboxRow}

theorem Adds.moved (ha : Adds V V' row intent outs) (a : Account) :
    V'.moved a = V.moved a + if row.account = a then row.balanceDelta else 0 := by
  rw [Db.moved, ha.ledger, sumOf_append, sumOf_single]
  simp only [decide_eq_true_eq]
  rfl

theorem Effect.balance (hexact : ∀ N, c.svc.ExactTo N)
    (he : Effect L V c b action row intent outs b') : b' = b + row.balanceDelta := by
  cases he with
  | @applied _ type x amount v ha _ hv =>
    obtain rfl : v = amount :=
      Option.some.inj (hv.symm.trans ((hexact |amount|).bind (le_refl _)))
    have hdelta : originalDelta c.svc type v = signed type v := by
      unfold originalDelta signed
      split
      · exact (hexact |v|).neg (le_refl _)
      · rfl
    rw [hdelta]
    exact (hexact _).add (le_refl _)
  | prerolled => exact (hexact _).add (le_refl _)
  | already => exact (add_zero b).symm
  | tombstone => exact (add_zero b).symm
  | notApplied => exact (add_zero b).symm
  | @reversed r o orig d outs _ _ _ _ _ _ hd =>
    rw [(hexact |orig.balanceDelta|).load (le_refl _),
      (hexact |orig.balanceDelta|).neg (le_refl _)] at hd ⊢
    obtain rfl : d = -orig.balanceDelta :=
      Option.some.inj (hd.symm.trans ((hexact |-orig.balanceDelta|).bind (le_refl _)))
    exact (hexact _).add (le_refl _)

/-- One action moves the same money in the balance and in the ledger, on the account of its
request only. -/
theorem Stepped.moved (hexact : ∀ N, c.svc.ExactTo N)
    (hs : Stepped L V V' c b action b' txId) (a : Account) :
    V'.moved a = V.moved a + if c.account = a then b' - b else 0 := by
  cases hs with
  | duplicate _ _ hV' =>
    rw [hV']
    simp
  | fresh _ he ha =>
    rw [ha.moved, he.account, he.balance hexact, add_sub_cancel_left]

theorem Committed.derived {first : Account → Int} {past : Moment → Prop} {db : Db}
    {ws : List Write} {resp : ProcessResponse} (hexact : ∀ N, c.svc.ExactTo N)
    (hc : Committed past c ws resp) (hp : Stable past db) (hcons : db.Consistent)
    (h : db.Derived first) :
    (postgres.view db ws).Consistent ∧ (postgres.view db ws).Derived first := by
  have hload : c.svc.load (db.balance c.account) = db.balance c.account :=
    (hexact |db.balance c.account|).load (le_refl _)
  have hfinal := hc.balances (P := fun _ V b => b = db.balance c.account +
      (V.moved c.account - db.moved c.account) ∧
      ∀ a, a ≠ c.account → V.moved a = db.moved a) hp Sees.stale hcons
    ⟨by rw [hload, sub_self, add_zero], fun _ _ => rfl⟩ (fun h => h) ?_
  · obtain ⟨hend, b, ⟨hb, hother⟩, hsame, hstored⟩ := hfinal
    refine ⟨hend, fun a => ?_⟩
    by_cases ha : a = c.account
    · subst ha
      have hmoved : (postgres.view db ws).balance c.account = b := by
        rcases hstored with ⟨heq, hbalance⟩ | ⟨hbind, _⟩
        · rw [hbalance, heq, hload]
        · rw [(hexact |b|).bind (le_refl _)] at hbind
          exact (Option.some.inj hbind).symm
      have hderived := h c.account
      constructor
      · rw [hmoved, hb]
        omega
      · rcases hstored with ⟨_, hbalance⟩ | ⟨_, hpos⟩
        · rw [hbalance]
          exact hderived.2
        · exact hpos
    · rw [hsame a ha, hother a ha]
      exact h a
  · intro pre action post V V' b b' txId _ _ _ _ hP hst
    obtain ⟨hb, hother⟩ := hP
    constructor
    · rw [hst.moved hexact, if_pos rfl, hb]
      ring
    · intro a ha
      rw [hst.moved hexact, if_neg (Ne.symm ha), add_zero]
      exact hother a ha

end

theorem Db.Initial.derived {db : Db} (h : db.Initial) : db.Derived db.balance := by
  intro a
  constructor
  · rw [Db.moved, h.ledger]
    exact (add_zero _).symm
  · exact h.balance_at_nonneg a

/-- The balances are derived from the ledger and never negative, in every committed state of any
concurrent requests, whatever the schedule and the aborts. -/
theorem balance_derived {ι : Type} [Fintype ι] [DecidableEq ι] (calls : ι → Call) {db₀ : Db}
    (h₀ : db₀.Initial) {ls : List (Label ι Stmt Err)} {c : Requests ι}
    (hr : postgres.Run (fun _ _ => True) (.init (fun i => (calls i).exact.body) db₀) ls c)
    (a : Account) : c.db.balance a = db₀.balance a + c.db.moved a ∧ 0 ≤ c.db.balance a := by
  apply (Agreement.keeping_inv (J := fun db => db.Consistent ∧ db.Derived db₀.balance) _
    ⟨h₀.consistent, h₀.derived⟩ hr).2
  intro i past db ws resp hJ hp hc
  exact hc.derived (fun N => (calls i).svc.exact_exactTo N) hp hJ.1 hJ.2

/-- Two bets of 60 on a balance of 100, one statement at a time. -/
theorem two_bets_derived : ∃ ls c,
    postgres.Run (fun _ _ => True) (.init (fun i => (twoBets i).exact.body)
      ⟨[⟨⟨"u", "USD"⟩, 100⟩], [], [], [], []⟩) ls c ∧
    c.db.balance ⟨"u", "USD"⟩ = 40 ∧ 40 = 100 + c.db.moved ⟨"u", "USD"⟩ := by
  obtain ⟨ls, c, hr, hb⟩ := Engine.Run.exists_of_drive postgres
    (c := .init (fun i => (twoBets i).exact.body) ⟨[⟨⟨"u", "USD"⟩, 100⟩], [], [], [], []⟩)
    ([0, 0, 1, 1, 0, 0, 1] ++ List.replicate 13 0 ++ List.replicate 6 1)
    (p := fun r => decide (r.2.db.balance ⟨"u", "USD"⟩ = 40)) (by decide +kernel)
  have hbalance : c.db.balance ⟨"u", "USD"⟩ = 40 := of_decide_eq_true hb
  have hderived := (balance_derived twoBets ⟨by decide, by decide, rfl, rfl, rfl, rfl⟩ hr
    ⟨"u", "USD"⟩).1
  rw [hbalance] at hderived
  exact ⟨ls, c, hr, hbalance, hderived⟩

end BetProcessor
